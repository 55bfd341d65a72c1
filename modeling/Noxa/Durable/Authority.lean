import Noxa.Durable.Frame

/-!
# What a send needs

A send, its retry and the reservation of a claim are allowed to the current account only, and only
while every peer they name is trusted. The store checks that in the transaction, against its own
records and not against the caller's snapshot. A send under an id that is already in the outbox is
answered with what is stored: then the checks are about the stored packets, and the caller's packets
do not matter.

`RetrySend` and `AttemptWire` only read.

## Main definitions

* `retrySend`, `attemptWire` — the operations of the source
* `Bound`, `Trusted` — a packet of the current account, a peer that is trusted

## Main results

* `commitSend_sent`, `commitSend_first`, `retrySend_ok` — what a successful send establishes
* `reserveClaim_authority`, `commitReceive_trusted`
-/

namespace Noxa.Durable

open Fallible Directory

/-- A peer of a stored packet is trusted as it was. -/
def checkStoredTrust (db : Db) (p : SendCandidate) : Except Error Unit := do
  let r ← found (db.get (trustRef p.trustID)) .corrupt
  let trust ← found r.data.trust? .corrupt
  ensure (trust.revoked = false) .revoked
  ensure (r.revision = p.trustRevision) .conflict

def retrySend (ns : Namespace) (db : Db) (fence : ℕ) (id : String) : Except Error SendResult := do
  let c ← Durable.fence ns db ⟨ns, fence, ∅⟩
  let v ← found (db.get (outboxRef id)) .invalid
  let saved ← found v.data.outbox? .corrupt
  checkSendAuthority c saved.packets saved.attempt
  ensure (¬ (saved.attempt ≠ none ∧ saved.status ≠ .pending)) .conflict
  saved.packets.forM (checkStoredTrust db)
  pure ⟨saved, true⟩

/-- The committed parts of an attempt, never the archive. -/
def attemptWire (ns : Namespace) (db : Db) (fence : ℕ) (id : String) :
    Except Error AttemptDescriptor := do
  let r ← retrySend ns db fence id
  let d ← found r.data.attempt .invalid
  ensure (r.data.status = .pending) .invalid
  pure d

/-- The packet is sent by the account that the store has now. -/
def Bound (c : Control) (p : SendCandidate) : Prop :=
  p.context.localAccountID = c.accountID ∧ p.context.localEpoch = c.accountEpoch

/-- The peer has a trust record, which is not revoked. -/
def Trusted (db : Db) (id : String) : Prop :=
  ∃ rec t, db.get (trustRef id) = some rec ∧ rec.data.trust? = some t ∧ t.revoked = false

section

variable {ns : Namespace} {db db' : Db} {snap : Snapshot} {now : Int} {id : String}

theorem checkTrust_ok {u : Unit} (h : checkTrust db snap id = .ok u) : Trusted db id := by
  simp only [checkTrust, bind_eq_ok, found_eq_ok, ensure_eq_ok] at h
  obtain ⟨-, -, rec, hr, t, ht, hrvk⟩ := h
  exact ⟨rec, t, hr, ht, hrvk⟩

variable {packets : List SendCandidate} {archive : Bytes} {result : SendResult} {fence : ℕ}
  {attempt : Option AttemptDescriptor}

theorem checkSendAuthority_ok {c : Control} {u : Unit}
    (h : checkSendAuthority c packets attempt = .ok u) :
    c.sendingBlocked = false ∧ (∀ d ∈ attempt, d.manifest.accountEpoch = c.accountEpoch) ∧
      ∀ p ∈ packets, Bound c p := by
  simp only [checkSendAuthority, bind_eq_ok, ensure_eq_ok] at h
  obtain ⟨-, hop, -, ha, hpk⟩ := h
  exact ⟨hop.1, ha, hpk⟩

/-- What the store has of a send: nothing of it is of another account or names a peer without
trust. -/
structure Sendable (db : Db) (b : SentBatch) : Prop where
  unblocked : db.control.sendingBlocked = false
  attempt : ∀ d ∈ b.attempt, d.manifest.accountEpoch = db.control.accountEpoch
  bound : ∀ p ∈ b.packets, Bound db.control p
  trusted : ∀ p ∈ b.packets, Trusted db p.trustID

/-- The packets of a send are stored with their contexts and their peers. -/
theorem sendLoop_packets {isAttempt : Bool} {start acc : Changes × List SendCandidate}
    (h : packets.foldlM (sendOne db now snap isAttempt) start = .ok acc) :
    ∀ q ∈ acc.2, q ∈ start.2 ∨ ∃ p ∈ packets, q.context = p.context ∧ q.trustID = p.trustID := by
  refine foldlM_ok_invariant (P := fun acc : Changes × List SendCandidate =>
    ∀ q ∈ acc.2, q ∈ start.2 ∨ ∃ p ∈ packets, q.context = p.context ∧ q.trustID = p.trustID) h ?_
    fun q hq => .inl hq
  intro p hp acc acc' hacc hrnd
  simp only [sendOne, bind_eq_ok, pure_eq_ok] at hrnd
  obtain ⟨_, -, _, -, _, -, _, -, _, -, _, -, _, -, _, -, rfl⟩ := hrnd
  exact List.forall_mem_append.mpr ⟨hacc, List.forall_mem_singleton.mpr (.inr ⟨p, hp, rfl, rfl⟩)⟩

variable [Codec]

/-- A successful send, new or repeated: what the store has of it is sendable. -/
theorem commitSend_sent
    (h : commitSend ns db now snap id packets archive attempt = .ok (db', result)) :
    Sendable db result.data := by
  rcases commitSend_ok h with
    ⟨rfl, -, -, hau, htru⟩ | ⟨start, acc, -, hau, -, hacc, rfl, -⟩
  · obtain ⟨hop, ha, hbd⟩ := checkSendAuthority_ok hau
    refine ⟨hop, ha, hbd, fun p hp => ?_⟩
    have hc := forM_ok htru hp
    simp only [checkRetryTrust, bind_eq_ok] at hc
    obtain ⟨_, htrd, -⟩ := hc
    exact checkTrust_ok htrd
  · obtain ⟨hop, ha, hbd⟩ := checkSendAuthority_ok hau
    have hs := sendLoop_packets hacc
    refine ⟨hop, ha, fun q hq => ?_, fun q hq => ?_⟩
    · obtain ⟨p, hp, hctx, -⟩ := (hs q hq).resolve_left List.not_mem_nil
      rw [Bound, hctx]
      exact hbd p hp
    · obtain ⟨p, hp, -, htru⟩ := (hs q hq).resolve_left List.not_mem_nil
      rw [htru]
      exact checkTrust_ok (sendLoop_checks hacc hp).1

/-- A new send: the caller's packets are of the current account, and their peers are trusted. -/
theorem commitSend_first
    (h : commitSend ns db now snap id packets archive attempt = .ok (db', result))
    (hn : result.reused = false) : ∀ p ∈ packets, Bound db.control p ∧ Trusted db p.trustID := by
  rcases commitSend_ok h with ⟨-, hrus, -⟩ | ⟨start, acc, -, hau, -, hlp, -⟩
  · exact absurd (hn.symm.trans hrus) (by decide)
  · intro p hp
    exact ⟨(checkSendAuthority_ok hau).2.2 p hp, checkTrust_ok (sendLoop_checks hlp hp).1⟩

omit [Codec] in
/-- A retry is answered with the stored batch. -/
theorem retrySend_ok (h : retrySend ns db fence id = .ok result) : Sendable db result.data ∧
    ∃ rec, db.get (outboxRef id) = some rec ∧ rec.data.outbox? = some result.data := by
  simp only [retrySend, bind_eq_ok, found_eq_ok, ensure_eq_ok, pure_eq_ok] at h
  obtain ⟨c, hfen, v, hv, saved, hsav, _, hau, -, -, _, htru, rfl⟩ := h
  obtain ⟨rfl, -⟩ := fence_ok hfen
  obtain ⟨hop, ha, hbd⟩ := checkSendAuthority_ok hau
  refine ⟨⟨hop, ha, hbd, fun p hp => ?_⟩, v, hv, hsav⟩
  have hc := forM_ok htru hp
  simp only [checkStoredTrust, bind_eq_ok, found_eq_ok, ensure_eq_ok] at hc
  obtain ⟨rec, hr, t, ht, -, hrvk, -⟩ := hc
  exact ⟨rec, t, hr, ht, hrvk⟩

omit [Codec] in
/-- The parts of an attempt are those of a batch that may be sent. -/
theorem attemptWire_ok {d : AttemptDescriptor} (h : attemptWire ns db fence id = .ok d) :
    ∃ result, retrySend ns db fence id = .ok result ∧ result.data.attempt = some d := by
  simp only [attemptWire, bind_eq_ok, found_eq_ok, ensure_eq_ok, pure_eq_ok] at h
  obtain ⟨result, hrty, d', hd, -, -, rfl⟩ := h
  exact ⟨result, hrty, hd⟩

/-- A reserved claim is of the current account, whether it is new or stored. -/
theorem reserveClaim_authority {trustID : String} {request out : Bytes}
    (h : reserveClaim ns db snap id trustID request = .ok (db', out)) :
    db.control.sendingBlocked = false ∧ Trusted db trustID ∧
      ∃ rec claim, db'.get (claimRef id) = some rec ∧ rec.data.claim? = some claim ∧
        claim.accountID = db.control.accountID ∧ claim.accountEpoch = db.control.accountEpoch ∧
        claim.trustID = trustID := by
  obtain ⟨hop, htru, ⟨rfl, hs⟩ | hcom⟩ := reserveClaim_ok h
  · exact ⟨hop, checkTrust_ok htru, hs⟩
  · exact ⟨hop, checkTrust_ok htru, _, _, hcom.get_of_lookup_some (AList.lookup_insert _),
      rfl, rfl,
      rfl, rfl⟩

/-- A message that was not received before. -/
theorem commitReceive_trusted {p : ReceiveCandidate}
    (h : commitReceive ns db now snap id p = .ok (db', archive))
    (hn : db.get (inboxRef id) = none) : Trusted db p.trustID := by
  rcases commitReceive_ok h with ⟨-, hold⟩ | ⟨_, _, _, -, htru, -⟩
  · exact absurd hn hold
  · exact checkTrust_ok htru

end

end Noxa.Durable

import Noxa.Durable.Transitions

/-!
# A revoked peer stays revoked

`SetTrust` refuses to take a revocation back, and nothing else writes a trust record. So from a
revocation on, the peer is not trusted in any state of the store: the record stays revoked until a
logout, and after a logout there are no records and no commits.

Every operation that names a peer reads the trust record in its own transaction. What it reads it
for depends on the operation. A send under an id that is already in the outbox is answered with the
stored batch, so it is the stored packets that must not name a revoked peer; the packets that such a
caller hands over are not looked at.

## Main results

* `Revoked.step` — one call
* `revocation_permanent` — what holds after a revocation, in every later state
* `repeated_send_names_revoked` — a repeated send with packets that name the revoked peer
-/

namespace Noxa.Durable

open Fallible Directory Machine

/-- The peer's trust record is a revocation. -/
def Revoked (db : Db) (id : String) : Prop :=
  ∃ rec t, db.get (trustRef id) = some rec ∧ rec.data.trust? = some t ∧ t.revoked = true

/-- A store that was logged out. -/
def LoggedOut (db : Db) : Prop := db.control.active = false ∧ ∀ r, db.get r = none

theorem Revoked.not_trusted {db : Db} {id : String} (h : Revoked db id) : ¬ Trusted db id := by
  obtain ⟨rec, t, hr, ht, hrvk⟩ := h
  rintro ⟨rec', t', hrec', ht', hunr⟩
  obtain rfl := Option.some.inj (hr.symm.trans hrec')
  obtain rfl := Option.some.inj (ht.symm.trans ht')
  exact absurd (hrvk.symm.trans hunr) (by decide)

theorem LoggedOut.not_trusted {db : Db} {id : String} (h : LoggedOut db) : ¬ Trusted db id := by
  rintro ⟨rec, t, hr, -⟩
  exact nomatch (h.2 _).symm.trans hr

theorem loggedOut_of_logout {db db' : Db} {fence : ℕ} (h : logout db fence = .ok db') :
    LoggedOut db' := by
  obtain ⟨f, rfl⟩ := logout_ok h
  exact ⟨rfl, fun r => rfl⟩

section

variable [Codec] {ns : Namespace} {db db' : Db} {snap : Snapshot} {id : String} {value : Bytes}
  {revoked : Bool}

theorem setTrust_get (h : setTrust ns db snap id value revoked = .ok db') :
    db'.get (trustRef id) = some ⟨db.revision (trustRef id) + 1, .trust ⟨revoked, value⟩,
      Nat.succ_pos _⟩ :=
  (setTrust_ok h).get_of_lookup_some (AList.lookup_insert _)

/-- A trust record is not taken back. -/
theorem setTrust_revoked (h : setTrust ns db snap id value revoked = .ok db')
    (hold : Revoked db id) : revoked = true := by
  simp only [setTrust, bind_eq_ok] at h
  obtain ⟨_, -, c, -, _, -, _, hc, -⟩ := h
  obtain ⟨rec, t, hr, ht, hrvk⟩ := hold
  simp only [hr, checkUnrevoked, bind_eq_ok, found_eq_ok, ensure_eq_ok] at hc
  obtain ⟨t', ht', hc⟩ := hc
  obtain rfl := Option.some.inj (ht.symm.trans ht')
  cases revoked with
  | false => exact absurd ⟨hrvk, rfl⟩ hc
  | true => rfl

/-- One call after a revocation. -/
theorem Revoked.step (h : Revoked db id) (ns : Namespace) (call : Call) :
    Revoked (step ns db call).1 id ∨ LoggedOut (step ns db call).1 := by
  rcases step_exec ns db call with ⟨hsm, -⟩ | ⟨reply, -, hxc⟩
  · rw [hsm]
    exact .inl h
  generalize (Durable.step ns db call).1 = db' at hxc
  -- a record of another peer, or of no peer, is written
  have hkt : db'.get (trustRef id) = db.get (trustRef id) → Revoked db' id := by
    intro hget
    rwa [Revoked, hget]
  by_cases hkd : Kind.trust ∈ call.op.kinds
  · cases hop : call.op with
    | setTrust snap id' value =>
      rw [hop] at hxc
      have hs := done_ok hxc
      by_cases hid : id = id'
      · subst hid
        obtain rfl := setTrust_revoked hs h
        exact .inl ⟨_, ⟨true, value⟩, setTrust_get hs, rfl, rfl⟩
      · refine .inl (hkt ((setTrust_ok hs).get_of_lookup_none ?_))
        rw [AList.lookup_insert_ne fun heq => hid (congrArg Ref.id heq)]
        exact AList.lookup_empty _
    | _ =>
      rw [hop] at hkd
      simp [Op.kinds] at hkd
  · rcases exec_frame hxc with rfl | hf | ⟨fence, -, hl⟩
    · exact .inl h
    · exact .inl (hkt (hf.get_of_kind hkd))
    · exact .inr (loggedOut_of_logout hl)

/-- A store that is logged out stays so. -/
theorem LoggedOut.step (h : LoggedOut db) (ns : Namespace) (call : Call) :
    LoggedOut (step ns db call).1 := by
  rcases step_frame ns db call with hsm | hf | ⟨fence, -, hl⟩
  · rwa [hsm]
  · exact absurd (hf.live.symm.trans h.1) (by decide)
  · exact loggedOut_of_logout hl

theorem Revoked.run (h : Revoked db id) (ns : Namespace) (later : List Call) :
    Revoked (run (Durable.step ns) db later) id ∨ LoggedOut (run (Durable.step ns) db later) :=
  run_invariant (P := fun db => Revoked db id ∨ LoggedOut db)
    (fun _ call hdb => hdb.elim (fun hrvk => hrvk.step ns call)
      fun ho => .inr (ho.step ns call)) (.inl h) later

/-- **Revocation is permanent.** After a successful revocation, from any state of the store and with
any later calls, the record stays a revocation until a logout, which leaves no record; and

* no `SetTrust` that would take it back succeeds;
* no send succeeds with stored packets that name the peer, new or repeated, and no new send with
  packets that name it;
* no retry and no read of an attempt's parts succeeds for a batch that names the peer;
* no claim is reserved for the peer, and no message of the peer is received for the first time. -/
theorem revocation_permanent (ns : Namespace) (db : Db) (call : Call) (snap : Snapshot)
    (id : String) (value : Bytes) (reply : Reply) (hop : call.op = .setTrust snap id value true)
    (hrpl : (step ns db call).2 = .ok reply) (later : List Call) :
    let db' := run (step ns) (step ns db call).1 later
    (Revoked db' id ∨ LoggedOut db') ∧
    (∀ next snap' value' reply', next.op = .setTrust snap' id value' false →
      (step ns db' next).2 ≠ .ok reply') ∧
    (∀ next result, (step ns db' next).2 = .ok (.sent result) →
      (∀ p ∈ result.data.packets, p.trustID ≠ id) ∧
      (result.reused = false → ∀ p ∈ next.op.packets, p.trustID ≠ id)) ∧
    (∀ fence sendID result, retrySend ns db' fence sendID = .ok result →
      ∀ p ∈ result.data.packets, p.trustID ≠ id) ∧
    (∀ fence sendID d, attemptWire ns db' fence sendID = .ok d →
      ∃ rec b, db'.get (outboxRef sendID) = some rec ∧ rec.data.outbox? = some b ∧
        b.attempt = some d ∧ ∀ p ∈ b.packets, p.trustID ≠ id) ∧
    (∀ next snap' claimID request reply', next.op = .reserveClaim snap' claimID id request →
      (step ns db' next).2 ≠ .ok reply') ∧
    (∀ next snap' messageID p reply', next.op = .commitReceive snap' messageID p → p.trustID = id →
      db'.get (inboxRef messageID) = none → (step ns db' next).2 ≠ .ok reply') := by
  intro db'
  have hfst : Revoked (step ns db call).1 id := by
    have hxc := exec_of_op hop hrpl
    exact ⟨_, ⟨true, value⟩, setTrust_get (done_ok hxc), rfl, rfl⟩
  have hsty : Revoked db' id ∨ LoggedOut db' := hfst.run ns later
  have hun : ¬ Trusted db' id := hsty.elim Revoked.not_trusted LoggedOut.not_trusted
  have hn : ∀ {trustID : String}, Trusted db' trustID → trustID ≠ id := by
    rintro trustID htrd rfl
    exact hun htrd
  refine ⟨hsty, ?_, ?_, ?_, ?_, ?_, ?_⟩
  · intro next snap' value' reply' hnx hr'
    have hxc := exec_of_op hnx hr'
    rcases hsty with hrvk | ho
    · exact absurd (setTrust_revoked (done_ok hxc) hrvk) (by decide)
    · exact absurd ((setTrust_ok (done_ok hxc)).live.symm.trans ho.1) (by decide)
  · intro next result hres
    obtain ⟨snap', sendID, archive, attempt, hsd⟩ := sent_of_reply hres
    exact ⟨fun p hp => hn ((commitSend_sent hsd).trusted p hp),
      fun hnew p hp => hn (commitSend_first hsd hnew p hp).2⟩
  · intro fence sendID result hrty p hp
    exact hn ((retrySend_ok hrty).1.trusted p hp)
  · intro fence sendID d hwr
    obtain ⟨result, hrty, hd⟩ := attemptWire_ok hwr
    obtain ⟨hsbl, rec, hr, hdt⟩ := retrySend_ok hrty
    exact ⟨rec, result.data, hr, hdt, hd, fun p hp => hn (hsbl.trusted p hp)⟩
  · intro next snap' claimID request reply' hnx hr'
    have hxc := exec_of_op hnx hr'
    obtain ⟨out, hrsv, -⟩ := pair_ok hxc
    exact hun (reserveClaim_authority hrsv).2.1
  · intro next snap' messageID p reply' hnx hid hnew hr'
    have hxc := exec_of_op hnx hr'
    obtain ⟨archive, hrcv, -⟩ := pair_ok hxc
    exact hn (commitReceive_trusted hrcv hnew) hid

end

/-! ### A revocation between two sends of one message -/

/-- The decision about a second peer. -/
def decideCarol (snap : Snapshot) (revoked : Bool) :
    Call := ⟨.setTrust snap "carol" [1] revoked, 0, false⟩

def carolSnapshot (db : Db) : Snapshot :=
  snapshotOf [trustRef "bob", trustRef "carol", sessionRecord "olm:1"] db

/-- A message to a second peer, under the id of a message to the first one. -/
def carolSend (snap : Snapshot) : Call :=
  ⟨.commitSend snap "m1" [{ sendPacket peerContext with trustID := "carol" }] [1], 0, false⟩

/-- The store after a message to the first peer. -/
def sentToBob : Db :=
  let := Codec.plain
  let db := run (step homeDevice) Db.fresh [trustPeer]
  (step homeDevice db (sendCall (takeSnapshot db) peerContext)).1

theorem revocation_permanent_carol :
    let := Codec.plain
    let revoke := decideCarol (carolSnapshot sentToBob) true
    let db := (step homeDevice sentToBob revoke).1
    (step homeDevice sentToBob revoke).2.isOk = true ∧ (Revoked db "carol" ∨ LoggedOut db) := by
  intro _ revoke db
  have hok : (step homeDevice sentToBob revoke).2.isOk = true := by decide +kernel
  obtain ⟨reply, hrpl⟩ := exists_ok hok
  exact ⟨hok, (revocation_permanent homeDevice sentToBob revoke _ "carol" _ reply rfl hrpl []).1⟩

/-- After the revocation, a send with packets that name the revoked peer succeeds: its id is in the
outbox, with packets to another peer. -/
theorem repeated_send_names_revoked :
    let := Codec.plain
    let db := (step homeDevice sentToBob (decideCarol (carolSnapshot sentToBob) true)).1
    (step homeDevice sentToBob (decideCarol (carolSnapshot sentToBob) true)).2.isOk = true ∧
      (∃ p ∈ (carolSend (carolSnapshot db)).op.packets, p.trustID = "carol") ∧
      (step homeDevice db (carolSend (carolSnapshot db))).2.isOk = true := by
  refine ⟨by decide +kernel, ⟨_, List.mem_singleton_self _, rfl⟩, by decide +kernel⟩

end Noxa.Durable

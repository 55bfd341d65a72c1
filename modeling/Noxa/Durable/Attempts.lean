import Noxa.Durable.Operations

/-!
# Attempts to send a message

A message has a logical id. It is sent in attempts, which are numbered within an account epoch; the
outbox has one record for each attempt, and a logical record names the last one. The server answers
an attempt with a receipt. At most one attempt of a logical id may be open or accepted, or the
message could be delivered twice.

The records are written by different operations. `AttemptStep` says once what a call can do to
them: nothing, start an attempt, record a receipt, move to a new account epoch, or log out. The
invariant `AttemptInv` and everything that follows from it are derived from that.

## Main definitions

* `HasAttempt`, `HasLogical` — the records of an attempt
* `AttemptStep` — what a call does to them
* `AttemptInv` — the invariant

## Main results

* `AttemptStep.inv` — the invariant is kept
* `AttemptStep.keeps_answered` — an answered attempt is final
* `AttemptInv.live_unique`, `AttemptInv.failed_of_free` — at most one attempt is live
-/

namespace Noxa.Durable

open Text Admission

/-- The outbox has this attempt. -/
def HasAttempt (db : Db) (id : String) (b : SentBatch) (d : AttemptDescriptor) : Prop :=
  (db.get (outboxRef id)).map (·.data) = some (.outbox b) ∧ b.attempt = some d

/-- The logical id has this record. -/
def HasLogical (db : Db) (id : String) (l : LogicalRecord) : Prop :=
  (db.get (logicalRef id)).map (·.data) = some (.logical l)

/-- The server has refused the attempt, so another one may follow. -/
def Status.Failed (s : Status) : Prop := s = .result .rejected ∨ s = .result .aborted

/-- The attempt is open or accepted. -/
def Status.Live (s : Status) : Prop := s = .pending ∨ s = .result .accepted

theorem Status.Live.not_failed {s : Status} (h : s.Live) : ¬ s.Failed := by
  rcases h with rfl | rfl <;> simp [Status.Failed]

theorem outbox_of_outbox? {v : Value} {b : SentBatch} (h : v.outbox? = some b) : v = .outbox b := by
  cases v <;> simp_all [Value.outbox?]

theorem outboxRef_injective {i j : String} (h : outboxRef i = outboxRef j) : i = j :=
  congrArg Ref.id h

section

variable {db db' : Db} {id : String} {b b' : SentBatch} {d d' : AttemptDescriptor}

theorem HasAttempt.unique (h : HasAttempt db id b d) (h' : HasAttempt db id b' d') :
    b = b' ∧ d = d' := by
  have hb : b = b' := Value.outbox.inj (Option.some.inj (h.1.symm.trans h'.1))
  subst hb
  exact ⟨rfl, Option.some.inj (h.2.symm.trans h'.2)⟩

theorem HasLogical.unique {l l' : LogicalRecord} (h : HasLogical db id l)
    (h' : HasLogical db id l') : l = l' :=
  Value.logical.inj (Option.some.inj (h.symm.trans h'))

theorem hasAttempt_congr (h : db'.get (outboxRef id) = db.get (outboxRef id)) :
    HasAttempt db' id b d ↔ HasAttempt db id b d := by
  rw [HasAttempt, HasAttempt, h]

theorem hasLogical_congr {l : LogicalRecord}
    (h : db'.get (logicalRef id) = db.get (logicalRef id)) :
    HasLogical db' id l ↔ HasLogical db id l := by
  rw [HasLogical, HasLogical, h]

theorem HasAttempt.get_ne_none (h : HasAttempt db id b d) : db.get (outboxRef id) ≠ none := by
  intro hno
  simp [HasAttempt, hno] at h

end

/-! ### What a call does to attempts -/

/-- Outbox and logical records are as they were, but for the given two. -/
def OthersKept (db db' : Db) (outbox logical : Ref) : Prop :=
  ∀ r : Ref, r.kind = .outbox ∨ r.kind = .logical → r ≠ outbox → r ≠ logical → db'.get r = db.get r

/-- The last attempt of the logical id, if any, has failed. -/
def LogicalFree (db : Db) (id : String) : Prop := ∀ l, HasLogical db id l → l.state.Failed

/-- What a call does to the attempts. -/
inductive AttemptStep (db db' : Db) : Prop
  | quiet (kept : ∀ r : Ref, r.kind = .outbox ∨ r.kind = .logical → db'.get r = db.get r)
      (epoch : db'.control.accountEpoch = db.control.accountEpoch)
      (next : db'.control.nextAttempt = db.control.nextAttempt)
  | promoted (kept : ∀ r : Ref, r.kind = .outbox ∨ r.kind = .logical → db'.get r = db.get r)
      (epoch : db.control.accountEpoch < db'.control.accountEpoch)
      (next : db'.control.nextAttempt = 0)
  | began (b : SentBatch) (d : AttemptDescriptor)
      (unused : db.get (outboxRef (attemptID d.manifest)) = none)
      (free : LogicalFree db d.manifest.logicalID)
      (sequence : attemptSequence d.manifest.attemptID = some (db.control.nextAttempt + 1))
      (current : d.manifest.accountEpoch = db.control.accountEpoch)
      (unanswered : b.receipt = none ∧ b.status = .pending)
      (attempt : HasAttempt db' (attemptID d.manifest) b d)
      (logical : HasLogical db' d.manifest.logicalID ⟨attemptID d.manifest, .pending⟩)
      (kept : OthersKept db db' (outboxRef (attemptID d.manifest))
        (logicalRef d.manifest.logicalID))
      (epoch : db'.control.accountEpoch = db.control.accountEpoch)
      (next : db'.control.nextAttempt = db.control.nextAttempt + 1)
  | resolved (id : String) (b : SentBatch) (d : AttemptDescriptor) (result : Receipt)
      (l : LogicalRecord)
      (attempt : HasAttempt db id b d) (unanswered : b.receipt = none)
      (final : result.state = .accepted ∨ result.state = .rejected ∨ result.state = .aborted)
      (logical : HasLogical db d.manifest.logicalID l) (last : l.attemptID = id)
      (attempt' : HasAttempt db' id
        { b with receipt := some result, status := .result result.state } d)
      (logical' : HasLogical db' d.manifest.logicalID { l with state := .result result.state })
      (kept : OthersKept db db' (outboxRef id) (logicalRef d.manifest.logicalID))
      (epoch : db'.control.accountEpoch = db.control.accountEpoch)
      (next : db'.control.nextAttempt = db.control.nextAttempt)
  | closed (empty : ∀ r, db'.get r = none) (next : db'.control.nextAttempt = 0)
      (inactive : db'.control.active = false)

/-- What is known of every outbox record, attempt and logical record. -/
structure AttemptInv (db : Db) : Prop where
  isAttempt : ∀ id rec, db.get (outboxRef id) = some rec → ∃ b d, HasAttempt db id b d
  named : ∀ id b d, HasAttempt db id b d → id = attemptID d.manifest
  epoch_le : ∀ id b d, HasAttempt db id b d → d.manifest.accountEpoch ≤ db.control.accountEpoch
  sequence : ∀ id b d, HasAttempt db id b d → ∃ n, attemptSequence d.manifest.attemptID = some n ∧
    (d.manifest.accountEpoch = db.control.accountEpoch → n ≤ db.control.nextAttempt)
  complete : ∀ n : Int, 1 ≤ n → n ≤ db.control.nextAttempt →
    ∃ b d, HasAttempt db (numbered db.control.accountEpoch (toString n)) b d
  status : ∀ id b d, HasAttempt db id b d → (b.receipt = none ∧ b.status = .pending) ∨
    ∃ r, b.receipt = some r ∧ b.status = .result r.state
  logical : ∀ id b d, HasAttempt db id b d → ∃ l, HasLogical db d.manifest.logicalID l ∧
    (l.attemptID = id → l.state = b.status) ∧ (l.attemptID ≠ id → b.status.Failed)

/-- A store without records. -/
theorem AttemptInv.of_empty {db : Db} (h : ∀ r, db.get r = none)
    (hnx : db.control.nextAttempt = 0) : AttemptInv db := by
  have hno : ∀ {id b d}, ¬ HasAttempt db id b d := fun hbd => hbd.get_ne_none (h _)
  constructor
  case isAttempt => simp [h]
  case complete => exact fun n hlow hhi => by omega
  all_goals exact fun id b d hbd => absurd hbd hno

theorem attemptInv_fresh : AttemptInv Db.fresh := .of_empty (fun _ => rfl) rfl

/-! ### The invariant is kept -/

section

variable {db db' : Db}

/-- With the same records the invariant needs only the numbers. -/
theorem AttemptInv.of_kept (h : AttemptInv db)
    (kept : ∀ r : Ref, r.kind = .outbox ∨ r.kind = .logical → db'.get r = db.get r)
    (epoch : db.control.accountEpoch ≤ db'.control.accountEpoch)
    (sequence : ∀ id b d, HasAttempt db id b d → ∃ n,
      attemptSequence d.manifest.attemptID = some n ∧
        (d.manifest.accountEpoch = db'.control.accountEpoch → n ≤ db'.control.nextAttempt))
    (complete : ∀ n : Int, 1 ≤ n → n ≤ db'.control.nextAttempt →
      ∃ b d, HasAttempt db (numbered db'.control.accountEpoch (toString n)) b d) :
    AttemptInv db' := by
  have ha : ∀ id b d, HasAttempt db' id b d ↔ HasAttempt db id b d :=
    fun id b d => hasAttempt_congr (kept _ (.inl rfl))
  have hlog : ∀ id l, HasLogical db' id l ↔ HasLogical db id l :=
    fun id l => hasLogical_congr (kept _ (.inr rfl))
  constructor
  case isAttempt =>
    intro id rec hr
    rw [kept _ (.inl rfl)] at hr
    obtain ⟨b, d, hbd⟩ := h.isAttempt id rec hr
    exact ⟨b, d, (ha id b d).mpr hbd⟩
  case named => exact fun id b d hbd => h.named id b d ((ha id b d).mp hbd)
  case epoch_le =>
    exact fun id b d hbd => (h.epoch_le id b d ((ha id b d).mp hbd)).trans epoch
  case sequence => exact fun id b d hbd => sequence id b d ((ha id b d).mp hbd)
  case complete =>
    intro n hlow hhi
    obtain ⟨b, d, hbd⟩ := complete n hlow hhi
    exact ⟨b, d, (ha _ b d).mpr hbd⟩
  case status => exact fun id b d hbd => h.status id b d ((ha id b d).mp hbd)
  case logical =>
    intro id b d hbd
    obtain ⟨l, hl, hst⟩ := h.logical id b d ((ha id b d).mp hbd)
    exact ⟨l, (hlog _ l).mpr hl, hst⟩

variable {id : String} {b : SentBatch} {d : AttemptDescriptor}

/-- An attempt under another outbox id is not touched. -/
theorem OthersKept.attempt_iff {outbox : String} {logical : Ref}
    (hlog : logical.kind = .logical) (h : OthersKept db db' (outboxRef outbox) logical)
    (hne : id ≠ outbox) : HasAttempt db' id b d ↔ HasAttempt db id b d := by
  refine hasAttempt_congr (h _ (.inl rfl) (fun heq => hne (outboxRef_injective heq)) ?_)
  intro heq
  rw [← heq] at hlog
  simp [outboxRef] at hlog

/-- The record of another logical id is not touched. -/
theorem OthersKept.logical_iff {outbox : Ref} {logical : String} (hobx : outbox.kind = .outbox)
    (h : OthersKept db db' outbox (logicalRef logical)) (hne : id ≠ logical) {l : LogicalRecord} :
    HasLogical db' id l ↔ HasLogical db id l := by
  refine hasLogical_congr (h _ (.inr rfl) ?_ (fun heq => hne (congrArg Ref.id heq)))
  intro heq
  rw [← heq] at hobx
  simp [logicalRef] at hobx

/-- An attempt of a logical id that is free has failed. -/
theorem AttemptInv.failed_of_free (h : AttemptInv db) (hbd : HasAttempt db id b d)
    (hfe : LogicalFree db d.manifest.logicalID) : b.status.Failed := by
  obtain ⟨l, hl, hla, he⟩ := h.logical id b d hbd
  by_cases hid : l.attemptID = id
  · rw [← hla hid]
    exact hfe l hl
  · exact he hid

/-- Two live attempts of one logical id are the same attempt. -/
theorem AttemptInv.live_unique (h : AttemptInv db) {i j : String} {b' : SentBatch}
    {d' : AttemptDescriptor} (hi : HasAttempt db i b d) (hj : HasAttempt db j b' d')
    (hsm : d.manifest.logicalID = d'.manifest.logicalID) (hb : b.status.Live)
    (hb' : b'.status.Live) : i = j := by
  obtain ⟨l, hl, -, he⟩ := h.logical i b d hi
  obtain ⟨l', hl', -, hear'⟩ := h.logical j b' d' hj
  rw [hsm] at hl
  obtain rfl := hl.unique hl'
  have hla : l.attemptID = i := not_not.mp fun hne => hb.not_failed (he hne)
  have hla' : l.attemptID = j := not_not.mp fun hne => hb'.not_failed (hear' hne)
  exact hla.symm.trans hla'

/-- The invariant after the records of one attempt have been written. -/
theorem AttemptInv.written (h : AttemptInv db) {l : LogicalRecord}
    (attempt : HasAttempt db' (attemptID d.manifest) b d)
    (logical : HasLogical db' d.manifest.logicalID l)
    (kept : OthersKept db db' (outboxRef (attemptID d.manifest)) (logicalRef d.manifest.logicalID))
    (epoch : db'.control.accountEpoch = db.control.accountEpoch)
    (next : db.control.nextAttempt ≤ db'.control.nextAttempt)
    (hep : d.manifest.accountEpoch ≤ db.control.accountEpoch)
    (hseq : ∃ n, attemptSequence d.manifest.attemptID = some n ∧
      (d.manifest.accountEpoch = db.control.accountEpoch → n ≤ db'.control.nextAttempt))
    (hcmp : ∀ n, db.control.nextAttempt < n → n ≤ db'.control.nextAttempt →
      attemptID d.manifest = numbered db.control.accountEpoch (toString n))
    (hsta : (b.receipt = none ∧ b.status = .pending) ∨
      ∃ r, b.receipt = some r ∧ b.status = .result r.state)
    (hla : l.attemptID = attemptID d.manifest ∧ l.state = b.status)
    (he : ∀ id b' d', HasAttempt db id b' d' → id ≠ attemptID d.manifest →
      d'.manifest.logicalID = d.manifest.logicalID → b'.status.Failed) : AttemptInv db' := by
  -- an attempt is the one that was written, or one from before under another id
  have hall {P : String → SentBatch → AttemptDescriptor → Prop}
    (hnew : P (attemptID d.manifest) b d)
      (hold : ∀ id b' d', HasAttempt db id b' d' → id ≠ attemptID d.manifest → P id b' d') :
      ∀ id b' d', HasAttempt db' id b' d' → P id b' d' := by
    intro id b' d' hbd
    by_cases hid : id = attemptID d.manifest
    · subst hid
      obtain ⟨rfl, rfl⟩ := hbd.unique attempt
      exact hnew
    · exact hold id b' d' ((kept.attempt_iff rfl hid).mp hbd) hid
  have haft : ∀ id b' d', HasAttempt db id b' d' → ∃ b₁ d₁, HasAttempt db' id b₁ d₁ := by
    intro id b' d' hbd
    by_cases hid : id = attemptID d.manifest
    · exact ⟨b, d, hid ▸ attempt⟩
    · exact ⟨b', d', (kept.attempt_iff rfl hid).mpr hbd⟩
  constructor
  case isAttempt =>
    intro id rec hr
    by_cases hid : id = attemptID d.manifest
    · exact ⟨b, d, hid ▸ attempt⟩
    have hsm : db'.get (outboxRef id) = db.get (outboxRef id) :=
      kept _ (.inl rfl) (fun heq => hid (outboxRef_injective heq)) (by simp [outboxRef, logicalRef])
    obtain ⟨b', d', hbd⟩ := h.isAttempt id rec (hsm ▸ hr)
    exact haft id b' d' hbd
  case named => exact hall rfl fun id b' d' hbd _ => h.named id b' d' hbd
  case epoch_le =>
    rw [epoch]
    exact hall hep fun id b' d' hbd _ => h.epoch_le id b' d' hbd
  case sequence =>
    rw [epoch]
    refine hall hseq fun id b' d' hbd _ => ?_
    obtain ⟨n, hn, hle⟩ := h.sequence id b' d' hbd
    exact ⟨n, hn, fun heq => (hle heq).trans next⟩
  case complete =>
    intro n hlow hhi
    rw [epoch]
    by_cases hn : n ≤ db.control.nextAttempt
    · obtain ⟨b', d', hbd⟩ := h.complete n hlow hn
      exact haft _ b' d' hbd
    · exact ⟨b, d, hcmp n (not_le.mp hn) hhi ▸ attempt⟩
  case status => exact hall hsta fun id b' d' hbd _ => h.status id b' d' hbd
  case logical =>
    refine hall ⟨l, logical, fun _ => hla.2, fun hne => absurd hla.1 hne⟩
      fun id b' d' hbd hid => ?_
    by_cases hL : d'.manifest.logicalID = d.manifest.logicalID
    · exact ⟨l, hL ▸ logical, fun heq => absurd (heq.symm.trans hla.1) hid,
        fun _ => he id b' d' hbd hid hL⟩
    · obtain ⟨l', hl', hst⟩ := h.logical id b' d' hbd
      exact ⟨l', (kept.logical_iff rfl hL).mpr hl', hst⟩

/-- **The invariant is kept.** -/
theorem AttemptStep.inv (hs : AttemptStep db db') (h : AttemptInv db) : AttemptInv db' := by
  cases hs with
  | quiet kept epoch next =>
    refine h.of_kept kept epoch.ge ?_ ?_
    · rw [epoch, next]
      exact h.sequence
    · rw [epoch, next]
      exact h.complete
  | promoted kept epoch =>
    refine h.of_kept kept epoch.le ?_ ?_
    · -- the new epoch is larger than that of every attempt
      intro id b d hbd
      obtain ⟨n, hn, -⟩ := h.sequence id b d hbd
      have hle := h.epoch_le id b d hbd
      exact ⟨n, hn, fun heq => by omega⟩
    · intro n hlow hhi
      omega
  | began b d unused free sequence current unanswered attempt logical kept epoch next =>
    refine h.written attempt logical kept epoch (by omega) current.le
      ⟨_, sequence, fun _ => next.ge⟩
      ?_ (.inl unanswered) ⟨rfl, unanswered.2.symm⟩ ?_
    · intro n hlow hhi
      obtain rfl : n = db.control.nextAttempt + 1 := by omega
      rw [attemptID, current, (attemptSequence_some sequence).1]
    · -- the logical id was free, so its earlier attempts have failed
      exact fun id b' d' hbd _ hL => h.failed_of_free hbd (hL ▸ free)
  | resolved id b d result l attempt _ _ logical last attempt' logical' kept epoch next =>
    obtain rfl := h.named id b d attempt
    refine h.written attempt' logical' kept epoch next.ge (h.epoch_le _ b d attempt) ?_ ?_
      (.inr ⟨result, rfl, rfl⟩) ⟨last, rfl⟩ ?_
    · rw [next]
      exact h.sequence _ b d attempt
    · intro n hlow hhi
      omega
    · -- the answered attempt was the last one of its logical id
      intro id b' d' hbd hne hL
      obtain ⟨l', hl', -, hfld⟩ := h.logical id b' d' hbd
      obtain rfl : l' = l := HasLogical.unique (hL ▸ hl') logical
      exact hfld fun heq => hne (heq.symm.trans last)
  | closed empty next => exact .of_empty empty next

/-- An answered attempt is final: it stays as it is until the store is closed. -/
theorem AttemptStep.keeps_answered (hs : AttemptStep db db') (hbd : HasAttempt db id b d)
    (hrc : b.receipt ≠ none) (hact : db'.control.active = true) :
    HasAttempt db' id b d := by
  cases hs with
  | quiet kept | promoted kept => exact (hasAttempt_congr (kept _ (.inl rfl))).mpr hbd
  | began b' d' unused _ _ _ _ _ _ kept =>
    refine (kept.attempt_iff rfl fun hid => ?_).mpr hbd
    exact hbd.get_ne_none (hid ▸ unused)
  | resolved id' b' d' result l attempt unanswered _ _ _ _ _ kept =>
    refine (kept.attempt_iff rfl fun hid => ?_).mpr hbd
    subst hid
    obtain ⟨rfl, -⟩ := hbd.unique attempt
    exact hrc unanswered
  | closed _ _ inactive =>
    rw [inactive] at hact
    exact absurd hact (by decide)

end

end Noxa.Durable

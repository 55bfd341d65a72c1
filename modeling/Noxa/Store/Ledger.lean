import Noxa.Store.Attempts

/-!
# What the calls do to the ledger

An attempt is filed under the number of its manifest, starts in staging or aborted, and leaves
staging once. Until an attempt is accepted, every call of the ledger is `Quiet`: it keeps the fences
and the settled receipts, and accepts nothing. Retiring a receipt is the one step that moves a
fence, and it moves it over acknowledged attempts only.

## Main definitions

* `Attempt.Filed`, `Ledger.Sound` — the invariant of the rows
* `Attempt.Becomes` — what may happen to a row
* `Quiet` — a change that neither accepts nor retires
* `Advances` — a change that may move fences too

## Main results

* `beginOlmAttempt_quiet`, `putOlmPart_quiet`, `abortOlmAttempt_quiet`,
  `expireOlmAttempts_quiet` — the calls that do not retire
* `retireOlmReceipt_advances` — the call that does
-/

namespace Noxa.Store

open Directory Admission Fallible Table List

variable {l l' : Ledger} {a : Source} {id : String} {m : Manifest} {r : Receipt} {env : Env}

/-- The states of a settled attempt. -/
def Terminal (state : ReceiptState) : Prop :=
  state = .accepted ∨ state = .rejected ∨ state = .aborted

/-- A row keeps its manifest, and its state and receipt once it has left staging. -/
def Attempt.Becomes (row row' : Attempt) : Prop :=
  row'.key = row.key ∧ row'.sender = row.sender ∧ row'.manifest = row.manifest ∧
    ((row.state = staging ∧ Terminal row'.state) ∨
      (row'.state = row.state ∧ row'.receipt = row.receipt))

theorem Attempt.Becomes.refl (row : Attempt) : row.Becomes row :=
  ⟨rfl, rfl, rfl, .inr ⟨rfl, rfl⟩⟩

variable {row row' : Attempt}

theorem Attempt.Becomes.trans {row'' : Attempt} (h : row.Becomes row')
    (h' : row'.Becomes row'') : row.Becomes row'' := by
  obtain ⟨hkey, hsdr, hmf, hst⟩ := h
  obtain ⟨hkey', hsdr', hmf', hst'⟩ := h'
  refine ⟨hkey'.trans hkey, hsdr'.trans hsdr, hmf'.trans hmf, ?_⟩
  rcases hst with ⟨hs, ht⟩ | ⟨hsm, hrc⟩
  · rcases hst' with ⟨hs', -⟩ | ⟨hsm', -⟩
    · exact absurd hs' (by rcases ht with h | h | h <;> simp [h, staging])
    · exact .inl ⟨hs, hsm' ▸ ht⟩
  · rcases hst' with ⟨hs', htrm'⟩ | ⟨hsm', hrc'⟩
    · exact .inl ⟨hsm ▸ hs', htrm'⟩
    · exact .inr ⟨hsm'.trans hsm, hrc'.trans hrc⟩

/-! ### Rows -/

theorem loadAttempt_found (h : loadAttempt l a id = .ok (.found m r)) :
    ∃ row ∈ l.attempts.rows, row.key = (a.lane, id) ∧ row.sender = a.principal ∧
      row.manifest = m ∧ row.receipt = r := by
  simp only [loadAttempt, bind_eq_ok, found_eq_ok] at h
  obtain ⟨seq, -, h⟩ := h
  split at h
  · exact absurd (pure_eq_ok.mp h) (by simp)
  split at h
  · exact absurd (pure_eq_ok.mp h) (by simp)
  rename_i row hflt
  obtain ⟨hg, hsdr⟩ := Option.filter_eq_some_iff.mp hflt
  obtain ⟨hmem, hkey⟩ := get_eq_some.mp hg
  have hld := pure_eq_ok.mp h
  injection hld with hm hr
  exact ⟨row, hmem, hkey, by simpa using hsdr, hm, hr⟩

variable {lane : Lane}

theorem mem_saveReceipt : row' ∈ (saveReceipt l lane r).attempts.rows ↔ ∃ row ∈ l.attempts.rows,
      (if row.key = (lane, r.attemptID) then { row with state := r.state, receipt := r } else row)
        = row' := by
  refine (mem_update ?_).trans ?_
  · exact fun _ => rfl
  · simp only [decide_eq_true_eq]

theorem saveReceipt_becomes {staged : Attempt} (hsta : staged ∈ l.attempts.rows)
    (hkey : staged.key = (lane, r.attemptID)) (hst : staged.state = staging)
    (ht : Terminal r.state) (hrow : row ∈ l.attempts.rows) :
    ∃ row' ∈ (saveReceipt l lane r).attempts.rows, row.Becomes row' := by
  refine ⟨_, mem_saveReceipt.mpr ⟨row, hrow, rfl⟩, ?_⟩
  split
  · rename_i hsm
    obtain rfl := l.attempts.eq_of_key hrow hsta (hsm.trans hkey.symm)
    exact ⟨rfl, rfl, rfl, .inl ⟨hst, ht⟩⟩
  · exact .refl row

theorem expiring_sub {limit : ℕ} {device : String}
    (h : row ∈ expiring l env limit device) : row ∈ l.attempts.rows ∧ row.state = staging := by
  have hsrt := mem_of_mem_take h
  rw [mem_insertionSort, mem_filter] at hsrt
  simp only [Bool.and_eq_true, decide_eq_true_eq] at hsrt
  exact ⟨hsrt.1, hsrt.2.1.1⟩

theorem expiring_nodup (l : Ledger) (env : Env) (limit : ℕ) (device : String) :
    ((expiring l env limit device).map Attempt.key).Nodup := by
  have hsub := (take_sublist limit ((l.attempts.rows.filter fun row =>
    decide (row.state = staging) && (decide (device = "") || decide (row.lane.device = device)) &&
      decide (row.manifest.deadline ≤ env.epoch)).insertionSort (ExpiresBefore env))).map
        Attempt.key
  refine List.Nodup.sublist hsub ?_
  rw [((perm_insertionSort (ExpiresBefore env) _).map Attempt.key).nodup_iff]
  exact l.attempts.nodup.sublist (filter_sublist.map _)

theorem advanceFence_spec (attempts : Table Attempt Attempt.key) (lane : Lane) (n : ℕ)
    (through : Int) : through ≤ advanceFence attempts lane n through ∧
      ∀ k, through < k → k ≤ advanceFence attempts lane n through →
        ∃ row, attempts.get (lane, toString k) = some row ∧ row.acked = true ∧
          row.state ≠ staging := by
  induction n generalizing through with
  | zero => exact ⟨le_rfl, fun k hlow hhi => absurd hhi (by simp [advanceFence]; omega)⟩
  | succ n ih =>
    rw [advanceFence]
    split
    · exact ⟨le_rfl, fun k hlow hhi => absurd hhi (by omega)⟩
    rename_i row hg
    split
    · exact ⟨le_rfl, fun k hlow hhi => absurd hhi (by omega)⟩
    rename_i hgo
    push Not at hgo
    obtain ⟨hle, hps⟩ := ih (through + 1)
    refine ⟨by omega, fun k hlow hhi => ?_⟩
    by_cases hk : k = through + 1
    · exact ⟨row, hk ▸ hg, by simpa using hgo.1, hgo.2⟩
    · exact hps k (by omega) hhi

theorem mem_acknowledge : row' ∈ (acknowledge l lane id).attempts.rows ↔ ∃ row ∈ l.attempts.rows,
      (if row.key = (lane, id) then { row with acked := true } else row) = row' := by
  refine (mem_update ?_).trans ?_
  · exact fun _ => rfl
  · simp only [decide_eq_true_eq]

variable [Setting] {db : Db}

/-- A row holds a valid manifest under its own number, with a receipt for it. -/
structure Attempt.Filed (row : Attempt) : Prop where
  valid : row.manifest.validate = true
  lane : row.lane = ⟨row.manifest.server, row.manifest.device, row.manifest.accountEpoch⟩
  sender : row.sender = row.manifest.sender
  attemptID : row.attemptID = row.manifest.attemptID
  receiptID : row.receipt.attemptID = row.attemptID
  receiptState : row.receipt.state = row.state
  state : row.state = staging ∨ Terminal row.state

/-- The number lies at or below the fence. -/
def Ledger.Retired (ledger : Ledger) (k : Lane × String) : Prop :=
  ∃ n, attemptSequence k.2 = some n ∧ n ≤ ledger.fences k.1

/-- Every row is filed, and none has been retired. -/
def Ledger.Sound (ledger : Ledger) : Prop :=
  ∀ row ∈ ledger.attempts.rows, row.Filed ∧ ¬ ledger.Retired row.key

/-- A change of the ledger that neither accepts nor retires an attempt. -/
structure Quiet (l l' : Ledger) : Prop where
  sound : l'.Sound
  fences : l'.fences = l.fences
  becomes : ∀ row ∈ l.attempts.rows, ∃ row' ∈ l'.attempts.rows, row.Becomes row'
  accepted : ∀ row' ∈ l'.attempts.rows, row'.state = .accepted →
    ∃ row ∈ l.attempts.rows, row.state = .accepted ∧ row.Becomes row'

theorem Quiet.refl (h : l.Sound) : Quiet l l where
  sound := h
  fences := rfl
  becomes row hrow := ⟨row, hrow, .refl row⟩
  accepted row hrow hst := ⟨row, hrow, hst, .refl row⟩

theorem Quiet.trans {l'' : Ledger} (h : Quiet l l') (h' : Quiet l' l'') : Quiet l l'' where
  sound := h'.sound
  fences := h'.fences.trans h.fences
  becomes row hrow := by
    obtain ⟨row', hr', hb⟩ := h.becomes row hrow
    obtain ⟨row'', hr'', hb'⟩ := h'.becomes row' hr'
    exact ⟨row'', hr'', hb.trans hb'⟩
  accepted row'' hr'' hst := by
    obtain ⟨row', hr', hst', hb'⟩ := h'.accepted row'' hr'' hst
    obtain ⟨row, hrow, hst, hb⟩ := h.accepted row' hr' hst'
    exact ⟨row, hrow, hst, hb.trans hb'⟩

/-! ### Storing a receipt -/

section

variable (hl : l.Sound)

include hl

/-- A receipt settles the attempt it names. -/
theorem saveReceipt_sound (ht : Terminal r.state) : (saveReceipt l lane r).Sound := by
  intro row' hr'
  obtain ⟨row, hrow, rfl⟩ := mem_saveReceipt.mp hr'
  obtain ⟨hf, hret⟩ := hl row hrow
  split
  · rename_i hkey
    have hid : row.attemptID = r.attemptID := congrArg Prod.snd hkey
    exact ⟨{ hf with receiptID := hid.symm, receiptState := rfl, state := .inr ht }, hret⟩
  · exact ⟨hf, hret⟩

theorem saveReceipt_quiet {staged : Attempt} (hsta : staged ∈ l.attempts.rows)
    (hkey : staged.key = (lane, r.attemptID)) (hst : staged.state = staging)
    (hr : r.state = .rejected ∨ r.state = .aborted) : Quiet l (saveReceipt l lane r) where
  sound := saveReceipt_sound hl (.inr hr)
  fences := rfl
  becomes _ hrow := saveReceipt_becomes hsta hkey hst (.inr hr) hrow
  accepted row' hr' ha := by
    obtain ⟨row, hrow, rfl⟩ := mem_saveReceipt.mp hr'
    split at ha
    · rcases hr with hr | hr <;> exact absurd (hr.symm.trans ha) (by simp)
    · rename_i ho
      exact ⟨row, hrow, ha, by rw [if_neg ho]; exact .refl row⟩

/-! ### Expiry -/

/-- Expiring some staged rows of a ledger. -/
theorem foldl_expireRow_quiet {rows : List Attempt} (hnd : (rows.map Attempt.key).Nodup)
    (hrw : ∀ row ∈ rows, row ∈ l.attempts.rows ∧ row.state = staging) :
    Quiet l (rows.foldl expireRow l) := by
  induction rows generalizing l with
  | nil => exact .refl hl
  | cons row rows ih =>
    obtain ⟨hmem, hst⟩ := hrw row mem_cons_self
    have hid := (hl row hmem).1.receiptID
    have hfst : Quiet l (expireRow l row) :=
      saveReceipt_quiet hl hmem (Prod.ext rfl hid.symm) hst (.inl rfl)
    rw [map_cons, nodup_cons] at hnd
    refine hfst.trans (ih hfst.sound hnd.2 fun y hy => ?_)
    obtain ⟨hym, hys⟩ := hrw y (mem_cons_of_mem _ hy)
    -- the other rows have other keys, so this one's receipt is not stored in them
    have ho : ¬ y.key = (row.lane, row.receipt.attemptID) := by
      rw [hid]
      intro hsm
      exact hnd.1 (mem_map.mpr ⟨y, hy, hsm⟩)
    exact ⟨mem_saveReceipt.mpr ⟨y, hym, if_neg ho⟩, hys⟩

theorem expireOlmAttempts_quiet (env : Env) (limit : ℕ) (device : String) :
    Quiet l (expireOlmAttempts l env limit device) :=
  foldl_expireRow_quiet hl (expiring_nodup l env limit device) fun _ hrow => expiring_sub hrow

/-! ### Inserting -/

theorem insertAttempt_quiet {state : ReceiptState} (hv : m.validate = true)
    (hmts : a.matches m) (hst : state = staging ∨ state = .aborted)
    (h : insertAttempt l env a m state = .ok (l', r)) : Quiet l l' := by
  simp only [insertAttempt, bind_eq_ok, ensure_eq_ok, found_eq_ok, pure_eq_ok] at h
  obtain ⟨-, hfen, -, -, -, -, attempts, hi, hres⟩ := h
  obtain ⟨rfl, -⟩ := Prod.mk.inj hres
  have he := (expireOlmAttempts_quiet hl env 4 a.device).trans
    (expireOlmAttempts_quiet (expireOlmAttempts_quiet hl env 4 a.device).sound env 200 "")
  refine he.trans ⟨?_, rfl, ?_, ?_⟩
  · intro row hrow
    rcases (mem_insert hi).mp hrow with hrow | rfl
    · exact he.sound row hrow
    refine ⟨⟨hv, ?_, hmts.2.1, rfl, rfl, rfl, ?_⟩, ?_⟩
    · simp [Source.lane, hmts.1, hmts.2.2.1, hmts.2.2.2]
    · rcases hst with rfl | rfl
      · exact .inl rfl
      · exact .inr (.inr (.inr rfl))
    · rintro ⟨n, hn, hle⟩
      have hseq : attemptSequence m.attemptID = some n := hn
      have hbel : n ≤ l.fences a.lane := by
        rw [← he.fences]
        exact hle
      rw [hseq, Option.getD_some] at hfen
      omega
  · intro row hrow
    exact ⟨row, (mem_insert hi).mpr (.inl hrow), .refl row⟩
  · intro row hrow ha
    rcases (mem_insert hi).mp hrow with hrow | rfl
    · exact ⟨row, hrow, ha, .refl row⟩
    · rcases hst with rfl | rfl <;> exact absurd ha (by simp [staging])

end

/-! ### The calls -/

section

variable (hl : db.ledger.Sound)

include hl

theorem beginOlmAttempt_quiet (h : beginOlmAttempt db env a m = .ok (l', r)) :
    Quiet db.ledger l' := by
  simp only [beginOlmAttempt, bind_eq_ok, ensure_eq_ok] at h
  obtain ⟨-, hv, -, hmts, loaded, hlo, h⟩ := h
  cases loaded with
  | retired =>
    simp only [bind_eq_ok, pure_eq_ok, Prod.mk.injEq] at h
    obtain ⟨-, -, rfl, -⟩ := h
    exact .refl hl
  | found =>
    simp only [bind_eq_ok, ensure_eq_ok, pure_eq_ok, Prod.mk.injEq] at h
    obtain ⟨-, -, -, -, rfl, -⟩ := h
    exact .refl hl
  | absent =>
    simp only [bind_eq_ok, ensure_eq_ok] at h
    obtain ⟨-, -, -, -, hi⟩ := h
    exact insertAttempt_quiet hl hv hmts (.inl rfl) hi

theorem putOlmPart_quiet {index : ℕ} {data : Bytes} {e : Option Err}
    (h : putOlmPart db env a id index data = .ok (l', e)) : Quiet db.ledger l' := by
  simp only [putOlmPart, bind_eq_ok, ensure_eq_ok] at h
  obtain ⟨-, -, loaded, hlo, h⟩ := h
  cases loaded with
  | retired =>
    simp only [bind_eq_ok] at h
    obtain ⟨-, -, h⟩ := h
    cases h
  | absent => cases h
  | found =>
    obtain ⟨row, hrow, hkey, -, -, rfl⟩ := loadAttempt_found hlo
    simp only [bind_eq_ok, ensure_eq_ok] at h
    obtain ⟨-, -, part, -, -, -, h⟩ := h
    split at h
    · obtain ⟨rfl, -⟩ := Prod.mk.inj (Except.ok.inj h)
      exact .refl hl
    · simp only [bind_eq_ok, ensure_eq_ok] at h
      obtain ⟨-, hs, h⟩ := h
      split at h
      · obtain ⟨rfl, -⟩ := Prod.mk.inj (Except.ok.inj h)
        have hf := (hl row hrow).1
        refine saveReceipt_quiet hl hrow (hkey.trans ?_) (hf.receiptState ▸ hs) (.inl rfl)
        exact Prod.ext rfl ((congrArg Prod.snd hkey).symm.trans hf.receiptID.symm)
      · obtain ⟨rfl, -⟩ := Prod.mk.inj (Except.ok.inj h)
        exact ⟨hl, rfl, fun row hrow => ⟨row, hrow, .refl row⟩,
          fun row hrow ha => ⟨row, hrow, ha, .refl row⟩⟩

theorem abortOlmAttempt_quiet (h : abortOlmAttempt db env a m = .ok (l', r)) :
    Quiet db.ledger l' := by
  simp only [abortOlmAttempt, bind_eq_ok, ensure_eq_ok] at h
  obtain ⟨-, hv, -, hmts, loaded, hlo, h⟩ := h
  cases loaded with
  | retired =>
    simp only [bind_eq_ok, pure_eq_ok, Prod.mk.injEq] at h
    obtain ⟨-, -, rfl, -⟩ := h
    exact .refl hl
  | found =>
    obtain ⟨row, hrow, hkey, -, -, rfl⟩ := loadAttempt_found hlo
    simp only [bind_eq_ok, ensure_eq_ok] at h
    obtain ⟨-, -, -, -, h⟩ := h
    split at h
    · rename_i hs
      obtain ⟨rfl, -⟩ := Prod.mk.inj (Except.ok.inj h)
      have hf := (hl row hrow).1
      refine saveReceipt_quiet hl hrow (hkey.trans ?_) (hf.receiptState ▸ hs) (.inr rfl)
      exact Prod.ext rfl ((congrArg Prod.snd hkey).symm.trans hf.receiptID.symm)
    · obtain ⟨rfl, -⟩ := Prod.mk.inj (Except.ok.inj h)
      exact .refl hl
  | absent =>
    simp only [bind_eq_ok] at h
    obtain ⟨-, -, hi⟩ := h
    exact insertAttempt_quiet hl hv hmts (.inr rfl) hi

end

/-! ### Retirement -/

/-- A change of the ledger that accepts nothing. `acks` is the attempt it acknowledges; a fence
moves only over attempts that are settled and acknowledged. -/
structure Advances (l l' : Ledger) (acks : Option (Lane × String)) : Prop where
  sound : l'.Sound
  fences : ∀ lane, l.fences lane ≤ l'.fences lane
  becomes : ∀ row ∈ l.attempts.rows,
    (∃ row' ∈ l'.attempts.rows, row.Becomes row') ∨ l'.Retired row.key
  accepted : ∀ row' ∈ l'.attempts.rows, row'.state = .accepted →
    ∃ row ∈ l.attempts.rows, row.state = .accepted ∧ row.Becomes row'
  passed : ∀ lane n, l.fences lane < n → n ≤ l'.fences lane → ∃ row ∈ l.attempts.rows,
    row.key = (lane, toString n) ∧ Terminal row.state ∧ (row.acked = true ∨ acks = some row.key)

theorem Quiet.advances (h : Quiet l l') (acks : Option (Lane × String)) : Advances l l' acks where
  sound := h.sound
  fences lane := (congrFun h.fences lane).ge
  becomes row hrow := .inl (h.becomes row hrow)
  accepted := h.accepted
  passed lane n hlow hhi := by
    rw [h.fences] at hhi
    omega

/-- Retiring keeps the invariant, and drops only what the fence has passed. -/
theorem retire_advances (hl : l.Sound) (lane : Lane) : Advances l (retire l lane) none := by
  obtain ⟨hle, hps⟩ := advanceFence_spec l.attempts lane 200 (l.fences lane)
  set through := advanceFence l.attempts lane 200 (l.fences lane) with hthr
  have hfen : ∀ k, (retire l lane).fences k = if k = lane then through else l.fences k :=
    fun k => Function.update_apply _ _ _ _
  have hmem : ∀ row, row ∈ (retire l lane).attempts.rows ↔ row ∈ l.attempts.rows ∧
      (decide (row.lane = lane) && (attemptSequence row.attemptID).any (· ≤ through) &&
        row.acked) = false :=
    fun row => mem_delete
  -- a row at a number that the loop has passed is the row it has looked at
  have hac : ∀ row ∈ l.attempts.rows, row.lane = lane → ∀ n,
    attemptSequence row.attemptID = some n →
      n ≤ through → row.acked = true ∧ row.state ≠ staging := by
    intro row hrow hln n hn hhi
    have hlow : l.fences lane < n := by
      by_contra hnot
      exact (hl row hrow).2 ⟨n, hn, by rw [show row.key.1 = lane from hln]; omega⟩
    obtain ⟨row', hg, hack, hst⟩ := hps n hlow hhi
    obtain ⟨hr', hkey⟩ := get_eq_some.mp hg
    have hid := (attemptSequence_some hn).1
    have heq : row = row' :=
      l.attempts.eq_of_key hrow hr' (by rw [hkey, ← hln, ← hid]; rfl)
    exact heq ▸ ⟨hack, hst⟩
  refine ⟨?_, ?_, ?_, ?_, ?_⟩
  · intro row hrow
    obtain ⟨hold, hkp⟩ := (hmem row).mp hrow
    refine ⟨(hl row hold).1, ?_⟩
    rintro ⟨n, hn, hhi⟩
    rw [hfen] at hhi
    split at hhi
    · rename_i hln
      obtain ⟨hack, -⟩ := hac row hold hln n hn hhi
      have hn' : attemptSequence row.attemptID = some n := hn
      have hln' : row.lane = lane := hln
      simp [hln', hn', hhi, hack] at hkp
    · exact (hl row hold).2 ⟨n, hn, hhi⟩
  · intro k
    rw [hfen]
    split
    · rename_i hk
      exact hk ▸ hle
    · exact le_rfl
  · intro row hrow
    by_cases hkp : (decide (row.lane = lane) &&
        (attemptSequence row.attemptID).any (· ≤ through) && row.acked) = false
    · exact .inl ⟨row, (hmem row).mpr ⟨hrow, hkp⟩, .refl row⟩
    right
    simp only [Bool.not_eq_false, Bool.and_eq_true, decide_eq_true_eq, Option.any_eq_true] at hkp
    obtain ⟨⟨hln, n, hn, hhi⟩, -⟩ := hkp
    refine ⟨n, hn, ?_⟩
    rw [hfen, if_pos (show row.key.1 = lane from hln)]
    exact hhi
  · intro row hrow ha
    exact ⟨row, ((hmem row).mp hrow).1, ha, .refl row⟩
  · intro k n hlow hhi
    rw [hfen] at hhi
    split at hhi
    · rename_i hk
      subst hk
      obtain ⟨row, hg, hack, hst⟩ := hps n hlow hhi
      obtain ⟨hrow, hkey⟩ := get_eq_some.mp hg
      exact ⟨row, hrow, hkey, ((hl row hrow).1.state).resolve_left hst, .inl hack⟩
    · omega

/-- An acknowledgement changes a row in nothing else. -/
theorem acknowledge_quiet (hl : l.Sound) (lane : Lane) (id : String) :
    Quiet l (acknowledge l lane id) := by
  refine ⟨?_, rfl, ?_, ?_⟩
  · intro row' hr'
    obtain ⟨row, hrow, rfl⟩ := mem_acknowledge.mp hr'
    obtain ⟨hf, hret⟩ := hl row hrow
    split
    · exact ⟨{ hf with }, hret⟩
    · exact ⟨hf, hret⟩
  · intro row hrow
    refine ⟨_, mem_acknowledge.mpr ⟨row, hrow, rfl⟩, ?_⟩
    split
    · exact ⟨rfl, rfl, rfl, .inr ⟨rfl, rfl⟩⟩
    · exact .refl row
  · intro row' hr' ha
    obtain ⟨row, hrow, rfl⟩ := mem_acknowledge.mp hr'
    by_cases hid : row.key = (lane, id)
    · rw [if_pos hid] at ha ⊢
      exact ⟨row, hrow, ha, rfl, rfl, rfl, .inr ⟨rfl, rfl⟩⟩
    · rw [if_neg hid] at ha ⊢
      exact ⟨row, hrow, ha, .refl row⟩

theorem acknowledge_retire_advances (hl : l.Sound) (lane : Lane) (id : String) :
    Advances l (retire (acknowledge l lane id) lane) (some (lane, id)) := by
  have hack := acknowledge_quiet hl lane id
  have hrt := retire_advances hack.sound lane
  refine ⟨hrt.sound, hrt.fences, ?_, ?_, ?_⟩
  · intro row hrow
    obtain ⟨row', hr', hb⟩ := hack.becomes row hrow
    rcases hrt.becomes row' hr' with ⟨row'', hr'', hb'⟩ | hret
    · exact .inl ⟨row'', hr'', hb.trans hb'⟩
    · exact .inr (hb.1 ▸ hret)
  · intro row'' hr'' ha
    obtain ⟨row', hr', hacc', hb'⟩ := hrt.accepted row'' hr'' ha
    obtain ⟨row, hrow, ha, hb⟩ := hack.accepted row' hr' hacc'
    exact ⟨row, hrow, ha, hb.trans hb'⟩
  · intro k n hlow hhi
    obtain ⟨row', hr', hkey, ht, hac⟩ := hrt.passed k n hlow hhi
    obtain ⟨row, hrow, rfl⟩ := mem_acknowledge.mp hr'
    by_cases hid : row.key = (lane, id)
    · rw [if_pos hid] at hkey ht
      exact ⟨row, hrow, hkey, ht, .inr (congrArg some hid.symm)⟩
    · rw [if_neg hid] at hkey ht hac
      exact ⟨row, hrow, hkey, ht, .inl (hac.resolve_right (by simp))⟩

/-- **Retiring a receipt** moves the fence over acknowledged attempts, this one among them. -/
theorem retireOlmReceipt_advances (hl : db.ledger.Sound) {digest : String} {through : Int}
    (h : retireOlmReceipt db a id digest = .ok (l', through)) :
    Advances db.ledger l' (some (a.lane, id)) := by
  simp only [retireOlmReceipt, bind_eq_ok] at h
  obtain ⟨loaded, hlo, h⟩ := h
  cases loaded with
  | absent => cases h
  | retired =>
    simp only [bind_eq_ok, pure_eq_ok, Prod.mk.injEq] at h
    obtain ⟨-, -, rfl, -⟩ := h
    have hrt := retire_advances hl a.lane
    refine { hrt with passed := fun lane n hlow hhi => ?_ }
    obtain ⟨row, hrow, hkey, ht, hac⟩ := hrt.passed lane n hlow hhi
    exact ⟨row, hrow, hkey, ht, .inl (hac.resolve_right (by simp))⟩
  | found =>
    simp only [bind_eq_ok, ensure_eq_ok, pure_eq_ok, Prod.mk.injEq] at h
    obtain ⟨-, -, -, -, rfl, -⟩ := h
    exact acknowledge_retire_advances hl a.lane id

end Noxa.Store

import Noxa.Directory.Signed

/-!
# Following the resets of a device

A client that holds a pin of a device and meets a later account of it asks the server for the resets
in between (`VerifyResetChain` in `internal/e2ee/olmdir/reset.go`). It reads page after page, checks
every reset against the pin it has reached, and keeps nothing of a chain that ends elsewhere.

The server may answer anything, and differently every time, so `fetch` takes the number of the call.

## Main definitions

* `ResetPin` — the account that a client holds
* `verifyResetChain` — the loop over the pages
* `Leads` — a chain of resets from one pin to another

## Main results

* `verifyResetChain_sound` — a new pin is reached by a chain, a failure changes nothing, and the
  server is asked 64 times at most
* `chainLoop_complete` — pages of a chain lead along it
-/

namespace Noxa.Directory

open List Function

structure ResetPin where
  epoch : Int
  identity : String
  signing : String
  deriving DecidableEq, Repr

/-- The account that a reset leads to. -/
def Reset.pin (r : Reset) : ResetPin := ⟨r.newEpoch, r.newIdentity, r.newSigning⟩

def maxResetChainPages : ℕ := 64

inductive ChainErr (ε : Type)
  | invalid
  | fetch (e : ε)
  deriving DecidableEq, Repr

/-- What the caller gets, and how often the server was asked. -/
structure Outcome (ε : Type) where
  pin : ResetPin
  passed : List ResetPin
  err : Option (ChainErr ε)
  calls : ℕ
  deriving DecidableEq, Repr

/-- Two resets of one epoch with different signatures are a fork. -/
def indexPage (page : List Reset) : Option (Int → Option Reset) :=
  page.foldlM (fun byOld r =>
    if (byOld r.oldEpoch).any (·.signature ≠ r.signature) then none
    else some (update byOld r.oldEpoch (some r))) fun _ => none

variable [Signatures] {ε : Type}

/-- What a reader knows of the device. -/
structure Reader where
  key : Bytes
  server : String
  principal : String
  device : String

def Reader.accepts (reader : Reader) (pin : ResetPin) (r : Reset) : Bool :=
  r.verify reader.key reader.server reader.principal reader.device pin.epoch pin.identity
    pin.signing

/-- The loop over one page. Every round adds one to the epoch, so `n` counts the rounds that are
left before the target. -/
def advance (reader : Reader) (byOld : Int → Option Reset) :
    ℕ → ResetPin → List ResetPin → Option (ResetPin × List ResetPin)
  | 0, cur, passed => some (cur, passed)
  | n + 1, cur, passed =>
    match byOld cur.epoch with
    | none => some (cur, passed)
    | some r =>
      if reader.accepts cur r then advance reader byOld n r.pin (passed ++ [cur]) else none

/-- The loop over the pages, `remaining` of which may still be asked for. -/
def chainLoop (reader : Reader) (start target : ResetPin)
    (fetch : ℕ → Int → Except ε (List Reset)) : ℕ → ℕ → ResetPin → List ResetPin → Outcome ε
  | remaining, pages, cur, passed =>
    if cur.epoch < target.epoch then
      match remaining with
      | 0 => ⟨start, [], some .invalid, pages⟩
      | remaining + 1 =>
        match fetch pages cur.epoch with
        | .error e => ⟨start, [], some (.fetch e), pages + 1⟩
        | .ok page =>
          match indexPage page with
          | none => ⟨start, [], some .invalid, pages + 1⟩
          | some byOld =>
            match advance reader byOld (target.epoch - cur.epoch).toNat cur passed with
            | none => ⟨start, [], some .invalid, pages + 1⟩
            | some (next, passed) =>
              if next.epoch = cur.epoch then ⟨start, [], some .invalid, pages + 1⟩
              else chainLoop reader start target fetch remaining (pages + 1) next passed
    else if cur.epoch ≠ target.epoch ∨ cur.identity ≠ target.identity ∨
        (target.signing ≠ "" ∧ cur.signing ≠ target.signing) then
      ⟨start, [], some .invalid, pages⟩
    else ⟨cur, passed, none, pages⟩

def verifyResetChain (reader : Reader) (start target : ResetPin)
    (fetch : ℕ → Int → Except ε (List Reset)) : Outcome ε :=
  if target.epoch ≤ start.epoch then ⟨start, [], some .invalid, 0⟩
  else chainLoop reader start target fetch maxResetChainPages 0 start []

/-! ### Chains -/

/-- Resets that lead from a pin to another, each accepted from the pin before it. -/
inductive Leads (reader : Reader) : ResetPin → List Reset → ResetPin → Prop
  | nil (pin : ResetPin) : Leads reader pin [] pin
  | cons {pin pin' : ResetPin} {r : Reset} {resets : List Reset} (h : reader.accepts pin r = true)
      (hrs : Leads reader r.pin resets pin') : Leads reader pin (r :: resets) pin'

/-- The pins on the way. -/
def passing (pin : ResetPin) : List Reset → List ResetPin
  | [] => []
  | r :: resets => pin :: passing r.pin resets

variable {reader : Reader} {p q cur next start target goal : ResetPin} {resets' : List Reset}
  {byOld : Int → Option Reset} {n : ℕ} {passed : List ResetPin}

theorem Reader.epoch_of_accepts {pin : ResetPin} {r : Reset} (h : reader.accepts pin r = true) :
    r.oldEpoch = pin.epoch ∧ 0 ≤ pin.epoch := by
  have hone := (Reset.epochs_of_verify h).1.1
  exact ⟨(Reset.origin_of_verify h).2, by omega⟩

variable {resets : List Reset}

section

variable (h : Leads reader p resets q)

include h

/-- Nothing leads away from a negative epoch, the one after the largest. -/
theorem Leads.nonneg (hq : 0 ≤ q.epoch) : 0 ≤ p.epoch := by
  cases h with
  | nil => exact hq
  | cons ha _ => exact (Reader.epoch_of_accepts ha).2

/-- A chain that rises starts with a reset. -/
theorem Leads.nonneg_of_lt (hlt : p.epoch < q.epoch) : 0 ≤ q.epoch := by
  cases h with
  | nil => exact absurd hlt (Int.lt_irrefl _)
  | cons ha _ =>
    exact Int.le_trans (Reader.epoch_of_accepts ha).2 (Int.le_of_lt hlt)

theorem Leads.append {q' : ResetPin} (h' : Leads reader q resets' q') :
    Leads reader p (resets ++ resets') q' := by
  induction h with
  | nil => exact h'
  | cons ha _ ih => exact .cons ha (ih h')

/-- Epochs are consecutive along a chain. -/
theorem Leads.epoch (hq : 0 ≤ q.epoch) : q.epoch = p.epoch + resets.length := by
  induction h with
  | nil => simp
  | cons ha hrs ih =>
    have hnx : (Reset.pin _).epoch = _ := Reset.newEpoch_of_verify ha (hrs.nonneg hq)
    rw [ih hq, hnx, length_cons]
    omega

theorem passing_append : passing p (resets ++ resets') = passing p resets ++ passing q resets' := by
  induction h with
  | nil => rfl
  | cons _ _ ih => rw [cons_append, passing, ih, passing, cons_append]

/-- Along a chain epochs grow, from that of the first pin to that of the last. -/
theorem Leads.sorted (hq : 0 ≤ q.epoch) : resets.Pairwise (·.oldEpoch < ·.oldEpoch) ∧
      ∀ r ∈ resets, p.epoch ≤ r.oldEpoch ∧ r.oldEpoch < q.epoch := by
  induction h with
  | nil => exact ⟨.nil, by simp⟩
  | cons ha hrs ih =>
    obtain ⟨hold, -⟩ := Reader.epoch_of_accepts ha
    have hnx : (Reset.pin _).epoch = _ := Reset.newEpoch_of_verify ha (hrs.nonneg hq)
    have hla := hrs.epoch hq
    have ih := ih hq
    refine ⟨pairwise_cons.mpr ⟨fun r hr => ?_, ih.1⟩, ?_⟩
    · have := (ih.2 r hr).1
      omega
    rw [forall_mem_cons]
    refine ⟨⟨by omega, by omega⟩, fun r hr => ?_⟩
    have := ih.2 r hr
    omega

theorem Leads.server : ∀ r ∈ resets, r.server = reader.server := by
  induction h with
  | nil => simp
  | cons ha _ ih => exact forall_mem_cons.mpr ⟨(Reset.origin_of_verify ha).1, ih⟩

/-- The resets from an epoch on are the end of the chain. -/
theorem Leads.filter_eq_drop (hq : 0 ≤ q.epoch) (k : ℕ) :
    resets.filter (fun r => decide (p.epoch + k ≤ r.oldEpoch)) = resets.drop k := by
  induction h generalizing k with
  | nil => simp
  | @cons p q r resets ha hrs ih =>
    obtain ⟨hold, -⟩ := Reader.epoch_of_accepts ha
    cases k with
    | zero =>
      refine filter_eq_self.mpr fun r' hr' => decide_eq_true ?_
      have haft := (((Leads.cons ha hrs).sorted hq).2 r' hr').1
      omega
    | succ k =>
      have hnx : r.pin.epoch = p.epoch + 1 :=
        Reset.newEpoch_of_verify ha (hrs.nonneg hq)
      rw [filter_cons_of_neg (by rw [decide_eq_true_eq]; omega), drop_succ_cons, ← ih hq k]
      refine filter_congr fun r' _ => ?_
      rw [hnx, decide_eq_decide]
      omega

end

/-! ### Soundness -/

variable {passed' : List ResetPin}

theorem advance_sound (h : advance reader byOld n cur passed = some (next, passed')) :
    ∃ resets, Leads reader cur resets next ∧ passed' = passed ++ passing cur resets := by
  induction n generalizing cur passed with
  | zero =>
    obtain ⟨rfl, rfl⟩ := Prod.mk.inj (Option.some.inj h)
    exact ⟨[], .nil _, (append_nil _).symm⟩
  | succ n ih =>
    rw [advance] at h
    split at h
    · obtain ⟨rfl, rfl⟩ := Prod.mk.inj (Option.some.inj h)
      exact ⟨[], .nil _, (append_nil _).symm⟩
    rename_i r _
    split at h
    · rename_i ha
      obtain ⟨resets, hl, hps⟩ := ih h
      refine ⟨r :: resets, .cons ha hl, ?_⟩
      rw [hps, append_assoc, passing, singleton_append]
    · simp at h

/-- A success is reached by a chain, and a failure returns what there was. -/
structure Outcome.Sound (reader : Reader) (start target : ResetPin) (out : Outcome ε) : Prop where
  success : out.err = none → ∃ resets, Leads reader start resets out.pin ∧
    out.passed = passing start resets ∧ out.pin.epoch = target.epoch ∧
    out.pin.identity = target.identity ∧ (target.signing = "" ∨ out.pin.signing = target.signing)
  failure : out.err ≠ none → out.pin = start ∧ out.passed = []

theorem Outcome.sound_failure (reader : Reader) (start target : ResetPin) (e : ChainErr ε)
    (calls : ℕ) : Outcome.Sound reader start target ⟨start, [], some e, calls⟩ where
  success h := absurd h (by simp)
  failure _ := ⟨rfl, rfl⟩

/-- A state of the loop, with the chain so far. -/
def Follows (reader : Reader) (start cur : ResetPin) (passed : List ResetPin) : Prop :=
  ∃ resets, Leads reader start resets cur ∧ passed = passing start resets

theorem Follows.advance (h : Follows reader start cur passed)
    (hadv : Directory.advance reader byOld n cur passed = some (next, passed')) :
    Follows reader start next passed' := by
  obtain ⟨resets, hl, rfl⟩ := h
  obtain ⟨more, hmo, rfl⟩ := advance_sound hadv
  exact ⟨resets ++ more, hl.append hmo, (passing_append hl).symm⟩

variable {fetch : ℕ → Int → Except ε (List Reset)} {remaining pages : ℕ}

/-- At the epoch of the target it is compared. -/
theorem chainLoop_of_not_lt (h : ¬ cur.epoch < target.epoch) :
    chainLoop reader start target fetch remaining pages cur passed =
      if cur.epoch ≠ target.epoch ∨ cur.identity ≠ target.identity ∨
        (target.signing ≠ "" ∧ cur.signing ≠ target.signing) then ⟨start, [], some .invalid, pages⟩
      else ⟨cur, passed, none, pages⟩ := by
  cases remaining with
  | zero => rw [chainLoop, if_neg h]
  | succ remaining => rw [chainLoop, if_neg h]

theorem chainLoop_end (hf : Follows reader start cur passed) (hend : ¬ cur.epoch < target.epoch) :
    (chainLoop reader start target fetch remaining pages cur passed).Sound reader start target ∧
      (chainLoop reader start target fetch remaining pages cur passed).calls ≤
        pages + remaining := by
  rw [chainLoop_of_not_lt hend]
  split
  · exact ⟨Outcome.sound_failure .., Nat.le_add_right _ _⟩
  rename_i hsm
  simp only [not_or, not_not, not_and] at hsm
  obtain ⟨resets, hl, hps⟩ := hf
  refine ⟨⟨fun _ => ⟨resets, hl, hps, hsm.1, hsm.2.1, ?_⟩, fun herr => absurd rfl herr⟩,
    Nat.le_add_right _ _⟩
  by_cases hs : target.signing = ""
  · exact .inl hs
  · exact .inr (hsm.2.2 hs)

variable (fetch) in
theorem chainLoop_sound (remaining pages : ℕ) (hf : Follows reader start cur passed) :
    (chainLoop reader start target fetch remaining pages cur passed).Sound reader start target ∧
      (chainLoop reader start target fetch remaining pages cur passed).calls ≤
        pages + remaining := by
  induction remaining generalizing pages cur passed with
  | zero =>
    by_cases hlt : cur.epoch < target.epoch
    · rw [chainLoop, if_pos hlt]
      exact ⟨Outcome.sound_failure .., le_rfl⟩
    · exact chainLoop_end hf hlt
  | succ remaining ih =>
    by_cases hlt : cur.epoch < target.epoch
    · have hc : pages + 1 ≤ pages + (remaining + 1) := by omega
      rw [chainLoop, if_pos hlt]
      split
      · exact ⟨Outcome.sound_failure .., hc⟩
      split
      · exact ⟨Outcome.sound_failure .., hc⟩
      split
      · exact ⟨Outcome.sound_failure .., hc⟩
      rename_i next passed' hadv
      split
      · exact ⟨Outcome.sound_failure .., hc⟩
      · obtain ⟨hsnd, hmo⟩ := ih (pages + 1) (hf.advance hadv)
        exact ⟨hsnd, by omega⟩
    · exact chainLoop_end hf hlt

theorem verifyResetChain_sound (reader : Reader) (start target : ResetPin)
    (fetch : ℕ → Int → Except ε (List Reset)) :
    (verifyResetChain reader start target fetch).Sound reader start target ∧
      (verifyResetChain reader start target fetch).calls ≤ maxResetChainPages := by
  unfold verifyResetChain
  split
  · exact ⟨Outcome.sound_failure .., Nat.zero_le _⟩
  · have hstr : Follows reader start start [] := ⟨[], .nil start, rfl⟩
    obtain ⟨hsnd, hc⟩ := chainLoop_sound fetch maxResetChainPages 0 hstr
    exact ⟨hsnd, by omega⟩

/-! ### Completeness -/

/-- Resets in a page. -/
def pageSize : ℕ := 32

theorem Leads.split (h : Leads reader p (resets ++ resets') q) :
    ∃ m, Leads reader p resets m ∧ Leads reader m resets' q := by
  induction resets generalizing p with
  | nil => exact ⟨p, .nil p, h⟩
  | cons r resets ih =>
    cases h with
    | cons ha hrs =>
      obtain ⟨m, hfst, hla⟩ := ih hrs
      exact ⟨m, .cons ha hfst, hla⟩

variable {page : List Reset}

omit [Signatures] in
/-- A page without forks is indexed by its epochs. -/
theorem indexPage_of_sorted (h : page.Pairwise (·.oldEpoch < ·.oldEpoch)) :
    ∃ byOld, indexPage page = some byOld ∧ (∀ r ∈ page, byOld r.oldEpoch = some r) ∧
      ∀ e, (∀ r ∈ page, r.oldEpoch ≠ e) → byOld e = none := by
  have hfl : ∀ (page : List Reset) (start : Int → Option Reset),
      page.Pairwise (·.oldEpoch < ·.oldEpoch) → (∀ r ∈ page, start r.oldEpoch = none) →
      ∃ byOld, (page.foldlM (fun byOld r =>
        if (byOld r.oldEpoch).any (·.signature ≠ r.signature) then none
        else some (update byOld r.oldEpoch (some r))) start) = some byOld ∧
        (∀ r ∈ page, byOld r.oldEpoch = some r) ∧
        ∀ e, (∀ r ∈ page, r.oldEpoch ≠ e) → byOld e = start e := by
    intro page
    induction page with
    | nil => exact fun start _ _ => ⟨start, rfl, by simp, fun _ _ => rfl⟩
    | cons r page ih =>
      intro start hsrt hnew
      rw [pairwise_cons] at hsrt
      rw [forall_mem_cons] at hnew
      have hoth : ∀ r' ∈ page, r'.oldEpoch ≠ r.oldEpoch := by
        intro r' hr' heq
        have hlat := hsrt.1 r' hr'
        omega
      obtain ⟨byOld, hrs, hin, ho⟩ := ih (update start r.oldEpoch (some r)) hsrt.2
        fun r' hr' => (update_of_ne (hoth r' hr') _ _).trans (hnew.2 r' hr')
      refine ⟨byOld, ?_, forall_mem_cons.mpr ⟨?_, hin⟩, fun e he => ?_⟩
      · rw [foldlM_cons, hnew.1]
        exact hrs
      · rw [ho r.oldEpoch hoth, update_self]
      · rw [forall_mem_cons] at he
        rw [ho e he.2, update_of_ne he.1.symm]
  exact hfl page (fun _ => none) h (fun _ _ => rfl)

/-- A page leads to its end, where the loop stops. -/
theorem advance_complete (passed : List ResetPin)
    (h : Leads reader cur page next) (hin : ∀ r ∈ page, byOld r.oldEpoch = some r)
    (hn : page.length ≤ n) (hsp : byOld next.epoch = none) :
    advance reader byOld n cur passed = some (next, passed ++ passing cur page) := by
  induction h generalizing n passed with
  | nil =>
    rw [passing, append_nil]
    cases n with
    | zero => rfl
    | succ n => rw [advance, hsp]
  | cons ha _ ih =>
    rw [forall_mem_cons] at hin
    obtain ⟨n, rfl⟩ : ∃ m, n = m + 1 := ⟨n - 1, by simp at hn; omega⟩
    have hfnd := hin.1
    rw [(Reader.epoch_of_accepts ha).1] at hfnd
    rw [advance, hfnd]
    dsimp only
    rw [if_pos ha, ih _ hin.2 (by simpa using hn) hsp, passing, append_assoc, singleton_append]

section

variable (hep : goal.epoch = target.epoch) (hi : goal.identity = target.identity)
  (hs : target.signing = "" ∨ goal.signing = target.signing)

include hep hi hs

theorem chainLoop_goal (hl : Leads reader cur [] goal) :
    (chainLoop reader start target fetch remaining pages cur passed).err = none ∧
      (chainLoop reader start target fetch remaining pages cur passed).pin = goal := by
  cases hl
  rw [chainLoop_of_not_lt (by omega), if_neg]
  · exact ⟨rfl, rfl⟩
  rintro (h | h | ⟨hgiv, h⟩)
  · exact h hep
  · exact h hi
  · exact h (hs.resolve_left hgiv)

/-- Pages of a chain, in its order, lead along it. -/
theorem chainLoop_complete (hgl : 0 ≤ goal.epoch) (hser : ∀ pages k, k ≤ resets.length →
      fetch pages (start.epoch + k) = .ok ((resets.drop k).take pageSize))
    (remaining pages k : ℕ) (passed : List ResetPin) (hk : k ≤ resets.length)
    (hcur : cur.epoch = start.epoch + k)
    (hl : Leads reader cur (resets.drop k) goal)
    (hrem : resets.length ≤ k + pageSize * remaining) :
    (chainLoop reader start target fetch remaining pages cur passed).err = none ∧
      (chainLoop reader start target fetch remaining pages cur passed).pin = goal := by
  induction remaining generalizing pages k cur passed with
  | zero =>
    obtain rfl : k = resets.length := by omega
    exact chainLoop_goal hep hi hs (drop_length ▸ hl)
  | succ remaining ih =>
    by_cases hend : k = resets.length
    · subst hend
      exact chainLoop_goal hep hi hs (drop_length ▸ hl)
    -- the next page, and the chain after it
    set page := (resets.drop k).take pageSize with hpg
    have hlen : page.length = min pageSize (resets.length - k) := by
      rw [hpg, length_take, length_drop]
    have hspl : resets.drop k = page ++ resets.drop (k + page.length) := by
      have hta : (resets.drop k).take page.length = page := by
        rw [hlen, ← length_drop, ← take_eq_take_min]
      rw [← drop_drop]
      nth_rewrite 1 [← hta]
      exact (take_append_drop page.length _).symm
    have hla := hl.epoch hgl
    rw [length_drop] at hla
    rw [hspl] at hl
    obtain ⟨next, hfst, hrs⟩ := hl.split
    have hpin := hrs.nonneg hgl
    have hnx := hfst.epoch hpin
    obtain ⟨hsrt, hbds⟩ := hfst.sorted hpin
    obtain ⟨byOld, hix, hin, ho⟩ := indexPage_of_sorted hsrt
    have hrn : (target.epoch - cur.epoch).toNat = resets.length - k := by omega
    have hsp : byOld next.epoch = none := by
      refine ho _ fun r hr heq => ?_
      have hbef := (hbds r hr).2
      omega
    have hpos : 0 < page.length := by
      rw [hlen, pageSize]
      omega
    rw [chainLoop, if_pos (by omega), hcur, hser pages k hk]
    dsimp only
    rw [← hpg, hix]
    dsimp only
    rw [← hcur, hrn, advance_complete passed hfst hin (by omega) hsp]
    dsimp only
    rw [if_neg (by omega)]
    refine ih (pages + 1) (k + page.length) _ (by omega) (by omega) hrs ?_
    rw [pageSize] at hlen hrem ⊢
    omega

end

end Noxa.Directory

import Mathlib.Logic.Function.Iterate

/-!
# The media worker's key ring

The worker holds, for each publication, the keys of a few epochs, the epoch it encrypts under and
the highest epoch it has retired (`media-e2ee-core.js`, `key`, `activate`, `retire`, `retireOne`
and `forget`). It executes its commands in the order they are posted, so a command is a function of
its state. Only the local session's publications are modelled: the four sender slots, and the same
slots under the session's own client ID, which decrypt its echo.

Key material is symbolic: the random draw it comes from, and how often `ratchetKeys` was applied.

## Main definitions

* `Keys`, `ratchetKeys` — the keys of an epoch and of its successor
* `Ring` — the state of one publication; the active epoch is among those held
* `Ring.key`, `Ring.activate`, `Ring.retireEpoch`, `Ring.retire`, `Ring.forget` — the commands
* `Worker.active` — the epoch a sender slot encrypts under, or zero

## Main results

* `Ring.Shrinks` — what a command other than `activate` can do to a ring
* `Ring.retireEpoch_active` — a retired epoch is not encrypted under
* `Ring.activate_eq_some` — what `activate` needs and does
* `Worker.post_holds` — what a command adds
-/

namespace Noxa.Media

open Function

inductive Slot where
  | mic
  | cam
  | screen
  | screenaudio
  deriving DecidableEq, Repr

def slots : List Slot :=
  [.mic, .cam, .screen, .screenaudio]

theorem mem_slots (slot : Slot) : slot ∈ slots := by
  cases slot <;> decide

/-- A publication of the local session, as it is sent or as it comes back. -/
inductive Pid where
  | sender (slot : Slot)
  | publication (slot : Slot)
  deriving DecidableEq, Repr

structure Keys where
  root : ℕ
  steps : ℕ
  deriving DecidableEq, Repr

/-- The successor keys, by a one-way function. -/
def ratchetKeys (k : Keys) : Keys :=
  { k with steps := k.steps + 1 }

theorem iterate_ratchetKeys (n : ℕ) (k : Keys) :
    ratchetKeys^[n] k = { k with steps := k.steps + n } := by
  induction n generalizing k with
  | zero => rfl
  | succ n ih => simp [ih, ratchetKeys, Nat.add_comm 1 n, Nat.add_assoc]

/-- A key the worker holds. -/
structure Held where
  epoch : ℕ
  kid : ℕ
  keys : Keys
  deriving DecidableEq, Repr

/-- How many epochs of a publication the worker holds. -/
def maxLiveEpochs : ℕ := 4

/-- The worker's state for one publication. `active` is zero when it encrypts nothing. A publication
that is not `known` has a retired mark at most. -/
structure Ring where
  epochs : List Held
  active : ℕ
  retired : ℕ
  known : Bool
  active_held : active = 0 ∨ ∃ h ∈ epochs, h.epoch = active

namespace Ring

def empty : Ring := ⟨[], 0, 0, false, .inl rfl⟩

def Holds (r : Ring) (epoch : ℕ) : Prop :=
  ∃ h ∈ r.epochs, h.epoch = epoch

instance (r : Ring) (epoch : ℕ) : Decidable (r.Holds epoch) :=
  inferInstanceAs (Decidable (∃ h ∈ r.epochs, h.epoch = epoch))

/-- `retireEpoch`: an epoch that is not held is left alone. -/
def retireEpoch (r : Ring) (epoch : ℕ) : Ring :=
  if r.Holds epoch then
    { epochs := r.epochs.filter (·.epoch ≠ epoch)
      active := if r.active = epoch then 0 else r.active
      retired := max r.retired epoch
      known := r.known
      active_held := by
        split
        · exact .inl rfl
        rename_i hne
        refine r.active_held.imp_right ?_
        rintro ⟨h, hh, he⟩
        exact ⟨h, List.mem_filter.mpr ⟨hh, by simp [he, hne]⟩, he⟩ }
  else r

/-- `retire`: every epoch up to `through`. `mark` takes the old mark out before it looks for the
higher one, so the mark of a publication that is not known may become lower. -/
def retire (r : Ring) (through : ℕ) : Ring :=
  let r := (r.epochs.filter (·.epoch ≤ through)).foldl (fun r h => r.retireEpoch h.epoch) r
  { r with
    retired := if r.known || through = 0 then max r.retired through else through }

/-- `forget`: the retired mark outlives the publication. -/
def forget (r : Ring) : Ring :=
  { epochs := []
    active := 0
    retired := (r.epochs.foldl (fun r h => r.retireEpoch h.epoch) r).retired
    known := false
    active_held := .inl rfl }

/-- The loop that makes room for a further epoch: the lowest epoch goes until there is room. -/
def makeRoom : ℕ → Ring → Ring
  | 0, r => r
  | fuel + 1, r =>
    if maxLiveEpochs ≤ r.epochs.length then
      match (r.epochs.map Held.epoch).min? with
      | some low => makeRoom fuel (r.retireEpoch low)
      | none => r
    else r

def install (r : Ring) (h : Held) : Ring :=
  { r with
    epochs := r.epochs ++ [h]
    known := true
    active_held := r.active_held.imp_right fun ⟨g, hg, he⟩ => ⟨g, List.mem_append_left _ hg, he⟩ }

/-- `key`: rejected (`none`) for a retired epoch, for other keys of an epoch that is held, and for a
key slot that a newer epoch holds. The epochs that held the slot retire. -/
def key (r : Ring) (h : Held) : Option Ring :=
  if h.epoch ≤ r.retired then none
  else
    match r.epochs.find? (·.epoch = h.epoch) with
    | some old => if old.keys = h.keys ∧ old.kid = h.kid then some r else none
    | none =>
      if r.epochs.any fun old => old.kid = h.kid && h.epoch < old.epoch then none
      else
        let r := (r.epochs.filter (·.kid = h.kid)).foldl (fun r old => r.retireEpoch old.epoch) r
        some ((makeRoom r.epochs.length r).install h)

/-- `activate`: rejected for an unknown epoch and for one older than the active one. -/
def activate (r : Ring) (epoch : ℕ) : Option Ring :=
  if h : r.Holds epoch then
    if r.active ≠ 0 ∧ epoch < r.active then none
    else some { r with active := epoch, active_held := .inr h }
  else none

/-! ## What the commands do -/

section

variable {a b c r r' : Ring} {h : Held}

/-- `r'` encrypts as `r` does or not at all, and holds nothing that `r` does not. -/
structure Shrinks (r r' : Ring) : Prop where
  active : r'.active = r.active ∨ r'.active = 0
  holds : ∀ epoch, r'.Holds epoch → r.Holds epoch

theorem Shrinks.refl (r : Ring) : Shrinks r r := ⟨.inl rfl, fun _ h => h⟩

theorem Shrinks.trans (hab : Shrinks a b) (hbc : Shrinks b c) : Shrinks a c := by
  refine ⟨?_, fun e h => hab.holds e (hbc.holds e h)⟩
  rcases hbc.active with h | h
  · rw [h]
    exact hab.active
  · exact .inr h

/-- `r'` lost epochs, which are retired now. -/
structure Trims (r r' : Ring) : Prop where
  sub : r'.epochs.Sublist r.epochs
  active : r'.active = r.active ∨ r'.active = 0 ∧ ¬ r'.Holds r.active
  covered : ∀ h ∈ r.epochs, h ∈ r'.epochs ∨ h.epoch ≤ r'.retired
  retired : r.retired ≤ r'.retired
  exact : (∀ h ∈ r.epochs, h ∈ r'.epochs) → r'.retired = r.retired
  known : r'.known = r.known

namespace Trims

theorem refl (r : Ring) : Trims r r :=
  ⟨.refl _, .inl rfl, fun _ h => .inl h, Nat.le_refl _, fun _ => rfl, rfl⟩

theorem holds (h : Trims r r') {e : ℕ} : r'.Holds e → r.Holds e := by
  rintro ⟨g, hg, he⟩
  exact ⟨g, h.sub.subset hg, he⟩

theorem shrinks (h : Trims r r') : Shrinks r r' :=
  ⟨h.active.imp_right And.left, fun _ => h.holds⟩

theorem trans (hab : Trims a b) (hbc : Trims b c) : Trims a c where
  sub := hbc.sub.trans hab.sub
  active := by
    rcases hab.active with hb | ⟨hb, hno⟩
    · rw [← hb]
      exact hbc.active
    · refine .inr ⟨?_, fun hc => hno (hbc.holds hc)⟩
      rcases hbc.active with hc | ⟨hc, -⟩
      · rw [hc, hb]
      · exact hc
  covered h hh := by
    rcases hab.covered h hh with hb | hb
    · exact hbc.covered h hb
    · exact .inr (Nat.le_trans hb hbc.retired)
  retired := Nat.le_trans hab.retired hbc.retired
  exact h := (hbc.exact fun g hg => h g (hab.sub.subset hg)).trans
    (hab.exact fun g hg => hbc.sub.subset (h g hg))
  known := hbc.known.trans hab.known

end Trims

variable (r) (epoch fuel : ℕ) (l : List Held)

theorem retireEpoch_epochs : (r.retireEpoch epoch).epochs = r.epochs.filter (·.epoch ≠ epoch) := by
  unfold retireEpoch
  split
  · rfl
  · next hno =>
    refine (List.filter_eq_self.mpr fun h hh => ?_).symm
    simpa using fun he => hno ⟨h, hh, he⟩

theorem retireEpoch_not_holds : ¬ (r.retireEpoch epoch).Holds epoch := by
  rintro ⟨h, hh, he⟩
  rw [retireEpoch_epochs] at hh
  simp [he] at hh

theorem retireEpoch_trims : Trims r (r.retireEpoch epoch) := by
  by_cases hhd : r.Holds epoch
  case neg =>
    rw [retireEpoch, if_neg hhd]
    exact .refl r
  refine ⟨retireEpoch_epochs r epoch ▸ List.filter_sublist, ?_, fun h hh => ?_, ?_,
    fun hall => ?_, ?_⟩
  · by_cases ha : r.active = epoch
    · exact .inr ⟨by simp [retireEpoch, hhd, ha], ha ▸ r.retireEpoch_not_holds r.active⟩
    · exact .inl (by simp [retireEpoch, hhd, ha])
  all_goals rw [retireEpoch, if_pos hhd]
  · by_cases he : h.epoch = epoch
    · exact .inr (he ▸ Nat.le_max_right _ _)
    · exact .inl (List.mem_filter.mpr ⟨hh, decide_eq_true he⟩)
  · exact Nat.le_max_left _ _
  · obtain ⟨h, hh, he⟩ := hhd
    have hin := hall h hh
    rw [retireEpoch_epochs] at hin
    simp [he] at hin

theorem retireEpoch_shrinks : Shrinks r (r.retireEpoch epoch) := (r.retireEpoch_trims epoch).shrinks

/-- A retired epoch is not encrypted under. -/
theorem retireEpoch_active {r : Ring} {epoch : ℕ} (h : (r.retireEpoch epoch).active = epoch) :
    epoch = 0 := by
  rcases (r.retireEpoch epoch).active_held with h0 | hhd
  · exact h.symm.trans h0
  · rw [h] at hhd
    exact absurd hhd (r.retireEpoch_not_holds epoch)

theorem foldl_retireEpoch_trims : Trims r (l.foldl (fun r h => r.retireEpoch h.epoch) r) := by
  induction l generalizing r with
  | nil => exact .refl r
  | cons h l ih => exact (r.retireEpoch_trims h.epoch).trans (ih _)

theorem foldl_retireEpoch_epochs : (l.foldl (fun r h => r.retireEpoch h.epoch) r).epochs =
    r.epochs.filter fun h => l.all (·.epoch ≠ h.epoch) := by
  induction l generalizing r with
  | nil => exact (List.filter_eq_self.mpr fun _ _ => rfl).symm
  | cons g l ih =>
    rw [List.foldl_cons, ih, retireEpoch_epochs, List.filter_filter]
    exact List.filter_congr fun h _ => by simp [Bool.and_comm, eq_comm]

theorem retire_shrinks (through : ℕ) : Shrinks r (r.retire through) := by
  have h := (r.foldl_retireEpoch_trims (r.epochs.filter (·.epoch ≤ through))).shrinks
  exact ⟨h.active, h.holds⟩

theorem makeRoom_trims : Trims r (makeRoom fuel r) := by
  induction fuel generalizing r with
  | zero => exact .refl r
  | succ fuel ih =>
    unfold makeRoom
    split
    · split
      · exact (r.retireEpoch_trims _).trans (ih _)
      · exact .refl r
    · exact .refl r

variable {r}

/-- A new key is for an epoch above what is retired, and comes after epochs have made room for
it. -/
theorem key_cases (hk : r.key h = some r') : r' = r ∨ r.retired < h.epoch ∧ ¬ r.Holds h.epoch ∧
    ∃ q, Trims r q ∧ (∀ g ∈ q.epochs, g.kid ≠ h.kid) ∧
      r' = (makeRoom q.epochs.length q).install h := by
  unfold key at hk
  split at hk
  · cases hk
  rename_i hret
  split at hk
  · split at hk
    · cases hk
      exact .inl rfl
    · cases hk
  rename_i hno
  split at hk
  · cases hk
  simp only [Option.some.injEq] at hk
  refine .inr ⟨Nat.lt_of_not_le hret, ?_, _, r.foldl_retireEpoch_trims _, fun g hg hkid => ?_,
    hk.symm⟩
  · rintro ⟨g, hg, he⟩
    simpa [he] using List.find?_eq_none.mp hno g hg
  · rw [foldl_retireEpoch_epochs, List.mem_filter, List.all_eq_true] at hg
    simpa using hg.2 g (List.mem_filter.mpr ⟨hg.1, decide_eq_true hkid⟩)

/-- A new key changes the active epoch only by retiring it, and adds only its own epoch. -/
theorem key_eq_some (hk : r.key h = some r') : (r'.active = r.active ∨ r'.active = 0) ∧
      ∀ epoch, r'.Holds epoch → r.Holds epoch ∨ epoch = h.epoch := by
  rcases key_cases hk with rfl | ⟨-, -, q, htrm, -, rfl⟩
  · exact ⟨.inl rfl, fun _ => .inl⟩
  have hrm := (htrm.trans (q.makeRoom_trims q.epochs.length)).shrinks
  refine ⟨hrm.active, ?_⟩
  rintro epoch ⟨g, hg, he⟩
  rcases List.mem_append.mp hg with hg | hg
  · exact .inl (hrm.holds epoch ⟨g, hg, he⟩)
  · rw [List.mem_singleton.mp hg] at he
    exact .inr he.symm

end

/-- `activate` needs the epoch to be held, and changes nothing but the active epoch. -/
theorem activate_eq_some {r r' : Ring} {epoch : ℕ} (h : r.activate epoch = some r') :
    r.Holds epoch ∧ r'.active = epoch ∧ r'.epochs = r.epochs := by
  unfold activate at h
  split at h
  · rename_i hhd
    split at h
    · cases h
    · cases h
      exact ⟨hhd, rfl, rfl⟩
  · cases h

end Ring

/-- The worker: one ring for each publication. -/
abbrev Worker := Pid → Ring

namespace Worker

def empty : Worker := fun _ => Ring.empty

/-- The epoch a sender slot encrypts under. -/
def active (w : Worker) (slot : Slot) : ℕ := (w (.sender slot)).active

/-- A command to one publication, and whether the worker accepts it. A request that is `lost` is
rejected without reaching the worker. -/
def post (w : Worker) (lost : Bool) (pid : Pid) (command : Ring → Option Ring) : Worker × Bool :=
  if lost then (w, false)
  else
    match command (w pid) with
    | some r => (update w pid r, true)
    | none => (w, false)

/-- A command to every publication of the local session. -/
def each (w : Worker) (command : Ring → Ring) : Worker := fun pid => command (w pid)

/-- What a command did: it was rejected and changed nothing, or it changed its own publication. -/
theorem post_cases (w : Worker) (lost : Bool) (pid : Pid) (command : Ring → Option Ring) :
    w.post lost pid command = (w, false) ∨ ∃ r, command (w pid) = some r ∧
        w.post lost pid command = (update w pid r, true) := by
  unfold post
  split
  · exact .inl rfl
  · split
    · exact .inr ⟨_, ‹_›, rfl⟩
    · exact .inl rfl

/-- What a publication holds after a command that adds nothing but what `P` allows. -/
theorem post_holds {w : Worker} {lost : Bool} {pid : Pid} {command : Ring → Option Ring}
    {P : ℕ → Prop}
    (hcmd : ∀ r, command (w pid) = some r → ∀ e, r.Holds e → (w pid).Holds e ∨ P e)
    {q : Pid} {e : ℕ} (h : ((w.post lost pid command).1 q).Holds e) : (w q).Holds e ∨ P e := by
  rcases w.post_cases lost pid command with hps | ⟨r, hr, hps⟩
  · rw [hps] at h
    exact .inl h
  rw [hps] at h
  by_cases hq : q = pid
  · subst hq
    simp only [update_self] at h
    exact hcmd r hr e h
  · simp only [update_of_ne hq] at h
    exact .inl h

end Worker

end Noxa.Media

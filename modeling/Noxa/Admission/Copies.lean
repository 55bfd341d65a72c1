import Noxa.Lib.Index
import Noxa.Lib.Table
import Noxa.Admission.Manifest

/-!
# The copies of a manifest

What a valid manifest promises about its rosters and targets, and that the parts it describes hold
exactly one copy for every target but the local one.

## Main results

* `Manifest.targets_nodup` — a device is named once
* `controlTarget_eq_some` — the two targets of a control
* `openParts_perm` — the copies are those of the targets, each once
-/

namespace Noxa.Admission

open Directory

open List
open scoped List

/-- What the copy of a target is addressed to. -/
def Target.address (t : Target) : String × String × Int := (t.principal, t.device, t.accountEpoch)

def Copy.address (c : Copy) : String × String × Int := (c.principal, c.device, c.accountEpoch)

variable {ts : List Target}

theorem targetsOK_nodup {m : Manifest} {seen : List String}
    (h : targetsOK m seen ts = true) : (ts.map (·.device)).Nodup ∧ ∀ t ∈ ts, t.device ∉ seen := by
  induction ts generalizing seen with
  | nil => simp
  | cons t ts ih =>
    simp only [targetsOK, Bool.and_eq_true, decide_eq_true_eq] at h
    obtain ⟨⟨⟨-, hnew⟩, -⟩, hrs⟩ := h
    obtain ⟨hnd, hfr⟩ := ih hrs
    exact ((Index.fresh_cons (f := Target.device) (S := (· ∈ seen))).mpr
      ⟨hnew, by simpa using hfr, hnd⟩).symm

/-- The two targets of a control are the named one and the local one. -/
theorem controlTarget_eq_some {m : Manifest} {t : Target} (h : controlTarget m = some t) :
    m.purpose = .control ∧ m.targets.length = 2 ∧ t ∈ m.targets ∧ t.isLocal = false ∧
      t.principal = m.peer := by
  unfold controlTarget at h
  split at h
  · simp at h
  rename_i hkd
  push Not at hkd
  split at h
  · simp at h
  rename_i t' hfd
  split at h
  · rename_i hpr
    cases h
    exact ⟨hkd.1, hkd.2, mem_of_find?_eq_some hfd, by simpa using List.find?_some hfd, hpr⟩
  · simp at h

section Wire

variable [Wire] {m : Manifest}

/-- The parts of `validate` that later proofs use. -/
theorem Manifest.checked (h : m.validate = true) :
    rostersOK [] m.rosters = true ∧ targetsOK m [] m.targets = true ∧
      m.targets.countP (·.isLocal) = 1 := by
  unfold Manifest.validate at h
  simp only [Bool.and_eq_true, decide_eq_true_eq] at h
  obtain ⟨⟨⟨⟨⟨⟨⟨⟨_, hros⟩, _⟩, _⟩, htgs⟩, hloc⟩, _⟩, _⟩, _⟩ := h
  exact ⟨hros, htgs, hloc⟩

theorem Manifest.targets_nodup (h : m.validate = true) : (m.targets.map (·.device)).Nodup :=
  (targetsOK_nodup (m.checked h).2.1).1

theorem Manifest.group_revision (h : m.validate = true) (hsc : m.scope = .group) :
    0 < m.revision := by
  unfold Manifest.validate at h
  simp only [Bool.and_eq_true] at h
  have hv : validScope m = true := h.1.1.1.1.1.1.1.1.2
  simp only [validScope, hsc, decide_eq_true_eq] at hv
  have hsf := hv.2.2.1
  simp only [safe, decide_eq_true_eq] at hsf
  exact hsf.1

theorem Manifest.control_scope (h : m.validate = true)
    (hkd : m.purpose = .control) : m.scope = .direct := by
  unfold Manifest.validate at h
  simp only [Bool.and_eq_true] at h
  have hv : validPurpose m = true := h.1.1.1.1.1.1.1.1.1.2
  simp only [validPurpose, hkd, decide_eq_true_eq] at hv
  exact hv.2.1

/-! ### Copies -/

variable {left : List Target}

/-- The targets that are left and those that got a copy are all there were. -/
theorem takeCopies_perm {cs : List Copy}
    (hnd : (ts.map (·.device)).Nodup) (h : takeCopies m ts cs = some left) :
    (ts.map Target.address).Perm (cs.map Copy.address ++ left.map Target.address) ∧
      (left.map (·.device)).Nodup := by
  induction cs generalizing ts with
  | nil =>
    obtain rfl : ts = left := by simpa [takeCopies] using h
    exact ⟨by simp, hnd⟩
  | cons c cs ih =>
    rw [takeCopies] at h
    split at h
    · simp at h
    rename_i t hfd
    split at h
    · simp at h
    rename_i hok
    push Not at hok
    have hdev : t.device = c.device := by simpa using List.find?_some hfd
    have had : t.address = c.address := by
      simp [Target.address, Copy.address, hdev, hok.1, hok.2.1]
    have hsub : ((ts.filter (·.device ≠ c.device)).map (·.device)).Nodup :=
      hnd.sublist (filter_sublist.map _)
    obtain ⟨hpm, hlf⟩ := ih hsub h
    refine ⟨?_, hlf⟩
    calc ts.map Target.address
      _ ~ (t :: ts.filter (·.device ≠ c.device)).map Target.address :=
        (Table.perm_cons_filter hnd hfd).map _
      _ = c.address :: (ts.filter (·.device ≠ c.device)).map Target.address := by
        rw [map_cons, had]
      _ ~ c.address :: (cs.map Copy.address ++ left.map Target.address) := hpm.cons _

variable {copies : List Copy}

theorem openLoop_perm {parts : List (Part × Bytes)} (hnd : (ts.map (·.device)).Nodup)
    (h : openLoop m ts parts = some (left, copies)) :
    (ts.map Target.address).Perm (copies.map Copy.address ++ left.map Target.address) := by
  induction parts generalizing ts copies with
  | nil =>
    obtain ⟨rfl, rfl⟩ : ts = left ∧ [] = copies := by simpa [openLoop] using h
    simp
  | cons part parts ih =>
    obtain ⟨p, b⟩ := part
    rw [openLoop] at h
    split at h
    · simp at h
    split at h
    · simp at h
    rename_i cs hdec
    split at h
    · simp at h
    rename_i mid hta
    split at h
    · simp at h
    rename_i final rest hrs
    obtain ⟨rfl, rfl⟩ : final = left ∧ cs ++ rest = copies := by simpa using h
    obtain ⟨hfst, hmid⟩ := takeCopies_perm hnd hta
    rw [map_append, append_assoc]
    exact hfst.trans ((ih hmid hrs).append_left _)

/-- **The copies of a manifest are those of its targets but the local one, each once.** -/
theorem openParts_perm {parts : List Bytes}
    (h : openParts m parts = some copies) : m.validate = true ∧ (copies.map Copy.address).Perm
      ((m.targets.filter (!·.isLocal)).map Target.address) := by
  unfold openParts at h
  split at h
  · simp at h
  rename_i hok
  push Not at hok
  split at h
  · simp at h
  rename_i left copies' hlp
  split at h
  · rename_i hlf
    cases h
    have hnd : ((m.targets.filter (!·.isLocal)).map (·.device)).Nodup :=
      (m.targets_nodup hok.1).sublist (filter_sublist.map _)
    have hpm := openLoop_perm hnd hlp
    rw [hlf, map_nil, append_nil] at hpm
    exact ⟨hok.1, hpm.symm⟩
  · simp at h

end Wire

end Noxa.Admission

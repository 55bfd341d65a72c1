import Noxa.Lib.Machine

/-!
# Versioned stores

A machine whose states give every key a version number, and which can be closed for good. While it
is open no step lowers a version. So a version that was once passed is never current again, which
is what makes a comparison of versions a proof that nothing has happened in between.

## Main definitions

* `Versioned` — what a step must keep

## Main results

* `Versioned.run_open` — a run that ends open was open, and lowered no version
* `Versioned.run_closed` — a closed store stays closed
* `Versioned.lt_of_advance` — after a step that raised a version, the old version is passed
-/

namespace Noxa

open Machine

/-- `live s` says that the store is open in state `s`, `version s k` is the version of key `k`. -/
structure Versioned {σ ι ω κ : Type*} (step : σ → ι → σ × ω) (live : σ → Prop)
    (version : σ → κ → ℕ) : Prop where
  live_of_live : ∀ s i, live (step s i).1 → live s
  version_le : ∀ s i, live (step s i).1 → ∀ k, version s k ≤ version (step s i).1 k

namespace Versioned

variable {σ ι ω κ : Type*} {step : σ → ι → σ × ω} {live : σ → Prop} {version : σ → κ → ℕ}
  {s : σ} {is : List ι}

theorem run_open (hs : Versioned step live version) (h : live (run step s is)) :
    live s ∧ ∀ k, version s k ≤ version (run step s is) k := by
  induction is generalizing s with
  | nil => exact ⟨h, fun k => Nat.le_refl _⟩
  | cons i is ih =>
    obtain ⟨hlv, hle⟩ := ih h
    exact ⟨hs.live_of_live s i hlv,
      fun k => Nat.le_trans (hs.version_le s i hlv k) (hle k)⟩

theorem run_closed (hs : Versioned step live version) (h : ¬ live s) (is : List ι) :
    ¬ live (run step s is) :=
  fun hlv => h (hs.run_open hlv).1

theorem lt_of_advance (hs : Versioned step live version) {i : ι} {k : κ}
    (hadv : version s k < version (step s i).1 k) (h : live (run step (step s i).1 is)) :
    version s k < version (run step (step s i).1 is) k :=
  Nat.lt_of_lt_of_le hadv ((hs.run_open h).2 k)

end Versioned

end Noxa

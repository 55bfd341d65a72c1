import Mathlib.Tactic.MkIffOfInductiveProp

/-!
# Grants with prerequisites

Privileges that rest on other privileges. A privilege is *granted* by some rule of its own, and
is *effective* when it is granted and everything it requires is effective as well. A grant
without its prerequisites is dormant: it has no effect, but a later grant of what is missing
wakes it up.

## Main definitions

* `Prerequisite.Effective` — granted, and so is everything required, all the way down

## Main results

* `Prerequisite.Effective.mono` — more grants, more effective privileges
-/

namespace Noxa.Prerequisite

variable {K : Type*} {requires : K → List K} {granted granted' : K → Prop}

/-- `k` is effective: it is granted, and so is everything it requires, all the way down. -/
@[mk_iff]
inductive Effective (requires : K → List K) (granted : K → Prop) : K → Prop
  | intro {k : K} (own : granted k) (reqs : ∀ r ∈ requires k, Effective requires granted r) :
      Effective requires granted k

theorem Effective.own {k : K} (h : Effective requires granted k) : granted k :=
  ((effective_iff ..).mp h).1

theorem Effective.required {k r : K} (h : Effective requires granted k) (hr : r ∈ requires k) :
    Effective requires granted r :=
  ((effective_iff ..).mp h).2 r hr

theorem Effective.mono {k : K} (h : Effective requires granted k)
    (hsub : ∀ k, granted k → granted' k) : Effective requires granted' k := by
  induction h with
  | intro own _ ih => exact ⟨hsub _ own, ih⟩

end Noxa.Prerequisite

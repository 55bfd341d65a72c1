import Noxa.Media.Engine

/-!
# Deliveries stay within the recipient snapshot

Whatever the courier does with an epoch's keys, it sends them only to devices of the recipient
snapshot the epoch was created with: a first distribution gets that snapshot, and only the failed
sends of the current epoch are repeated.

## Main definitions

* `Addressed`, `Sealed` — the device is in the snapshot of the epoch, with the given keys
* `Carried` — a chain contains every snapshot of the epochs its keys were derived from
* `Delivers` — the invariant of the courier

## Main results

* `Delivers.distribute`, `Delivers.settled`, `Delivers.retryDue` — the courier's operations keep it
-/

namespace Noxa.Media

open List

/-- The device is in the snapshot of the epoch. -/
def Addressed (issues : List Issue) (epoch : ℕ) (id : DeviceID) : Prop :=
  ∃ i ∈ issues, i.epoch = epoch ∧ id ∈ i.snapshot

/-- The device is in the snapshot of the epoch, whose keys are the given ones. -/
def Sealed (issues : List Issue) (epoch : ℕ) (keys : Keys) (id : DeviceID) : Prop :=
  ∃ i ∈ issues, i.epoch = epoch ∧ i.keys = keys ∧ id ∈ i.snapshot

/-- The epoch was issued with these keys, and `chain` contains the snapshot of every epoch from
whose keys they derive. -/
def Carried (issues : List Issue) (epoch : ℕ) (keys : Keys) (chain : List DeviceID) : Prop :=
  (∃ i ∈ issues, i.epoch = epoch ∧ i.keys = keys) ∧
    ∀ j ∈ issues, j.keys.root = keys.root → j.keys.steps ≤ keys.steps → j.snapshot ⊆ chain

/-- No two epochs have the same number. -/
def Distinct (issues : List Issue) : Prop :=
  ∀ i ∈ issues, ∀ j ∈ issues, i.epoch = j.epoch → i = j

variable {epoch : ℕ} {keys : Keys} {id : DeviceID}

theorem Sealed.addressed {issues : List Issue} (h : Sealed issues epoch keys id) :
    Addressed issues epoch id :=
  have ⟨i, hi, hep, _, hid⟩ := h
  ⟨i, hi, hep, hid⟩

theorem Addressed.sealed {issues : List Issue} (hinj : Distinct issues)
    (h : Addressed issues epoch id)
    (hks : ∃ i ∈ issues, i.epoch = epoch ∧ i.keys = keys) : Sealed issues epoch keys id := by
  obtain ⟨i, hi, hep, hid⟩ := h
  obtain ⟨j, hj, hep', rfl⟩ := hks
  obtain rfl := hinj i hi j hj (hep.trans hep'.symm)
  exact ⟨i, hi, hep, rfl, hid⟩

/-- The invariant, on the fields of a courier that matter. -/
structure DeliversFields (issues : List Issue) (epoch : ℕ) (sends : List Send)
    (distributions : List Distribution) (failed : List Recipient) (deliveries : List Material) :
    Prop where
  sends : ∀ t ∈ sends, Sealed issues t.epoch t.keys t.device
  todo : ∀ d ∈ distributions, ∀ r ∈ d.todo, Sealed issues d.epoch d.keys r.id
  flying : ∀ d ∈ distributions, ∀ r ∈ d.flying, Sealed issues d.epoch d.keys r.id
  failed : ∀ r ∈ failed, Addressed issues epoch r.id
  deliveries : ∀ m ∈ deliveries, Carried issues m.epoch m.keys m.chain

/-- Everything sent, waiting, in flight or failed is within a snapshot. -/
def Delivers (issues : List Issue) (epoch : ℕ) (c : Courier) : Prop :=
  DeliversFields issues epoch c.sends c.distributions c.failed c.deliveries

variable {r : Recipient}

theorem mem_remember {seen : List Recipient} {q : Recipient} (h : q ∈ remember seen r) :
    q ∈ seen ∨ q = r := by
  unfold remember at h
  split at h
  · obtain ⟨p, hp, rfl⟩ := mem_map.mp h
    split
    · exact .inr rfl
    · exact .inl hp
  · simpa using h

theorem Courier.material_eq_some {c : Courier} {m : Material}
    (h : c.material epoch = some m) : m ∈ c.deliveries ∧ m.epoch = epoch := by
  exact ⟨mem_of_find?_eq_some h, by simpa using List.find?_some h⟩

namespace Delivers

variable {issues : List Issue} {epoch : ℕ} {ctx : Context} {c : Courier}

/-! ## Timers -/

section

variable (h : Delivers issues epoch c) (e : ℕ)

include h

theorem disarm : Delivers issues epoch (c.disarm e) := by
  unfold Courier.disarm
  split <;> exact h

theorem scheduleRetry : Delivers issues epoch (c.scheduleRetry ctx e) := by
  unfold Courier.scheduleRetry
  split <;> exact h

theorem afterSettled (attempt : Option ℕ) :
    Delivers issues epoch (c.afterSettled ctx e attempt) := by
  cases attempt with
  | none =>
    simp only [Courier.afterSettled]
    split
    · exact h.scheduleRetry e
    · exact h
  | some =>
    simp only [Courier.afterSettled, Courier.afterRetry]
    split
    · exact h
    · exact h.disarm e

end

/-! ## Sends -/

theorem record (h : Delivers issues ctx.epoch c) {e : ℕ}
    (hr : Addressed issues e r.id) (ok : Bool) :
    Delivers issues ctx.epoch (c.record ctx e r ok) := by
  cases ok with
  | true =>
    have hdel : ∀ m ∈ c.deliveries.map fun m =>
        if m.epoch = e then { m with ok := r.id :: m.ok } else m,
        Carried issues m.epoch m.keys m.chain := by
      intro m hm
      obtain ⟨p, hp, rfl⟩ := mem_map.mp hm
      split <;> exact h.deliveries p hp
    simp only [Courier.record, if_true]
    split
    · exact { h with failed := fun q hq => h.failed q (mem_filter.mp hq).1, deliveries := hdel }
    · exact { h with deliveries := hdel }
  | false =>
    simp only [Courier.record, Bool.false_eq_true, if_false]
    split
    · rename_i hcur
      have hfld : ∀ q ∈ remember c.failed r, Addressed issues ctx.epoch q.id := by
        intro q hq
        rcases mem_remember hq with hq | rfl
        · exact h.failed q hq
        · exact hcur ▸ hr
      have hnew : Delivers issues ctx.epoch { c with failed := remember c.failed r } :=
        { h with failed := hfld }
      split
      · exact hnew.scheduleRetry e
      · exact hnew
    · exact h

/-- The pool starts sends only for devices that were waiting. -/
theorem dispatch {e : ℕ} (todo : List Recipient) :
    ∀ {c : Courier} {flying : List Recipient}, Delivers issues ctx.epoch c →
      (∀ r ∈ todo, Sealed issues e keys r.id) → (∀ r ∈ flying, Sealed issues e keys r.id) →
      Delivers issues ctx.epoch (Courier.dispatch ctx e keys todo c flying).1 ∧
        (∀ r ∈ (Courier.dispatch ctx e keys todo c flying).2.1, Sealed issues e keys r.id) ∧
        ∀ r ∈ (Courier.dispatch ctx e keys todo c flying).2.2, Sealed issues e keys r.id := by
  induction todo with
  | nil =>
    intro c flying h _ hfly
    exact ⟨h, fun _ hr => absurd hr not_mem_nil, hfly⟩
  | cons r todo ih =>
    intro c flying h htd hfly
    have hr := htd r mem_cons_self
    have hrs : ∀ q ∈ todo, Sealed issues e keys q.id := fun q hq =>
      htd q (mem_cons_of_mem _ hq)
    simp only [Courier.dispatch]
    split
    · exact ⟨h, htd, hfly⟩
    split
    · exact ih (h.record hr.addressed false) hrs hfly
    split
    · refine ih ⟨?_, h.todo, h.flying, h.failed, h.deliveries⟩ hrs ?_
      · exact forall_mem_cons.mpr ⟨hr, h.sends⟩
      · exact forall_mem_append.mpr ⟨hfly, forall_mem_singleton.mpr hr⟩
    · exact ih h hrs hfly

variable {d : Distribution}

/-- A distribution is replaced by one that is within its snapshot. -/
theorem set (h : Delivers issues epoch c) (n : ℕ)
    (htd : ∀ r ∈ d.todo, Sealed issues d.epoch d.keys r.id)
    (hfly : ∀ r ∈ d.flying, Sealed issues d.epoch d.keys r.id) :
    Delivers issues epoch { c with distributions := c.distributions.set n d } := by
  refine ⟨h.sends, fun d' hd' => ?_, fun d' hd' => ?_, h.failed, h.deliveries⟩
  · rcases mem_or_eq_of_mem_set hd' with hd' | rfl
    · exact h.todo d' hd'
    · exact htd
  · rcases mem_or_eq_of_mem_set hd' with hd' | rfl
    · exact h.flying d' hd'
    · exact hfly

section

variable (h : Delivers issues ctx.epoch c)

include h

theorem proceed (n : ℕ) (htd : ∀ r ∈ d.todo, Sealed issues d.epoch d.keys r.id)
    (hfly : ∀ r ∈ d.flying, Sealed issues d.epoch d.keys r.id) :
    Delivers issues ctx.epoch (c.proceed ctx n d) := by
  obtain ⟨hc, ht, hf⟩ := dispatch d.todo h htd hfly
  simp only [Courier.proceed]
  split
  · exact (hc.set n (d := { d with todo := _, flying := _, settledAt := some ctx.clock })
      ht hf).afterSettled d.epoch d.attempt
  · exact hc.set n ht hf

/-- A distribution to devices of the epoch's snapshot. -/
theorem distribute (hinj : Distinct issues) {recipients : List Recipient} {e : ℕ}
    (hrec : ∀ r ∈ recipients, Addressed issues e r.id)
    (attempt : Option ℕ) : Delivers issues ctx.epoch (c.distribute ctx recipients e attempt) := by
  unfold Courier.distribute
  split
  · exact h.afterSettled e attempt
  rename_i m hm
  obtain ⟨hmem, hep⟩ := Courier.material_eq_some hm
  have hks : ∃ i ∈ issues, i.epoch = e ∧ i.keys = m.keys := hep ▸ (h.deliveries m hmem).1
  have hsld : ∀ r ∈ recipients, Sealed issues e m.keys r.id := fun r hr =>
    (hrec r hr).sealed hinj hks
  have hno : ∀ r ∈ ([] : List Recipient), Sealed issues e m.keys r.id := by simp
  refine proceed ?_ _ hsld hno
  exact ⟨h.sends, forall_mem_append.mpr ⟨h.todo, forall_mem_singleton.mpr hsld⟩,
    forall_mem_append.mpr ⟨h.flying, forall_mem_singleton.mpr hno⟩, h.failed,
    h.deliveries⟩

theorem settled (n : ℕ) (device : DeviceID) (ok : Bool) :
    Delivers issues ctx.epoch (c.settled ctx n device ok) := by
  unfold Courier.settled
  split
  · exact h
  rename_i d hd
  have hmem : d ∈ c.distributions := mem_of_getElem? hd
  split
  · exact h
  rename_i r hr
  have hfly := h.flying d hmem
  refine proceed (h.record (hfly r (mem_of_find?_eq_some hr)).addressed ok) n
    (h.todo d hmem) fun q hq => ?_
  exact hfly q (mem_of_mem_erase hq)

theorem retryDue (hinj : Distinct issues) (id : ℕ) :
    Delivers issues ctx.epoch (c.retryDue ctx id) := by
  unfold Courier.retryDue
  split
  · exact h
  rename_i t _
  have hclr : Delivers issues ctx.epoch { c with retries := c.retries.filter (·.id ≠ id) } := h
  split
  · rename_i hcur
    simp only [Courier.retryFailed]
    split
    · exact hclr.disarm t.epoch
    · refine hclr.distribute hinj (fun r hr => ?_) _
      exact hcur ▸ h.failed r (mem_filter.mp hr).1
  · exact hclr.disarm t.epoch

end

end Delivers

end Noxa.Media

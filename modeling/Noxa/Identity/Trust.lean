import Noxa.Identity.Messages
import Noxa.Lib.Index
import Noxa.Lib.Table

/-!
# Which devices of an account are trusted

A directory listing names the devices of an account; the server that sends it is not trusted. A
client starts from the first device, which must hold the pinned keys of the account, and adds every
usable device that a device it already trusts has approved. Two implementations of this walk exist:
`devicetrust.Verify` in Go and `trustedDevices` in the browser (`mobile/src/core/dm-trust.js`). They
share their structure and differ in how they read an entry, so `Checks` holds the parts that differ
and `Checks.listing` is the walk.

## Main definitions

* `Checks.listing` — the walk over a listing
* `Checks.Approved` — the devices it should find

## Main results

* `Checks.listing_eq` — what the walk returns
-/

namespace Noxa.Identity

open Directory List

/-- A device that passed. -/
structure TrustedDevice where
  id : String
  kind : String
  signing : Bytes
  encryption : Bytes
  first : Bool
  deriving DecidableEq, Repr

/-- How an implementation reads the entries of a listing. -/
structure Checks (α : Type) where
  id : α → String
  first : α → Bool
  approvedBy : α → String
  validID : String → Bool
  usable : α → Option TrustedDevice
  approves : TrustedDevice → α → Bool

/-- What the first loop has collected. -/
structure Scan where
  ids : List String
  root : String
  keys : List TrustedDevice

def Scan.get (s : Scan) (id : String) : Option TrustedDevice := s.keys.find? (·.id = id)

namespace Checks

variable {α : Type} (c : Checks α)

def visit (s : Scan) (d : α) : Option Scan :=
  if c.validID (c.id d) = false ∨ c.id d ∈ s.ids then none
  else if c.first d = true ∧ s.root ≠ "" then none
  else some ⟨c.id d :: s.ids, if c.first d then c.id d else s.root,
    match c.usable d with
    | none => s.keys
    | some key => key :: s.keys⟩

/-- The first loop. -/
def scan : Scan → List α → Option Scan
  | s, [] => some s
  | s, d :: rest =>
    match c.visit s d with
    | none => none
    | some s => scan s rest

/-- An entry that is usable and carries an approval by the device it names. -/
def approved (s : Scan) (d : α) : Bool :=
  (s.get (c.id d)).isSome && (s.get (c.approvedBy d)).any fun key => c.approves key d

/-- The walk, with a bound on its rounds: `none` if they do not suffice, and `some none` if the
listing is refused. -/
def listing (accepts : TrustedDevice → Bool) (rounds : ℕ) (list : List α) :
    Option (Option (List TrustedDevice)) :=
  match c.scan ⟨[], "", []⟩ list with
  | none => some none
  | some s =>
    match s.get s.root with
    | none => some none
    | some first =>
      if accepts first then
        match Closure.close c.id c.approvedBy (c.approved s) list rounds [s.root] with
        | none => none
        | some trusted => some (some (first :: (list.filter fun d =>
            decide (c.id d ≠ s.root ∧ c.id d ∈ trusted)).filterMap fun d => s.get (c.id d)))
      else some none

/-! ### What should be found -/

/-- The least set of entries that holds the first device and every usable one with an approval by a
device of the set. -/
inductive Approved (list : List α) : α → Prop
  | first {d : α} (hd : d ∈ list) (hfst : c.first d = true) : Approved list d
  | step {d a : α} {key device : TrustedDevice} (hd : d ∈ list) (ha : Approved list a)
      (hnm : c.approvedBy d = c.id a) (hkey : c.usable a = some key)
      (hdev : c.usable d = some device) (happroves : c.approves key d = true) : Approved list d

/-- A listing is accepted with a first device. -/
structure Accepted (accepts : TrustedDevice → Bool) (list : List α) (root : α)
    (first : TrustedDevice) : Prop where
  valid : ∀ d ∈ list, c.validID (c.id d) = true
  nodup : (list.map c.id).Nodup
  single : list.filter c.first = [root]
  usable : c.usable root = some first
  accepts : accepts first = true

/-- What is asked of the parts: an identifier is not empty, and a usable entry keeps its own. -/
structure Lawful : Prop where
  nonempty : c.validID "" = false
  id : ∀ d device, c.usable d = some device → device.id = c.id d

variable {c}

/-! ### The first loop -/

variable {d : α} {s s' : Scan}

theorem visit_eq_some (h : c.visit s d = some s') :
    c.validID (c.id d) = true ∧ c.id d ∉ s.ids ∧ (c.first d = true → s.root = "") ∧
      s'.ids = c.id d :: s.ids ∧ s'.root = (if c.first d then c.id d else s.root) ∧
      s'.keys = (c.usable d).toList ++ s.keys := by
  unfold visit at h
  split at h
  · simp at h
  rename_i hid
  split at h
  · simp at h
  rename_i hfst
  cases h
  rw [not_or, Bool.not_eq_false] at hid
  refine ⟨hid.1, hid.2, fun hf => ?_, rfl, rfl, ?_⟩
  · by_contra hrt
    exact hfst ⟨hf, hrt⟩
  · cases c.usable d <;> rfl

/-- What the first loop asks of the rest of a listing. -/
structure Clean (c : Checks α) (s : Scan) (list : List α) : Prop where
  valid : ∀ d ∈ list, c.validID (c.id d) = true
  nodup : (list.map c.id).Nodup
  fresh : ∀ d ∈ list, c.id d ∉ s.ids
  single : (list.filter c.first).length ≤ 1
  noRoot : s.root ≠ "" → list.filter c.first = []

variable {list : List α}

theorem Clean.visit (h : Clean c s (d :: list)) :
    ∃ s', c.visit s d = some s' ∧ Clean c s' list := by
  have hval := forall_mem_cons.mp h.valid
  obtain ⟨hnew, hfr, hnd⟩ :=
    (Index.fresh_cons (f := c.id) (S := (· ∈ s.ids))).mp ⟨h.fresh, h.nodup⟩
  have hrt : ¬ (c.first d = true ∧ s.root ≠ "") := by
    rintro ⟨hfst, hrt⟩
    have hno := h.noRoot hrt
    rw [filter_cons_of_pos hfst] at hno
    simp at hno
  have hv : c.visit s d = some ⟨c.id d :: s.ids, if c.first d then c.id d else s.root,
      match c.usable d with
      | none => s.keys
      | some key => key :: s.keys⟩ := by
    rw [Checks.visit, if_neg (by simp [hval.1, hnew]), if_neg hrt]
  refine ⟨_, hv, hval.2, hnd, by simpa using hfr, ?_, fun hne => ?_⟩
  · have hsgl := h.single
    rw [filter_cons] at hsgl
    split at hsgl
    · rw [length_cons] at hsgl
      omega
    · exact hsgl
  · by_cases hfst : c.first d = true
    · have hsgl := h.single
      rw [filter_cons_of_pos hfst, length_cons] at hsgl
      exact length_eq_zero_iff.mp (by omega)
    · have hno := h.noRoot (by simpa [hfst] using hne)
      rwa [filter_cons_of_neg hfst] at hno

/-- The first loop refuses nothing else. -/
theorem Clean.scan (h : Clean c s list) : ∃ s', c.scan s list = some s' := by
  induction list generalizing s with
  | nil => exact ⟨s, rfl⟩
  | cons d list ih =>
    obtain ⟨s', hv, hc⟩ := h.visit
    obtain ⟨s'', hsca⟩ := ih hc
    refine ⟨s'', ?_⟩
    rw [Checks.scan, hv]
    exact hsca

/-- What the first loop collects. -/
theorem scan_result (h : c.scan s list = some s') :
    s'.keys = (list.filterMap c.usable).reverse ++ s.keys ∧
      s'.root = (((list.filter c.first).getLast?).map c.id).getD s.root := by
  induction list generalizing s with
  | nil =>
    cases h
    exact ⟨rfl, rfl⟩
  | cons d list ih =>
    rw [scan] at h
    split at h
    · simp at h
    rename_i s₁ hv
    obtain ⟨-, -, -, -, hrt, hks⟩ := visit_eq_some hv
    rw [(ih h).1, (ih h).2, hrt, hks]
    constructor
    · cases hd : c.usable d <;> simp [hd]
    by_cases hfst : c.first d = true
    · rw [filter_cons_of_pos hfst, if_pos hfst, List.getLast?_cons]
      cases (list.filter c.first).getLast? <;> rfl
    · rw [filter_cons_of_neg hfst, if_neg hfst]

theorem Approved.mem (h : c.Approved list d) : d ∈ list := by
  cases h with
  | first hd => exact hd
  | step hd => exact hd

/-- What is found depends on the entries, not on their order. -/
theorem Approved.mono {list' : List α} (hsub : ∀ d ∈ list, d ∈ list')
    (h : c.Approved list d) : c.Approved list' d := by
  induction h with
  | first hd hfst => exact .first (hsub _ hd) hfst
  | step hd _ hnm hkey hdev happroves ih =>
    exact .step (hsub _ hd) ih hnm hkey hdev happroves

/-! ### The walk -/

variable {accepts : TrustedDevice → Bool} {root : α} {first : TrustedDevice} {rounds : ℕ}

section

variable (h : c.Accepted accepts list root first)

include h

theorem Accepted.first_iff {d : α} : d ∈ list ∧ c.first d = true ↔ d = root := by
  rw [← mem_filter, h.single, mem_singleton]

theorem Accepted.eq_of_id {d d' : α} (hd : d ∈ list)
    (hd' : d' ∈ list) (hid : c.id d = c.id d') : d = d' :=
  inj_on_of_nodup_map h.nodup hd hd' hid

theorem Accepted.clean : Clean c ⟨[], "", []⟩ list where
  valid := h.valid
  nodup := h.nodup
  fresh := by simp
  single := by
    rw [h.single]
    exact le_rfl
  noRoot := fun hrt => absurd rfl hrt

theorem Accepted.root_of_scan {s : Scan}
    (hsca : c.scan ⟨[], "", []⟩ list = some s) : s.root = c.id root := by
  rw [(scan_result hsca).2, h.single]
  rfl

end

variable (hl : c.Lawful)

include hl

/-- The other way round. An identifier that is not empty tells whether a first device was seen. -/
theorem clean_of_visit (hv : c.visit s d = some s') (h : Clean c s' list) :
    Clean c s (d :: list) := by
  obtain ⟨hval, hfr, hrt, hids, hrt', -⟩ := visit_eq_some hv
  have hne : c.id d ≠ "" := by
    intro he
    rw [he, hl.nonempty] at hval
    simp at hval
  have hno : c.first d = true → list.filter c.first = [] := by
    intro hfst
    refine h.noRoot ?_
    rw [hrt', if_pos hfst]
    exact hne
  obtain ⟨hall, hnd⟩ := (Index.fresh_cons (f := c.id) (S := (· ∈ s.ids))).mpr
    ⟨hfr, by simpa [hids] using h.fresh, h.nodup⟩
  refine ⟨forall_mem_cons.mpr ⟨hval, h.valid⟩, hnd, hall, ?_, fun hs => ?_⟩
  · rw [filter_cons]
    split
    · rename_i hfst
      rw [hno hfst]
      exact le_rfl
    · exact h.single
  · have hfst : ¬ c.first d = true := fun hfst => hs (hrt hfst)
    rw [filter_cons_of_neg hfst]
    refine h.noRoot ?_
    rw [hrt', if_neg hfst]
    exact hs

theorem clean_of_scan (h : c.scan s list = some s') : Clean c s list := by
  induction list generalizing s with
  | nil => exact ⟨by simp, nodup_nil, by simp, Nat.zero_le _, fun _ => rfl⟩
  | cons d list ih =>
    rw [scan] at h
    split at h
    · simp at h
    · rename_i s₁ hv
      exact clean_of_visit hl hv (ih h)

/-- The usable entries keep their identifiers. -/
theorem ids_sublist (list : List α) :
    ((list.filterMap c.usable).map (·.id)).Sublist (list.map c.id) := by
  induction list with
  | nil => exact List.Sublist.refl _
  | cons d list ih =>
    cases hd : c.usable d with
    | none =>
      rw [filterMap_cons_none hd]
      exact ih.cons _
    | some device =>
      rw [filterMap_cons_some hd, map_cons, map_cons, hl.id d device hd]
      exact ih.cons_cons _

/-- The keys that were collected, by identifier. -/
theorem get_of_scan {id : String} {device : TrustedDevice} (h : c.scan ⟨[], "", []⟩ list = some s) :
    s.get id = some device ↔ ∃ d ∈ list, c.id d = id ∧ c.usable d = some device := by
  have hks := (scan_result h).1
  rw [append_nil] at hks
  have hnd : (s.keys.map (·.id)).Nodup := by
    rw [hks, map_reverse, nodup_reverse]
    exact (clean_of_scan hl h).nodup.sublist (ids_sublist hl list)
  have hg : s.get id = some device ↔ device ∈ s.keys ∧ device.id = id :=
    Table.get_eq_some (t := (⟨s.keys, hnd⟩ : Table TrustedDevice (·.id)))
  rw [hg, hks, mem_reverse, mem_filterMap]
  constructor
  · rintro ⟨⟨d, hd, hus⟩, hid⟩
    exact ⟨d, hd, (hl.id d device hus).symm.trans hid, hus⟩
  · rintro ⟨d, hd, hid, hus⟩
    exact ⟨⟨d, hd, hus⟩, (hl.id d device hus).trans hid⟩

section

variable (h : c.Accepted accepts list root first)

include h

/-- What the loop of the walk closes is the set that should be found. -/
theorem Accepted.reached_iff {s : Scan} (hsca : c.scan ⟨[], "", []⟩ list = some s) {k : String} :
    Closure.Reached c.id c.approvedBy (c.approved s) list (c.id root) k ↔
      ∃ d, c.Approved list d ∧ c.id d = k := by
  constructor
  · intro hk
    have hrt := h.first_iff.mpr rfl
    refine Closure.Reached.least (S := fun k => ∃ d, c.Approved list d ∧ c.id d = k)
      ⟨root, .first hrt.1 hrt.2, rfl⟩ ?_ hk
    rintro d hd hok ⟨a, ha, hnm⟩
    rw [approved, Bool.and_eq_true, Option.isSome_iff_exists, Option.any_eq_true] at hok
    obtain ⟨⟨device, hdev⟩, key, hkey, happroves⟩ := hok
    obtain ⟨d', hd', hid, hus⟩ := (get_of_scan hl hsca).mp hdev
    obtain ⟨a', ha', hid', hus'⟩ := (get_of_scan hl hsca).mp hkey
    rw [h.eq_of_id hd' hd hid] at hus
    rw [h.eq_of_id ha' ha.mem (hid'.trans hnm.symm)] at hus'
    exact ⟨d, .step hd ha hnm.symm hus' hus happroves, rfl⟩
  · rintro ⟨d, hd, rfl⟩
    induction hd with
    | first hd hfst =>
      rw [h.first_iff.mp ⟨hd, hfst⟩]
      exact .root
    | step hd ha hnm hkey hdev happroves ih =>
      refine .step hd ?_ (hnm ▸ ih)
      rw [approved, Bool.and_eq_true, Option.isSome_iff_exists, Option.any_eq_true]
      exact ⟨⟨_, (get_of_scan hl hsca).mpr ⟨_, hd, rfl, hdev⟩⟩, _,
        (get_of_scan hl hsca).mpr ⟨_, ha.mem, hnm.symm, hkey⟩, happroves⟩

/-- The walk on an accepted listing, with the set its loop ended with. -/
theorem Accepted.listing_eq (hrn : list.length + 1 ≤ rounds) :
    ∃ trusted : List String, (∀ k, k ∈ trusted ↔ ∃ d, c.Approved list d ∧ c.id d = k) ∧
      c.listing accepts rounds list = some (some (first :: (list.filter fun d =>
        decide (c.id d ≠ c.id root ∧ c.id d ∈ trusted)).filterMap c.usable)) := by
  obtain ⟨s, hsca⟩ := h.clean.scan
  have hrt := h.root_of_scan hsca
  have hfst : s.get (c.id root) = some first :=
    (get_of_scan hl hsca).mpr ⟨root, (h.first_iff.mpr rfl).1, rfl, h.usable⟩
  have hsnd := Closure.sound_singleton c.id c.approvedBy (c.approved s) list (c.id root)
  obtain ⟨trusted, hcls⟩ := Option.isSome_iff_exists.mp
    (Closure.close_isSome hsnd (n := rounds) (by simpa using hrn))
  have hg : ∀ d ∈ list, s.get (c.id d) = c.usable d := by
    intro d hd
    refine Option.ext fun device => ?_
    rw [get_of_scan hl hsca]
    constructor
    · rintro ⟨d', hd', hid, hus⟩
      rwa [h.eq_of_id hd' hd hid] at hus
    · exact fun hus => ⟨d, hd, rfl, hus⟩
  refine ⟨trusted, fun k => ?_, ?_⟩
  · rw [(Closure.close_eq_some hsnd hcls).2, h.reached_iff hl hsca]
  · rw [listing, hsca]
    simp only [hrt, hfst, h.accepts, hcls, if_true]
    rw [filterMap_congr fun d hd => hg d (mem_of_mem_filter hd)]

/-- What is returned for an accepted listing: the devices that should be found, each once. -/
theorem Accepted.result (hrn : list.length + 1 ≤ rounds) :
    ∃ out, c.listing accepts rounds list = some (some out) ∧ (out.map (·.id)).Nodup ∧
      ∀ device, device ∈ out ↔ ∃ d, c.Approved list d ∧ c.usable d = some device := by
  obtain ⟨trusted, htrd, hlst⟩ := h.listing_eq hl hrn
  have hfst := h.first_iff.mpr rfl
  refine ⟨_, hlst, ?_, fun device => ?_⟩
  · rw [map_cons, nodup_cons]
    refine ⟨fun hm => ?_, (h.nodup.sublist (filter_sublist.map c.id)).sublist
      (ids_sublist hl _)⟩
    have hid := (ids_sublist hl _).subset hm
    obtain ⟨d, hd, hdid⟩ := mem_map.mp hid
    rw [mem_filter, decide_eq_true_eq] at hd
    exact hd.2.1 (hdid.trans (hl.id root first h.usable))
  · rw [mem_cons, mem_filterMap]
    constructor
    · rintro (rfl | ⟨d, hd, hus⟩)
      · exact ⟨root, .first hfst.1 hfst.2, h.usable⟩
      rw [mem_filter, decide_eq_true_eq, htrd] at hd
      obtain ⟨hd, -, d', hd', hid⟩ := hd
      rw [h.eq_of_id hd'.mem hd hid] at hd'
      exact ⟨d, hd', hus⟩
    · rintro ⟨d, hd, hus⟩
      by_cases hrt : c.id d = c.id root
      · rw [h.eq_of_id hd.mem hfst.1 hrt, h.usable] at hus
        exact .inl (Option.some.inj hus).symm
      · refine .inr ⟨d, ?_, hus⟩
        rw [mem_filter, decide_eq_true_eq, htrd]
        exact ⟨hd.mem, hrt, d, hd, rfl⟩

end

/-- Every other listing is refused. -/
theorem listing_refused (h : ∀ root first, ¬ c.Accepted accepts list root first) (rounds : ℕ) :
    c.listing accepts rounds list = some none := by
  rw [listing]
  split
  · rfl
  rename_i s hsca
  have hc := clean_of_scan hl hsca
  split
  · rfl
  rename_i first hfst
  obtain ⟨root, hm, hid, hus⟩ := (get_of_scan hl hsca).mp hfst
  rw [(scan_result hsca).2] at hid
  rw [if_neg]
  intro hacc
  cases hflt : list.filter c.first with
  | nil =>
    rw [hflt] at hid
    have he := hc.valid root hm
    rw [hid] at he
    simp [hl.nonempty] at he
  | cons r rest =>
    have hsgl := hc.single
    rw [hflt, length_cons] at hsgl
    obtain rfl : rest = [] := length_eq_zero_iff.mp (by omega)
    have hr : r ∈ list := mem_of_mem_filter (hflt ▸ mem_cons_self)
    rw [hflt] at hid
    obtain rfl : root = r := inj_on_of_nodup_map hc.nodup hm hr hid
    exact h root first ⟨hc.valid, hc.nodup, hflt, hus, hacc⟩

/-- The test of the first device is only asked about usable entries. -/
theorem listing_congr {accepts' : TrustedDevice → Bool}
    (h : ∀ d device, c.usable d = some device → accepts device = accepts' device) :
    c.listing accepts rounds list = c.listing accepts' rounds list := by
  rw [listing, listing]
  cases hsca : c.scan ⟨[], "", []⟩ list with
  | none => rfl
  | some s =>
    cases hfst : s.get s.root with
    | none => simp only [hfst]
    | some first =>
      obtain ⟨d, -, -, hus⟩ := (get_of_scan hl hsca).mp hfst
      simp only [hfst, h d first hus]

omit hl

/-! ### Reading entries through a function -/

/-- The same checks, of what a function makes of an entry. -/
def comap {β : Type} (c : Checks α) (f : β → α) : Checks β where
  id d := c.id (f d)
  first d := c.first (f d)
  approvedBy d := c.approvedBy (f d)
  validID := c.validID
  usable d := c.usable (f d)
  approves key d := c.approves key (f d)

theorem scan_map {β : Type} (f : β → α) (s : Scan) (list : List β) :
    c.scan s (list.map f) = (c.comap f).scan s list := by
  induction list generalizing s with
  | nil => rfl
  | cons d list ih =>
    have hv : c.visit s (f d) = (c.comap f).visit s d := rfl
    rw [map_cons, scan, scan, hv]
    cases (c.comap f).visit s d with
    | none => rfl
    | some s' => exact ih s'

theorem listing_map {β : Type} (f : β → α) (accepts : TrustedDevice → Bool) (rounds : ℕ)
    (list : List β) :
    c.listing accepts rounds (list.map f) = (c.comap f).listing accepts rounds list := by
  simp only [listing, scan_map, Closure.close_map, filter_map, filterMap_map]
  rfl

end Checks

end Noxa.Identity

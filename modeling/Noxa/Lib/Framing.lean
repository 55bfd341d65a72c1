import Noxa.Lib.Text

/-!
# Texts that say where their fields end

Two ways to write a list of fields as one text from which they can be read back. Lines end in a
separator that no line holds. A frame carries the length of its field in front, so the field itself
may hold anything, and there may be any number of frames.

## Main definitions

* `lines` — fields that end in a separator, and a last one that does not
* `frames` — fields with their lengths

## Main results

* `lines_injective` — lines can be told apart, if there are as many of them
* `frames_injective` — frames can always be told apart
* `append_separator_injective_right` — cutting a text at its last separator
-/

namespace Noxa.Framing

open Text List

variable {α : Type*}

/-- The part after the last separator is determined. -/
theorem append_separator_injective_right {x : α} {a b c d : List α} (hc : x ∉ c) (hd : x ∉ d)
    (h : a ++ x :: c = b ++ x :: d) : a = b ∧ c = d := by
  have hrvs : c.reverse ++ x :: a.reverse = d.reverse ++ x :: b.reverse := by
    simpa using congrArg List.reverse h
  obtain ⟨hcd, hab⟩ := append_separator_injective (fun hx => hc (mem_reverse.mp hx))
    (fun hx => hd (mem_reverse.mp hx)) hrvs
  exact ⟨reverse_injective hab, reverse_injective hcd⟩

/-! ### Lines -/

/-- Each field and a separator, and then the last one. -/
def lines (x : α) (fields : List (List α)) (last : List α) : List α :=
  fields.foldr (fun f rest => f ++ x :: rest) last

@[simp]
theorem lines_nil (x : α) (last : List α) : lines x [] last = last := rfl

@[simp]
theorem lines_cons (x : α) (f : List α) (fields : List (List α)) (last : List α) :
    lines x (f :: fields) last = f ++ x :: lines x fields last := rfl

theorem length_lines (x : α) (fields : List (List α)) (last : List α) :
    (lines x fields last).length = (fields.map List.length).sum + fields.length + last.length := by
  induction fields with
  | nil => simp
  | cons f fields ih =>
    simp only [lines_cons, length_append, length_cons, ih, map_cons, sum_cons]
    omega

variable {fields fields' : List (List α)}

theorem lines_injective {x : α} {last last' : List α}
    (h : lines x fields last = lines x fields' last') (hl : fields.length = fields'.length)
    (hf : ∀ f ∈ fields, x ∉ f) (hf' : ∀ f ∈ fields', x ∉ f) :
    fields = fields' ∧ last = last' := by
  induction fields generalizing fields' with
  | nil =>
    obtain rfl := length_eq_zero_iff.mp hl.symm
    exact ⟨rfl, h⟩
  | cons f fields ih =>
    cases fields' with
    | nil => simp at hl
    | cons f' fields' =>
      rw [forall_mem_cons] at hf hf'
      obtain ⟨rfl, hrs⟩ := append_separator_injective hf.1 hf'.1 h
      obtain ⟨rfl, rfl⟩ := ih hrs (Nat.succ.inj hl) hf.2 hf'.2
      exact ⟨rfl, rfl⟩

/-! ### Frames -/

variable {tag : ℕ → List α} {x : α}

/-- A field after its length, written by `tag` and closed by a separator. -/
def frame (tag : ℕ → List α) (x : α) (f : List α) : List α := tag f.length ++ x :: f

def frames (tag : ℕ → List α) (x : α) (fields : List (List α)) : List α :=
  fields.flatMap (frame tag x)

@[simp]
theorem frames_nil : frames tag x [] = [] := rfl

@[simp]
theorem frames_cons (f : List α) (fields : List (List α)) :
    frames tag x (f :: fields) = frame tag x f ++ frames tag x fields := rfl

/-- The first frame is determined, whatever follows it. -/
theorem frame_append_injective (ht : Function.Injective tag) (hx : ∀ n, x ∉ tag n)
    {f f' rest rest' : List α} (h : frame tag x f ++ rest = frame tag x f' ++ rest') :
    f = f' ∧ rest = rest' := by
  rw [frame, frame, append_assoc, append_assoc] at h
  obtain ⟨hl, htx⟩ := append_separator_injective (hx _) (hx _) h
  exact append_inj htx (ht hl)

theorem frames_injective (ht : Function.Injective tag) (hx : ∀ n, x ∉ tag n)
    (h : frames tag x fields = frames tag x fields') :
    fields = fields' := by
  induction fields generalizing fields' with
  | nil =>
    cases fields' with
    | nil => rfl
    | cons f' fields' => simp [frame] at h
  | cons f fields ih =>
    cases fields' with
    | nil => simp [frame] at h
    | cons f' fields' =>
      obtain ⟨rfl, hrs⟩ := frame_append_injective ht hx h
      rw [ih hrs]

end Noxa.Framing

import Mathlib.Data.Finset.Sort
import Mathlib.Data.String.Basic
import Noxa.Lib.Machine
import Noxa.Lib.SetMap

/-!
# Seats of encrypted voice

A session holds a seat in the channel whose encrypted voice accepted its offer, and a channel has a
limited number of seats. Channel 0 is where seats are parked. A failed join or move is taken back
later by the undo that `take` or `carry` returned, while other sessions go on: an undo is an input
of its own here, with what it captured (`Undo`).

## Main results

* `seats_consistent` — both maps describe the same seats after any run, and the cap holds if every
  undo finds room in the channel it restores
* `undo_exceeds_cap` — an undo without room exceeds the cap
-/

namespace Noxa.Server

open Machine

structure MediaSeatID where
  principal : String
  device : String
  deriving DecidableEq

/-- `ids ch client` is the identity at `byChannel[ch][client]`. -/
structure MediaSeats where
  byChannel : SetMap ℤ String
  ids : ℤ → String → MediaSeatID
  byClient : String → Option ℤ

/-- What the undo of a seat in `ch` captured. -/
structure Undo where
  ch : ℤ
  client : String
  id : MediaSeatID
  prev : Option ℤ
  deriving DecidableEq

namespace MediaSeats

variable (m : MediaSeats) (ch : ℤ) (client : String) (id : MediaSeatID) (live : String → Bool)

/-- The seat is of a dead session of the same identity. -/
def replaces (c : String) : Bool :=
  c ≠ client && id.device ≠ "" && m.ids ch c == id && !live c

def othersLocked : ℕ :=
  ((m.byChannel.elems ch).filter fun c => ¬(c = client ∨ m.replaces ch client id live c)).card

def removeLocked : MediaSeats :=
  match m.byClient client with
  | none => m
  | some ch =>
    { m with
      byClient := Function.update m.byClient client none
      byChannel := m.byChannel.remove ch client }

def putLocked : MediaSeats :=
  let m := m.removeLocked client
  { byChannel := m.byChannel.add ch client
    ids := fun k c => if k = ch ∧ c = client then id else m.ids k c
    byClient := Function.update m.byClient client (some ch) }

/-- The sessions whose seats are replaced, in some order. -/
def replaced : List String :=
  ((m.byChannel.elems ch).filter fun c => m.replaces ch client id live c).sort

def takeLocked (limit : ℕ) : Option (MediaSeats × Option Undo × List String) :=
  if m.byClient client = some ch then
    some ({ m with ids := fun k c => if k = ch ∧ c = client then id else m.ids k c }, none, [])
  else if limit ≤ m.othersLocked ch client id live then none
  else
    let replaced := m.replaced ch client id live
    some ((replaced.foldl removeLocked m).putLocked ch client id,
      some ⟨ch, client, id, m.byClient client⟩, replaced)

def carry (fallback : Option MediaSeatID) (limit : ℕ) :
    Option (MediaSeats × Option Undo × List String) :=
  match m.byClient client, fallback with
  | some prev, _ => m.takeLocked ch client (m.ids prev client) live limit
  | none, some id => m.takeLocked ch client id live limit
  | none, none => some (m, none, [])

def parkFrom : MediaSeats :=
  if m.byClient client = some ch ∧ ch ≠ 0 then m.putLocked 0 client (m.ids ch client) else m

def park : MediaSeats :=
  match m.byClient client with
  | some ch => m.parkFrom ch client
  | none => m

def undo (u : Undo) : MediaSeats :=
  if m.byClient u.client = some u.ch then
    match u.prev with
    | some prev => m.putLocked prev u.client u.id
    | none => m.removeLocked u.client
  else m

/-- Both maps have the same seats, and no set is empty. -/
structure Sound : Prop where
  inverse : ∀ c k, m.byClient c = some k ↔ c ∈ m.byChannel.elems k
  noEmpty : m.byChannel.NoEmpty

/-- No channel has more than `limit` seats. -/
def Capped (limit : ℕ) : Prop := ∀ k > 0, (m.byChannel.elems k).card ≤ limit

variable {m ch client id live} {limit : ℕ} {c : String} {k : ℤ}

theorem byClient_removeLocked :
    (m.removeLocked client).byClient c = if c = client then none else m.byClient c := by
  unfold removeLocked
  split <;> grind

/-- The seats stay sound, and the cap is kept if they fit. -/
def Keeps (limit : ℕ) (fits : Prop) (m m' : MediaSeats) : Prop :=
  m'.Sound ∧ (fits → m.Capped limit → m'.Capped limit)

variable {fits : Prop} {r : MediaSeats × Option Undo × List String} (h : m.Sound)

include h

theorem Sound.mem_removeLocked :
    c ∈ (m.removeLocked client).byChannel.elems k ↔ c ∈ m.byChannel.elems k ∧ c ≠ client := by
  have hk := h.inverse c k
  unfold removeLocked
  split
  · grind
  · rw [SetMap.mem_remove]
    grind

theorem Sound.removeLocked : (m.removeLocked client).Sound where
  inverse c k := by
    rw [byClient_removeLocked, h.mem_removeLocked, ← h.inverse c k]
    grind
  noEmpty := by
    unfold MediaSeats.removeLocked
    split
    exacts [h.noEmpty, h.noEmpty.remove _ _]

theorem Sound.mem_putLocked : c ∈ (m.putLocked ch client id).byChannel.elems k ↔
      k = ch ∧ c = client ∨ c ∈ m.byChannel.elems k ∧ c ≠ client := by
  rw [putLocked, SetMap.mem_add, h.mem_removeLocked]

theorem Sound.putLocked : (m.putLocked ch client id).Sound where
  inverse c k := by
    have hc : (m.putLocked ch client id).byClient c =
        if c = client then some ch else (m.removeLocked client).byClient c :=
      Function.update_apply ..
    rw [h.mem_putLocked, ← h.inverse c k, hc, byClient_removeLocked]
    grind
  noEmpty := h.removeLocked.noEmpty.add _ _

/-- A seat in `ch` keeps the cap if there is room for it. -/
theorem Capped.putLocked (hc : m.Capped limit)
    (hrm : 0 < ch → ((m.byChannel.elems ch).erase client).card < limit) :
    (m.putLocked ch client id).Capped limit := by
  intro k hk
  by_cases hch : k = ch
  · subst hch
    refine (Finset.card_le_card fun c hc => ?_).trans
      ((Finset.card_insert_le client _).trans (hrm hk))
    have := h.mem_putLocked.mp hc
    grind
  · refine (Finset.card_le_card fun c hc => ?_).trans (hc k hk)
    have := h.mem_putLocked.mp hc
    grind

theorem Sound.foldl_removeLocked (cs : List String) : (cs.foldl MediaSeats.removeLocked m).Sound ∧
      ∀ c k, c ∈ (cs.foldl MediaSeats.removeLocked m).byChannel.elems k ↔
        c ∈ m.byChannel.elems k ∧ c ∉ cs := by
  induction cs generalizing m with
  | nil => simp [h]
  | cons x cs ih =>
    refine ⟨(ih h.removeLocked).1, fun c k => ?_⟩
    rw [List.foldl_cons, (ih h.removeLocked).2, h.mem_removeLocked]
    grind

theorem Sound.keeps_self : Keeps limit fits m m := ⟨h, fun _ hc => hc⟩

theorem Sound.keeps_takeLocked (ht : m.takeLocked ch client id live limit = some r) :
    Keeps limit fits m r.1 := by
  unfold MediaSeats.takeLocked at ht
  split_ifs at ht with hstd hfu
  · cases ht
    exact ⟨⟨h.inverse, h.noEmpty⟩, fun _ hc => hc⟩
  · cases ht
    obtain ⟨hs, hmem⟩ := h.foldl_removeLocked (m.replaced ch client id live)
    refine ⟨hs.putLocked, fun _ hc => Capped.putLocked hs ?_ fun _ => ?_⟩
    · exact fun k hk => (Finset.card_le_card fun c hc => ((hmem c k).mp hc).1).trans (hc k hk)
    · -- what is left in the channel beside the session was counted
      refine (Finset.card_le_card fun c hc => ?_).trans_lt (not_le.mp hfu)
      obtain ⟨hne, hc⟩ := Finset.mem_erase.mp hc
      obtain ⟨hc, hr⟩ := (hmem c ch).mp hc
      simp only [replaced, Finset.mem_sort, Finset.mem_filter, not_and] at hr
      exact Finset.mem_filter.mpr ⟨hc, not_or.mpr ⟨hne, hr hc⟩⟩

theorem Sound.keeps_carry {fallback : Option MediaSeatID}
    (ht : m.carry ch client live fallback limit = some r) : Keeps limit fits m r.1 := by
  unfold carry at ht
  split at ht
  · exact h.keeps_takeLocked ht
  · exact h.keeps_takeLocked ht
  · cases ht
    exact h.keeps_self

theorem Sound.keeps_removeLocked : Keeps limit fits m (m.removeLocked client) :=
  ⟨h.removeLocked, fun _ hc k hk =>
    (Finset.card_le_card fun _ hc => (h.mem_removeLocked.mp hc).1).trans (hc k hk)⟩

theorem Sound.keeps_parkFrom : Keeps limit fits m (m.parkFrom ch client) := by
  unfold parkFrom
  split_ifs
  · exact ⟨h.putLocked, fun _ hc => hc.putLocked h fun h0 => absurd h0 (lt_irrefl 0)⟩
  · exact h.keeps_self

theorem Sound.keeps_undo {u : Undo} (hft : fits → m.byClient u.client = some u.ch →
      ∀ prev ∈ u.prev, 0 < prev → ((m.byChannel.elems prev).erase u.client).card < limit) :
    Keeps limit fits m (m.undo u) := by
  unfold undo
  split_ifs with hstd
  · split
    · rename_i prev hpr
      exact ⟨h.putLocked, fun hf hc => hc.putLocked h (hft hf hstd prev hpr)⟩
    · exact h.keeps_removeLocked
  · exact h.keeps_self

end MediaSeats

/-- The seats and the undos handed out so far. -/
structure SeatWorld where
  seats : MediaSeats
  undos : List Undo

/-- A call, with which sessions are live at that moment. -/
inductive SeatCall
  | take (ch : ℤ) (client : String) (id : MediaSeatID) (live : String → Bool)
  | carry (ch : ℤ) (client : String) (fallback : Option MediaSeatID) (live : String → Bool)
  | park (client : String)
  | parkFrom (client : String) (ch : ℤ)
  | release (client : String)
  /-- The `i`-th undo is called, once more maybe. -/
  | undo (i : ℕ)

/-- A `take` that is refused changes nothing. -/
def SeatWorld.taken (w : SeatWorld) : Option (MediaSeats × Option Undo × List String) → SeatWorld
  | some (seats, undo, _) => ⟨seats, w.undos ++ undo.toList⟩
  | none => w

def seatStep (limit : ℕ) (w : SeatWorld) : SeatCall → SeatWorld × Unit
  | .take ch client id live => (w.taken (w.seats.takeLocked ch client id live limit), ())
  | .carry ch client fallback live => (w.taken (w.seats.carry ch client live fallback limit), ())
  | .park client => ({ w with seats := w.seats.park client }, ())
  | .parkFrom client ch => ({ w with seats := w.seats.parkFrom ch client }, ())
  | .release client => ({ w with seats := w.seats.removeLocked client }, ())
  | .undo i => ({ w with seats := w.undos[i]?.elim w.seats w.seats.undo }, ())

/-- An undo that puts a session back finds room in the channel. -/
def UndoFits (limit : ℕ) (w : SeatWorld) : SeatCall → Prop
  | .undo i => ∀ u ∈ w.undos[i]?, w.seats.byClient u.client = some u.ch → ∀ prev ∈ u.prev,
    0 < prev → ((w.seats.byChannel.elems prev).erase u.client).card < limit
  | _ => True

section Runs

variable {limit : ℕ} {w : SeatWorld}

theorem taken_keeps {fits : Prop} {r : Option (MediaSeats × Option Undo × List String)}
    (h : w.seats.Sound) (hr : ∀ x, r = some x → MediaSeats.Keeps limit fits w.seats x.1) :
    MediaSeats.Keeps limit fits w.seats (w.taken r).seats := by
  cases r with
  | none => exact h.keeps_self
  | some x => exact hr x rfl

theorem seatStep_keeps (call : SeatCall) (h : w.seats.Sound) :
    MediaSeats.Keeps limit (UndoFits limit w call) w.seats (seatStep limit w call).1.seats := by
  cases call with
  | take => exact taken_keeps h fun _ hx => h.keeps_takeLocked hx
  | carry => exact taken_keeps h fun _ hx => h.keeps_carry hx
  | park client =>
    change MediaSeats.Keeps _ _ _ (w.seats.park client)
    unfold MediaSeats.park
    split
    exacts [h.keeps_parkFrom, h.keeps_self]
  | parkFrom => exact h.keeps_parkFrom
  | release => exact h.keeps_removeLocked
  | undo i =>
    change MediaSeats.Keeps _ _ _ (w.undos[i]?.elim w.seats w.seats.undo)
    cases hu : w.undos[i]? with
    | none => exact h.keeps_self
    | some u => exact h.keeps_undo fun hf : UndoFits limit w (.undo i) => hf u hu

end Runs

/-- No seats and no undos. -/
def SeatWorld.start : SeatWorld := ⟨⟨SetMap.empty, fun _ _ => ⟨"", ""⟩, fun _ => none⟩, []⟩

theorem start_sound : SeatWorld.start.seats.Sound :=
  ⟨fun c k => by simp [SeatWorld.start], SetMap.noEmpty_empty⟩

/-- After any run both maps describe the same seats and a session has at most one. The cap holds as
well if every undo finds room. -/
theorem seats_consistent (limit : ℕ) (calls : List SeatCall) :
    let m := (run (seatStep limit) .start calls).seats
    m.Sound ∧ (∀ c j k, c ∈ m.byChannel.elems j → c ∈ m.byChannel.elems k → j = k) ∧
      (Along (seatStep limit) (UndoFits limit) .start calls → m.Capped limit) := by
  have hsnd : (run (seatStep limit) .start calls).seats.Sound :=
    run_invariant (P := fun w : SeatWorld => w.seats.Sound)
      (fun _ call h => (seatStep_keeps call h).1) start_sound calls
  refine ⟨hsnd, fun c j k hj hk => ?_, fun hft => ?_⟩
  · rw [← hsnd.inverse] at hj hk
    exact Option.some.inj (hj.symm.trans hk)
  · refine (run_invariant_along (P := fun w => w.seats.Sound ∧ w.seats.Capped limit)
      (fun w call hf h => ?_) ⟨start_sound, fun k _ => ?_⟩ hft).2
    · obtain ⟨hs, hc⟩ := @seatStep_keeps limit _ call h.1
      exact ⟨hs, hc hf h.2⟩
    · simp [SeatWorld.start]

/-- A session moves on and is brought back to its seat, which nobody has taken. -/
theorem seats_consistent_back :
    let moved := run (seatStep 1) .start [.take 1 "a" ⟨"p", "d"⟩ (fun _ => true),
      .carry 2 "a" none (fun _ => true)]
    moved.undos[1]? = some ⟨2, "a", ⟨"p", "d"⟩, some 1⟩ ∧
      (run (seatStep 1) moved [.undo 1]).seats.Capped 1 := by
  intro moved
  have hun : moved.undos[1]? = some ⟨2, "a", ⟨"p", "d"⟩, some 1⟩ := by decide +kernel
  refine ⟨hun, (seats_consistent 1 [.take 1 "a" ⟨"p", "d"⟩ (fun _ => true),
    .carry 2 "a" none (fun _ => true), .undo 1]).2.2
    ⟨trivial, trivial, fun u hu _ prev hpr _ => ?_, trivial⟩⟩
  obtain rfl := Option.some.inj (hun.symm.trans hu)
  obtain rfl := Option.some.inj hpr
  decide +kernel

/-- A session moves on, another takes its seat, and the undo of the move brings it back. -/
theorem undo_exceeds_cap : ((run (seatStep 1) .start
      [.take 1 "a" ⟨"p", "d"⟩ (fun _ => true), .carry 2 "a" none (fun _ => true),
        .take 1 "b" ⟨"q", "e"⟩ (fun _ => true), .undo 1]).seats.byChannel.elems 1).card = 2 := by
  decide +kernel

end Noxa.Server

import Noxa.Lib.Machine

/-!
# A read-write lock with cancellable writers

`contextRWMutex` (`internal/webrtc`) lets a caller wait on a channel that is closed and replaced
when the lock changes. Its methods run under a mutex that is released only for a wait, so a step of
the system is one method up to its return or its next wait. Channels are numbered as they are made,
and one is open exactly while it is `changed`.

`Lock` is `LockContext` with a context that is never cancelled.

## Main results

* `ContextRWMutex.turn_spec` — what one step does to the counters and to the callers that wait
* `SharedLock.Inv.serves` — what each call gives its caller
* `context_rwmutex_safe` — exclusion, preference of writers, no lost wake-up, cancellation
-/

namespace Noxa.Webrtc

open Machine List

structure ContextRWMutex where
  readers : ℕ := 0
  writers : ℕ := 0
  locked : Bool := false
  changed : Option ℕ := none
  made : ℕ := 0

/-- Where a caller is. Outside of a call it knows if the last one returned the error of its
context. -/
inductive Caller
  | idle (failed : Bool)
  | waitsToRead (changed : ℕ)
  | waitsToWrite (changed : ℕ) (cancelled : Bool)
  | reads
  | writes
  | panicked
  deriving DecidableEq

inductive LockCall
  | lockContext (cancelled : Bool)
  | unlock
  | rLock
  | tryRLock
  | rUnlock
  /-- The context of the call is cancelled. -/
  | cancel
  /-- A wait that has ended goes on. -/
  | wake
  deriving DecidableEq

namespace ContextRWMutex

variable (m : ContextRWMutex)

def changedLocked : ContextRWMutex × ℕ :=
  match m.changed with
  | some c => (m, c)
  | none => ({ m with changed := some m.made, made := m.made + 1 }, m.made)

def notifyLocked : ContextRWMutex := { m with changed := none }

/-- The loop of `LockContext` up to its next wait, with the deferred function if it returns. -/
def lockLoop (cancelled : Bool) : ContextRWMutex × Caller :=
  if cancelled = true then ({ m with writers := m.writers - 1 }.notifyLocked, .idle true)
  else if m.locked = false ∧ m.readers = 0 then
    ({ m with locked := true, writers := m.writers - 1 }.notifyLocked, .writes)
  else (m.changedLocked.1, .waitsToWrite m.changedLocked.2 false)

def lockContext (cancelled : Bool) : ContextRWMutex × Caller :=
  { m with writers := m.writers + 1 }.lockLoop cancelled

def unlock : ContextRWMutex × Caller :=
  if m.locked = false then (m, .panicked)
  else ({ m with locked := false }.notifyLocked, .idle false)

def rLock : ContextRWMutex × Caller :=
  if m.locked = true ∨ m.writers ≠ 0 then (m.changedLocked.1, .waitsToRead m.changedLocked.2)
  else ({ m with readers := m.readers + 1 }, .reads)

def tryRLock : ContextRWMutex × Caller :=
  if m.locked = true ∨ m.writers ≠ 0 then (m, .idle false)
  else ({ m with readers := m.readers + 1 }, .reads)

def rUnlock : ContextRWMutex × Caller :=
  if m.readers = 0 then (m, .panicked)
  else
    let m' := { m with readers := m.readers - 1 }
    (if m'.readers = 0 then m'.notifyLocked else m', .idle false)

/-- One step of a caller. What it cannot do where it is changes nothing. -/
def turn : Caller → LockCall → ContextRWMutex × Caller
  | .idle _, .lockContext cancelled => m.lockContext cancelled
  | .idle _, .rLock => m.rLock
  | .idle _, .tryRLock => m.tryRLock
  | .writes, .unlock => m.unlock
  | .reads, .rUnlock => m.rUnlock
  | .waitsToWrite c _, .cancel => (m, .waitsToWrite c true)
  | .waitsToWrite c cancelled, .wake =>
    if cancelled = false ∧ m.changed = some c then (m, .waitsToWrite c cancelled)
    else m.lockLoop cancelled
  | .waitsToRead c, .wake => if m.changed = some c then (m, .waitsToRead c) else m.rLock
  | p, _ => (m, p)

end ContextRWMutex

structure SharedLock where
  mutex : ContextRWMutex := {}
  callers : List Caller

def lockStep (s : SharedLock) (input : ℕ × LockCall) : SharedLock × Unit :=
  match s.callers[input.1]? with
  | none => (s, ())
  | some p =>
    let t := s.mutex.turn p input.2
    (⟨t.1, s.callers.set input.1 t.2⟩, ())

namespace Caller

def asks : Caller → Bool
  | waitsToWrite _ _ => true
  | _ => false

/-- Who waits on an open channel has to, and no call has panicked. -/
def Sound (m : ContextRWMutex) : Caller → Prop
  | waitsToRead c => c < m.made ∧ (m.changed = some c → m.locked = true ∨ m.writers ≠ 0)
  | waitsToWrite c cancelled =>
    c < m.made ∧ (cancelled = false → m.changed = some c → m.locked = true ∨ m.readers ≠ 0)
  | panicked => False
  | _ => True

end Caller

open Caller

variable {m m' : ContextRWMutex} {p q : Caller}

/-- The counters before a step, as far as they say where the caller is. -/
structure Fits (m : ContextRWMutex) (p : Caller) : Prop where
  sound : p.Sound m
  reads : p = reads → m.readers ≠ 0
  asks : p.asks = true → m.writers ≠ 0
  writes : p = writes → m.locked = true
  alone : m.locked = true → m.readers = 0
  made : ∀ c, m.changed = some c → c < m.made

/-- What a step does: each counter follows the caller, and nobody is left blocked for nothing. -/
structure Turned (m : ContextRWMutex) (p : Caller) (t : ContextRWMutex × Caller) : Prop where
  readers : t.1.readers + (p == reads).toNat = m.readers + (t.2 == reads).toNat
  writers : t.1.writers + p.asks.toNat = m.writers + t.2.asks.toNat
  locked : t.1.locked.toNat + (p == writes).toNat = m.locked.toNat + (t.2 == writes).toNat
  alone : t.1.locked = true → t.1.readers = 0
  refused : m.writers ≠ 0 → t.2 = reads → p = reads
  made : ∀ c, t.1.changed = some c → c < t.1.made
  others : ∀ q : Caller, q.Sound m → q.Sound t.1
  own : t.2.Sound t.1

/-! ### Waiters -/

section

variable (hq : q.Sound m)

include hq

/-- Nobody waits for nothing once the channel is closed. -/
theorem Caller.Sound.of_closed (hmd : m'.made = m.made) (hcld : m'.changed = none) :
    q.Sound m' := by
  cases q with
  | waitsToRead c => exact ⟨hmd ▸ hq.1, fun hop => by simp [hcld] at hop⟩
  | waitsToWrite c cancelled => exact ⟨hmd ▸ hq.1, fun _ hop => by simp [hcld] at hop⟩
  | panicked => exact hq
  | _ => trivial

/-- A channel that stays open is waited on for what still holds. -/
theorem Caller.Sound.of_busier (hmd : m'.made = m.made) (hchd : m'.changed = m.changed)
    (hl : m.locked = true → m'.locked = true) (hrea : m.readers ≠ 0 → m'.readers ≠ 0)
    (hwrs : m.writers ≠ 0 → m'.writers ≠ 0) : q.Sound m' := by
  cases q with
  | waitsToRead c =>
    exact ⟨hmd ▸ hq.1, fun hop => (hq.2 (hchd ▸ hop)).imp hl hwrs⟩
  | waitsToWrite c cancelled =>
    exact ⟨hmd ▸ hq.1, fun hno hop => (hq.2 hno (hchd ▸ hop)).imp hl hrea⟩
  | panicked => exact hq
  | _ => trivial

/-- Nobody waits on a channel that is new. -/
theorem Caller.Sound.changedLocked : q.Sound m.changedLocked.1 := by
  rw [ContextRWMutex.changedLocked]
  cases hchd : m.changed with
  | some c => exact hq
  | none =>
    cases q with
    | waitsToRead c =>
      exact ⟨Nat.lt_succ_of_lt hq.1, fun hop =>
        absurd (Option.some.inj hop) (Nat.ne_of_gt hq.1)⟩
    | waitsToWrite c cancelled =>
      exact ⟨Nat.lt_succ_of_lt hq.1, fun _ hop =>
        absurd (Option.some.inj hop) (Nat.ne_of_gt hq.1)⟩
    | panicked => exact hq
    | _ => trivial

end

/-! ### One step -/

namespace ContextRWMutex

theorem changedLocked_counters : m.changedLocked.1.readers = m.readers ∧
    m.changedLocked.1.writers = m.writers ∧ m.changedLocked.1.locked = m.locked := by
  rw [changedLocked]
  cases m.changed <;> exact ⟨rfl, rfl, rfl⟩

theorem unlock_turned (hl : m.locked = true) : Turned m writes m.unlock := by
  rw [unlock, if_neg (by simp [hl])]
  exact ⟨rfl, rfl, by simp [notifyLocked, hl], fun h => by simp [notifyLocked] at h,
    fun _ h => by simp at h, fun c hc => by simp [notifyLocked] at hc,
    fun q hq => hq.of_closed rfl rfl, trivial⟩

section

variable (ha : m.locked = true → m.readers = 0) (hmd : ∀ c, m.changed = some c → c < m.made)

include ha hmd

/-- A step that changes no counter. -/
theorem turned_same (hrds : (q == reads) = (p == reads)) (hasks : q.asks = p.asks)
    (hwr : (q == writes) = (p == writes)) (hq : q.Sound m) : Turned m p (m, q) :=
  ⟨by rw [hrds], by rw [hasks], by rw [hwr], ha,
    fun _ hrd => by simpa [show q = reads from hrd] using hrds.symm, hmd, fun _ hq => hq, hq⟩

/-- A step that waits from here on. -/
theorem turned_waits (hrds : (q == reads) = (p == reads)) (hasks : q.asks = p.asks)
    (hwr : (q == writes) = (p == writes))
    (hq : m.changedLocked.2 < m.changedLocked.1.made → q.Sound m.changedLocked.1) :
    Turned m p (m.changedLocked.1, q) := by
  obtain ⟨hrea, hwrs, hl⟩ := m.changedLocked_counters
  obtain ⟨hop, hlt⟩ : m.changedLocked.1.changed = some m.changedLocked.2 ∧
      m.changedLocked.2 < m.changedLocked.1.made := by
    rw [changedLocked]
    cases hchd : m.changed with
    | some c => exact ⟨hchd, hmd c hchd⟩
    | none => exact ⟨rfl, Nat.lt_succ_self _⟩
  refine ⟨by rw [hrea, hrds], by rw [hwrs, hasks], by rw [hl, hwr],
    by rw [hl, hrea]; exact ha,
    fun _ hrd => by simpa [show q = reads from hrd] using hrds.symm, fun c hc => ?_,
    fun _ hq => hq.changedLocked, hq hlt⟩
  rw [← Option.some.inj (hop.symm.trans hc)]
  exact hlt

theorem lockLoop_turned (hasks : m.writers ≠ 0) (c : ℕ) (b cancelled : Bool) :
    Turned m (waitsToWrite c b) (m.lockLoop cancelled) := by
  have hle : m.writers - 1 + 1 = m.writers := Nat.sub_add_cancel (Nat.pos_of_ne_zero hasks)
  rw [lockLoop]
  split
  · exact ⟨rfl, hle, rfl, ha, fun _ h => by simp at h, fun c hc => by simp [notifyLocked] at hc,
      fun q hq => hq.of_closed rfl rfl, trivial⟩
  split
  · rename_i hfe
    exact ⟨rfl, hle, by simp [notifyLocked, hfe.1], fun _ => hfe.2, fun _ h => by simp at h,
      fun c hc => by simp [notifyLocked] at hc, fun q hq => hq.of_closed rfl rfl, trivial⟩
  · rename_i hbz
    rw [not_and_or, Bool.not_eq_false] at hbz
    obtain ⟨hrea, -, hl⟩ := m.changedLocked_counters
    refine turned_waits ha hmd rfl rfl rfl fun hlt => ⟨hlt, ?_⟩
    rw [hrea, hl]
    exact fun _ _ => hbz

/-- Asking is counted before the loop. -/
theorem lockContext_turned (b cancelled : Bool) : Turned m (idle b) (m.lockContext cancelled) := by
  have h := lockLoop_turned (m := { m with writers := m.writers + 1 }) ha hmd
    (Nat.succ_ne_zero _) 0 b cancelled
  refine ⟨h.readers, Nat.succ.inj ?_, h.locked, h.alone,
    fun _ hrd => absurd (h.refused (Nat.succ_ne_zero _) hrd) (by simp), h.made,
    fun q hq => h.others q (hq.of_busier rfl rfl id id fun _ => Nat.succ_ne_zero _), h.own⟩
  exact h.writers.trans (Nat.succ_add _ _)

omit ha in
/-- A step that reads from here on. -/
theorem turned_reads (hrds : (p == reads) = false) (hasks : p.asks = false)
    (hwr : (p == writes) = false) (hfe : ¬(m.locked = true ∨ m.writers ≠ 0)) :
    Turned m p ({ m with readers := m.readers + 1 }, reads) := by
  rw [not_or] at hfe
  exact ⟨by rw [hrds]; rfl, by rw [hasks]; rfl, by rw [hwr]; rfl,
    fun hl => absurd hl hfe.1, fun hwrs => absurd hwrs hfe.2, hmd,
    fun q hq => hq.of_busier rfl rfl id (fun _ => Nat.succ_ne_zero _) id, trivial⟩

theorem rLock_turned (hrds : (p == reads) = false) (hasks : p.asks = false)
    (hwr : (p == writes) = false) :
    Turned m p m.rLock := by
  rw [rLock]
  split
  · rename_i hbz
    obtain ⟨-, hwrs, hl⟩ := m.changedLocked_counters
    refine turned_waits ha hmd hrds.symm hasks.symm hwr.symm fun hlt => ⟨hlt, ?_⟩
    rw [hwrs, hl]
    exact fun _ => hbz
  · exact turned_reads hmd hrds hasks hwr ‹_›

theorem tryRLock_turned (b : Bool) : Turned m (idle b) m.tryRLock := by
  rw [tryRLock]
  split
  · exact turned_same ha hmd rfl rfl rfl trivial
  · exact turned_reads hmd rfl rfl rfl ‹_›

/-- The last reader tells the writers. -/
theorem rUnlock_turned (hrea : m.readers ≠ 0) : Turned m reads m.rUnlock := by
  have hle : m.readers - 1 + 1 = m.readers := Nat.sub_add_cancel (Nat.pos_of_ne_zero hrea)
  have hfe : m.locked = true → False := fun hl => hrea (ha hl)
  rw [rUnlock, if_neg hrea]
  dsimp only
  split
  · exact ⟨hle, rfl, rfl, fun hl => (hfe hl).elim, fun _ h => by simp at h,
      fun c hc => by simp [notifyLocked] at hc, fun q hq => hq.of_closed rfl rfl, trivial⟩
  · exact ⟨hle, rfl, rfl, fun hl => (hfe hl).elim, fun _ h => by simp at h, hmd,
      fun q hq => hq.of_busier rfl rfl id (fun _ => ‹_›) id, trivial⟩

end

theorem turn_spec (h : Fits m p) (call : LockCall) : Turned m p (m.turn p call) := by
  obtain ⟨hp, hrds, hasks, hwr, ha, hmd⟩ := h
  have hsm : Turned m p (m, p) := turned_same ha hmd rfl rfl rfl hp
  cases p with
  | idle b =>
    cases call with
    | lockContext cancelled => exact lockContext_turned ha hmd b cancelled
    | rLock => exact rLock_turned ha hmd rfl rfl rfl
    | tryRLock => exact tryRLock_turned ha hmd b
    | _ => exact hsm
  | waitsToRead c =>
    cases call with
    | wake =>
      rw [turn]
      split
      · exact hsm
      · exact rLock_turned ha hmd rfl rfl rfl
    | _ => exact hsm
  | waitsToWrite c cancelled =>
    cases call with
    | cancel => exact turned_same ha hmd rfl rfl rfl ⟨hp.1, fun h => by simp at h⟩
    | wake =>
      rw [turn]
      split
      · exact hsm
      · exact lockLoop_turned ha hmd (hasks rfl) c cancelled cancelled
    | _ => exact hsm
  | reads =>
    cases call with
    | rUnlock => exact rUnlock_turned ha hmd (hrds rfl)
    | _ => exact hsm
  | writes =>
    cases call with
    | unlock => exact unlock_turned (hwr rfl)
    | _ => exact hsm
  | panicked => exact hp.elim

end ContextRWMutex

open ContextRWMutex

/-- The counters of the lock count its callers. -/
structure SharedLock.Inv (s : SharedLock) : Prop where
  readers : s.mutex.readers = s.callers.count reads
  writers : s.mutex.writers = s.callers.countP asks
  locked : s.mutex.locked.toNat = s.callers.count writes
  alone : s.mutex.locked = true → s.mutex.readers = 0
  made : ∀ c, s.mutex.changed = some c → c < s.mutex.made
  sound : ∀ p ∈ s.callers, p.Sound s.mutex

variable {s : SharedLock}

namespace SharedLock.Inv

theorem readers_ne_zero (h : s.Inv) : s.mutex.readers ≠ 0 ↔ reads ∈ s.callers := by
  rw [h.readers, ← Nat.pos_iff_ne_zero, count_pos_iff]

theorem writers_ne_zero (h : s.Inv) : s.mutex.writers ≠ 0 ↔ ∃ w ∈ s.callers, w.asks = true := by
  rw [h.writers, ← Nat.pos_iff_ne_zero, countP_pos_iff]

theorem locked_iff (h : s.Inv) : s.mutex.locked = true ↔ writes ∈ s.callers := by
  rw [← count_pos_iff, ← h.locked]
  cases s.mutex.locked <;> decide

theorem fits (h : s.Inv) (hp : p ∈ s.callers) : Fits s.mutex p where
  sound := h.sound p hp
  reads := by
    rintro rfl
    exact h.readers_ne_zero.mpr hp
  asks hasks := h.writers_ne_zero.mpr ⟨p, hp, hasks⟩
  writes := by
    rintro rfl
    exact h.locked_iff.mpr hp
  alone := h.alone
  made := h.made

theorem step (h : s.Inv) (input : ℕ × LockCall) : (lockStep s input).1.Inv := by
  rw [lockStep]
  split
  · exact h
  rename_i p hp
  have ht := turn_spec (h.fits (mem_of_getElem? hp)) input.2
  generalize s.mutex.turn p input.2 = t at *
  have hcnt : ∀ f : Caller → Bool,
      (s.callers.set input.1 t.2).countP f + (f p).toNat = s.callers.countP f +
        (f t.2).toNat := fun f => by
    obtain ⟨hlt, rfl⟩ := List.getElem?_eq_some_iff.mp hp
    have hpos : f s.callers[input.1] = true → 0 < s.callers.countP f := fun hf =>
      countP_pos_iff.mpr ⟨_, getElem_mem hlt, hf⟩
    rw [countP_set hlt]
    grind
  have hrds := hcnt (· == reads)
  have hwr := hcnt (· == writes)
  refine ⟨?_, ?_, ?_, ht.alone, ht.made, fun q hq => ?_⟩
  · exact Nat.add_right_cancel (ht.readers.trans (h.readers ▸ hrds.symm))
  · exact Nat.add_right_cancel (ht.writers.trans (h.writers ▸ (hcnt asks).symm))
  · exact Nat.add_right_cancel (ht.locked.trans (h.locked ▸ hwr.symm))
  · rcases mem_or_eq_of_mem_set hq with hq | rfl
    · exact ht.others q (h.sound q hq)
    · exact ht.own

end SharedLock.Inv

/-! ### What a call gives its caller -/

namespace SharedLock

variable (s) (g : ℕ) (call : LockCall)

/-- Where a caller is after its next step. -/
def after : Option Caller := (lockStep s (g, call)).1.callers[g]?

/-- Nobody holds the lock. -/
def Free : Prop := writes ∉ s.callers ∧ reads ∉ s.callers

/-- No writer holds the lock or asks for it. -/
def Open : Prop := writes ∉ s.callers ∧ ∀ w ∈ s.callers, w.asks = false

/-- What the steps of a caller come to. A call that has to wait is asked again when it wakes. -/
structure Serves (p : Caller) : Prop where
  lock : ∀ call, (∃ b, p = idle b ∧ call = .lockContext false) ∨
      (∃ c, p = waitsToWrite c false ∧ call = .wake) →
    (s.Free → s.after g call = some writes) ∧
      (¬ s.Free → ∃ c, s.after g call = some (waitsToWrite c false))
  read : ∀ call, (∃ b, p = idle b ∧ call = .rLock) ∨ (∃ c, p = waitsToRead c ∧ call = .wake) →
    (s.Open → s.after g call = some reads) ∧ (¬ s.Open → ∃ c, s.after g call = some (waitsToRead c))
  tryRead : ∀ b, p = idle b → (s.Open → s.after g .tryRLock = some reads) ∧
    (¬ s.Open → s.after g .tryRLock = some (idle false))
  cancelled : ∀ call, (∃ b, p = idle b ∧ call = .lockContext true) ∨
      (∃ c, p = waitsToWrite c true ∧ call = .wake) →
    s.after g call = some (idle true) ∧ (lockStep s (g, call)).1.mutex.readers = s.mutex.readers ∧
      (lockStep s (g, call)).1.mutex.locked = s.mutex.locked ∧
      (lockStep s (g, call)).1.mutex.writers + p.asks.toNat = s.mutex.writers
  unlock : p = writes → s.after g .unlock = some (idle false)
  rUnlock : p = reads → s.after g .rUnlock = some (idle false)

end SharedLock

theorem ContextRWMutex.lockLoop_serves (m : ContextRWMutex) :
    (m.locked = false ∧ m.readers = 0 → (m.lockLoop false).2 = writes) ∧
      (¬(m.locked = false ∧ m.readers = 0) → ∃ c, (m.lockLoop false).2 = waitsToWrite c false) := by
  rw [lockLoop, if_neg (by decide)]
  constructor
  · intro hfe
    rw [if_pos hfe]
  · intro hbz
    rw [if_neg hbz]
    exact ⟨_, rfl⟩

theorem ContextRWMutex.rLock_serves (m : ContextRWMutex) :
    (¬(m.locked = true ∨ m.writers ≠ 0) → m.rLock.2 = reads ∧ m.tryRLock.2 = reads) ∧
      ((m.locked = true ∨ m.writers ≠ 0) →
        (∃ c, m.rLock.2 = waitsToRead c) ∧ m.tryRLock.2 = idle false) := by
  rw [rLock, tryRLock]
  constructor
  · intro hop
    rw [if_neg hop, if_neg hop]
    exact ⟨rfl, rfl⟩
  · intro hbz
    rw [if_pos hbz, if_pos hbz]
    exact ⟨⟨_, rfl⟩, rfl⟩

theorem SharedLock.Inv.serves (h : s.Inv) {g : ℕ} (hp : s.callers[g]? = some p) : s.Serves g p := by
  have hft := h.fits (mem_of_getElem? hp)
  obtain ⟨hlt, -⟩ := List.getElem?_eq_some_iff.mp hp
  have hs : ∀ call, lockStep s (g, call) =
      (⟨(s.mutex.turn p call).1, s.callers.set g (s.mutex.turn p call).2⟩, ()) := by
    intro call
    simp only [lockStep, hp]
  have haft : ∀ call, s.after g call = some (s.mutex.turn p call).2 := by
    intro call
    rw [after, hs, getElem?_set_self hlt]
  have hfe : s.Free ↔ s.mutex.locked = false ∧ s.mutex.readers = 0 := by
    rw [Free, ← h.locked_iff, Bool.not_eq_true, ← h.readers_ne_zero, not_not]
  have hop : s.Open ↔ ¬(s.mutex.locked = true ∨ s.mutex.writers ≠ 0) := by
    rw [Open, ← h.locked_iff, not_or, h.writers_ne_zero]
    simp
  obtain ⟨hlc, hwt⟩ := s.mutex.lockLoop_serves
  obtain ⟨hrd, hd⟩ := s.mutex.rLock_serves
  constructor
  · rintro call (⟨b, rfl, rfl⟩ | ⟨c, rfl, rfl⟩)
    · simp only [haft, Option.some.injEq, hfe]
      exact { s.mutex with writers := s.mutex.writers + 1 }.lockLoop_serves
    · simp only [haft, Option.some.injEq, hfe, turn, true_and]
      split
      · refine ⟨fun hnn => ?_, fun _ => ⟨c, rfl⟩⟩
        rcases hft.sound.2 rfl ‹_› with hl | hrea
        · simp [hnn.1] at hl
        · exact absurd hnn.2 hrea
      · exact ⟨hlc, hwt⟩
  · rintro call (⟨b, rfl, rfl⟩ | ⟨c, rfl, rfl⟩)
    · simp only [haft, Option.some.injEq, hop, not_not]
      exact ⟨fun hnn => (hrd hnn).1, fun hbz => (hd hbz).1⟩
    · simp only [haft, Option.some.injEq, hop, not_not, turn]
      split
      · exact ⟨fun hnn => absurd (hft.sound.2 ‹_›) hnn, fun _ => ⟨c, rfl⟩⟩
      · exact ⟨fun hnn => (hrd hnn).1, fun hbz => (hd hbz).1⟩
  · rintro b rfl
    simp only [haft, Option.some.injEq, hop, not_not]
    exact ⟨fun hnn => (hrd hnn).2, fun hbz => (hd hbz).2⟩
  · rintro call (⟨b, rfl, rfl⟩ | ⟨c, rfl, rfl⟩)
    · rw [haft, hs]
      exact ⟨rfl, rfl, rfl, rfl⟩
    · rw [haft, hs]
      exact ⟨rfl, rfl, rfl, Nat.sub_add_cancel (Nat.pos_of_ne_zero (hft.asks rfl))⟩
  · rintro rfl
    rw [haft, turn, unlock, if_neg (by simp [hft.writes rfl])]
  · rintro rfl
    rw [haft, turn, rUnlock, if_neg (hft.reads rfl)]

/-- For every number of callers and every order of their steps: a writer is alone, and who is
blocked on a channel has to wait. No caller starts to read while a writer waits. The counters count
the callers. A call that asks for the lock gets it as soon as it may, and a writer whose context is
cancelled, before it asks or while it waits, gets its error and is not counted any more. -/
theorem context_rwmutex_safe (n : ℕ) (calls : List (ℕ × LockCall)) :
    let s := run lockStep ⟨{}, replicate n (idle false)⟩ calls
    (s.mutex.readers = s.callers.count reads ∧ s.mutex.writers = s.callers.countP asks ∧
      (s.mutex.locked = true ↔ writes ∈ s.callers)) ∧
    s.callers.count writes ≤ 1 ∧ (writes ∈ s.callers → reads ∉ s.callers) ∧ panicked ∉ s.callers ∧
    (∀ c, waitsToRead c ∈ s.callers → s.mutex.changed = some c → ¬ s.Open) ∧
    (∀ c, waitsToWrite c false ∈ s.callers → s.mutex.changed = some c → ¬ s.Free) ∧
    ∀ g p, s.callers[g]? = some p → s.Serves g p ∧
      ∀ call, (∃ w ∈ s.callers, w.asks = true) → s.after g call = some reads → p = reads := by
  intro s
  have h : s.Inv := run_invariant (fun _ input h => h.step input)
    ⟨by simp [count_replicate], by simp [countP_replicate, asks], by simp [count_replicate],
      nofun, nofun,
      fun p hp => by rw [eq_of_mem_replicate hp]; trivial⟩ calls
  have hl := h.locked_iff
  refine ⟨⟨h.readers, h.writers, hl⟩, h.locked ▸ Bool.toNat_le _, fun hw hr => ?_,
    h.sound _, fun c hc hop => ?_, fun c hc hop => ?_,
    fun g p hp => ⟨h.serves hp, fun call hasks hrds => ?_⟩⟩
  · exact h.readers_ne_zero.mpr hr (h.alone (hl.mpr hw))
  · rintro ⟨hwr, hasks⟩
    rcases (h.sound _ hc).2 hop with hbz | hbz
    · exact hwr (hl.mp hbz)
    · obtain ⟨w, hw, hasked⟩ := h.writers_ne_zero.mp hbz
      simp [hasks w hw] at hasked
  · rintro ⟨hwr, hrds⟩
    rcases (h.sound _ hc).2 rfl hop with hbz | hbz
    · exact hwr (hl.mp hbz)
    · exact hrds (h.readers_ne_zero.mp hbz)
  · obtain ⟨hlt, -⟩ := List.getElem?_eq_some_iff.mp hp
    simp only [SharedLock.after, lockStep, hp, getElem?_set_self hlt, Option.some.injEq] at hrds
    exact (turn_spec (h.fits (mem_of_getElem? hp)) call).refused (h.writers_ne_zero.mpr hasks) hrds

end Noxa.Webrtc

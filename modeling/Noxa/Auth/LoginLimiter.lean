import Noxa.Lib.Machine
import Noxa.Lib.Table

/-!
# The login limiter

`auth.LoginFailureLimiter` counts failed logins for scopes and locks a scope out after too many. Its
map is bounded: entries that have expired are pruned on every call, and the oldest ones are evicted
when there is no room for a new scope. A password is verified under a reservation of all its scopes,
which `Succeed`, `Fail` or `Cancel` gives back.

A call reads the clock once, and the clock never goes back, so an input has the time that has gone
by. The zero time is 0. Go leaves open in which order a map is ranged over, and the eviction takes
the first of the oldest entries, so an input also has that order.

Neither pruning nor eviction touches an entry that is in flight or locked. All results rest on that:
a call changes which scopes are in flight exactly as the reservations say (`Flying`), and a lockout
lasts until it ends (`LockedTo`).

## Main definitions

* `LoginFailureLimiter`, `Limits` — the map and the limits it is made with
* `LoginSystem`, `limiterStep` — the limiter with its unfinished attempts, and the calls
* `ReachesMax` — a call in which a failure reaches the limit

## Main results

* `LimiterInv.step` — attempts and entries in flight belong to each other
* `LockedTo.step` — a lockout outlasts every call that does not clear it
* `failures_counted` — failures in a row are counted one by one, up to the limit
* `login_limiter_not_bypassed` — what holds in all histories
-/

namespace Noxa.Auth

open Machine List Table

/-! ### The map -/

/-- The configuration as it is given. -/
structure LoginFailureLimiterConfig where
  maxFailures : Int := 0
  lockoutDuration : Int := 0
  failureTTL : Int := 0
  maxEntries : Int := 0
  maxConcurrentKDF : Int := 0

/-- The configuration of a limiter. -/
structure Limits where
  maxFailures : Int
  lockoutDuration : Int
  failureTTL : Int
  maxEntries : Int
  maxConcurrentKDF : Int
  maxFailures_pos : 0 < maxFailures
  lockoutDuration_pos : 0 < lockoutDuration
  failureTTL_pos : 0 < failureTTL
  maxEntries_pos : 0 < maxEntries
  maxConcurrentKDF_pos : 0 < maxConcurrentKDF

def DefaultLoginFailureMaxFailures : Int := 5

/-- Five minutes, in nanoseconds. -/
def DefaultLoginFailureLockout : Int := 5 * 60 * 1000000000

def DefaultLoginFailureTTL : Int := 5 * 60 * 1000000000

def DefaultLoginFailureMaxEntries : Int := 4096

def DefaultLoginFailureMaxConcurrentKDF : Int := 8

def orDefault (x default : Int) : Int := if x ≤ 0 then default else x

theorem orDefault_pos {x default : Int} (h : 0 < default) : 0 < orDefault x default := by
  rw [orDefault]
  split
  · exact h
  · omega

/-- The limits `NewLoginFailureLimiter` takes. -/
def LoginFailureLimiterConfig.limits (cfg : LoginFailureLimiterConfig) : Limits where
  maxFailures := orDefault cfg.maxFailures DefaultLoginFailureMaxFailures
  lockoutDuration := orDefault cfg.lockoutDuration DefaultLoginFailureLockout
  failureTTL := orDefault cfg.failureTTL DefaultLoginFailureTTL
  maxEntries := orDefault cfg.maxEntries DefaultLoginFailureMaxEntries
  maxConcurrentKDF := orDefault cfg.maxConcurrentKDF DefaultLoginFailureMaxConcurrentKDF
  maxFailures_pos := orDefault_pos (by decide)
  lockoutDuration_pos := orDefault_pos (by decide)
  failureTTL_pos := orDefault_pos (by decide)
  maxEntries_pos := orDefault_pos (by decide)
  maxConcurrentKDF_pos := orDefault_pos (by decide)

structure LoginFailureEntry where
  scope : String
  failures : Int := 0
  lastFailure : Int := 0
  lockedUntil : Int := 0
  inFlight : Bool := false
  deriving DecidableEq, Repr

namespace LoginFailureEntry

/-- In flight or locked. -/
def busy (e : LoginFailureEntry) (now : Int) : Bool := e.inFlight || decide (now < e.lockedUntil)

def expired (cfg : Limits) (e : LoginFailureEntry) (now : Int) : Bool :=
  let lockoutExpired := decide (e.lockedUntil ≠ 0)
  let failureExpired := decide (e.lastFailure = 0) ||
    (decide (e.lastFailure ≤ now) && decide (now - e.lastFailure ≥ cfg.failureTTL))
  lockoutExpired || failureExpired

/-- One more failure, which may lock the scope. -/
def failed (cfg : Limits) (e : LoginFailureEntry) (now : Int) : LoginFailureEntry :=
  if e.failures + 1 ≥ cfg.maxFailures then
    { e with failures := 0, lastFailure := now, lockedUntil := now + cfg.lockoutDuration }
  else { e with failures := e.failures + 1, lastFailure := now }

end LoginFailureEntry

abbrev LoginEntries := Table LoginFailureEntry LoginFailureEntry.scope

structure LoginFailureLimiter where
  entries : LoginEntries := Table.empty
  inFlight : Int := 0
  overflowUntil : Int := 0

/-- An order in which a map is ranged over. -/
structure RangeOrder where
  order : List LoginFailureEntry → List LoginFailureEntry
  perm : ∀ rows, (order rows).Perm rows

/-- Without repetitions and empty scopes. -/
def uniqueLoginScopes (seen : List String) : List String → List String
  | [] => []
  | scope :: scopes =>
    if scope = "" ∨ scope ∈ seen then uniqueLoginScopes seen scopes
    else scope :: uniqueLoginScopes (scope :: seen) scopes

namespace LoginFailureLimiter

variable (cfg : Limits) (l : LoginFailureLimiter) (order : RangeOrder) (scopes : List String)
  (now : Int)

def evictableCapacityLocked : Int :=
  cfg.maxEntries - l.entries.rows.length + l.entries.rows.countP fun e => !e.busy now

def clearOverflowWhenEvictableLocked : LoginFailureLimiter :=
  if l.evictableCapacityLocked cfg now > 0 ∨ l.overflowUntil ≤ now then
    { l with overflowUntil := 0 }
  else l

def pruneExpiredLocked : LoginFailureLimiter :=
  { l with entries := l.entries.delete fun e => !e.busy now && e.expired cfg now
    }.clearOverflowWhenEvictableLocked cfg now

/-- The first of the oldest entries that may go. -/
def oldest (protectedScopes : List String) (now : Int) (rows : List LoginFailureEntry) :
    Option LoginFailureEntry :=
  rows.foldl (fun best e =>
    if e.scope ∈ protectedScopes ∨ e.busy now = true then best
    else match best with
      | none => some e
      | some b => if e.lastFailure < b.lastFailure then some e else best) none

/-- As many rounds of the loop of `makeRoomLocked`. -/
def evict (order : RangeOrder) (now : Int) (protectedScopes : List String) :
    ℕ → LoginFailureLimiter → LoginFailureLimiter × Bool
  | 0, l => (l, true)
  | rounds + 1, l =>
    match oldest protectedScopes now (order.order l.entries.rows) with
    | none => ({ l with overflowUntil := now + cfg.lockoutDuration }, false)
    | some e =>
      evict order now protectedScopes rounds
        { l with entries := l.entries.delete fun x => decide (x.scope = e.scope) }

/-- A round frees one slot, so there are as many rounds as slots are missing
(`makeRoomLocked_eq`). -/
def makeRoomLocked (needed : Int) (protectedScopes : List String) : LoginFailureLimiter × Bool :=
  evict cfg order now protectedScopes (l.entries.rows.length + needed - cfg.maxEntries).toNat l

def scopesAvailableLocked : LoginFailureLimiter × Bool :=
  if scopes.any fun scope => (l.entries.get scope).any (·.busy now) then (l, false)
  else
    let newScopes : Int := scopes.countP fun scope => (l.entries.get scope).isNone
    if newScopes = 0 then (l, true)
    else
      let available : Int := cfg.maxEntries - l.entries.rows.length +
        l.entries.rows.countP fun e => decide (e.scope ∉ scopes) && !e.busy now
      if available ≥ newScopes then ({ l with overflowUntil := 0 }, true)
      else ({ l with overflowUntil := now + cfg.lockoutDuration }, false)

/-- Mark a scope, which gets an entry if it has none. -/
def mark (entries : LoginEntries) (scope : String) : LoginEntries :=
  entries.put { (entries.get scope).getD { scope := scope } with scope := scope, inFlight := true }

/-- `Reserve`, of scopes without repetitions. -/
def reserve : LoginFailureLimiter × Bool :=
  let l := l.pruneExpiredLocked cfg now
  if l.inFlight ≥ cfg.maxConcurrentKDF then (l, false)
  else
    let available := l.scopesAvailableLocked cfg scopes now
    if available.2 = false then (available.1, false)
    else
      let l := available.1
      let newScopes : Int := scopes.countP fun scope => (l.entries.get scope).isNone
      let room := l.makeRoomLocked cfg order now newScopes scopes
      if room.2 = false then (room.1, false)
      else
        ({ room.1 with
            entries := scopes.foldl mark room.1.entries
            inFlight := room.1.inFlight + 1 }, true)

inductive LoginAttemptResult
  | success
  | failure
  | cancel
  deriving DecidableEq, Repr

/-- An entry that says nothing is not kept. -/
def release (entries : LoginEntries) (e : LoginFailureEntry) : LoginEntries :=
  if e.failures = 0 ∧ e.lockedUntil = 0 then entries.delete fun x => decide (x.scope = e.scope)
  else entries.put e

/-- What `finish` does with a scope of the attempt. -/
def finishScope (result : LoginAttemptResult) (succeeded : List String) (now : Int)
    (entries : LoginEntries) (scope : String) : LoginEntries :=
  match entries.get scope with
  | none => entries
  | some e =>
    if e.inFlight = false then entries
    else
      let e := { e with inFlight := false }
      match result with
      | .success =>
        if scope ∈ succeeded then entries.delete fun x => decide (x.scope = scope)
        else release entries e
      | .failure => entries.put (e.failed cfg now)
      | .cancel => release entries e

/-- The loop of `finish`, with `finished`. -/
def finishScopes (result : LoginAttemptResult) (succeeded : List String) (now : Int) :
    List String → LoginEntries × Bool → LoginEntries × Bool
  | [], r => r
  | scope :: scopes, (entries, finished) =>
    finishScopes result succeeded now scopes (finishScope cfg result succeeded now entries scope,
        finished || (entries.get scope).any (·.inFlight))

def finish (result : LoginAttemptResult) (succeeded : List String) (now : Int) :
    LoginFailureLimiter :=
  let l := l.pruneExpiredLocked cfg now
  let r := finishScopes cfg result succeeded now scopes (l.entries, false)
  if r.2 = true then
    { l with entries := r.1, inFlight := l.inFlight - 1 }.clearOverflowWhenEvictableLocked cfg now
  else { l with entries := r.1 }

def allowed (scope : String) (now : Int) : LoginFailureLimiter × Bool :=
  if scope = "" then (l, true)
  else
    let l := l.pruneExpiredLocked cfg now
    if l.inFlight < cfg.maxConcurrentKDF then l.scopesAvailableLocked cfg [scope] now
    else (l, false)

def recordFailureLocked (l : LoginFailureLimiter) (scope : String) : LoginFailureLimiter :=
  match l.entries.get scope with
  | some e =>
    if e.inFlight = true then l else { l with entries := l.entries.put (e.failed cfg now) }
  | none =>
    let room := l.makeRoomLocked cfg order now 1 []
    if room.2 = false then room.1
    else { room.1 with
      entries := room.1.entries.put (LoginFailureEntry.failed cfg { scope := scope } now) }

def recordFailure : LoginFailureLimiter :=
  if scopes = [] then l
  else
    (scopes.foldl (recordFailureLocked cfg order now) (l.pruneExpiredLocked cfg now)
      ).clearOverflowWhenEvictableLocked cfg now

def clear : LoginFailureLimiter :=
  if scopes = [] then l
  else
    { l with entries := l.entries.delete fun e => decide (e.scope ∈ scopes) && !e.inFlight
      }.clearOverflowWhenEvictableLocked cfg now

end LoginFailureLimiter

/-! ### Calls -/

/-- An attempt that is not finished. -/
structure LoginAttempt where
  id : ℕ
  scopes : List String
  deriving DecidableEq, Repr

/-- The limiter, the clock, and the attempts that hold its reservations. -/
structure LoginSystem where
  limiter : LoginFailureLimiter := {}
  clock : Int
  attempts : Table LoginAttempt LoginAttempt.id := Table.empty
  next : ℕ := 0

inductive LimiterCall
  | reserve (scopes : List String)
  | succeed (attempt : ℕ) (successScopes : List String)
  | fail (attempt : ℕ)
  | cancel (attempt : ℕ)
  | recordFailure (scopes : List String)
  | clear (scopes : List String)
  | allowed (scope : String)

structure LimiterInput where
  elapsed : ℕ
  order : RangeOrder
  call : LimiterCall

inductive LimiterReply
  | reserved (attempt : ℕ)
  /-- an attempt without scopes and without a limiter -/
  | unlimited
  | refused
  | allowed
  | done
  deriving DecidableEq, Repr

/-- An attempt is finished once. -/
def LoginSystem.finish (cfg : Limits) (s : LoginSystem) (attempt : ℕ)
    (result : LoginFailureLimiter.LoginAttemptResult) (succeeded : List String) : LoginSystem :=
  match s.attempts.get attempt with
  | none => s
  | some a =>
    { s with
      limiter := s.limiter.finish cfg a.scopes result succeeded s.clock
      attempts := s.attempts.delete fun x => decide (x.id = attempt) }

def LoginSystem.answer (cfg : Limits) (s : LoginSystem) (order : RangeOrder) :
    LimiterCall → LoginSystem × LimiterReply
  | .reserve scopes =>
    let scopes := uniqueLoginScopes [] scopes
    if scopes = [] then (s, .unlimited)
    else
      let r := s.limiter.reserve cfg order scopes s.clock
      if r.2 = true then
        ({ s with limiter := r.1, attempts := s.attempts.put ⟨s.next, scopes⟩, next := s.next + 1 },
          .reserved s.next)
      else ({ s with limiter := r.1 }, .refused)
  | .succeed attempt scopes => (s.finish cfg attempt .success (uniqueLoginScopes [] scopes), .done)
  | .fail attempt => (s.finish cfg attempt .failure [], .done)
  | .cancel attempt => (s.finish cfg attempt .cancel [], .done)
  | .recordFailure scopes =>
    ({ s with limiter := s.limiter.recordFailure cfg order (uniqueLoginScopes [] scopes) s.clock },
      .done)
  | .clear scopes =>
    ({ s with limiter := s.limiter.clear cfg (uniqueLoginScopes [] scopes) s.clock }, .done)
  | .allowed scope =>
    let r := s.limiter.allowed cfg scope s.clock
    ({ s with limiter := r.1 }, if r.2 = true then .allowed else .refused)

/-- A call, after the time that has gone by. -/
def limiterStep (cfg : Limits) (s : LoginSystem) (i : LimiterInput) : LoginSystem × LimiterReply :=
  { s with clock := s.clock + i.elapsed }.answer cfg i.order i.call

/-! ### In flight and locked -/

def Flying (t : LoginEntries) (scope : String) : Prop :=
  ∃ e ∈ t.rows, e.scope = scope ∧ e.inFlight = true

/-- A lockout that lasts at least until then. -/
def LockedTo (t : LoginEntries) (scope : String) (till : Int) : Prop :=
  ∃ e ∈ t.rows, e.scope = scope ∧ e.inFlight = false ∧ till ≤ e.lockedUntil

/-- Only entries that are neither in flight nor locked are gone. -/
structure Trimmed (now : Int) (t t' : LoginEntries) : Prop where
  sub : ∀ e ∈ t'.rows, e ∈ t.rows
  kept : ∀ e ∈ t.rows, e.busy now = true → e ∈ t'.rows
  length : t'.rows.length ≤ t.rows.length

/-- The tables differ at most in one scope. -/
def Changed (scope : String) (t t' : LoginEntries) : Prop :=
  ∀ e : LoginFailureEntry, e.scope ≠ scope → (e ∈ t'.rows ↔ e ∈ t.rows)

section

variable {now till : Int} {scope x : String} {t t' t'' : LoginEntries}

theorem Trimmed.refl : Trimmed now t t := ⟨fun _ he => he, fun _ he _ => he, Nat.le_refl _⟩

theorem Trimmed.trans (h : Trimmed now t t') (h' : Trimmed now t' t'') : Trimmed now t t'' where
  sub e he := h.sub e (h'.sub e he)
  kept e he hbz := h'.kept e (h.kept e he hbz) hbz
  length := Nat.le_trans h'.length h.length

theorem Trimmed.delete {p : LoginFailureEntry → Bool}
    (hp : ∀ e ∈ t.rows, p e = true → e.busy now = false) : Trimmed now t (t.delete p) where
  sub e he := (mem_delete.mp he).1
  kept e he hbz := by
    refine mem_delete.mpr ⟨he, ?_⟩
    by_contra hpe
    rw [hp e he (by simpa using hpe)] at hbz
    exact absurd hbz (by decide)
  length := length_filter_le _ _

theorem Trimmed.flying (h : Trimmed now t t') (scope : String) :
    Flying t' scope ↔ Flying t scope := by
  refine exists_congr fun e => and_congr_left fun hrs => ⟨h.sub e, fun he => h.kept e he ?_⟩
  rw [LoginFailureEntry.busy, hrs.2, Bool.true_or]

theorem Trimmed.locked (h : Trimmed now t t') (hlc : LockedTo t scope till) (hnow : now < till) :
    LockedTo t' scope till := by
  obtain ⟨e, he, hsc, hf, htl⟩ := hlc
  refine ⟨e, h.kept e he ?_, hsc, hf, htl⟩
  rw [LoginFailureEntry.busy, decide_eq_true (by omega), Bool.or_true]

theorem Changed.put (t : LoginEntries) (e : LoginFailureEntry) : Changed e.scope t (t.put e) := by
  intro y hy
  rw [mem_put]
  constructor
  · rintro (rfl | ⟨hm, -⟩)
    · exact absurd rfl hy
    · exact hm
  · intro hm
    exact .inr ⟨hm, hy⟩

theorem Changed.delete (t : LoginEntries) (scope : String) :
    Changed scope t (t.delete fun e => decide (e.scope = scope)) := by
  intro y hy
  rw [mem_delete]
  exact and_iff_left (decide_eq_false hy)

theorem Changed.flying (h : Changed scope t t') (hx : x ≠ scope) : Flying t' x ↔ Flying t x :=
  exists_congr fun e => and_congr_left fun hrs => h e (hrs.1 ▸ hx)

theorem Changed.locked (h : Changed scope t t') (hx : x ≠ scope) (hlc : LockedTo t x till) :
    LockedTo t' x till := by
  obtain ⟨e, he, rfl, hrs⟩ := hlc
  exact ⟨e, (h e hx).mpr he, rfl, hrs⟩

theorem not_flying_of_get_none (h : t.get scope = none) : ¬ Flying t scope := by
  rintro ⟨e, he, hsc, -⟩
  exact get_eq_none.mp h e he hsc

theorem flying_iff_of_get {e : LoginFailureEntry} (h : t.get scope = some e) :
    Flying t scope ↔ e.inFlight = true := by
  obtain ⟨he, rfl⟩ := get_eq_some.mp h
  constructor
  · rintro ⟨e', he', hsc, hf⟩
    rwa [t.eq_of_key he' he hsc] at hf
  · intro hf
    exact ⟨e, he, rfl, hf⟩

theorem LockedTo.get (h : LockedTo t scope till) :
    ∃ e, t.get scope = some e ∧ e.inFlight = false ∧ till ≤ e.lockedUntil := by
  obtain ⟨e, he, hsc, hrs⟩ := h
  exact ⟨e, get_eq_some.mpr ⟨he, hsc⟩, hrs⟩

end

/-! ### Entries -/

namespace LoginFailureEntry

variable (cfg : Limits) (e : LoginFailureEntry) (now : Int)

theorem failed_scope : (e.failed cfg now).scope = e.scope := by
  rw [failed]
  split <;> rfl

theorem failed_inFlight : (e.failed cfg now).inFlight = e.inFlight := by
  rw [failed]
  split <;> rfl

end LoginFailureEntry

/-- A failure that reaches the limit locks the scope. -/
theorem LockedTo.failed {cfg : Limits} {t : LoginEntries} {e : LoginFailureEntry} {now : Int}
    {scope : String} (hm : e.failed cfg now ∈ t.rows) (hsc : e.scope = scope)
    (hln : e.inFlight = false) (hmax : cfg.maxFailures ≤ e.failures + 1) :
    LockedTo t scope (now + cfg.lockoutDuration) :=
  ⟨_, hm, (LoginFailureEntry.failed_scope cfg e now).trans hsc,
    (LoginFailureEntry.failed_inFlight cfg e now).trans hln,
    by simp [LoginFailureEntry.failed, hmax]⟩

theorem mem_uniqueLoginScopes {seen scopes : List String} {scope : String} :
    scope ∈ uniqueLoginScopes seen scopes ↔ scope ∈ scopes ∧ scope ≠ "" ∧ scope ∉ seen := by
  induction scopes generalizing seen with
  | nil => simp [uniqueLoginScopes]
  | cons x scopes ih =>
    rw [uniqueLoginScopes]
    split
    · next hsk =>
      rw [ih, mem_cons, or_and_right]
      refine (or_iff_right ?_).symm
      rintro ⟨rfl, hne, hsn⟩
      simp [hne, hsn] at hsk
    · next hkp =>
      rw [not_or] at hkp
      rw [mem_cons, mem_cons, ih, mem_cons]
      by_cases hx : scope = x
      · subst hx
        simp [hkp]
      · simp [hx]

namespace LoginFailureLimiter

open LoginFailureEntry

variable {cfg : Limits} (l : LoginFailureLimiter) (now : Int)

/-! ### Making room -/

@[simp]
theorem clearOverflow_entries :
    (l.clearOverflowWhenEvictableLocked cfg now).entries = l.entries := by
  rw [clearOverflowWhenEvictableLocked]
  split <;> rfl

@[simp]
theorem clearOverflow_inFlight :
    (l.clearOverflowWhenEvictableLocked cfg now).inFlight = l.inFlight := by
  rw [clearOverflowWhenEvictableLocked]
  split <;> rfl

@[simp] theorem prune_inFlight : (l.pruneExpiredLocked cfg now).inFlight = l.inFlight := by
  rw [pruneExpiredLocked, clearOverflow_inFlight]

theorem prune_trimmed : Trimmed now l.entries (l.pruneExpiredLocked cfg now).entries := by
  rw [pruneExpiredLocked, clearOverflow_entries]
  refine Trimmed.delete fun e _ hp => ?_
  rw [Bool.and_eq_true, Bool.not_eq_true'] at hp
  exact hp.1

variable {now : Int} {l l' : LoginFailureLimiter} {order : RangeOrder}
  {scopes succeeded protectedScopes : List String} {t : LoginEntries} {result : LoginAttemptResult}
  {r : LoginEntries × Bool} {e : LoginFailureEntry} {needed : Int}

theorem oldest_spec {rows : List LoginFailureEntry} (h : oldest protectedScopes now rows = some e) :
    e ∈ rows ∧ e.scope ∉ protectedScopes ∧ e.busy now = false := by
  -- the best so far is from the rows that were read and may go
  suffices hfo : ∀ best : Option LoginFailureEntry, rows.foldl (fun best e =>
        if e.scope ∈ protectedScopes ∨ e.busy now = true then best
        else match best with
          | none => some e
          | some b => if e.lastFailure < b.lastFailure then some e else best) best = some e →
      best = some e ∨ e ∈ rows ∧ e.scope ∉ protectedScopes ∧ e.busy now = false by
    exact (hfo none h).resolve_left (by simp)
  clear h
  induction rows with
  | nil => exact fun best h => .inl h
  | cons x rows ih =>
    intro best h
    rcases ih _ h with hbs | ⟨hm, hrs⟩
    · dsimp only at hbs
      split at hbs
      · exact .inl hbs
      rename_i hfre
      rw [not_or, Bool.not_eq_true] at hfre
      split at hbs
      · cases hbs
        exact .inr ⟨mem_cons_self, hfre⟩
      split at hbs
      · cases hbs
        exact .inr ⟨mem_cons_self, hfre⟩
      · exact .inl hbs
    · exact .inr ⟨mem_cons_of_mem _ hm, hrs⟩

/-- What rounds of eviction do. -/
structure Evicted (cfg : Limits) (now : Int) (protectedScopes : List String) (rounds : ℕ)
    (l : LoginFailureLimiter) (r : LoginFailureLimiter × Bool) : Prop where
  trimmed : Trimmed now l.entries r.1.entries
  spared : ∀ scope ∈ protectedScopes, r.1.entries.get scope = l.entries.get scope
  inFlight : r.1.inFlight = l.inFlight
  freed : r.2 = true → r.1.entries.rows.length + rounds = l.entries.rows.length

theorem evict_evicted (rounds : ℕ) (l : LoginFailureLimiter) :
    Evicted cfg now protectedScopes rounds l (evict cfg order now protectedScopes rounds l) := by
  induction rounds generalizing l with
  | zero => exact ⟨.refl, fun _ _ => rfl, rfl, fun _ => rfl⟩
  | succ rounds ih =>
    rw [evict]
    split
    · exact ⟨.refl, fun _ _ => rfl, rfl, fun h => absurd h (by simp)⟩
    rename_i e he
    obtain ⟨hm, hfre, hidl⟩ := oldest_spec he
    have hm : e ∈ l.entries.rows := (order.perm _).mem_iff.mp hm
    have hg : l.entries.get e.scope = some e := Table.get_of_mem hm
    have hrs := ih { l with entries := l.entries.delete fun x => decide (x.scope = e.scope) }
    refine ⟨Trimmed.trans (.delete fun x hx hsc => ?_) hrs.trimmed, fun scope hsc => ?_,
      hrs.inFlight, fun hrm => ?_⟩
    · rw [l.entries.eq_of_key hx hm (of_decide_eq_true hsc)]
      exact hidl
    · rw [hrs.spared scope hsc, get_delete]
      exact if_neg fun heq : scope = e.scope => hfre (heq ▸ hsc)
    · have hls := length_delete_of_some hg
      have hfrd := hrs.freed hrm
      dsimp only at hfrd
      omega

/-- The loop of the source: as long as there is too little room, the oldest entry goes. -/
theorem makeRoomLocked_eq : l.makeRoomLocked cfg order now needed protectedScopes =
      if l.entries.rows.length + needed ≤ cfg.maxEntries then (l, true)
      else match oldest protectedScopes now (order.order l.entries.rows) with
        | none => ({ l with overflowUntil := now + cfg.lockoutDuration }, false)
        | some e =>
          { l with entries := l.entries.delete fun x => decide (x.scope = e.scope)
            }.makeRoomLocked cfg order now needed protectedScopes := by
  rw [makeRoomLocked]
  split
  · next hrm =>
    rw [show (l.entries.rows.length + needed - cfg.maxEntries).toNat = 0 by omega, evict]
  rename_i hfu
  obtain ⟨rounds, hrn⟩ : ∃ n : ℕ, (l.entries.rows.length + needed - cfg.maxEntries).toNat = n + 1 :=
    ⟨(l.entries.rows.length + needed - cfg.maxEntries).toNat - 1, by omega⟩
  rw [hrn, evict]
  split
  · rfl
  rename_i e he
  have hg : l.entries.get e.scope = some e :=
    Table.get_of_mem ((order.perm _).mem_iff.mp (oldest_spec he).1)
  have hls := length_delete_of_some hg
  rw [makeRoomLocked]
  congr 1
  dsimp only
  omega

theorem makeRoomLocked_spec :
    Evicted cfg now protectedScopes (l.entries.rows.length + needed - cfg.maxEntries).toNat l
      (l.makeRoomLocked cfg order now needed protectedScopes) :=
  evict_evicted _ l

theorem makeRoomLocked_room (h : (l.makeRoomLocked cfg order now needed protectedScopes).2 = true) :
    (l.makeRoomLocked cfg order now needed protectedScopes).1.entries.rows.length + needed ≤
      cfg.maxEntries := by
  have hfrd := makeRoomLocked_spec.freed h
  omega

/-! ### Reservations -/

@[simp]
theorem scopesAvailable_entries :
    (l.scopesAvailableLocked cfg scopes now).1.entries = l.entries := by
  rw [scopesAvailableLocked]
  dsimp only
  repeat' split
  all_goals rfl

@[simp]
theorem scopesAvailable_inFlight :
    (l.scopesAvailableLocked cfg scopes now).1.inFlight = l.inFlight := by
  rw [scopesAvailableLocked]
  dsimp only
  repeat' split
  all_goals rfl

variable {scope : String}

/-- No scope of those that are available is in flight or locked. -/
theorem not_busy_of_available (h : (l.scopesAvailableLocked cfg scopes now).2 = true)
    (hsc : scope ∈ scopes) (he : l.entries.get scope = some e) : e.busy now = false := by
  rw [scopesAvailableLocked] at h
  split at h
  · exact absurd h Bool.false_ne_true
  rename_i hno
  rw [Bool.not_eq_true, any_eq_false] at hno
  have hidl := hno scope hsc
  rw [he] at hidl
  simpa using hidl

variable {till : Int}

theorem not_available_of_locked (hsc : scope ∈ scopes)
    (h : LockedTo l.entries scope till) (hnow : now < till) :
    (l.scopesAvailableLocked cfg scopes now).2 = false := by
  obtain ⟨e, he, -, htl⟩ := h.get
  by_contra hav
  have hidl := not_busy_of_available (by simpa using hav) hsc he
  rw [busy, Bool.or_eq_false_iff, decide_eq_false_iff_not] at hidl
  omega

theorem mark_changed (t : LoginEntries) (scope : String) : Changed scope t (mark t scope) :=
  Changed.put t { (t.get scope).getD { scope := scope } with scope := scope, inFlight := true }

theorem foldl_mark_flying (x : String) :
    Flying (scopes.foldl mark t) x ↔ Flying t x ∨ x ∈ scopes := by
  induction scopes generalizing t with
  | nil => simp
  | cons scope scopes ih =>
    rw [foldl_cons, ih, mem_cons]
    by_cases hx : x = scope
    · subst hx
      have hmk : Flying (mark t x) x := ⟨_, mem_put.mpr (.inl rfl), rfl, rfl⟩
      simp [hmk]
    · rw [(mark_changed t scope).flying hx]
      simp [hx]

theorem foldl_mark_locked {x : String} (h : LockedTo t x till) (hx : x ∉ scopes) :
    LockedTo (scopes.foldl mark t) x till := by
  induction scopes generalizing t with
  | nil => exact h
  | cons scope scopes ih =>
    rw [mem_cons, not_or] at hx
    exact ih ((mark_changed t scope).locked hx.1 h) hx.2

/-- Marking adds no more entries than scopes are missing. -/
theorem foldl_mark_length : (scopes.foldl mark t).rows.length ≤
      t.rows.length + scopes.countP fun scope => (t.get scope).isNone := by
  induction scopes generalizing t with
  | nil => simp
  | cons scope scopes ih =>
    have hrs := @ih (mark t scope)
    have hmis : (scopes.countP fun x => ((mark t scope).get x).isNone) ≤
        scopes.countP fun x => (t.get x).isNone := by
      refine countP_mono_left fun x _ hx => ?_
      rw [mark, get_put] at hx
      split at hx
      · simp at hx
      · exact hx
    rw [foldl_cons, countP_cons]
    cases hg : t.get scope with
    | none =>
      have hlen : (mark t scope).rows.length = t.rows.length + 1 := length_put_of_none hg
      simp only [Option.isNone_none, if_true]
      omega
    | some =>
      have hlen : (mark t scope).rows.length = t.rows.length := length_put_of_some hg
      simp only [Option.isNone_some, Bool.false_eq_true, if_false]
      omega

/-- What `Reserve` does. -/
structure Reserves (cfg : Limits) (l : LoginFailureLimiter) (scopes : List String) (now : Int)
    (r : LoginFailureLimiter × Bool) : Prop where
  flying : ∀ x, Flying r.1.entries x ↔ Flying l.entries x ∨ r.2 = true ∧ x ∈ scopes
  fresh : r.2 = true → ∀ x ∈ scopes, ¬ Flying l.entries x
  locked : ∀ x till, LockedTo l.entries x till → now < till → LockedTo r.1.entries x till
  refused : ∀ x till, LockedTo l.entries x till → now < till → x ∈ scopes → r.2 = false
  inFlight : r.1.inFlight = if r.2 = true then l.inFlight + 1 else l.inFlight
  slot : r.2 = true → l.inFlight < cfg.maxConcurrentKDF
  length : (l.entries.rows.length : Int) ≤ cfg.maxEntries →
    (r.1.entries.rows.length : Int) ≤ cfg.maxEntries

/-- A refusal only trims the map. -/
theorem Reserves.of_trimmed (h : Trimmed now l.entries l'.entries)
    (hf : l'.inFlight = l.inFlight) : Reserves cfg l scopes now (l', false) where
  flying x := by simpa using h.flying x
  fresh hfls := absurd hfls Bool.false_ne_true
  locked _ _ hlc hnow := h.locked hlc hnow
  refused _ _ _ _ _ := rfl
  inFlight := by simpa using hf
  slot hfls := absurd hfls Bool.false_ne_true
  length hlen := by
    have := h.length
    dsimp only
    omega

theorem reserve_spec : Reserves cfg l scopes now (l.reserve cfg order scopes now) := by
  have hpr := @prune_trimmed cfg l now
  rw [reserve]
  dsimp only
  split
  · exact .of_trimmed hpr (prune_inFlight l now)
  rename_i hsl
  rw [prune_inFlight] at hsl
  split
  · exact .of_trimmed (by simpa using hpr) (by simp)
  rename_i hav
  have hav : ((l.pruneExpiredLocked cfg now).scopesAvailableLocked cfg scopes now).2 = true :=
    by simpa using hav
  generalize hl : ((l.pruneExpiredLocked cfg now).scopesAvailableLocked cfg scopes now).1 = l'
  have hent : l'.entries = (l.pruneExpiredLocked cfg now).entries := by
    rw [← hl, scopesAvailable_entries]
  have hf : l'.inFlight = l.inFlight := by
    rw [← hl, scopesAvailable_inFlight, prune_inFlight]
  have hsp := @makeRoomLocked_spec cfg now l' order scopes
    (scopes.countP fun scope => (l'.entries.get scope).isNone)
  have ht : Trimmed now l.entries (l'.makeRoomLocked cfg order now
      (scopes.countP fun scope => (l'.entries.get scope).isNone) scopes).1.entries := by
    refine hpr.trans ?_
    rw [← hent]
    exact hsp.trimmed
  split
  · exact .of_trimmed ht (hsp.inFlight.trans hf)
  rename_i hrm
  have hrm := makeRoomLocked_room (eq_true_of_ne_false hrm)
  have hop : ∀ x till, LockedTo l.entries x till → now < till → x ∉ scopes := by
    intro x till hlc hnow hx
    rw [not_available_of_locked hx (hpr.locked hlc hnow) hnow] at hav
    exact absurd hav (by decide)
  refine ⟨fun x => ?_, fun _ x hx hfl => ?_, fun x till hlc hnow => ?_,
    fun x till hlc hnow hx => ?_, ?_, fun _ => by omega, fun _ => ?_⟩
  · rw [foldl_mark_flying, ht.flying]
    simp
  · obtain ⟨e, he, rfl, hfe⟩ := (hpr.flying x).mpr hfl
    have hbz := not_busy_of_available hav hx (Table.get_of_mem he)
    rw [busy, hfe] at hbz
    simp at hbz
  · exact foldl_mark_locked (ht.locked hlc hnow) (hop x till hlc hnow)
  · exact absurd hx (hop x till hlc hnow)
  · simp [hsp.inFlight, hf]
  · have hlen := @foldl_mark_length scopes (l'.makeRoomLocked cfg order now
      (scopes.countP fun scope => (l'.entries.get scope).isNone) scopes).1.entries
    have hmis : (scopes.countP fun scope => ((l'.makeRoomLocked cfg order now
        (scopes.countP fun scope => (l'.entries.get scope).isNone)
        scopes).1.entries.get scope).isNone) =
        scopes.countP fun scope => (l'.entries.get scope).isNone := by
      refine countP_congr fun scope hsc => ?_
      rw [hsp.spared scope hsc]
    rw [hmis] at hlen
    dsimp only
    omega

/-! ### Finishing -/

/-- What `finish` does with a scope. -/
structure Finished (cfg : Limits) (result : LoginAttemptResult) (now : Int) (scope : String)
    (t t' : LoginEntries) : Prop where
  changed : Changed scope t t'
  landed : ¬ Flying t' scope
  idle : ¬ Flying t scope → t' = t
  length : t'.rows.length ≤ t.rows.length
  failed : result = .failure → ∀ e ∈ t.rows, e.scope = scope → e.inFlight = true →
    { e with inFlight := false }.failed cfg now ∈ t'.rows

theorem not_flying_put (h : e.inFlight = false) : ¬ Flying (t.put e) e.scope := by
  rintro ⟨x, hx, hsc, hf⟩
  rcases mem_put.mp hx with rfl | ⟨-, hne⟩
  · rw [h] at hf
    exact absurd hf (by decide)
  · exact hne hsc

theorem not_flying_delete (t : LoginEntries) (scope : String) :
    ¬ Flying (t.delete fun x => decide (x.scope = scope)) scope := by
  rintro ⟨x, hx, hsc, -⟩
  exact of_decide_eq_false (mem_delete.mp hx).2 hsc

theorem finishScope_spec :
    Finished cfg result now scope t (finishScope cfg result succeeded now t scope) := by
  rw [finishScope]
  cases hg : t.get scope with
  | none =>
    refine ⟨fun _ _ => Iff.rfl, not_flying_of_get_none hg, fun _ => rfl, Nat.le_refl _, ?_⟩
    rintro - e he rfl hf
    exact absurd rfl (get_eq_none.mp hg e he)
  | some e =>
    obtain ⟨he, rfl⟩ := get_eq_some.mp hg
    have hiff := flying_iff_of_get hg
    by_cases hf : e.inFlight = false
    · simp only [if_pos hf]
      refine ⟨fun _ _ => Iff.rfl, by simp [hiff, hf], fun _ => rfl, Nat.le_refl _, ?_⟩
      rintro - x hx hsc hx'
      rw [t.eq_of_key hx he hsc, hf] at hx'
      exact absurd hx' (by decide)
    · have hfl : Flying t e.scope := hiff.mpr (by simpa using hf)
      have hput : ∀ e' : LoginFailureEntry, e'.scope = e.scope → e'.inFlight = false →
          Changed e.scope t (t.put e') ∧ ¬ Flying (t.put e') e.scope ∧
            (t.put e').rows.length ≤ t.rows.length := by
        intro e' hsc hln
        rw [← hsc] at hg ⊢
        exact ⟨.put t e', not_flying_put hln, Nat.le_of_eq (length_put_of_some hg)⟩
      have hdel := And.intro (Changed.delete t e.scope) (And.intro (not_flying_delete t e.scope)
        (length_filter_le (fun x => !decide (x.scope = e.scope)) t.rows))
      have hr : Changed e.scope t (release t { e with inFlight := false }) ∧
          ¬ Flying (release t { e with inFlight := false }) e.scope ∧
          (release t { e with inFlight := false }).rows.length ≤ t.rows.length := by
        rw [release]
        split
        · exact hdel
        · exact hput _ rfl rfl
      simp only [if_neg hf]
      cases result with
      | success =>
        dsimp only
        split
        · exact ⟨hdel.1, hdel.2.1, absurd hfl, hdel.2.2, by simp⟩
        · exact ⟨hr.1, hr.2.1, absurd hfl, hr.2.2, by simp⟩
      | failure =>
        have hfld := hput ({ e with inFlight := false }.failed cfg now)
          (failed_scope _ _ _) (failed_inFlight _ _ _)
        refine ⟨hfld.1, hfld.2.1, absurd hfl, hfld.2.2, fun _ x hx hsc _ => ?_⟩
        rw [t.eq_of_key hx he hsc]
        exact mem_put.mpr (.inl rfl)
      | cancel => exact ⟨hr.1, hr.2.1, absurd hfl, hr.2.2, by simp⟩

theorem Finished.flying {t' : LoginEntries} (h : Finished cfg result now scope t t') (x : String) :
    Flying t' x ↔ Flying t x ∧ x ≠ scope := by
  by_cases hx : x = scope
  · subst hx
    simp [h.landed]
  · rw [h.changed.flying hx]
    simp [hx]

/-- A scope that is locked is not in flight, so it is left alone. -/
theorem Finished.locked {x : String} {t' : LoginEntries}
    (h : Finished cfg result now scope t t') (hlc : LockedTo t x till) : LockedTo t' x till := by
  by_cases hx : x = scope
  · subst hx
    obtain ⟨e, he, hf, -⟩ := hlc.get
    rw [h.idle (by simp [flying_iff_of_get he, hf])]
    exact hlc
  · exact h.changed.locked hx hlc

/-- The scopes land, no lockout ends, and no entry is added. -/
theorem finishScopes_spec :
    let t := (finishScopes cfg result succeeded now scopes r).1
    (∀ x, Flying t x ↔ Flying r.1 x ∧ x ∉ scopes) ∧
      (∀ x till, LockedTo r.1 x till → LockedTo t x till) ∧ t.rows.length ≤ r.1.rows.length := by
  induction scopes generalizing r with
  | nil => exact ⟨by simp [finishScopes], fun _ _ h => h, Nat.le_refl _⟩
  | cons scope scopes ih =>
    have hsp := @finishScope_spec cfg now succeeded r.1 result scope
    rw [finishScopes]
    obtain ⟨hfl, hlkd, hleng⟩ := @ih (_, _)
    refine ⟨fun x => ?_, fun x till h => hlkd x till (hsp.locked h), Nat.le_trans hleng hsp.length⟩
    rw [hfl, hsp.flying, mem_cons]
    tauto

/-- A failure of a scope in flight that reaches the limit locks it. -/
theorem finishScopes_failed (he : e ∈ r.1.rows) (hsc : e.scope ∈ scopes)
    (hf : e.inFlight = true) (hmax : cfg.maxFailures ≤ e.failures + 1) :
    LockedTo (finishScopes cfg .failure succeeded now scopes r).1 e.scope
      (now + cfg.lockoutDuration) := by
  induction scopes generalizing r with
  | nil => exact absurd hsc not_mem_nil
  | cons scope scopes ih =>
    have hsp := @finishScope_spec cfg now succeeded r.1 .failure scope
    by_cases hhe : e.scope = scope
    · rw [finishScopes]
      exact finishScopes_spec.2.1 _ _ (.failed (hsp.failed rfl e he hhe hf) rfl rfl hmax)
    · exact ih ((hsp.changed e hhe).mpr he) ((mem_cons.mp hsc).resolve_left hhe)

/-- An attempt whose scopes are in flight gives a slot back. -/
theorem finishScopes_finished (h : r.2 = true ∨ ∃ scope ∈ scopes, Flying r.1 scope) :
    (finishScopes cfg result succeeded now scopes r).2 = true := by
  induction scopes generalizing r with
  | nil => simpa [finishScopes] using h
  | cons scope scopes ih =>
    rw [finishScopes]
    apply ih
    rcases h with hdn | ⟨x, hx, hf⟩
    · simp [hdn]
    by_cases hhe : x = scope
    · subst hhe
      left
      obtain ⟨e, he, rfl, hfe⟩ := hf
      rw [Table.get_of_mem he]
      simp [hfe]
    · refine .inr ⟨x, (mem_cons.mp hx).resolve_left hhe, ?_⟩
      exact (finishScope_spec.flying x).mpr ⟨hf, hhe⟩

/-- What `finish` does with the scopes of an attempt. -/
structure Finishes (cfg : Limits) (l : LoginFailureLimiter) (scopes : List String)
    (result : LoginAttemptResult) (now : Int) (l' : LoginFailureLimiter) : Prop where
  flying : ∀ x, Flying l'.entries x ↔ Flying l.entries x ∧ x ∉ scopes
  locked : ∀ x till, LockedTo l.entries x till → now < till → LockedTo l'.entries x till
  failed : result = .failure → ∀ e ∈ l.entries.rows, e.scope ∈ scopes → e.inFlight = true →
    cfg.maxFailures ≤ e.failures + 1 → LockedTo l'.entries e.scope (now + cfg.lockoutDuration)
  inFlight : (∃ scope ∈ scopes, Flying l.entries scope) → l'.inFlight = l.inFlight - 1
  length : l'.entries.rows.length ≤ l.entries.rows.length

theorem finish_entries : (l.finish cfg scopes result succeeded now).entries =
      (finishScopes cfg result succeeded now scopes
        ((l.pruneExpiredLocked cfg now).entries, false)).1 := by
  rw [finish]
  split
  · rw [clearOverflow_entries]
  · rfl

theorem finish_spec :
    Finishes cfg l scopes result now (l.finish cfg scopes result succeeded now) := by
  have hpr := @prune_trimmed cfg l now
  refine ⟨fun x => ?_, fun x till hlc hnow => ?_, ?_, ?_, ?_⟩
  · rw [finish_entries, finishScopes_spec.1, hpr.flying]
  · rw [finish_entries]
    exact finishScopes_spec.2.1 x till (hpr.locked hlc hnow)
  · rintro rfl e he hsc hf hmax
    rw [finish_entries]
    refine finishScopes_failed (hpr.kept e he ?_) hsc hf hmax
    rw [busy, hf, Bool.true_or]
  · rintro ⟨scope, hsc, hf⟩
    rw [finish, if_pos (finishScopes_finished (.inr ⟨scope, hsc, (hpr.flying scope).mpr hf⟩)),
      clearOverflow_inFlight, prune_inFlight]
  · rw [finish_entries]
    exact Nat.le_trans finishScopes_spec.2.2 hpr.length

/-! ### Failures without a reservation -/

/-- What keeps an entry in flight in flight, and a lockout locked. -/
structure Counts (cfg : Limits) (now : Int) (l l' : LoginFailureLimiter) : Prop where
  flying : ∀ x, Flying l'.entries x ↔ Flying l.entries x
  locked : ∀ x till, LockedTo l.entries x till → now < till → till ≤ now + cfg.lockoutDuration →
    LockedTo l'.entries x till
  inFlight : l'.inFlight = l.inFlight
  length : (l.entries.rows.length : Int) ≤ cfg.maxEntries →
    (l'.entries.rows.length : Int) ≤ cfg.maxEntries

theorem Counts.trans {l'' : LoginFailureLimiter} (h : Counts cfg now l l')
    (h' : Counts cfg now l' l'') : Counts cfg now l l'' where
  flying x := (h'.flying x).trans (h.flying x)
  locked x till hlc hnow hend := h'.locked x till (h.locked x till hlc hnow hend) hnow hend
  inFlight := h'.inFlight.trans h.inFlight
  length hlen := h'.length (h.length hlen)

theorem Counts.of_trimmed (h : Trimmed now l.entries l'.entries) (hf : l'.inFlight = l.inFlight) :
    Counts cfg now l l' where
  flying := h.flying
  locked _ _ hlc hnow _ := h.locked hlc hnow
  inFlight := hf
  length hlen := by
    have := h.length
    omega

/-- An entry that is not in flight is counted for a scope that is not, and ends no lockout. -/
theorem Counts.put (h : Counts cfg now l l') (hln : e.inFlight = false)
    (hfre : ¬ Flying l'.entries e.scope)
    (hlkd : ∀ till, LockedTo l'.entries e.scope till → till ≤ now + cfg.lockoutDuration →
      till ≤ e.lockedUntil)
    (hlen : (l.entries.rows.length : Int) ≤ cfg.maxEntries →
      ((l'.entries.put e).rows.length : Int) ≤ cfg.maxEntries) :
    Counts cfg now l { l' with entries := l'.entries.put e } := by
  refine ⟨fun x => ?_, fun x till hlc hnow hend => ?_, h.inFlight, hlen⟩
  · rw [← h.flying x]
    by_cases hx : x = e.scope
    · rw [hx]
      simp [not_flying_put hln, hfre]
    · exact (Changed.put _ e).flying hx
  · have hlc := h.locked x till hlc hnow hend
    by_cases hx : x = e.scope
    · subst hx
      exact ⟨e, mem_put.mpr (.inl rfl), rfl, hln, hlkd till hlc hend⟩
    · exact (Changed.put _ e).locked hx hlc

theorem recordFailureLocked_counts :
    Counts cfg now l (recordFailureLocked cfg order now l scope) := by
  rw [recordFailureLocked]
  cases hg : l.entries.get scope with
  | some e =>
    obtain ⟨-, rfl⟩ := get_eq_some.mp hg
    dsimp only
    split
    · exact .of_trimmed .refl rfl
    rename_i hln
    have hln : e.inFlight = false := by simpa using hln
    have hfre : ¬ Flying l.entries e.scope := by simp [flying_iff_of_get hg, hln]
    rw [← failed_scope cfg e now] at hg hfre
    refine .put (.of_trimmed .refl rfl) ((failed_inFlight cfg e now).trans hln)
      hfre (fun till hlc hend => ?_) fun hlen => ?_
    · obtain ⟨e', he', -, htl⟩ := hlc.get
      obtain rfl := Option.some.inj (hg.symm.trans he')
      rw [failed]
      split
      · exact hend
      · exact htl
    · rwa [length_put_of_some hg]
  | none =>
    have hsp := @makeRoomLocked_spec cfg now l order [] 1
    dsimp only
    split
    · exact .of_trimmed hsp.trimmed hsp.inFlight
    rename_i hrm
    have hrm := makeRoomLocked_room (eq_true_of_ne_false hrm)
    have hno : (l.makeRoomLocked cfg order now 1 []).1.entries.get scope = none :=
      get_eq_none.mpr fun e he => get_eq_none.mp hg e (hsp.trimmed.sub e he)
    have hsc := failed_scope cfg { scope := scope } now
    rw [← show _ = scope from hsc] at hno
    refine .put (.of_trimmed hsp.trimmed hsp.inFlight)
      (failed_inFlight cfg _ now) (not_flying_of_get_none hno)
      (fun till hlc _ => ?_) fun _ => ?_
    · obtain ⟨e, he, -⟩ := hlc.get
      cases hno.symm.trans he
    · rw [length_put_of_none hno]
      omega

theorem foldl_recordFailure_counts :
    Counts cfg now l (scopes.foldl (recordFailureLocked cfg order now) l) := by
  induction scopes generalizing l with
  | nil => exact .of_trimmed .refl rfl
  | cons scope scopes ih => exact recordFailureLocked_counts.trans ih

/-- The failure of a scope that would be counted reaches the limit. -/
def Strikes (cfg : Limits) (order : RangeOrder) (now : Int) (l : LoginFailureLimiter)
    (scope : String) : Prop :=
  match l.entries.get scope with
  | some e => e.inFlight = false ∧ cfg.maxFailures ≤ e.failures + 1
  | none => (l.makeRoomLocked cfg order now 1 []).2 = true ∧ cfg.maxFailures ≤ 1

theorem Strikes.locked (h : Strikes cfg order now l scope) :
    LockedTo (recordFailureLocked cfg order now l scope).entries scope
      (now + cfg.lockoutDuration) := by
  rw [Strikes] at h
  rw [recordFailureLocked]
  cases hg : l.entries.get scope with
  | some =>
    simp only [hg] at h ⊢
    rw [if_neg (by simp [h.1])]
    exact .failed (mem_put.mpr (.inl rfl)) (get_eq_some.mp hg).2 h.1 h.2
  | none =>
    simp only [hg] at h ⊢
    rw [if_neg (by simp [h.1])]
    exact .failed (mem_put.mpr (.inl rfl)) rfl rfl (by simpa using h.2)

theorem recordFailure_counts : Counts cfg now l (l.recordFailure cfg order scopes now) := by
  rw [recordFailure]
  split
  · exact .of_trimmed .refl rfl
  have hpr : Counts cfg now l (l.pruneExpiredLocked cfg now) :=
    .of_trimmed (prune_trimmed l now) (prune_inFlight l now)
  refine (hpr.trans foldl_recordFailure_counts).trans (.of_trimmed ?_ (clearOverflow_inFlight _ _))
  rw [clearOverflow_entries]
  exact .refl

/-! ### Clearing and asking -/

/-- Which entries are left. -/
theorem mem_clear : e ∈ (l.clear cfg scopes now).entries.rows ↔
    e ∈ l.entries.rows ∧ (e.scope ∈ scopes → e.inFlight = true) := by
  rw [clear]
  split
  · next hnil => simp [hnil]
  · rw [clearOverflow_entries, mem_delete]
    simp

theorem clear_flying (x : String) :
    Flying (l.clear cfg scopes now).entries x ↔ Flying l.entries x := by
  refine exists_congr fun e => and_congr_left fun hrs => ?_
  exact mem_clear.trans (and_iff_left fun _ => hrs.2)

theorem allowed_trimmed : Trimmed now l.entries (l.allowed cfg scope now).1.entries ∧
      (l.allowed cfg scope now).1.inFlight = l.inFlight := by
  rw [allowed]
  split
  · exact ⟨.refl, rfl⟩
  have hpr := And.intro (@prune_trimmed cfg l now) (@prune_inFlight cfg l now)
  dsimp only
  split
  · rwa [scopesAvailable_entries, scopesAvailable_inFlight]
  · exact hpr

theorem not_allowed_of_locked (hsc : scope ≠ "")
    (h : LockedTo l.entries scope till) (hnow : now < till) :
    (l.allowed cfg scope now).2 = false := by
  rw [allowed, if_neg hsc]
  dsimp only
  split
  · exact not_available_of_locked (mem_singleton.mpr rfl) ((prune_trimmed l now).locked h hnow) hnow
  · rfl

end LoginFailureLimiter

/-! ### Attempts and entries -/

open LoginFailureLimiter

/-- Attempts and the entries in flight belong to each other. -/
structure LimiterInv (cfg : Limits) (s : LoginSystem) : Prop where
  flying : ∀ x, Flying s.limiter.entries x ↔ ∃ a ∈ s.attempts.rows, x ∈ a.scopes
  apart : ∀ a ∈ s.attempts.rows, ∀ b ∈ s.attempts.rows, ∀ x ∈ a.scopes, x ∈ b.scopes → a = b
  named : ∀ a ∈ s.attempts.rows, a.scopes ≠ [] ∧ "" ∉ a.scopes
  counted : s.limiter.inFlight = s.attempts.rows.length
  bounded : s.limiter.inFlight ≤ cfg.maxConcurrentKDF
  sized : (s.limiter.entries.rows.length : Int) ≤ cfg.maxEntries
  drawn : ∀ a ∈ s.attempts.rows, a.id < s.next

section

variable {cfg : Limits} {s : LoginSystem}

section

variable (h : LimiterInv cfg s)

include h

/-- A call that changes nothing in flight. -/
theorem LimiterInv.of_same {l : LoginFailureLimiter}
    (hfl : ∀ x, Flying l.entries x ↔ Flying s.limiter.entries x)
    (hf : l.inFlight = s.limiter.inFlight)
    (hlen : (l.entries.rows.length : Int) ≤ cfg.maxEntries) :
    LimiterInv cfg { s with limiter := l } :=
  { h with
    flying x := (hfl x).trans (h.flying x)
    counted := hf.trans h.counted
    bounded := hf.trans_le h.bounded
    sized := hlen }

theorem LimiterInv.reserve (order : RangeOrder) {scopes : List String}
    (hne : scopes ≠ []) (hnm : "" ∉ scopes)
    (hok : (s.limiter.reserve cfg order scopes s.clock).2 = true) :
    LimiterInv cfg { s with
      limiter := (s.limiter.reserve cfg order scopes s.clock).1
      attempts := s.attempts.put ⟨s.next, scopes⟩
      next := s.next + 1 } := by
  have hsp := @reserve_spec cfg s.clock s.limiter order scopes
  have hfr : s.attempts.get s.next = none :=
    get_eq_none.mpr fun a ha => Nat.ne_of_lt (h.drawn a ha)
  have hm : ∀ a, a ∈ (s.attempts.put ⟨s.next, scopes⟩).rows ↔
      a = ⟨s.next, scopes⟩ ∨ a ∈ s.attempts.rows := by
    intro a
    rw [mem_put]
    refine or_congr_right (and_iff_left_of_imp fun ha => ?_)
    exact Nat.ne_of_lt (h.drawn a ha)
  have hdis : ∀ a ∈ s.attempts.rows, ∀ x ∈ a.scopes, x ∉ scopes := fun a ha x hx hin =>
    hsp.fresh hok x hin ((h.flying x).mpr ⟨a, ha, hx⟩)
  have hlen : (s.attempts.put ⟨s.next, scopes⟩).rows.length = s.attempts.rows.length + 1 :=
    length_put_of_none hfr
  refine ⟨fun x => ?_, fun a ha b hb x hxa hxb => ?_, forall_put ⟨hne, hnm⟩ h.named, ?_, ?_,
    hsp.length h.sized, forall_put (Nat.lt_succ_self _) fun a ha =>
      Nat.lt_succ_of_lt (h.drawn a ha)⟩
  · rw [hsp.flying x, h.flying x]
    constructor
    · rintro (⟨a, ha, hx⟩ | ⟨-, hx⟩)
      · exact ⟨a, (hm a).mpr (.inr ha), hx⟩
      · exact ⟨_, (hm _).mpr (.inl rfl), hx⟩
    · rintro ⟨a, ha, hx⟩
      rcases (hm a).mp ha with rfl | ha
      · exact .inr ⟨hok, hx⟩
      · exact .inl ⟨a, ha, hx⟩
  · rcases (hm a).mp ha with rfl | ha <;> rcases (hm b).mp hb with rfl | hb
    · rfl
    · exact absurd hxa (hdis b hb x hxb)
    · exact absurd hxb (hdis a ha x hxa)
    · exact h.apart a ha b hb x hxa hxb
  · rw [hsp.inFlight, if_pos hok, h.counted]
    dsimp only
    omega
  · have hsl := hsp.slot hok
    rw [hsp.inFlight, if_pos hok]
    omega

theorem LimiterInv.finish (attempt : ℕ) (result : LoginAttemptResult) (succeeded : List String) :
    LimiterInv cfg (s.finish cfg attempt result succeeded) := by
  rw [LoginSystem.finish]
  cases hg : s.attempts.get attempt with
  | none => exact h
  | some a =>
    obtain ⟨ha, rfl⟩ := get_eq_some.mp hg
    have hsp := @finish_spec cfg s.clock s.limiter a.scopes succeeded result
    have hm : ∀ b, b ∈ (s.attempts.delete fun x => decide (x.id = a.id)).rows ↔
        b ∈ s.attempts.rows ∧ b ≠ a := by
      intro b
      rw [mem_delete, decide_eq_false_iff_not]
      refine and_congr_right fun hb => not_congr ⟨fun hid => ?_, fun heq => by rw [heq]⟩
      exact s.attempts.eq_of_key hb ha hid
    have hlen := length_delete_of_some hg
    obtain ⟨x, hx⟩ := exists_mem_of_ne_nil _ (h.named a ha).1
    have hsl := hsp.inFlight ⟨x, hx, (h.flying x).mpr ⟨a, ha, hx⟩⟩
    have hcnt := h.counted
    have hbd := h.bounded
    refine ⟨fun x => ?_, fun b hb c hc => ?_, fun b hb => h.named b ((hm b).mp hb).1, ?_, ?_, ?_,
      fun b hb => h.drawn b ((hm b).mp hb).1⟩
    · rw [hsp.flying x, h.flying x]
      constructor
      · rintro ⟨⟨b, hb, hx⟩, hout⟩
        exact ⟨b, (hm b).mpr ⟨hb, fun heq => hout (heq ▸ hx)⟩, hx⟩
      · rintro ⟨b, hb, hx⟩
        obtain ⟨hb, hne⟩ := (hm b).mp hb
        exact ⟨⟨b, hb, hx⟩, fun hin => hne (h.apart b hb a ha x hx hin)⟩
    · exact h.apart b ((hm b).mp hb).1 c ((hm c).mp hc).1
    · dsimp only
      omega
    · dsimp only
      omega
    · have hsh := hsp.length
      have hsiz := h.sized
      dsimp only
      omega

theorem LimiterInv.answer (order : RangeOrder) (call : LimiterCall) :
    LimiterInv cfg (s.answer cfg order call).1 := by
  have hsiz := h.sized
  cases call with
  | reserve =>
    rw [LoginSystem.answer]
    split
    · exact h
    rename_i hne
    dsimp only
    split
    · next hok =>
      exact h.reserve order hne (fun hin => (mem_uniqueLoginScopes.mp hin).2.1 rfl) hok
    rename_i href
    refine h.of_same (fun x => ?_) ?_ (reserve_spec.length hsiz)
    · simp [reserve_spec.flying x, href]
    · simp [reserve_spec.inFlight, href]
  | succeed attempt => exact h.finish attempt .success _
  | fail attempt => exact h.finish attempt .failure []
  | cancel attempt => exact h.finish attempt .cancel []
  | recordFailure =>
    exact h.of_same recordFailure_counts.flying recordFailure_counts.inFlight
      (recordFailure_counts.length hsiz)
  | clear =>
    refine h.of_same clear_flying ?_ ?_
    · rw [LoginFailureLimiter.clear]
      split
      · rfl
      · rw [clearOverflow_inFlight]
    · rw [LoginFailureLimiter.clear]
      split
      · exact hsiz
      · rw [clearOverflow_entries]
        exact Int.le_trans (Int.ofNat_le.mpr (length_filter_le _ _)) hsiz
  | allowed scope =>
    obtain ⟨ht, hf⟩ := @allowed_trimmed cfg s.clock s.limiter scope
    refine h.of_same ht.flying hf ?_
    have := ht.length
    omega

theorem LimiterInv.step (i : LimiterInput) : LimiterInv cfg (limiterStep cfg s i).1 := by
  have h' : LimiterInv cfg { s with clock := s.clock + i.elapsed } := { h with }
  exact h'.answer i.order i.call

end

theorem LimiterInv.init (cfg : Limits) (start : Int) : LimiterInv cfg { clock := start } := by
  have hslt := Int.le_of_lt cfg.maxConcurrentKDF_pos
  have hent := Int.le_of_lt cfg.maxEntries_pos
  constructor <;> simp [Flying, Table.empty, hslt, hent]

end

/-! ### Lockouts -/

/-- `Clear` or `Succeed` names the scope. -/
def LimiterCall.Clears (scope : String) : LimiterCall → Prop
  | .clear scopes | .succeed _ scopes => scope ∈ scopes
  | _ => False

/-- `Reserve` or `Allowed` asks for the scope. -/
def LimiterCall.AsksFor (scope : String) : LimiterCall → Prop
  | .reserve scopes => scope ∈ scopes
  | .allowed x => x = scope
  | _ => False

/-- In the call a failure of the scope is counted and reaches the limit. -/
def ReachesMax (cfg : Limits) (s : LoginSystem) (i : LimiterInput) (scope : String) : Prop :=
  match i.call with
  | .fail attempt =>
    ∃ a ∈ s.attempts.rows, a.id = attempt ∧ scope ∈ a.scopes ∧
      ∃ e ∈ s.limiter.entries.rows, e.scope = scope ∧ e.inFlight = true ∧
        cfg.maxFailures ≤ e.failures + 1
  | .recordFailure scopes =>
    ∃ before after, uniqueLoginScopes [] scopes = before ++ scope :: after ∧
      LoginFailureLimiter.Strikes cfg i.order (s.clock + i.elapsed)
        (before.foldl (LoginFailureLimiter.recordFailureLocked cfg i.order (s.clock + i.elapsed))
          (s.limiter.pruneExpiredLocked cfg (s.clock + i.elapsed))) scope
  | _ => False

section

variable {cfg : Limits} {s : LoginSystem} {scope : String} {till : Int}
  (attempt : ℕ) (result : LoginAttemptResult) (succeeded : List String)

theorem LoginSystem.finish_clock : (s.finish cfg attempt result succeeded).clock = s.clock := by
  rw [finish]
  split <;> rfl

theorem limiterStep_clock (s : LoginSystem) (i : LimiterInput) :
    (limiterStep cfg s i).1.clock = s.clock + i.elapsed := by
  rw [limiterStep]
  cases i.call with
  | reserve =>
    rw [LoginSystem.answer]
    dsimp only
    repeat' split
    all_goals rfl
  | succeed | fail | cancel => exact LoginSystem.finish_clock _ _ _
  | recordFailure | clear | allowed => rfl

theorem run_clock_le (s : LoginSystem) (inputs : List LimiterInput) :
    s.clock ≤ (run (limiterStep cfg) s inputs).clock := by
  refine run_invariant (P := (s.clock ≤ LoginSystem.clock ·)) (fun s' i h => ?_)
    (Int.le_refl _) inputs
  rw [limiterStep_clock]
  omega

section

variable (h : LockedTo s.limiter.entries scope till)

include h

theorem LockedTo.finish (hnow : s.clock < till) :
    LockedTo (s.finish cfg attempt result succeeded).limiter.entries scope till := by
  rw [LoginSystem.finish]
  split
  · exact h
  · exact finish_spec.locked scope till h hnow

/-- A lockout outlasts every call before its end that does not clear it. -/
theorem LockedTo.answer (hnow : s.clock < till)
    (hend : till ≤ s.clock + cfg.lockoutDuration) (order : RangeOrder) {call : LimiterCall}
    (hca : ¬ call.Clears scope) :
    LockedTo (s.answer cfg order call).1.limiter.entries scope till := by
  cases call with
  | reserve =>
    rw [LoginSystem.answer]
    split
    · exact h
    dsimp only
    split
    · exact reserve_spec.locked scope till h hnow
    · exact reserve_spec.locked scope till h hnow
  | succeed attempt => exact h.finish attempt .success _ hnow
  | fail attempt => exact h.finish attempt .failure [] hnow
  | cancel attempt => exact h.finish attempt .cancel [] hnow
  | recordFailure =>
    exact recordFailure_counts.locked scope till h hnow hend
  | clear =>
    obtain ⟨e, he, rfl, hrs⟩ := h
    exact ⟨e, mem_clear.mpr ⟨he, fun hin =>
      absurd (mem_uniqueLoginScopes.mp hin).1 hca⟩, rfl, hrs⟩
  | allowed => exact allowed_trimmed.1.locked h hnow

variable {i : LimiterInput}

theorem LockedTo.step
    (hnow : s.clock + i.elapsed < till) (hend : till ≤ s.clock + cfg.lockoutDuration)
    (hca : ¬ i.call.Clears scope) :
    LockedTo (limiterStep cfg s i).1.limiter.entries scope till := by
  refine LockedTo.answer (s := { s with clock := s.clock + i.elapsed }) h hnow ?_ i.order hca
  dsimp only
  omega

/-- The same over a history that is over before the lockout. -/
theorem LockedTo.run (hend : till ≤ s.clock + cfg.lockoutDuration) {inputs : List LimiterInput}
    (hcls : ∀ i ∈ inputs, ¬ i.call.Clears scope)
    (hnow : (Machine.run (limiterStep cfg) s inputs).clock < till) :
    LockedTo (Machine.run (limiterStep cfg) s inputs).limiter.entries scope till := by
  induction inputs generalizing s with
  | nil => exact h
  | cons i inputs ih =>
    have hclk := @limiterStep_clock cfg s i
    have hle := @run_clock_le cfg (limiterStep cfg s i).1 inputs
    rw [run_cons] at hnow ⊢
    have hstp := h.step (i := i) (by omega) hend (hcls i mem_cons_self)
    exact ih hstp (by omega) (fun j hj => hcls j (mem_cons_of_mem _ hj)) hnow

omit h in
theorem ReachesMax.locked (h : ReachesMax cfg s i scope) (hs : LimiterInv cfg s) : scope ≠ "" ∧
    LockedTo (limiterStep cfg s i).1.limiter.entries scope
      (s.clock + i.elapsed + cfg.lockoutDuration) := by
  rw [limiterStep]
  rw [ReachesMax] at h
  split at h
  · next attempt hca =>
    obtain ⟨a, ha, rfl, hsc, e, he, rfl, hf, hmax⟩ := h
    refine ⟨fun heq => (hs.named a ha).2 (heq ▸ hsc), ?_⟩
    rw [hca, LoginSystem.answer, LoginSystem.finish]
    rw [Table.get_of_mem ha]
    exact finish_spec.failed rfl e he hsc hf hmax
  · next scopes hca =>
    obtain ⟨before, after, hscs, hstk⟩ := h
    have hm : scope ∈ uniqueLoginScopes [] scopes := by simp [hscs]
    refine ⟨(mem_uniqueLoginScopes.mp hm).2.1, ?_⟩
    rw [hca, LoginSystem.answer]
    have hpos := cfg.lockoutDuration_pos
    dsimp only
    -- later scopes leave it locked
    rw [hscs, recordFailure, if_neg (by simp), clearOverflow_entries, foldl_append, foldl_cons]
    exact foldl_recordFailure_counts.locked _ _ hstk.locked (by omega) (Int.le_refl _)
  · exact h.elim

theorem LockedTo.refused (hsc : scope ≠ "") (hnow : s.clock + i.elapsed < till)
    (hca : i.call.AsksFor scope) : (limiterStep cfg s i).2 = .refused := by
  rw [limiterStep]
  cases hc : i.call with
  | reserve scopes =>
    rw [hc] at hca
    have hin : scope ∈ uniqueLoginScopes [] scopes :=
      mem_uniqueLoginScopes.mpr ⟨hca, hsc, not_mem_nil⟩
    have href := (@reserve_spec cfg (s.clock + i.elapsed) s.limiter i.order
      (uniqueLoginScopes [] scopes)).refused scope till h hnow hin
    rw [LoginSystem.answer]
    rw [if_neg (ne_nil_of_mem hin), if_neg (by simp [href])]
  | allowed x =>
    rw [hc] at hca
    obtain rfl : x = scope := hca
    have href := @not_allowed_of_locked cfg _ _ _ _ hsc h hnow
    rw [LoginSystem.answer]
    rw [if_neg (by simp [href])]
  | succeed attempt scopes | fail attempt | cancel attempt | recordFailure scopes | clear scopes =>
    rw [hc] at hca
    exact hca.elim

end

end

/-! ### Counting -/

/-- As many failures in a row of a scope are on record. -/
def OnRecord (s : LoginSystem) (scope : String) (n : ℕ) : Prop :=
  s.limiter.entries.get scope =
    if n = 0 then none else some { scope := scope, failures := n, lastFailure := s.clock }

/-- A failure of the scope alone, before the last one expires. -/
structure LimiterInput.Repeats (cfg : Limits) (scope : String) (i : LimiterInput) : Prop where
  call : i.call = .recordFailure [scope]
  soon : i.elapsed < cfg.failureTTL

section

variable {cfg : Limits} {s : LoginSystem} {scope : String} {i : LimiterInput} {n : ℕ}

/-- With an entry or room for one a failure is counted. -/
theorem recordFailureLocked_get {l : LoginFailureLimiter} {order : RangeOrder} {now : Int}
    (hln : ∀ e ∈ l.entries.get scope, e.inFlight = false)
    (hrm : l.entries.get scope = none → l.entries.rows.length + 1 ≤ cfg.maxEntries) :
    (recordFailureLocked cfg order now l scope).entries.get scope =
      some (((l.entries.get scope).getD { scope := scope }).failed cfg now) := by
  rw [recordFailureLocked]
  cases hg : l.entries.get scope with
  | some e =>
    dsimp only
    rw [if_neg (by simp [hln e hg]), get_put, if_pos]
    · rfl
    · exact (e.failed_scope cfg now).trans (get_eq_some.mp hg).2
  | none =>
    dsimp only
    rw [makeRoomLocked_eq, if_pos (hrm hg), if_neg (by simp), get_put, if_pos]
    · rfl
    · exact LoginFailureEntry.failed_scope cfg _ now

/-- Pruning leaves the failures on record. -/
theorem OnRecord.prune (h : OnRecord s scope n) (hclk : 0 < s.clock)
    (hso : i.elapsed < cfg.failureTTL) :
    (s.limiter.pruneExpiredLocked cfg (s.clock + i.elapsed)).entries.get scope =
      s.limiter.entries.get scope := by
  rw [OnRecord] at h
  have hpr := @prune_trimmed cfg s.limiter (s.clock + i.elapsed)
  rw [pruneExpiredLocked, clearOverflow_entries] at hpr ⊢
  split at h
  · rw [h]
    exact get_eq_none.mpr fun e he => get_eq_none.mp h e (hpr.sub e he)
  · rw [h]
    refine get_eq_some.mpr ⟨mem_delete.mpr ⟨(get_eq_some.mp h).1, ?_⟩, rfl⟩
    have hd : s.clock ≠ 0 := by omega
    have hlt : ¬ s.clock + i.elapsed - s.clock ≥ cfg.failureTTL := by omega
    simp only [LoginFailureEntry.expired, hd, hlt, ne_eq, not_true_eq_false, decide_false,
      Bool.or_self, Bool.and_false]

variable (h : OnRecord s scope n) (hi : i.Repeats cfg scope) (hsc : scope ≠ "") (hclk : 0 < s.clock)
  (hrm : (s.limiter.entries.rows.length : Int) < cfg.maxEntries ∨ n ≠ 0)

include h hi hsc hclk hrm

theorem OnRecord.step (hn : (n : Int) + 1 < cfg.maxFailures) :
    OnRecord (limiterStep cfg s i).1 scope (n + 1) := by
  have hlen := (@prune_trimmed cfg s.limiter (s.clock + i.elapsed)).length
  have hg := @recordFailureLocked_get cfg scope
    (s.limiter.pruneExpiredLocked cfg (s.clock + i.elapsed)) i.order (s.clock + i.elapsed)
  rw [h.prune hclk hi.soon, h] at hg
  have hscs : uniqueLoginScopes [] [scope] = [scope] := by simp [uniqueLoginScopes, hsc]
  rw [OnRecord, limiterStep_clock, limiterStep, hi.call, LoginSystem.answer, hscs]
  rw [recordFailure, if_neg (cons_ne_nil _ _), clearOverflow_entries, foldl_cons, foldl_nil]
  rw [if_neg (Nat.succ_ne_zero n)]
  by_cases hz : n = 0
  · subst hz
    refine (hg (by simp) fun _ => by omega).trans ?_
    simp [LoginFailureEntry.failed, show ¬ cfg.maxFailures ≤ 1 by omega]
  · rw [if_neg hz] at hg
    refine (hg (by simp) (by simp)).trans ?_
    simp [LoginFailureEntry.failed, show ¬ cfg.maxFailures ≤ n + 1 by omega]

/-- The failure that makes them `maxFailures` reaches the limit. -/
theorem OnRecord.reachesMax (hn : (n : Int) + 1 = cfg.maxFailures) : ReachesMax cfg s i scope := by
  have hlen := (@prune_trimmed cfg s.limiter (s.clock + i.elapsed)).length
  rw [ReachesMax, hi.call]
  refine ⟨[], [], by simp [uniqueLoginScopes, hsc], ?_⟩
  rw [foldl_nil, Strikes, h.prune hclk hi.soon, h]
  by_cases hz : n = 0
  · rw [if_pos hz, makeRoomLocked_eq, if_pos (by omega)]
    exact ⟨rfl, by omega⟩
  · rw [if_neg hz]
    exact ⟨rfl, Int.le_of_eq hn.symm⟩

omit hi in
/-- Failures in a row are counted one by one, and the one that makes them `maxFailures` reaches the
limit. -/
theorem failures_counted {inputs : List LimiterInput} (hin : ∀ i ∈ inputs, i.Repeats cfg scope)
    (hn : (n + inputs.length : Int) < cfg.maxFailures) :
    OnRecord (run (limiterStep cfg) s inputs) scope (n + inputs.length) ∧
      ∀ i : LimiterInput, i.Repeats cfg scope → (n + inputs.length + 1 : Int) = cfg.maxFailures →
        ReachesMax cfg (run (limiterStep cfg) s inputs) i scope := by
  induction inputs generalizing s n with
  | nil => exact ⟨h, fun i hi hmax => h.reachesMax hi hsc hclk hrm (by simpa using hmax)⟩
  | cons i inputs ih =>
    have hclk' := @limiterStep_clock cfg s i
    rw [length_cons] at hn ⊢
    have hstp := h.step (hin i mem_cons_self) hsc hclk hrm (by omega)
    have hrs := ih hstp (by omega) (.inr (Nat.succ_ne_zero n))
      (fun j hj => hin j (mem_cons_of_mem _ hj)) (by omega)
    rw [Nat.add_right_comm] at hrs
    refine ⟨hrs.1, fun j hj hmax => hrs.2 j hj (by omega)⟩

end

/-! ### Histories -/

/-- In every history the attempts hold what is in flight, each scope is held by one attempt at most,
the counter and the map keep to their limits, and after a failure that reaches the limit no call
that asks for the scope succeeds before the lockout ends, unless the scope is cleared. -/
theorem login_limiter_not_bypassed (config : LoginFailureLimiterConfig) (start : Int)
    (inputs : List LimiterInput) :
    let cfg := config.limits
    let s := run (limiterStep cfg) { clock := start } inputs
    (∀ a ∈ s.attempts.rows, ∀ b ∈ s.attempts.rows, ∀ x ∈ a.scopes, x ∈ b.scopes → a = b) ∧
    (∀ x, Flying s.limiter.entries x ↔ ∃ a ∈ s.attempts.rows, x ∈ a.scopes) ∧
    s.limiter.inFlight = s.attempts.rows.length ∧ s.limiter.inFlight ≤ cfg.maxConcurrentKDF ∧
    (s.limiter.entries.rows.length : Int) ≤ cfg.maxEntries ∧
    ∀ i scope, ReachesMax cfg s i scope → ∀ later, (∀ j ∈ later, ¬ j.call.Clears scope) →
      ∀ j : LimiterInput, j.call.AsksFor scope →
        (run (limiterStep cfg) s (i :: later)).clock + j.elapsed <
          s.clock + i.elapsed + cfg.lockoutDuration →
        (limiterStep cfg (run (limiterStep cfg) s (i :: later)) j).2 = .refused := by
  intro cfg s
  have hs : LimiterInv cfg s :=
    run_invariant (P := LimiterInv cfg) (fun _ i h => h.step i) (LimiterInv.init cfg start) inputs
  refine ⟨hs.apart, hs.flying, hs.counted, hs.bounded, hs.sized, ?_⟩
  intro i scope hrch later hlat j hasks hnow
  have hend : s.clock + i.elapsed + cfg.lockoutDuration ≤
      (limiterStep cfg s i).1.clock + cfg.lockoutDuration := by
    have hclk := @limiterStep_clock cfg s i
    omega
  rw [run_cons] at hnow ⊢
  obtain ⟨hne, hlkd⟩ := hrch.locked hs
  exact (hlkd.run hend hlat (by omega)).refused hne hnow hasks

namespace Sample

/-- The order in which the entries are stored. -/
def stored : RangeOrder := ⟨id, fun _ => .refl _⟩

def strict : LoginFailureLimiterConfig :=
  { maxFailures := 3, lockoutDuration := 10, maxEntries := 2 }

/-- Two failures on record, and a reservation of two scopes. -/
def twice : List LimiterInput :=
  [⟨1, stored, .recordFailure ["ada"]⟩, ⟨1, stored, .recordFailure ["ada"]⟩,
    ⟨1, stored, .reserve ["ip", "ada"]⟩]

end Sample

open Sample

/-- The third failure locks a scope. Another scope finds no room, and the locked one is refused. -/
theorem login_limiter_not_bypassed_strict :
    let s := run (limiterStep strict.limits) { clock := 0 } twice
    ReachesMax strict.limits s ⟨1, stored, .fail 0⟩ "ada" ∧
    ¬ ReachesMax strict.limits s ⟨1, stored, .fail 0⟩ "ip" ∧
    (limiterStep strict.limits (run (limiterStep strict.limits) s
      [⟨1, stored, .fail 0⟩, ⟨1, stored, .recordFailure ["bob"]⟩])
      ⟨2, stored, .reserve ["ada", "carol"]⟩).2 = .refused := by
  intro s
  have hrch : ReachesMax strict.limits s ⟨1, stored, .fail 0⟩ "ada" := by
    refine ⟨⟨0, ["ip", "ada"]⟩, ?_, rfl, by decide,
      { scope := "ada", failures := 2, lastFailure := 2, inFlight := true }, ?_, rfl,
        rfl, by decide⟩
    · decide +kernel
    · decide +kernel
  refine ⟨hrch, ?_, ?_⟩
  · rintro ⟨-, -, -, -, e, he, hsc, -, hmax⟩
    revert e
    decide +kernel
  refine (login_limiter_not_bypassed strict 0 twice).2.2.2.2.2 _ _ hrch
    [⟨1, stored, .recordFailure ["bob"]⟩] ?_ ⟨2, stored, .reserve ["ada", "carol"]⟩ ?_ ?_
  · rintro j hj
    rw [mem_singleton.mp hj]
    exact id
  · exact mem_cons_self
  · decide +kernel

end Noxa.Auth

import Noxa.Media.Roster
import Noxa.Media.Worker

/-!
# Delivering the keys of an epoch

Each epoch's keys go to the devices of its recipient snapshot, a few sends at a time, and failed
sends are repeated while the epoch is current (`media-keys.js`, `pool`, `#distribute`,
`#scheduleRetry` and `#retryFailed`). A send settles whenever its reply, its failure or its timeout
comes; the surroundings decide which and when.

## Main definitions

* `Material` — the keys of an epoch, and the devices that can derive them
* `Distribution` — the sends of one epoch that are waiting or in flight
* `Courier` — all deliveries of one engine, and every send it has made
* `Courier.distribute`, `Courier.settled`, `Courier.retryDue` — a distribution starts, a send
  settles, a retry timer fires
-/

namespace Noxa.Media

/-- The most sends of a distribution in flight at once. -/
def concurrency : ℕ := 6

def retryFailedMs : ℕ := 10000

def maxRetryDelayMs : ℕ := 60000

/-- What is kept of an epoch: its keys, every device that received a key of its ratchet chain, and
the devices whose control was delivered. -/
structure Material where
  epoch : ℕ
  kid : ℕ
  keys : Keys
  chain : List DeviceID
  ok : List DeviceID
  deriving DecidableEq, Repr

/-- A running distribution. `attempt` is the number of the retry it belongs to, and is absent for
the first distribution of an epoch. -/
structure Distribution where
  epoch : ℕ
  keys : Keys
  todo : List Recipient
  flying : List Recipient
  attempt : Option ℕ
  settledAt : Option ℕ
  deriving DecidableEq, Repr

/-- An armed retry timer. -/
structure Retry where
  id : ℕ
  deadline : ℕ
  epoch : ℕ
  attempt : ℕ
  deriving DecidableEq, Repr

/-- A call of `send` with the keys of an epoch. -/
structure Send where
  device : DeviceID
  epoch : ℕ
  keys : Keys
  deriving DecidableEq, Repr

structure Courier where
  deliveries : List Material := []
  failed : List Recipient := []
  distributions : List Distribution := []
  retries : List Retry := []
  retryArmed : ℕ := 0
  retryHandle : ℕ := 0
  timers : ℕ := 0
  sends : List Send := []
  deriving DecidableEq, Repr

/-- What the deliveries read of the engine. -/
structure Context where
  clock : ℕ
  epoch : ℕ
  activeEpoch : ℕ
  recipients : List Recipient
  invisible : Bool

namespace Courier

variable (c : Courier) (ctx : Context)

def material (epoch : ℕ) : Option Material :=
  c.deliveries.find? (·.epoch = epoch)

/-! ## Retry timers -/

def armRetry (delay epoch attempt : ℕ) : Courier :=
  { c with
    timers := c.timers + 1
    retryHandle := c.timers + 1
    retries := c.retries ++ [⟨c.timers + 1, ctx.clock + delay, epoch, attempt⟩] }

def clearRetry : Courier :=
  { c with retries := c.retries.filter (·.id ≠ c.retryHandle) }

def disarm (epoch : ℕ) : Courier :=
  if c.retryArmed = epoch then { c with retryArmed := 0 } else c

def scheduleRetry (epoch : ℕ) : Courier :=
  if c.failed = [] ∨ c.retryArmed = epoch then c
  else armRetry { c.clearRetry with retryArmed := epoch } ctx retryFailedMs epoch 1

/-! ## Sends -/

/-- `record`: the result of one send. Only the current epoch's failures are kept for a retry. -/
def record (epoch : ℕ) (r : Recipient) (ok : Bool) : Courier :=
  let c := if ok then
    { c with
      deliveries := c.deliveries.map fun m =>
        if m.epoch = epoch then { m with ok := r.id :: m.ok } else m }
    else c
  if ctx.epoch = epoch then
    if ok then { c with failed := c.failed.filter (·.id ≠ r.id) }
    else
      let c := { c with failed := remember c.failed r }
      if ctx.activeEpoch = epoch then c.scheduleRetry ctx epoch else c
  else c

/-- The pool's loop: start waiting sends while there is room. A device that is no longer a recipient
gets nothing, and while the session is invisible nothing is sent. -/
def dispatch (ctx : Context) (epoch : ℕ) (keys : Keys) :
    List Recipient → Courier → List Recipient → Courier × List Recipient × List Recipient
  | [], c, flying => (c, [], flying)
  | r :: todo, c, flying =>
    if concurrency ≤ flying.length then (c, r :: todo, flying)
    else if ctx.invisible then dispatch ctx epoch keys todo (c.record ctx epoch r false) flying
    else if ctx.recipients.any (·.id = r.id) then
      dispatch ctx epoch keys todo { c with sends := ⟨r.id, epoch, keys⟩ :: c.sends }
        (flying ++ [r])
    else dispatch ctx epoch keys todo c flying

/-- What follows a retry's distribution: the next retry, later each time, while something failed. -/
def afterRetry (epoch attempt : ℕ) : Courier :=
  if ctx.epoch = epoch ∧ c.failed ≠ [] then
    c.armRetry ctx (min maxRetryDelayMs (retryFailedMs * (attempt + 1))) epoch (attempt + 1)
  else c.disarm epoch

/-- What follows a distribution that has settled. -/
def afterSettled (epoch : ℕ) : Option ℕ → Courier
  | some attempt => c.afterRetry ctx epoch attempt
  | none =>
    if ctx.activeEpoch = epoch ∧ ctx.epoch = epoch then c.scheduleRetry ctx epoch else c

/-- Start the waiting sends of the distribution `d` in place `n` of the list. -/
def proceed (n : ℕ) (d : Distribution) : Courier :=
  let (c, todo, flying) := dispatch ctx d.epoch d.keys d.todo c d.flying
  if todo = [] ∧ flying = [] then
    let d := { d with todo, flying, settledAt := some ctx.clock }
    afterSettled { c with distributions := c.distributions.set n d } ctx d.epoch d.attempt
  else { c with distributions := c.distributions.set n { d with todo, flying } }

/-- `#distribute`: an epoch whose material is gone sends nothing. -/
def distribute (recipients : List Recipient) (epoch : ℕ) (attempt : Option ℕ) : Courier :=
  match c.material epoch with
  | none => c.afterSettled ctx epoch attempt
  | some m =>
    let d : Distribution := ⟨epoch, m.keys, recipients, [], attempt, none⟩
    proceed { c with distributions := c.distributions ++ [d] } ctx c.distributions.length d

/-- A send of distribution `n` settles. -/
def settled (n : ℕ) (device : DeviceID) (ok : Bool) : Courier :=
  match c.distributions[n]? with
  | none => c
  | some d =>
    match d.flying.find? (·.id = device) with
    | none => c
    | some r =>
      proceed (c.record ctx d.epoch r ok) ctx n { d with flying := d.flying.erase r }

/-- `#retryFailed`: the failed devices that are still recipients. -/
def retryFailed (epoch attempt : ℕ) : Courier :=
  let again := c.failed.filter fun r => r.id ∈ recipientIDs ctx.recipients
  if again = [] then c.disarm epoch else c.distribute ctx again epoch (some attempt)

/-- A retry timer fires. -/
def retryDue (id : ℕ) : Courier :=
  match c.retries.find? fun t => t.id = id && t.deadline ≤ ctx.clock with
  | none => c
  | some t =>
    let c := { c with retries := c.retries.filter (·.id ≠ id) }
    if ctx.epoch = t.epoch then c.retryFailed ctx t.epoch t.attempt else c.disarm t.epoch

end Courier

end Noxa.Media

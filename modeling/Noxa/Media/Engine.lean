import Noxa.Media.Courier
import Noxa.Lib.Machine

/-!
# The media key engine

`MediaKeyEngine` (`media-keys.js`) makes the epochs of a voice session: it draws or derives keys,
installs them in the worker, sends them to the recipient devices and lets the worker encrypt under
them. It is asynchronous. Between two of its `await`s it runs undisturbed; at each of them roster
updates, timers and replies may come first. A rekey in flight is therefore a `Phase`, one for each
`await` of `#rekey`, and one input resumes it.

A `Page` is what outlives an engine: the worker, the numbers already issued, the clock. Timers fire
on time: the clock does not pass the deadline of an armed timer. Engines of a page run one after the
other, as the session that owns them stops one before it starts the next; a stopped engine's
continuations end at their next check and install nothing for a sender slot, so `stop` drops it.

The history fields `issues`, `departed` and `announced` are read by no function of the engine.

## Main definitions

* `Draft`, `Rekey`, `Phase` — a rekey in flight
* `Engine`, `Page` — the state
* `Event`, `Input`, `step` — what can happen, and what the engine does then
* `Issue`, `Departed` — the history: epochs issued, and recipients that left
-/

namespace Noxa.Media

/-! ## Constants -/

def debounceMs : ℕ := 200
def removalActivateDeadlineMs : ℕ := 2000
def removalBoundMs : ℕ := debounceMs + removalActivateDeadlineMs
def renewMs : ℕ := 5 * 60 * 1000
def activateDelayMs : ℕ := 2500
def removalActivateDelayMs : ℕ := 1000
def activateMaxWaitMs : ℕ := 8000
def senderRetireMs : ℕ := 1500
def retryRekeyMaxMs : ℕ := 2000

/-! ## State -/

inductive Reason where
  | membership
  | publication
  | start
  | renewal
  | removal
  deriving DecidableEq, Repr

def Reason.rank : Reason → ℕ
  | membership => 1
  | publication => 1
  | start => 2
  | renewal => 2
  | removal => 3

/-- A noted removal that no active epoch covers yet. Its timer is armed until it is due. -/
structure Removal where
  seq : ℕ
  due : Bool
  deadline : ℕ
  deriving DecidableEq, Repr

/-- An epoch whose activation has started. -/
structure Activation where
  epoch : ℕ
  created : ℕ
  deriving DecidableEq, Repr

/-- Another client whose control was accepted; `ratchets` when its session announced the ratchet
feature. -/
structure Publisher where
  clientID : String
  id : DeviceID
  ratchets : Bool
  deriving DecidableEq, Repr

/-- A rekey before its epoch has a number. -/
structure Draft where
  created : ℕ
  urgent : Bool
  previous : ℕ
  recipients : List Recipient
  deriving DecidableEq, Repr

/-- A rekey with its epoch. `head` is the material it continues, if it is a ratchet. -/
structure Rekey extends Draft where
  head : Option Material
  keys : Keys
  epoch : ℕ
  kid : ℕ
  deriving DecidableEq, Repr

/-- Every device that received a key of the rekey's chain. -/
def Rekey.chain (r : Rekey) : List DeviceID :=
  (match r.head with
    | some m => m.chain
    | none => []) ++ recipientIDs r.recipients

/-- Where the rekey in flight waits. -/
inductive Phase where
  | idle
  /-- for `ratchetKeys` -/
  | ratcheting (d : Draft) (head : Material)
  /-- for `membershipDigest` -/
  | digesting (r : Rekey)
  /-- for the reply to a `setKey` that the worker accepted or not -/
  | installing (r : Rekey) (todo : List Pid) (accepted : Bool)
  /-- for the deliveries, or the deadline of a removal this epoch covers -/
  | awaitingRemoval (r : Rekey) (distribution : ℕ)
  /-- for the deliveries since the given time, or a removal -/
  | awaiting (r : Rekey) (distribution since : ℕ) (interrupted : Bool)
  /-- for the reply to an `activate` that the worker accepted or not -/
  | activating (r : Rekey) (posted : Slot) (todo : List Slot) (accepted : Bool)
  deriving DecidableEq, Repr

structure Engine where
  self : Option Self := none
  roster : List Entry := []
  recipients : List Recipient := []
  recipientKey : List DeviceID := []
  epoch : ℕ := 0
  kid : ℕ := 15
  again : Bool := false
  busyOrPending : Bool := false
  reason : Option Reason := none
  removalDebounce : Bool := false
  debounce : Option ℕ := none
  renew : Option ℕ := none
  runRetry : Option ℕ := none
  runFailures : ℕ := 0
  pendingRemovals : List Removal := []
  seq : ℕ := 0
  paused : Bool := false
  activating : List Activation := []
  activeEpoch : ℕ := 0
  publishers : List Publisher := []
  retirements : List (ℕ × ℕ) := []
  phase : Phase := .idle
  deriving DecidableEq, Repr

/-- An epoch that was given a number: where it stands in the order of rekeys and removals, the
recipient snapshot it was created with, and its keys. -/
structure Issue where
  epoch : ℕ
  created : ℕ
  snapshot : List DeviceID
  keys : Keys
  fresh : Bool
  deriving DecidableEq, Repr

/-- A recipient that had been sent keys and that a roster no longer has. Epochs created before that
roster are those with `created ≤ seq`. -/
structure Departed where
  device : DeviceID
  time : ℕ
  seq : ℕ
  deriving DecidableEq, Repr

structure Page where
  owner : DeviceID
  engine : Engine := {}
  courier : Courier := {}
  worker : Worker := Worker.empty
  issued : ℕ := 0
  draws : ℕ := 0
  clock : ℕ := 0
  issues : List Issue := []
  departed : List Departed := []
  announced : Bool := false

variable (s : Page) (wall : ℕ) (lost : Bool) (r : Rekey)

def Page.context : Context where
  clock := s.clock
  epoch := s.engine.epoch
  activeEpoch := s.engine.activeEpoch
  recipients := s.engine.recipients
  invisible := match s.engine.self with
    | some self => isInvisible s.engine.roster self
    | none => false

/-! ## Scheduling -/

/-- `#schedule`: a pending reason gives way only to one of equal or higher rank, and a timer armed
by a removal is not postponed. -/
def schedule (reason : Reason) (delay : ℕ) : Page :=
  let e := s.engine
  if e.self = none then s
  else
    let e := if !e.busyOrPending || (e.reason.elim 0 Reason.rank) ≤ reason.rank then
      { e with reason := some reason } else e
    let e := { e with busyOrPending := true }
    let e := if e.removalDebounce then e else
      { e with removalDebounce := reason = .removal, debounce := some (s.clock + delay) }
    { s with engine := e }

/-- A removal resolves the promise that a wait for deliveries races against. -/
def Phase.interrupt : Phase → Phase
  | .awaiting r distribution since _ => .awaiting r distribution since true
  | p => p

/-- `#noteRemoval`: its deadline timer is armed at the removal. -/
def noteRemoval : Page :=
  let e := s.engine
  let removal : Removal := ⟨e.seq + 1, false, s.clock + removalBoundMs⟩
  { s with
    engine := { e with
      seq := e.seq + 1
      pendingRemovals := e.pendingRemovals ++ [removal]
      phase := e.phase.interrupt } }

/-- The timer of a removal: at its deadline a removal that is still pending retires the active epoch
and every epoch created before it whose activation has started. -/
def removalDeadline (seq : ℕ) : Page :=
  let e := s.engine
  if e.pendingRemovals.any fun q => q.seq = seq && !q.due && q.deadline ≤ s.clock then
    let e : Engine := { e with
      pendingRemovals := e.pendingRemovals.map fun q =>
        if q.seq = seq then { q with due := true } else q }
    let started := e.activating.filter (·.created < seq)
    let e : Engine := { e with activating := e.activating.filter (seq ≤ ·.created) }
    let w := started.foldl (fun w a => w.each (·.retireEpoch a.epoch)) s.worker
    if (e.activeEpoch = 0 ∨ e.paused) ∧ started = [] then { s with engine := e, worker := w }
    else
      let w := if e.activeEpoch ≠ 0 ∧ ¬ e.paused then w.each (·.retireEpoch e.activeEpoch) else w
      { s with engine := { e with paused := true }, worker := w }
  else s

/-! ## The ratchet -/

/-- `#ratchetCapable`: every session on that device has announced the ratchet feature. -/
def ratchetCapable (e : Engine) (self : Self) (id : DeviceID) : Bool :=
  let sessions := e.publishers.filter (·.id = id)
  !sessions.isEmpty && sessions.all Publisher.ratchets && e.roster.all fun c =>
      !(inChannel c self.channelID && (⟨c.uniqueID, c.mediaDevice⟩ : DeviceID) = id) ||
        e.publishers.any (·.clientID = c.clientID)

/-- `#ratchetHead`: the active epoch's material, when the next epoch may continue its chain. -/
def ratchetHead (self : Self) (reason : Option Reason) (ids : List DeviceID) : Option Material :=
  let e := s.engine
  if (reason = some .membership ∨ reason = some .publication) ∧ e.pendingRemovals = [] ∧
      e.paused = false ∧ e.activeEpoch ≠ 0 ∧ e.epoch = e.activeEpoch ∧ s.issued = e.activeEpoch then
    match s.courier.material e.activeEpoch with
    | some head =>
      if head.chain.all fun id => id ∈ ids && id ∈ head.ok && ratchetCapable e self id then
        some head
      else none
    | none => none
  else none

/-! ## A rekey -/

/-- The end of a `#run` without an error. -/
def settleRun : Page :=
  { s with engine := { s.engine with phase := .idle, runFailures := 0, runRetry := none } }

/-- The end of a `#run` with an error: a pending removal is retried. -/
def failRekey : Page :=
  let e := { s.engine with phase := .idle }
  if e.pendingRemovals = [] then { s with engine := e }
  else
    let wait := min retryRekeyMaxMs (100 * 2 ^ min e.runFailures 10)
    { s with
      engine := { e with runFailures := e.runFailures + 1, runRetry := some (s.clock + wait) } }

/-- From the keys to the number of the epoch and its place in the key ring. A fresh epoch leaves out
the number and the place that receivers reserve for the successor. -/
def issueEpoch (d : Draft) (head : Option Material) (keys : Keys) : Page :=
  let e := s.engine
  let epoch := if head.isSome then d.previous + 1 else max (max (e.epoch + 2) (s.issued + 2)) wall
  let kid := (match head with
    | some m => m.kid + 1
    | none => e.kid + 2) % 16
  let r : Rekey := { d with head, keys, epoch, kid }
  { s with
    engine := { e with phase := .digesting r }
    issued := epoch
    issues := ⟨epoch, d.created, recipientIDs d.recipients, keys, head.isNone⟩ :: s.issues }

/-- What a rekey takes at its start: its place in the order, and the recipient snapshot. -/
def draft (self : Self) : Draft where
  created := s.engine.seq + 1
  urgent := !s.engine.pendingRemovals.isEmpty
  previous := s.engine.activeEpoch
  recipients := recipientsOf s.engine.roster self

/-- The start of a rekey takes the place in the order and the pending reason. -/
def takePlace : Page :=
  { s with
    engine := { s.engine with
      again := false
      seq := s.engine.seq + 1
      reason := none
      busyOrPending := false } }

/-- `#rekey` up to its first `await`, in a visible session: a ratchet if the active epoch's chain
may go on, fresh keys otherwise. -/
def beginEpoch (self : Self) : Page :=
  let d := draft s self
  let reason := s.engine.reason
  let s := takePlace s
  let s := { s with engine := { s.engine with recipients := d.recipients } }
  match ratchetHead s self reason (recipientIDs d.recipients) with
  | some head => { s with engine := { s.engine with phase := .ratcheting d head } }
  | none => issueEpoch { s with draws := s.draws + 1 } wall d none ⟨s.draws, 0⟩

/-- `#rekey` up to its first `await`. -/
def beginRekey : Page :=
  match s.engine.self with
  | none => s
  | some self =>
    if isInvisible s.engine.roster self then settleRun (takePlace s) else beginEpoch s wall self

/-- The end of a rekey without an error: the next one follows at once if it was asked for. -/
def endRekey : Page :=
  if s.engine.again then beginRekey s wall else settleRun s

/-- `#run`. -/
def startRun : Page :=
  if s.engine.phase = .idle then beginRekey s wall
  else { s with engine := { s.engine with again := true } }

/-- An epoch that will not be activated: its keys leave the worker and the previous epoch is current
again. A preempted one also clears the retry timer. -/
def withdraw (preempted : Bool) : Page :=
  let s : Page := { s with worker := s.worker.each (·.retireEpoch r.epoch) }
  let s : Page := if s.engine.epoch = r.epoch then
    let epoch := if r.previous = 0 then r.epoch else r.previous
    let c : Courier := { s.courier with failed := [] }
    let c := if preempted then { c.clearRetry with retryArmed := 0 } else c
    { s with
      engine := { s.engine with
        epoch
        kid := (c.material epoch).elim s.engine.kid Material.kid }
      courier := c }
    else s
  { s with
    engine := { s.engine with again := true }
    courier := { s.courier with
      deliveries := s.courier.deliveries.filter (·.epoch ≠ r.epoch) } }

/-- After the last slot: the epoch is active, unless a removal it does not cover is past its
deadline, and the removals it covers are settled. -/
def activated : Page :=
  let e : Engine := { s.engine with
    activating := s.engine.activating.filter (r.epoch < ·.epoch)
    activeEpoch := r.epoch }
  let s : Page := { s with engine := e }
  let s : Page := { s with courier := s.courier.scheduleRetry s.context r.epoch }
  let uncovered := e.pendingRemovals.any fun q => q.due && r.created < q.seq
  let pending := e.pendingRemovals.filter (r.created < ·.seq)
  let s : Page := { s with
    worker := if uncovered then s.worker.each (·.retireEpoch r.epoch) else s.worker
    courier := { s.courier with
      deliveries := s.courier.deliveries.filter (r.epoch ≤ ·.epoch) }
    engine := { e with
      paused := uncovered
      pendingRemovals := pending
      again := if pending = [] then e.again else true
      retirements := if r.previous = 0 then e.retirements
        else e.retirements ++ [(s.clock + senderRetireMs, r.previous)] } }
  endRekey s wall

/-- The loop that activates the slots, up to its next `await`. -/
def activateNext : List Slot → Page
  | [] => activated s wall r
  | slot :: todo =>
    let (w, accepted) := s.worker.post lost (.sender slot) (·.activate r.epoch)
    { s with worker := w, engine := { s.engine with phase := .activating r slot todo accepted } }

/-- From the end of the waits to the first `activate`. An epoch that a due removal is not covered by
is withdrawn. -/
def startActivation : Page :=
  if s.engine.epoch ≠ r.epoch then endRekey s wall
  else if s.engine.pendingRemovals.any fun q => q.due && r.created < q.seq then
    endRekey (withdraw s r false) wall
  else
    let e := s.engine
    let s := { s with engine := { e with activating := e.activating ++ [⟨r.epoch, r.created⟩] } }
    activateNext s wall lost r slots

/-- From the last `setKey` to the next `await`: the epoch is current, its distribution starts, and
the wait that fits it begins. -/
def installed : Page :=
  let s : Page := { s with engine := { s.engine with epoch := r.epoch, kid := r.kid } }
  let m : Material := ⟨r.epoch, r.kid, r.keys, r.chain, []⟩
  let c : Courier := { s.courier with
    failed := []
    deliveries := s.courier.deliveries.filter (·.epoch ≠ r.epoch) ++ [m] }
  let distribution := c.distributions.length
  let s : Page := { s with courier := c.distribute s.context r.recipients r.epoch none }
  let superseded := s.engine.pendingRemovals.any (r.created < ·.seq)
  let covered := s.engine.pendingRemovals.any (·.seq < r.created)
  if r.previous = 0 ∨ r.head.isSome then
    if superseded then endRekey (withdraw s r true) wall else startActivation s wall lost r
  else if r.urgent && covered then
    { s with engine := { s.engine with phase := .awaitingRemoval r distribution } }
  else if superseded then endRekey (withdraw s r true) wall
  else { s with engine := { s.engine with phase := .awaiting r distribution s.clock false } }

/-- The publications a rekey installs its keys for, in order. -/
def ownPids : List Pid :=
  slots.flatMap fun slot => [.sender slot, .publication slot]

/-- The loop that installs the keys, up to its next `await`. -/
def installNext : List Pid → Page
  | [] => installed s wall lost r
  | pid :: todo =>
    let (w, accepted) := s.worker.post lost pid (·.key ⟨r.epoch, r.kid, r.keys⟩)
    { s with worker := w, engine := { s.engine with phase := .installing r todo accepted } }

/-! ## Waits -/

def distributionSettledAt (distribution : ℕ) : Option ℕ :=
  s.courier.distributions[distribution]?.bind Distribution.settledAt

/-- When a wait for deliveries that began at `since` is over: the deliveries settle or the bounded
wait elapses, then the drain delay. -/
def awaitingUntil (distribution since : ℕ) : ℕ :=
  let bounded := since + activateMaxWaitMs
  ((distributionSettledAt s distribution).elim bounded (min bounded)) + activateDelayMs

/-- When a removal's epoch has waited long enough after its deliveries. -/
def awaitingRemovalUntil (distribution : ℕ) : Option ℕ :=
  (distributionSettledAt s distribution).map (· + removalActivateDelayMs)

/-- Whether a removal's epoch may be activated. -/
def removalWaitOver (distribution : ℕ) : Bool :=
  (awaitingRemovalUntil s distribution).any (· ≤ s.clock) ||
    s.engine.pendingRemovals.any fun q => q.due && q.seq < r.created

/-- The promise the rekey waits for settles. What a wait is for must have come about, and a worker
confirms only what it accepted; it may fail to confirm anything. -/
def resume (lost ok : Bool) : Page :=
  match s.engine.phase with
  | .idle => s
  | .ratcheting d head =>
    if ok then issueEpoch s wall d (some head) (ratchetKeys head.keys) else failRekey s
  | .digesting r => if ok then installNext s wall lost r ownPids else failRekey s
  | .installing r todo accepted =>
    if !ok then failRekey s
    else if accepted then installNext s wall lost r todo else s
  | .awaitingRemoval r distribution =>
    if ok && removalWaitOver s r distribution then startActivation s wall lost r else s
  | .awaiting r distribution since interrupted =>
    if !ok then if interrupted then endRekey (withdraw s r true) wall else s
    else if awaitingUntil s distribution since ≤ s.clock then startActivation s wall lost r else s
  | .activating r _ todo accepted =>
    if !ok then failRekey s
    else if accepted then activateNext s wall lost r todo else s

/-! ## Calls and timers -/

/-- `start`, on a new engine, which has nothing to deliver. -/
def start (channelID : Int) (clientID : String) : Page :=
  if s.engine.self.isSome ∨ channelID = 0 ∨ clientID = "" then s
  else
    schedule
      { s with
        engine := { s.engine with
          self := some ⟨channelID, clientID, s.owner⟩
          epoch := s.issued
          renew := some (s.clock + renewMs) }
        courier := { sends := s.courier.sends } }
      .start 0

/-- `stop`: every key of the local session leaves the worker. -/
def stop : Page :=
  if s.engine.self = none then s
  else
    { s with
      engine := {}
      courier := { sends := s.courier.sends }
      worker := s.worker.each Ring.forget
      departed := []
      announced := false }

/-- The recipients that had been sent keys and that `roster` no longer has. -/
def departing (self : Self) (roster : List Entry) : List DeviceID :=
  (recipientIDs (recipientsOf s.engine.roster self)).filter fun id =>
    id ∉ recipientIDs (recipientsOf roster self) && s.courier.sends.any (·.device = id)

/-- The history of a roster update: who left, who came back, and whether there was a recipient. -/
def noteRoster (self : Self) (roster : List Entry) : Page :=
  let ids := recipientIDs (recipientsOf roster self)
  { s with
    departed := s.departed.filter (fun d => decide (d.device ∉ ids)) ++
      (departing s self roster).map fun id => ⟨id, s.clock, s.engine.seq⟩
    announced := s.announced || !ids.isEmpty }

/-- What `setRoster` does in a running engine whose session is visible. -/
def updateRecipients (self : Self) : Page :=
  let e := s.engine
  let recipients := recipientsOf e.roster self
  let ids := recipientIDs recipients
  -- Publishers that left, or whose device or channel changed, are dropped.
  let publishers := e.publishers.filter fun p =>
    match e.roster.find? (·.clientID = p.clientID) with
    | some c => inChannel c self.channelID && (⟨c.uniqueID, c.mediaDevice⟩ : DeviceID) = p.id
    | none => false
  let s := { s with engine := { e with publishers } }
  if ids = e.recipientKey then s
  else
    let removal := e.recipients.any (·.id ∉ ids)
    let s := if removal then noteRemoval s else s
    let s := { s with engine := { s.engine with recipientKey := ids, recipients } }
    schedule s (if removal then .removal else .membership) debounceMs

def setRoster (roster : List Entry) : Page :=
  match s.engine.self with
  | none => { s with engine := { s.engine with roster } }
  | some self =>
    let s := noteRoster s self roster
    let s := { s with engine := { s.engine with roster } }
    if isInvisible roster self then s else updateRecipients s self

/-- A control of another client is accepted: the roster binds it to that device. -/
def receive (p : Publisher) : Page :=
  match s.engine.self with
  | none => s
  | some self =>
    let bound := match s.engine.roster.find? (·.clientID = p.clientID) with
      | some c => inChannel c self.channelID && (⟨c.uniqueID, c.mediaDevice⟩ : DeviceID) = p.id
      | none => false
    if bound && p.id.device != self.id.device then
      { s with
        engine := { s.engine with
          publishers := s.engine.publishers.filter (·.clientID ≠ p.clientID) ++ [p] } }
    else s

/-- The timers of an engine. -/
inductive Timer where
  | debounce
  | renew
  | runRetry
  | removal (seq : ℕ)
  | retirement
  | retry (id : ℕ)
  deriving DecidableEq, Repr

/-- A timer fires, if it is armed and its time has come. -/
def fire : Timer → Page
  | .debounce =>
    if s.engine.debounce.any (· ≤ s.clock) then
      startRun { s with engine := { s.engine with debounce := none, removalDebounce := false } }
        wall
    else s
  | .renew =>
    if s.engine.renew.any (· ≤ s.clock) then
      schedule { s with engine := { s.engine with renew := some (s.clock + renewMs) } } .renewal 0
    else s
  | .runRetry =>
    if s.engine.runRetry.any (· ≤ s.clock) then
      startRun { s with engine := { s.engine with runRetry := none } } wall
    else s
  | .removal seq => removalDeadline s seq
  | .retirement =>
    match s.engine.retirements with
    | (deadline, previous) :: rest =>
      if deadline ≤ s.clock then
        { s with
          engine := { s.engine with retirements := rest }
          worker := s.worker.each (·.retire previous) }
      else s
    | [] => s
  | .retry id => { s with courier := s.courier.retryDue s.context id }

/-- The times the clock may not pass. -/
def deadlines : List ℕ :=
  let e := s.engine
  e.debounce.toList ++ e.renew.toList ++ e.runRetry.toList ++
    (e.pendingRemovals.filter fun q => !q.due).map Removal.deadline ++
    e.retirements.map Prod.fst ++ s.courier.retries.map Retry.deadline ++
    match e.phase with
    | .awaiting _ distribution since _ => [awaitingUntil s distribution since]
    | .awaitingRemoval _ distribution => (awaitingRemovalUntil s distribution).toList
    | _ => []

def advance (time : ℕ) : Page :=
  if s.clock ≤ time ∧ ∀ t ∈ deadlines s, time ≤ t then { s with clock := time } else s

inductive Event where
  | setRoster (roster : List Entry)
  | start (channelID : Int) (clientID : String)
  | stop
  | publicationsChanged
  | receive (p : Publisher)
  | advance (time : ℕ)
  | fire (timer : Timer)
  | resume (ok : Bool)
  | settled (distribution : ℕ) (device : DeviceID) (ok : Bool)
  deriving DecidableEq, Repr

/-- An event, the wall clock at that moment, and whether a request to the worker made in this step
is lost. The wall clock may be anything. -/
structure Input where
  event : Event
  wall : ℕ := 0
  lost : Bool := false
  deriving DecidableEq, Repr

def next (i : Input) : Page :=
  match i.event with
  | .setRoster roster => setRoster s roster
  | .start channelID clientID => start s channelID clientID
  | .stop => stop s
  | .publicationsChanged => schedule s .publication debounceMs
  | .receive p => receive s p
  | .advance time => advance s time
  | .fire timer => fire s i.wall timer
  | .resume ok => resume s i.wall i.lost ok
  | .settled distribution device ok =>
    { s with courier := s.courier.settled s.context distribution device ok }

def step (i : Input) : Page × Unit :=
  (next s i, ())

end Noxa.Media

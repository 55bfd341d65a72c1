import Noxa.Store.Finalize

/-!
# The keys of the device directory

The calls that publish, hand out, release and close one-time keys (`olm_directory.go`,
`olm_reset.go`, `olm_delivery.go`, `olm_received_retention.go`). A bundle adds its keys as
available, a claim reserves one, accepting the first copy of a session admits it, and the
acknowledgement of that copy, or its expiry, releases it.

## Main definitions

* `publishOlmBundle`, `resetOlmAccount` — new keys
* `claimOlmKey` — a key for a sender
* `ackOlmDelivery`, `expirePendingOlmControls` — the end of an obligation
* `closeOlmKeys` — keys that nobody will use
* `olmResetChain` — the resets of a device, a page at a time
-/

namespace Noxa.Store

open Directory Fallible

variable [Setting]

/-! ### Rosters -/

/-- `UPDATE olm_rosters SET version=version+1`, within the bound of the column. -/
def bumpOlmRoster (world : World) (p : String) : Option World :=
  if h : (world.rosters p).1 + 1 ≤ maxSafe then
    some { world with
      rosters := Function.update world.rosters p
        ⟨(world.rosters p).1 + 1, by have := (world.rosters p).2.1; omega, h⟩ }
  else none

/-! ### Publications -/

def maxBundleBytes : ℕ := 24 * 1024

/-- A day of the database. -/
def day : Int := micros 86400

variable (keys : Table KeyRow KeyRow.id) (db : Db) (env : Env)

/-- The keys that a device still owes. -/
def unresolvedKeys (device : String) : ℕ :=
  keys.rows.countP fun k => decide (k.id.device = device) && k.lifecycle.unresolved

def keyRecords (device : String) : ℕ :=
  keys.rows.countP (·.id.device = device)

/-- There is room for the keys of a bundle. -/
def hasRoom (b : Bundle) : Prop :=
  unresolvedKeys keys b.deviceID + b.oneTimeKeys.length ≤ maxKeys ∧
    keyRecords keys b.deviceID + b.oneTimeKeys.length ≤ 100000

instance (b : Bundle) : Decidable (hasRoom keys b) :=
  inferInstanceAs (Decidable (_ ∧ _))

/-- The row of one key of a bundle. -/
def keyRow (b : Bundle) (k : Key) : KeyRow where
  id := ⟨b.deviceID, b.accountEpoch, k.id⟩
  generation := b.generation
  principal := b.principal
  server := b.server
  bundle := b

def insertKeys (b : Bundle) : Except Err (Table KeyRow KeyRow.id) :=
  b.oneTimeKeys.foldlM (fun keys k => found (keys.insert (keyRow b k)) .sql) keys

/-- The highest number of the keys of a bundle, or what it was before. -/
def highest (high : Int) (b : Bundle) : Int :=
  b.oneTimeKeys.foldl (fun high k => max high ((keyNumber k.id).getD 0)) high

/-- Store a bundle and its keys. -/
def publish (keyring : Keyring) (b : Bundle) : Except Err Keyring := do
  let publications ← found (keyring.publications.insert
    ⟨b.deviceID, b.generation, b.server, b⟩) .sql
  let keys ← insertKeys keyring.keys b
  pure { keyring with publications := publications, keys := keys }

/-- The first row of a device in `olm_directory_state`. -/
def newAccount (b : Bundle) (high : Int) : Account :=
  ⟨b.deviceID, b.identity, b.signing, b.generation, high, b, b.accountEpoch⟩

/-- Drop the publications that expired a day ago. -/
def expirePublications (keyring : Keyring) (now : Int) (device : String) : Keyring :=
  { keyring with
    publications := keyring.publications.delete fun p =>
      decide (p.device = device ∧ micros p.bundle.expiresAt < now - day) }

def publishOlmBundle (principal id server : String) (b : Bundle) : Except Err Db := do
  ensure (b.principal = principal ∧ b.deviceID = id ∧ b.server = server) .authority
  let d ← lockOlmDevice db.world principal id
  let key ← found ((Setting.pemBlock d.ed25519Public).filter fun block =>
    decide (block.1 = "PUBLIC KEY" ∧ block.2.length = 32)) .authority
  ensure (b.verify key.2 server principal id (env.clock 0) = true) .authority
  ensure ((Setting.bundleBytes b).length ≤ maxBundleBytes) .invalidBundle
  match db.keyring.accounts.get id with
  | none => do
    ensure (b.accountEpoch = 1) .accountChanged
    ensure (b.generation = 1) .conflict
    ensure (∀ k ∈ b.oneTimeKeys, (keyNumber k.id).any (-1 < ·)) .conflict
    let keyring := expirePublications db.keyring env.now id
    ensure (hasRoom keyring.keys b) .limit
    let accounts ← found (keyring.accounts.insert (newAccount b (highest (-1) b))) .sql
    let keyring ← publish { keyring with accounts := accounts } b
    let world ← found (bumpOlmRoster db.world principal) .sql
    pure { db with world := world, keyring := keyring }
  | some account => do
    ensure (account.accountEpoch = b.accountEpoch) .accountChanged
    -- a bundle that is still stored, or the last one, is published again without effect
    if b.generation ≤ account.generation ∧
        (db.keyring.publications.get (id, b.generation)).any
          (fun p => Setting.bundleBytes b = Setting.bundleBytes p.bundle) then
      pure db
    else do
      ensure (account.identity = b.identity ∧ account.signing = b.signing) .accountChanged
      if b.generation = account.generation ∧
          Setting.bundleBytes b = Setting.bundleBytes account.lastBundle then
        pure db
      else do
        ensure (b.generation = account.generation + 1) .conflict
        ensure (∀ k ∈ b.oneTimeKeys, (keyNumber k.id).any (account.highwater < ·)) .conflict
        let keyring := expirePublications db.keyring env.now id
        ensure (hasRoom keyring.keys b) .limit
        let accounts := keyring.accounts.update (fun row => row.device = id)
          (fun row => { row with
            generation := b.generation, highwater := highest account.highwater b, lastBundle := b })
          fun _ => rfl
        let keyring ← publish { keyring with accounts := accounts } b
        pure { db with keyring := keyring }

/-! ### Resets -/

/-- The reply to a reset that has been made before, or the new state. -/
def resetOlmAccount (a : Source) (r : Reset) (b : Bundle) : Except Err (Db × ResetReceipt) := do
  sourceAuthority db a false
  let digest ← found (publicationDigest b) .conflict
  ensure (digest = r.publicationDigest) .conflict
  match db.keyring.resets.get (a.device, r.transitionID) with
  | some prior => do
    ensure (Setting.resetBytes prior.record = Setting.resetBytes r ∧ r.server = a.server) .conflict
    pure (db, prior.receipt)
  | none => do
    let account ← found (db.keyring.accounts.get a.device) .noRows
    let key ← found (Setting.pemBlock a.signing) .authority
    ensure (r.verify key.2 a.server a.principal a.device account.accountEpoch account.identity
      account.signing = true ∧ r.generation = account.generation + 1 ∧
      a.accountEpoch = account.accountEpoch) .authority
    ensure (b.accountEpoch = r.newEpoch ∧ b.generation = r.generation ∧
      b.identity = r.newIdentity ∧ b.signing = r.newSigning ∧
      b.verify key.2 a.server a.principal a.device (env.clock 0) = true) .authority
    ensure (hasRoom db.keyring.keys b) .limit
    let history ← found (db.keyring.history.insert ⟨a.device, account.accountEpoch,
      account.identity, account.signing, account.highwater⟩) .sql
    ensure ((Setting.bundleBytes b).length ≤ maxBundleBytes ∧
      (Setting.resetBytes r).length ≤ 32768) .sql
    let accounts := db.keyring.accounts.update (fun row => row.device = a.device)
      (fun row => { row with
        accountEpoch := b.accountEpoch, identity := b.identity, signing := b.signing,
        generation := b.generation, highwater := highest (-1) b, lastBundle := b })
      fun _ => rfl
    let keyring ← publish { db.keyring with accounts := accounts, history := history } b
    let out : ResetReceipt := ⟨a.server, a.device, r.transitionID, r.newEpoch,
      Crypto.digest (Setting.resetBytes r), digest⟩
    let resets ← found (keyring.resets.insert ⟨a.device, r.transitionID, r, out⟩) .sql
    let world ← found (bumpOlmRoster db.world a.principal) .sql
    pure ({ db with world := world, keyring := { keyring with resets := resets } }, out)

/-- A page of the resets of a device from an epoch on. -/
def olmResetChain (a : Source) (target : String) (after : Int) : Except Err (List Reset) := do
  sourceAuthority db a false
  let rows := (db.keyring.resets.rows.filter fun row =>
    decide (row.device = target ∧ after ≤ row.record.oldEpoch)).map (·.record)
  pure (((rows.insertionSort fun r r' => r.oldEpoch ≤ r'.oldEpoch).take 32).filter
    (·.server = a.server))

/-! ### Claims -/

structure OlmClaim where
  bundle : Bundle
  keyID : String
  deriving DecidableEq, Repr

def olmDevicePairClaimsPerDay : ℕ := 2

def olmTotalClaimsPerDay : ℕ := 4096

/-- The key claimed under a request. -/
def findRequest (principal requestID : String) : Option (KeyRow × Claim) :=
  keys.rows.findSome? fun k =>
    match k.claim with
    | none => none
    | some claim =>
      if claim.claimedBy = principal ∧ claim.requestID = requestID then some (k, claim) else none

/-- The confirmed devices of an account, at most a hundred. -/
def activeDevices (world : World) (owner : String) : ℕ :=
  min (world.devices.rows.countP fun d => decide (d.principal = owner) && d.confirmed) 100

/-- The claims of the last day are within the budgets. -/
def claimBudget (principal id target targetID : String) : Prop :=
  let recent := db.keyring.keys.rows.filter fun k =>
    (db.world.devices.get k.id.device).isSome &&
      k.claim.any fun c => decide (c.claimedBy = principal ∧ env.now - day < c.claimedAt)
  (recent.countP fun k => (db.world.devices.get k.id.device).any (·.principal = target)) <
      olmDevicePairClaimsPerDay * activeDevices db.world principal * activeDevices db.world target ∧
    recent.length < olmTotalClaimsPerDay ∧
    (recent.countP fun k => k.claim.any (·.claimedDevice = id) && decide (k.id.device = targetID)) <
      olmDevicePairClaimsPerDay

instance (principal id target targetID : String) :
    Decidable (claimBudget db env principal id target targetID) :=
  inferInstanceAs (Decidable (_ ∧ _))

/-- The available keys of a device, with their publications, in the order they are handed out. -/
def claimable (keyring : Keyring) (env : Env) (account : Account) (targetID server : String) :
    List (KeyRow × Publication) :=
  (keyring.keys.rows.filterMap fun k =>
    match keyring.publications.get (k.id.device, k.generation) with
    | none => none
    | some p =>
      if k.id.device = targetID ∧ p.server = server ∧ k.lifecycle = .available ∧
        k.id.accountEpoch = account.accountEpoch ∧ env.now < micros p.bundle.expiresAt then
        some (k, p) else none).insertionSort fun x y =>
    x.1.generation < y.1.generation ∨ (x.1.generation = y.1.generation ∧
      env.collation x.1.id.keyID ≤ env.collation y.1.id.keyID)

/-- Reserve an available key. -/
def reserve (id : KeyID) (claim : Claim) : Table KeyRow KeyRow.id :=
  keys.update (fun k => decide (k.id = id ∧ k.lifecycle = .available))
    (fun k => { k with lifecycle := .reserved, claim := some claim }) fun _ => rfl

/-- A new claim: the keyring with the key reserved, the key and the bundle it came in. -/
def claimFresh (principal id target targetID requestID : String) (claimUntil : Int)
    (server : String) (sourceEpoch : Int) : Except Err (Keyring × String × Bundle) := do
  ensure (claimBudget db env principal id target targetID) .limit
  let account ← found (db.keyring.accounts.get targetID) .exhausted
  let (k, p) ← found (claimable db.keyring env account targetID server).head? .exhausted
  let keys := reserve db.keyring.keys k.id
    ⟨principal, id, claimUntil, requestID, env.now, sourceEpoch⟩
  pure ({ db.keyring with keys := keys }, k.id.keyID, p.bundle)

/-- A claim made before, under the same request. -/
def claimAgain (k : KeyRow) (claim : Claim) (id targetID : String) (claimUntil : Int)
    (sourceEpoch : Int) : Except Err (Keyring × String × Bundle) := do
  ensure (k.id.device = targetID ∧ claim.claimedDevice = id ∧ claim.claimUntil = claimUntil ∧
    claim.claimedEpoch = sourceEpoch) .conflict
  ensure (k.lifecycle ≠ .closed) .exhausted
  pure (db.keyring, k.id.keyID, k.bundle)

/-- The key of a request: the one there is, or a new one. -/
def claimFor (principal id target targetID requestID : String) (claimUntil : Int) (server : String)
    (sourceEpoch : Int) : Except Err (Keyring × String × Bundle) :=
  match findRequest db.keyring.keys principal requestID with
  | some (k, claim) => claimAgain db k claim id targetID claimUntil sourceEpoch
  | none => claimFresh db env principal id target targetID requestID claimUntil server sourceEpoch

def claimOlmKey (principal id target targetID requestID : String) (claimUntil : Int)
    (server : String) (expectedEpoch : List Int) : Except Err (Db × OlmClaim) := do
  ensure (env.clock 0 < claimUntil) .exhausted
  ensure (claimUntil ≤ env.clock 1 + 3600) .invalidBundle
  ensure (validText principal = true ∧ validText id = true ∧ validText target = true ∧
    validText targetID = true ∧ validText requestID = true) .invalidBundle
  let _ ← lockOlmDevice db.world principal id
  let _ ← lockOlmDevice db.world target targetID
  let sourceEpoch := ((db.keyring.accounts.get id).map (·.accountEpoch)).getD 1
  ensure (expectedEpoch = [] ∨ expectedEpoch = [sourceEpoch]) .accountChanged
  let (keyring, keyID, bundle) ←
    claimFor db env principal id target targetID requestID claimUntil server sourceEpoch
  let account ← found (db.keyring.accounts.get targetID) .noRows
  ensure (account.accountEpoch = bundle.accountEpoch) .accountChanged
  ensure (bundle.server = server ∧ bundle.principal = target) .authority
  pure ({ db with keyring := keyring }, ⟨bundle, keyID⟩)

/-! ### The end of an obligation -/

/-- The deliveries that opened a session with a key. -/
def opened (keyring : Keyring) (deliveries : List String) (k : KeyRow) : Bool :=
  keyring.sessions.rows.any fun s =>
    decide (s.initialDelivery ∈ deliveries ∧ k.id.device = s.id.targetDevice ∧
      k.id.accountEpoch = s.id.targetEpoch) &&
      k.claim.any fun c => decide (c.requestID = s.claimID ∧
        c.claimedDevice = s.id.sourceDevice ∧ c.claimedEpoch = s.id.sourceEpoch)

/-- Release the admitted keys whose first delivery is among these. -/
def release (keyring : Keyring) (deliveries : List String) : Keyring :=
  { keyring with
    keys := keyring.keys.update
      (fun k => opened keyring deliveries k && decide (k.lifecycle = .admitted))
      (fun k => { k with lifecycle := .received }) fun _ => rfl }

def ackOlmDelivery (a : Source) (id digest : String) : Except Err Db := do
  sourceAuthority db a false
  let d ← found (db.mail.deliveries.get id) .authority
  ensure (d.principal = a.principal ∧ d.device = a.device ∧ d.accountEpoch = a.accountEpoch ∧
    (db.mail.messages.get d.messageID).any (·.lane.server = a.server)) .authority
  ensure (digest = d.digest) .conflict
  let deliveries := db.mail.deliveries.update (fun d => d.id = id)
    (fun d => { d with received := true }) fun _ => rfl
  pure { db with
    mail := { db.mail with deliveries := deliveries }
    keyring := release db.keyring [id] }

def controlPendingTTL : Int := 86400

/-- The pending controls whose time is long over, a pass at a time. -/
def staleControls : List String :=
  (((db.mail.deliveries.rows.filter fun d => !d.received && d.control && !env.skipped d.id &&
    (db.mail.messages.get d.messageID).any fun msg =>
      decide (msg.manifest.deadline + controlPendingTTL ≤ env.epoch)).map (·.id)).insertionSort
    fun x y => env.collation x ≤ env.collation y).take 200

def expirePendingOlmControls : Db :=
  let expired := staleControls db env
  let deliveries := db.mail.deliveries.update (fun d => decide (d.id ∈ expired))
    (fun d => { d with received := true, copy := [] }) fun _ => rfl
  { db with
    mail := { db.mail with deliveries := deliveries }
    keyring := release db.keyring expired }

/-! ### Closing -/

structure OlmKeyLifecycle where
  server : String
  device : String
  accountEpoch : Int
  keyID : String
  state : Lifecycle
  proof : String
  deriving DecidableEq, Repr

/-- No claim of this key can be made any more. -/
def claimsOver (keyring : Keyring) (env : Env) (k : KeyRow) : Bool :=
  !(keyring.publications.get (k.id.device, k.generation)).any
      (fun p => decide (env.now < micros p.bundle.expiresAt)) ||
    !(keyring.accounts.get k.id.device).any (·.accountEpoch = k.id.accountEpoch)

/-- One key of the request. -/
def closeOne (a : Source) (s : Keyring × List OlmKeyLifecycle) (keyID : String) :
    Except Err (Keyring × List OlmKeyLifecycle) := do
  ensure (keyID ∉ s.2.map (·.keyID)) .invalid
  let k ← found (s.1.keys.get ⟨a.device, a.accountEpoch, keyID⟩) .noRows
  ensure (k.server = a.server) .authority
  let canClose := (decide (k.lifecycle = .available) && claimsOver s.1 env k) ||
    (decide (k.lifecycle = .reserved) &&
      decide (((k.claim.map (·.claimUntil)).getD 0) ≤ env.epoch))
  let state := if canClose then .closed else k.lifecycle
  let keys := if canClose then setLifecycle s.1.keys k.id .closed else s.1.keys
  let proof := Crypto.digest
    (Setting.lifecycleBytes a.server a.device a.accountEpoch keyID state.text)
  pure ({ s.1 with keys := keys },
    s.2 ++ [⟨a.server, a.device, a.accountEpoch, keyID, state, proof⟩])

def closeOlmKeys (a : Source) (keys : List String) : Except Err (Db × List OlmKeyLifecycle) := do
  ensure (1 ≤ keys.length ∧ keys.length ≤ 100) .invalid
  sourceAuthority db a false
  let (keyring, out) ← (keys.insertionSort (· ≤ ·)).foldlM (closeOne env a) (db.keyring, [])
  pure ({ db with keyring := keyring }, out)

end Noxa.Store

import Noxa.Server.DeviceSessions

/-!
# Linking devices

A signed-in device creates a link, a new device claims it with its keys, and the session that
created the link approves or denies it (`handleLinkCreate`, `handleLinkClaim`, `handleLinkDecide` of
`internal/server/devices.go`). The links are kept in memory under a lock; between the lock and the
database a handler keeps only what it has read. The machine has a step for every part of a handler
that nothing else can interrupt: a stretch under the lock, or one call of the database. A handler
that is between two steps is a `Handler`, one for each connection, since a connection handles its
requests one at a time.

The log is not part of the server. It records what the results are about: which link was claimed by
which request, which was refused, and which row was inserted by which decision. It is newest first.

Two things come in with the inputs because they are not code of this server: what is drawn at random
and the verdict of the rate limiter on wrong codes. The names and platforms that are shown to users
are left out, with the messages to other sessions.

## Main definitions

* `DeviceLink`, `LinkServer` — the links and the state
* `linkStep` — the machine
* `LinkHistory` — what the log of a run looks like
* `FreshStep` — link identifiers are not drawn twice
* `UndisturbedStep` — the approving device is not ended between its check and the insertion

## Main results

* `run_linkInv` — every run has such a log
* `device_links_register_approved` — the same, and which rows are inserted under an active approver
* `approver_revoked_before_insert` — a run in which the approver is gone when the row is inserted
-/

namespace Noxa.Server

open Store Identity Directory Machine Fallible Text Framing List Table Function

/-! ### Links -/

/-- The library functions besides those for keys: HMAC-SHA256 and `strings.ToUpper`. -/
class Linking extends DeviceKeys where
  hmac : Bytes → Bytes → Bytes
  toUpper : String → String

/-- Whether a public web origin is set up, and the limit of devices. -/
structure WebConfig where
  linking : Bool
  deviceLimit : Int

/-- In nanoseconds. -/
def deviceLinkTTL : Int := 120 * 1000000000

def deviceLinkMaxProofFailures : ℕ := 5

inductive LinkState
  | pending
  | claimed
  | approved
  | denied
  deriving DecidableEq, Repr

/-- What a link is created with. -/
structure LinkOrigin where
  id : String
  secret : Bytes
  code : String
  principal : String
  creatorClientID : String
  creatorDeviceID : String
  creatorKey : String
  deriving DecidableEq, Repr

structure DeviceLink extends LinkOrigin where
  expires : Int
  state : LinkState := .pending
  proofFailures : ℕ := 0
  claimKey : String := ""
  claimX25519 : String := ""
  binding : String := ""
  bindingSig : Bytes := []
  deriving DecidableEq, Repr

/-- The fields of a request that the link handlers read. -/
structure DeviceRequest where
  linkID : String := ""
  code : String := ""
  proof : Bytes := []
  ed25519PublicKey : String := ""
  x25519PublicKey : String := ""
  approve : Bool := false
  signature : Bytes := []
  serverBinding : String := ""
  bindingSignature : Bytes := []
  deriving DecidableEq, Repr

section Checks

variable [Linking]

def linkClaimTranscript (linkID ed25519Public x25519Public : String) : Bytes :=
  lines 10 [bytes "noxa-device-link-claim-v1", bytes linkID, bytes ed25519Public]
    (bytes x25519Public)

def linkProof (linkKey transcript : Bytes) : Bytes := Linking.hmac linkKey transcript

/-- Upper case, without separators. -/
def normalizeLinkCode (code : String) : String :=
  String.ofList ((Linking.toUpper code).toList.filter fun c => decide (c ≠ '-' ∧ c ≠ ' '))

def canonicalPublicKey (publicKeyPEM : String) : Option String :=
  (loadPublicKey (bytes publicKeyPEM)).map publicKeyText

omit [Linking] in
def validDeviceX25519 (key : String) : Bool :=
  match Base64.decode key.toList with
  | none => false
  | some raw => decide (raw.length = 32 ∧ String.ofList (Base64.encode raw) = key ∧
      raw ≠ List.replicate 32 0)

/-- What the approver signs for a pair of keys. -/
def LinkOrigin.approval (o : LinkOrigin) (ed25519Public x25519Public : String) : Bytes :=
  deviceApprovalTranscript (bytes o.principal) (bytes o.creatorDeviceID) (bytes ed25519Public)
    (bytes x25519Public)

/-- The signature is the creating device's, over the claimed keys. -/
def DeviceLink.approvedBy (claim : DeviceLink) (r : DeviceRequest) : Bool :=
  verifyChallenge (bytes claim.creatorKey) (claim.approval claim.claimKey claim.claimX25519)
    r.signature

/-- A binding may be left out, but one that is there has to be signed. -/
def DeviceLink.boundBy (claim : DeviceLink) (r : DeviceRequest) : Bool :=
  decide (r.serverBinding = "" ∧ r.bindingSignature = []) ||
    (decide (r.serverBinding ≠ "") && verifyChallenge (bytes claim.creatorKey)
      (deviceLinkBindingTranscript (bytes claim.principal) (bytes claim.creatorDeviceID)
        (bytes claim.claimKey) (bytes claim.claimX25519) (bytes r.serverBinding))
      r.bindingSignature)

end Checks

/-! ### The machine -/

/-- Where the handler of a connection is. -/
inductive Handler
  | idle
  /-- `handleLinkCreate` has the device of its session. -/
  | ensured (principal : String) (creator : Device)
  /-- The account has room for another device. -/
  | creating (principal : String) (creator : Device)
  /-- `handleLinkClaim` has found no device with the key. -/
  | claiming (r : DeviceRequest)
  /-- `handleLinkDecide` has copied the link and verified the signatures. -/
  | checked (claim : DeviceLink) (r : DeviceRequest)
  /-- The creating device was active. -/
  | approving (claim : DeviceLink) (r : DeviceRequest) (approval : Bytes)
  /-- The row is inserted. -/
  | finishing (claim : DeviceLink) (r : DeviceRequest)
  deriving DecidableEq, Repr

inductive LinkEvent
  | created (o : LinkOrigin)
  | claimed (o : LinkOrigin) (state : LinkState) (r : DeviceRequest)
  | denied (o : LinkOrigin)
  | cancelled (o : LinkOrigin)
  /-- The row that a connection inserted with a request, and the table before. -/
  | registered (o : LinkOrigin) (client : String) (r : DeviceRequest) (row : Device)
    (before : Devices)

structure LinkServer where
  devices : Devices
  byID : Table DeviceLink (fun l => l.id) := Table.empty
  byCode : Table (String × String) Prod.fst := Table.empty
  handlers : String → Handler := fun _ => .idle
  log : List LinkEvent := []

inductive ErrCode
  | malformed
  | permissionDenied
  | unavailable
  deriving DecidableEq, Repr

/-- What a link handler answers. The state of a link that is not there is `none`, for expired. -/
inductive LinkReply
  /-- No answer yet. -/
  | pending
  | error (code : ErrCode) (text : String)
  | failure (e : DeviceErr)
  | created (link : DeviceLink)
  | claimed (linkID : String) (expiresAt : Int) (approverKey : String)
  | result (linkID : String) (state : Option LinkState)
  | bound (link : DeviceLink)
  | cancelled (linkID : String)

namespace LinkServer

variable (s : LinkServer)

def setHandler (client : String) (h : Handler) : LinkServer :=
  { s with handlers := update s.handlers client h }

def record (e : LinkEvent) : LinkServer := { s with log := e :: s.log }

def putLink (l : DeviceLink) : LinkServer := { s with byID := s.byID.put l }

/-- Delete links, each with its code. -/
def drop (p : DeviceLink → Bool) : LinkServer :=
  { s with
    byID := s.byID.delete p
    byCode := s.byCode.delete fun e => s.byID.rows.any fun l => p l && decide (l.code = e.1) }

/-- Past its time. The outcome of a decision stays for another period. -/
def expired (now : Int) (l : DeviceLink) : Bool :=
  decide (now > if l.state = .approved ∨ l.state = .denied then l.expires + deviceLinkTTL
    else l.expires)

def sweepLocked (now : Int) : LinkServer := s.drop (expired now)

end LinkServer

inductive LinkInput
  /-- The steps of `handleLinkCreate`. A code that is taken is drawn again. -/
  | create (c : Client) (drawn : Drawn)
  | list (client : String)
  | insert (client : String) (now : Int) (id : String) (secret : Bytes) (code : String)
  /-- The steps of `handleLinkClaim`. -/
  | claim (client : String) (r : DeviceRequest)
  | claimLocked (client : String) (now : Int) (limited : Bool)
  | status (now : Int) (r : DeviceRequest)
  /-- The steps of `handleLinkDecide`. -/
  | decision (client : String) (now : Int) (r : DeviceRequest)
  | check (client : String)
  | approve (client : String) (drawn : Drawn)
  | finish (client : String) (now : Int)
  | cancel (client : String) (linkID : String)
  /-- Another call on the table of devices. -/
  | store (drawn : Drawn) (call : DeviceCall)

section Steps

variable [Linking] (cfg : WebConfig)

namespace LinkServer

variable (s : LinkServer) (client : String) (now : Int)

/-- `handleLinkClaim` answers alike for links that are unknown, expired or used. -/
def unavailable : LinkServer × LinkReply := (s, .result "" none)

/-- The end of a claim, once the link is found and the secret or the code is right. -/
def claimLink (r : DeviceRequest) (link : DeviceLink) : LinkServer × LinkReply :=
  if link.state ≠ .pending ∨ now > link.expires then s.unavailable
  else
    let link' := { link with
      state := .claimed
      claimKey := r.ed25519PublicKey
      claimX25519 := r.x25519PublicKey
      expires := now + deviceLinkTTL }
    (({ s with
        byID := s.byID.put link'
        byCode := s.byCode.delete fun e => decide (e.1 = link.code) } : LinkServer).record
      (.claimed link.toLinkOrigin link.state r),
      .claimed link.id link'.expires link.creatorKey)

/-- A wrong proof. After five the link is gone. -/
def wrongProof (link : DeviceLink) : LinkServer × LinkReply :=
  if link.proofFailures + 1 ≥ deviceLinkMaxProofFailures then
    (s.drop fun l => decide (l.id = link.id)).unavailable
  else (s.putLink { link with proofFailures := link.proofFailures + 1 }).unavailable

def claimLocked (limited : Bool) (r : DeviceRequest) : LinkServer × LinkReply :=
  let s := s.sweepLocked now
  if r.code ≠ "" then
    if limited then (s, .error .permissionDenied "too many wrong codes, try again later")
    else
      match (s.byCode.get (normalizeLinkCode r.code)).bind fun e => s.byID.get e.2 with
      | none => s.unavailable
      | some link => s.claimLink now r link
  else
    match s.byID.get r.linkID with
    | none => s.unavailable
    | some link =>
      if r.proof = linkProof link.secret
          (linkClaimTranscript link.id r.ed25519PublicKey r.x25519PublicKey) then
        s.claimLink now r link
      else s.wrongProof link

/-- The first part of a decision, up to the check of the approver. -/
def decision (r : DeviceRequest) : LinkServer × LinkReply :=
  let s := s.sweepLocked now
  match s.byID.get r.linkID with
  | none => (s, .result r.linkID none)
  | some link =>
    if link.creatorClientID ≠ client ∨ link.state ≠ .claimed then (s, .result r.linkID none)
    else if r.approve = false then
      ((s.putLink { link with state := .denied }).record (.denied link.toLinkOrigin),
        .result r.linkID (some .denied))
    else if link.approvedBy r = false then
      (s, .error .permissionDenied "approval signature does not match this device")
    else if link.boundBy r = false then
      (s, .error .permissionDenied "server binding signature does not match this device")
    else (s.setHandler client (.checked link r), .pending)

/-- What an approval registers. -/
def newDevice (claim : DeviceLink) (approval : Bytes) : NewDevice where
  principal := claim.principal
  kind := .web
  ed25519Public := claim.claimKey
  x25519Public := claim.claimX25519
  approvedBy := claim.creatorDeviceID
  approvalSignature := approval

/-- The end of an approval, if the link is still there. -/
def finish (claim : DeviceLink) (r : DeviceRequest) : LinkServer :=
  match s.byID.get claim.id with
  | none => s
  | some current => s.putLink { current with
      state := .approved
      expires := now + deviceLinkTTL
      binding := r.serverBinding
      bindingSig := r.bindingSignature }

/-- The replacement of pending links and the insertion of a new one, if its code is free. -/
def insert (o : LinkOrigin) : LinkServer × LinkReply :=
  let s' := (s.sweepLocked now).drop fun l =>
    decide (l.creatorDeviceID = o.creatorDeviceID ∧ l.state = .pending)
  if s'.byCode.get o.code = none then
    let link : DeviceLink := { toLinkOrigin := o, expires := now + deviceLinkTTL }
    ((({ s' with
          byID := s'.byID.put link
          byCode := s'.byCode.put (o.code, o.id) } : LinkServer).record (.created o)).setHandler
        client .idle,
      .created link)
  else (s, .pending)

end LinkServer

def linkStep (s : LinkServer) : LinkInput → LinkServer × LinkReply
  | .create c drawn =>
    if s.handlers c.clientID ≠ .idle then (s, .pending)
    else if cfg.linking = false then
      (s, .error .unavailable "this server has not enabled the mobile web app")
    else match ensureDesktopDevice drawn s.devices cfg.deviceLimit c with
      | .error .notFound =>
        (s, .error .permissionDenied "only a linked device can link another device")
      | .error e => (s, .failure e)
      | .ok (ds, d) =>
        ({ s with devices := ds }.setHandler c.clientID (.ensured c.principal d), .pending)
  | .list client =>
    match s.handlers client with
    | .ensured principal d =>
      if ((listDevices s.devices principal false).length : Int) ≥ cfg.deviceLimit then
        (s.setHandler client .idle, .failure .limit)
      else (s.setHandler client (.creating principal d), .pending)
    | _ => (s, .pending)
  | .insert client now id secret code =>
    match s.handlers client with
    | .creating principal d =>
      s.insert client now ⟨id, secret, code, principal, client, d.deviceID, d.ed25519Public⟩
    | _ => (s, .pending)
  | .claim client r =>
    if s.handlers client ≠ .idle then (s, .pending)
    else if canonicalPublicKey r.ed25519PublicKey ≠ some r.ed25519PublicKey then
      (s, .error .malformed "invalid device key")
    else if validDeviceX25519 r.x25519PublicKey = false then
      (s, .error .malformed "invalid encryption key")
    else match deviceByKey s.devices r.ed25519PublicKey with
      | some _ => s.unavailable
      | none => (s.setHandler client (.claiming r), .pending)
  | .claimLocked client now limited =>
    match s.handlers client with
    | .claiming r => (s.setHandler client .idle).claimLocked now limited r
    | _ => (s, .pending)
  | .status now r =>
    let s := s.sweepLocked now
    match s.byID.get r.linkID with
    | none => (s, .result r.linkID none)
    | some link =>
      if link.claimKey ≠ r.ed25519PublicKey then (s, .result r.linkID none)
      else if link.state = .approved ∧ link.binding ≠ "" then (s, .bound link)
      else (s, .result r.linkID (some link.state))
  | .decision client now r =>
    if s.handlers client ≠ .idle then (s, .pending) else s.decision client now r
  | .check client =>
    match s.handlers client with
    | .checked claim r =>
      match deviceByID s.devices claim.principal claim.creatorDeviceID with
      | none => (s.setHandler client .idle, .failure .notFound)
      | some creator =>
        if creator.active = false then (s.setHandler client .idle, .failure .notFound)
        else (s.setHandler client (.approving claim r
          (if creator.firstDevice = false ∧ creator.approvalSignature = [] then []
          else r.signature)), .pending)
    | _ => (s, .pending)
  | .approve client drawn =>
    match s.handlers client with
    | .approving claim r approval =>
      match addDevice drawn s.devices (LinkServer.newDevice claim approval) cfg.deviceLimit with
      | .error e => (s.setHandler client .idle, .failure e)
      | .ok (ds, d) =>
        (({ s with devices := ds }.setHandler client (.finishing claim r)).record
          (.registered claim.toLinkOrigin client r d s.devices), .pending)
    | _ => (s, .pending)
  | .finish client now =>
    match s.handlers client with
    | .finishing claim r =>
      ((s.finish now claim r).setHandler client .idle, .result r.linkID (some .approved))
    | _ => (s, .pending)
  | .cancel client linkID =>
    if s.handlers client ≠ .idle then (s, .pending)
    else match s.byID.get linkID with
      | none => (s, .cancelled linkID)
      | some link =>
        if link.creatorClientID = client then
          ((s.drop fun l => decide (l.id = link.id)).record (.cancelled link.toLinkOrigin),
            .cancelled linkID)
        else (s, .cancelled linkID)
  | .store drawn call => ({ s with devices := call.perform drawn s.devices }, .pending)

end Steps

/-! ### Histories -/

namespace LinkEvent

def origin : LinkEvent → LinkOrigin
  | .created o | .claimed o _ _ | .denied o | .cancelled o | .registered o _ _ _ _ => o

def creates : LinkEvent → Option String
  | .created o => some o.id
  | _ => none

def claims : LinkEvent → Option String
  | .claimed o _ _ => some o.id
  | _ => none

def registers : LinkEvent → Option String
  | .registered o _ _ _ _ => some o.id
  | _ => none

def refuses : LinkEvent → Option String
  | .denied o | .cancelled o => some o.id
  | _ => none

end LinkEvent

open LinkEvent

/-- The links of a log that have events of a kind. -/
def idsOf (kind : LinkEvent → Option String) (log : List LinkEvent) : List String :=
  log.filterMap kind

/-- The creating device is in the table, with the key that the link has for it. -/
def LinkOrigin.HeldIn (o : LinkOrigin) (ds : Devices) : Prop :=
  ∃ d ∈ ds.rows, d.deviceID = o.creatorDeviceID ∧ d.principal = o.principal ∧
    d.ed25519Public = o.creatorKey

/-- The creating device is in the table and active. -/
def LinkOrigin.activeIn (o : LinkOrigin) (ds : Devices) : Bool :=
  ds.rows.any fun d => decide (d.deviceID = o.creatorDeviceID ∧ d.principal = o.principal) &&
    d.active

section History

variable [Linking]

/-- The request proved the secret of the link, or gave its code. -/
def LinkOrigin.Opens (o : LinkOrigin) (r : DeviceRequest) : Prop :=
  r.code = "" ∧ r.proof = linkProof o.secret
      (linkClaimTranscript o.id r.ed25519PublicKey r.x25519PublicKey) ∨
    r.code ≠ "" ∧ normalizeLinkCode r.code = o.code

/-- What the log of a run looks like. -/
structure LinkHistory (log : List LinkEvent) : Prop where
  /-- A link is claimed at most once, while it is pending, with its secret or its code. -/
  claimed_once : (idsOf claims log).Nodup
  claimed_open : ∀ o state r, .claimed o state r ∈ log → state = .pending ∧ o.Opens r
  /-- At most one device is registered for a link, and it has the claimed keys. -/
  registered_once : (idsOf registers log).Nodup
  registered_claimed : ∀ o client r row before, .registered o client r row before ∈ log →
    ∃ state q, .claimed o state q ∈ log ∧ row.ed25519Public = q.ed25519PublicKey ∧
      row.x25519Public = q.x25519PublicKey
  /-- The session that created the link has approved, with a signature of the creating device. -/
  registered_approved : ∀ o client r row before, .registered o client r row before ∈ log →
    client = o.creatorClientID ∧ r.approve = true ∧ o.HeldIn before ∧
      verifyChallenge (bytes o.creatorKey) (o.approval row.ed25519Public row.x25519Public)
        r.signature = true
  /-- Nothing is registered for a link that was refused before. -/
  refused_before : log.Pairwise fun later earlier => ∀ id, later.registers = some id →
    earlier.refuses ≠ some id

/-- A link was claimed with the keys it has. -/
def DeviceLink.ClaimedIn (l : DeviceLink) (log : List LinkEvent) : Prop :=
  ∃ state q, .claimed l.toLinkOrigin state q ∈ log ∧ l.claimKey = q.ed25519PublicKey ∧
    l.claimX25519 = q.x25519PublicKey ∧ storedKey l.claimKey = l.claimKey

/-- What holds of a link, by the log and by what its creator's connection is doing. -/
structure LinkOK (log : List LinkEvent) (h : Handler) (l : DeviceLink) : Prop where
  created : .created l.toLinkOrigin ∈ log
  pending : l.state = .pending → l.id ∉ idsOf claims log
  claimed : l.state = .claimed → l.ClaimedIn log
  waiting : l.state = .pending ∨ l.state = .claimed → l.id ∉ idsOf refuses log
  unregistered : l.state = .pending ∨ l.state = .claimed → l.id ∈ idsOf registers log →
    ∃ claim r, h = .finishing claim r ∧ claim.id = l.id

/-- What holds of a decision that is under way. -/
structure Deciding (log : List LinkEvent) (client : String) (claim : DeviceLink) : Prop where
  created : .created claim.toLinkOrigin ∈ log
  creator : claim.creatorClientID = client
  unrefused : claim.id ∉ idsOf refuses log

/-- An approval that has not inserted its row yet. -/
structure Approving (log : List LinkEvent) (client : String) (claim : DeviceLink)
    (r : DeviceRequest) : Prop extends Deciding log client claim where
  claimed : claim.ClaimedIn log
  approve : r.approve = true
  signed : claim.approvedBy r = true
  unregistered : claim.id ∉ idsOf registers log

/-- What holds of a handler between two steps. -/
def HandlerOK (log : List LinkEvent) (ds : Devices) (client : String) : Handler → Prop
  | .idle => True
  | .ensured principal d | .creating principal d =>
    ∃ d' ∈ ds.rows, d'.deviceID = d.deviceID ∧ d'.principal = principal ∧
      d'.ed25519Public = d.ed25519Public
  | .claiming r => storedKey r.ed25519PublicKey = r.ed25519PublicKey
  | .checked claim r | .approving claim r _ => Approving log client claim r
  | .finishing claim _ => Deciding log client claim

structure LinkInv (s : LinkServer) : Prop where
  history : LinkHistory s.log
  fresh : (idsOf creates s.log).Nodup
  origins : ∀ e ∈ s.log, .created e.origin ∈ s.log
  held : ∀ o, .created o ∈ s.log → o.HeldIn s.devices
  coded : ∀ e ∈ s.byCode.rows, ∃ l ∈ s.byID.rows, l.id = e.2 ∧ l.code = e.1
  links : ∀ l ∈ s.byID.rows, LinkOK s.log (s.handlers l.creatorClientID) l
  handlers : ∀ client, HandlerOK s.log s.devices client (s.handlers client)

/-! ### Events -/

variable {kind : LinkEvent → Option String} {log : List LinkEvent} {e : LinkEvent}
  {ds ds' : Devices} {drawn : Drawn} {limit : Int} {s : LinkServer} {id : String}

omit [Linking] in
theorem mem_idsOf : id ∈ idsOf kind log ↔ ∃ e ∈ log, kind e = some id :=
  mem_filterMap

omit [Linking] in
theorem mem_idsOf_cons : id ∈ idsOf kind (e :: log) ↔ kind e = some id ∨ id ∈ idsOf kind log := by
  simp [mem_idsOf]

omit [Linking] in
theorem nodup_idsOf_cons (h : (idsOf kind log).Nodup)
    (hfst : ∀ id, kind e = some id → id ∉ idsOf kind log) : (idsOf kind (e :: log)).Nodup := by
  rw [idsOf, filterMap_cons]
  split
  · exact h
  · exact nodup_cons.mpr ⟨hfst _ ‹_›, h⟩

omit [Linking] in
/-- Links are told apart by their identifiers. -/
theorem eq_of_created (hfr : (idsOf creates log).Nodup) {o o' : LinkOrigin}
    (ho : .created o ∈ log) (ho' : .created o' ∈ log) (hid : o.id = o'.id) : o = o' := by
  by_contra hne
  have hprs := pairwise_filterMap.mp hfr
  have hsm : Std.Symm fun a b : LinkEvent => ∀ id, a.creates = some id → ∀ id',
      b.creates = some id' → id ≠ id' :=
    ⟨fun a b h id hid id' hid' heq => h id' hid' id hid heq.symm⟩
  exact hprs.forall ho ho' (fun heq => hne (created.inj heq)) o.id rfl o'.id rfl hid

/-- What a log has to satisfy says something of a new event if it is a claim or a registration. -/
theorem LinkHistory.cons (h : LinkHistory log) (hcld : ∀ o state r, e = .claimed o state r →
      o.id ∉ idsOf claims log ∧ state = .pending ∧ o.Opens r)
    (hrg : ∀ o client r row before, e = .registered o client r row before →
      ∃ claim : DeviceLink, claim.toLinkOrigin = o ∧ Approving log client claim r ∧
        o.HeldIn before ∧ row.ed25519Public = claim.claimKey ∧
        row.x25519Public = claim.claimX25519) : LinkHistory (e :: log) where
  claimed_once := by
    refine nodup_idsOf_cons h.claimed_once fun id hid => ?_
    cases e with
    | claimed o state r => exact Option.some.inj hid ▸ (hcld o state r rfl).1
    | _ => cases hid
  claimed_open o state r hm := by
    rcases mem_cons.mp hm with rfl | hm
    · exact (hcld o state r rfl).2
    · exact h.claimed_open o state r hm
  registered_once := by
    refine nodup_idsOf_cons h.registered_once fun id hid => ?_
    cases e with
    | registered o client r row before =>
      obtain ⟨claim, rfl, ha, -⟩ := hrg o client r row before rfl
      exact Option.some.inj hid ▸ ha.unregistered
    | _ => cases hid
  registered_claimed o client r row before hm := by
    rcases mem_cons.mp hm with rfl | hm
    · obtain ⟨claim, rfl, ha, -, hk, hx⟩ := hrg o client r row before rfl
      obtain ⟨state, q, hq, hqk, hqx, -⟩ := ha.claimed
      exact ⟨state, q, mem_cons_of_mem _ hq, hk.trans hqk, hx.trans hqx⟩
    · obtain ⟨state, q, hq, hks⟩ := h.registered_claimed o client r row before hm
      exact ⟨state, q, mem_cons_of_mem _ hq, hks⟩
  registered_approved o client r row before hm := by
    rcases mem_cons.mp hm with rfl | hm
    · obtain ⟨claim, rfl, ha, hhl, hk, hx⟩ := hrg o client r row before rfl
      refine ⟨ha.creator.symm, ha.approve, hhl, ?_⟩
      rw [hk, hx]
      exact ha.signed
    · exact h.registered_approved o client r row before hm
  refused_before := by
    refine pairwise_cons.mpr ⟨fun x hx id hid href => ?_, h.refused_before⟩
    cases e with
    | registered o client r row before =>
      obtain ⟨claim, rfl, ha, -⟩ := hrg o client r row before rfl
      exact ha.unrefused (mem_idsOf.mpr ⟨x, hx, Option.some.inj hid ▸ href⟩)
    | _ => cases hid

variable {l : DeviceLink}

theorem DeviceLink.ClaimedIn.cons (h : l.ClaimedIn log) (e : LinkEvent) :
    l.ClaimedIn (e :: log) := by
  obtain ⟨state, q, hq, hks⟩ := h
  exact ⟨state, q, mem_cons_of_mem _ hq, hks⟩

theorem LinkOK.cons {hd : Handler} (h : LinkOK log hd l)
    (hcls : l.state = .pending → e.claims ≠ some l.id)
    (href : l.state = .pending ∨ l.state = .claimed → e.refuses ≠ some l.id)
    (hreg : l.state = .pending ∨ l.state = .claimed → e.registers = some l.id →
      ∃ claim r, hd = .finishing claim r ∧ claim.id = l.id) : LinkOK (e :: log) hd l where
  created := mem_cons_of_mem _ h.created
  pending hp hm := (mem_idsOf_cons.mp hm).elim (hcls hp) (h.pending hp)
  claimed hc := (h.claimed hc).cons e
  waiting hw hm := (mem_idsOf_cons.mp hm).elim (href hw) (h.waiting hw)
  unregistered hw hm := (mem_idsOf_cons.mp hm).elim (hreg hw) (h.unregistered hw)

variable {client : String} {claim : DeviceLink}

omit [Linking] in
theorem Deciding.cons (h : Deciding log client claim)
    (href : e.refuses ≠ some claim.id) : Deciding (e :: log) client claim where
  created := mem_cons_of_mem _ h.created
  creator := h.creator
  unrefused hm := (mem_idsOf_cons.mp hm).elim href h.unrefused

theorem Approving.cons {r : DeviceRequest}
    (h : Approving log client claim r) (href : e.refuses ≠ some claim.id)
    (hreg : e.registers ≠ some claim.id) : Approving (e :: log) client claim r where
  toDeciding := h.toDeciding.cons href
  claimed := h.claimed.cons e
  approve := h.approve
  signed := h.signed
  unregistered hm := (mem_idsOf_cons.mp hm).elim hreg h.unregistered

/-- The decision that a handler is about. -/
def Handler.deciding : Handler → Option DeviceLink
  | .checked claim _ | .approving claim _ _ | .finishing claim _ => some claim
  | _ => none

theorem HandlerOK.deciding {h : Handler} (hok : HandlerOK log ds client h)
    (hclm : h.deciding = some claim) : Deciding log client claim := by
  cases h with
  | checked | approving =>
    cases hclm
    exact hok.toDeciding
  | finishing =>
    cases hclm
    exact hok
  | _ => cases hclm

theorem HandlerOK.cons {h : Handler} (hok : HandlerOK log ds client h)
    (hclm : ∀ claim, h.deciding = some claim → e.refuses ≠ some claim.id ∧
      ((∀ r, h ≠ .finishing claim r) → e.registers ≠ some claim.id)) :
    HandlerOK (e :: log) ds client h := by
  cases h with
  | checked c r | approving c r approval =>
    obtain ⟨href, hreg⟩ := hclm c rfl
    exact Approving.cons hok href (hreg (by simp))
  | finishing c => exact Deciding.cons hok (hclm c rfl).1
  | _ => exact hok

variable {added : Option Device}

theorem HandlerOK.grown {h : Handler} (hok : HandlerOK log ds client h)
    (hgrn : Grown ds added ds') : HandlerOK log ds' client h := by
  cases h with
  | ensured | creating => exact hgrn.held hok
  | _ => exact hok

/-! ### Active approvers -/

/-- A step that has nothing to do with approvers. -/
structure Framed (s s' : LinkServer) : Prop where
  devices : s'.devices = s.devices
  approving : ∀ client claim r approval, s'.handlers client = .approving claim r approval →
    s.handlers client = .approving claim r approval
  registered : ∀ o client r row before, .registered o client r row before ∈ s'.log →
    .registered o client r row before ∈ s.log

namespace Framed

omit [Linking]

variable (s : LinkServer)

theorem refl : Framed s s := ⟨rfl, fun _ _ _ _ h => h, fun _ _ _ _ _ h => h⟩

theorem trans {s s' s'' : LinkServer} (h : Framed s s') (h' : Framed s' s'') : Framed s s'' where
  devices := h'.devices.trans h.devices
  approving _ _ _ _ ha := h.approving _ _ _ _ (h'.approving _ _ _ _ ha)
  registered _ _ _ _ _ hr := h.registered _ _ _ _ _ (h'.registered _ _ _ _ _ hr)

theorem links {s : LinkServer} (byID : Table DeviceLink fun l => l.id)
    (byCode : Table (String × String) Prod.fst) :
    Framed s { s with byID := byID, byCode := byCode } :=
  ⟨rfl, fun _ _ _ _ h => h, fun _ _ _ _ _ h => h⟩

theorem setHandler {client : String} {h : Handler}
    (hh : ∀ claim r approval, h ≠ .approving claim r approval) :
    Framed s (s.setHandler client h) where
  devices := rfl
  approving :=
    (forall_update_iff s.handlers fun x h => ∀ claim r approval,
      h = .approving claim r approval → s.handlers x = .approving claim r approval).mpr
        ⟨fun claim r approval ha => absurd ha (hh claim r approval), fun _ _ _ _ _ ha => ha⟩
  registered _ _ _ _ _ h := h

theorem record {e : LinkEvent} (he : e.registers = none) : Framed s (s.record e) where
  devices := rfl
  approving _ _ _ _ h := h
  registered o client r row before h := by
    rcases mem_cons.mp h with rfl | h
    · simp [registers] at he
    · exact h

end Framed

/-- The approver of a decision is active from its check on, and was active at every insertion. -/
structure ActiveInv (s : LinkServer) : Prop where
  approving : ∀ client claim r approval, s.handlers client = .approving claim r approval →
    claim.activeIn s.devices = true
  registered : ∀ o client r row before, .registered o client r row before ∈ s.log →
    o.activeIn before = true

omit [Linking] in
theorem ActiveInv.framed {s' : LinkServer} (h : ActiveInv s) (hfrm : Framed s s') :
    ActiveInv s' where
  approving client claim r approval ha := by
    rw [hfrm.devices]
    exact h.approving client claim r approval (hfrm.approving client claim r approval ha)
  registered _ _ _ _ _ hr := h.registered _ _ _ _ _ (hfrm.registered _ _ _ _ _ hr)

omit [Linking] in
theorem LinkOrigin.activeIn_eq_true {o : LinkOrigin} : o.activeIn ds = true ↔
    ∃ d ∈ ds.rows, (d.deviceID = o.creatorDeviceID ∧ d.principal = o.principal) ∧
      d.active = true := by
  simp only [LinkOrigin.activeIn, any_eq_true, Bool.and_eq_true, decide_eq_true_eq]

omit [Linking] in
theorem ActiveInv.more (h : ActiveInv s) (hds : ∀ d ∈ s.devices.rows, d ∈ ds.rows) :
    ActiveInv { s with devices := ds } where
  approving client claim r approval ha := by
    obtain ⟨d, hd, hact⟩ := LinkOrigin.activeIn_eq_true.mp (h.approving client claim r approval ha)
    exact LinkOrigin.activeIn_eq_true.mpr ⟨d, hds d hd, hact⟩
  registered := h.registered

/-- A step keeps the invariant, and active approvers if it is undisturbed. -/
def Keeps (undisturbed : Prop) (s s' : LinkServer) : Prop :=
  LinkInv s' ∧ (undisturbed → ActiveInv s → ActiveInv s')

variable {undisturbed : Prop} {s' s'' : LinkServer}

theorem Keeps.of_framed (h : LinkInv s') (hfrm : Framed s s') : Keeps undisturbed s s' :=
  ⟨h, fun _ hact => hact.framed hfrm⟩

theorem Keeps.trans (h : Keeps undisturbed s s') (h' : Keeps undisturbed s' s'') :
    Keeps undisturbed s s'' :=
  ⟨h'.1, fun hu hact => h'.2 hu (h.2 hu hact)⟩

theorem LinkInv.keeps (h : LinkInv s) : Keeps undisturbed s s := .of_framed h (.refl s)

/-! ### Parts of steps -/

namespace LinkInv

variable {s : LinkServer}

theorem drop (hinv : LinkInv s) (p : DeviceLink → Bool) : LinkInv (s.drop p) :=
  { hinv with
    coded e he := by
      obtain ⟨hm, hkp⟩ := mem_delete.mp he
      obtain ⟨l, hl, hid, hcd⟩ := hinv.coded e hm
      refine ⟨l, mem_delete.mpr ⟨hl, ?_⟩, hid, hcd⟩
      rw [any_eq_false] at hkp
      simpa [hcd] using hkp l hl
    links l hl := hinv.links l (mem_delete.mp hl).1 }

theorem keeps_drop (hinv : LinkInv s) (p : DeviceLink → Bool) : Keeps undisturbed s (s.drop p) :=
  .of_framed (hinv.drop p) (.links _ _)

variable {client : String} {o : LinkOrigin} {claim : DeviceLink} {now : Int} {r : DeviceRequest}

section

variable (hinv : LinkInv s)

include hinv

section

variable {h : Handler} (hold : ∀ claim r, s.handlers client ≠ .finishing claim r)
  (hok : HandlerOK s.log s.devices client h)

include hok

theorem setHandler (hlnk : ∀ l ∈ s.byID.rows, l.creatorClientID = client →
      l.state = .pending ∨ l.state = .claimed → l.id ∈ idsOf registers s.log →
        ∃ claim r, h = .finishing claim r ∧ claim.id = l.id) : LinkInv (s.setHandler client h) :=
  { hinv with
    links l hl := by
      have hold := hinv.links l hl
      rw [LinkServer.setHandler]
      by_cases hcl : l.creatorClientID = client
      · simp only [hcl, update_self]
        exact { hold with unregistered := hlnk l hl hcl }
      · simp only [update_of_ne hcl]
        exact hold
    handlers := (forall_update_iff _ (HandlerOK s.log s.devices)).mpr
      ⟨hok, fun x _ => hinv.handlers x⟩ }

include hold

/-- A handler that is not about to finish leaves no link behind. -/
theorem setHandler_of : LinkInv (s.setHandler client h) := by
  refine hinv.setHandler hok fun l hl hcl hst hm => ?_
  obtain ⟨claim, r, hf, -⟩ := (hinv.links l hl).unregistered hst hm
  rw [hcl] at hf
  exact absurd hf (hold claim r)

theorem keeps_setHandler (hn : ∀ claim r approval, h ≠ .approving claim r approval) :
    Keeps undisturbed s (s.setHandler client h) :=
  .of_framed (hinv.setHandler_of hold hok) (.setHandler s hn)

end

theorem putLink {l' : DeviceLink} (hl : l ∈ s.byID.rows) (ho : l'.toLinkOrigin = l.toLinkOrigin)
    (hok : LinkOK s.log (s.handlers l'.creatorClientID) l') : LinkInv (s.putLink l') :=
  { hinv with
    coded e he := by
      obtain ⟨x, hx, hid, hcd⟩ := hinv.coded e he
      by_cases hk : x.id = l'.id
      · have hxl : x = l := s.byID.eq_of_key hx hl (hk.trans (congrArg LinkOrigin.id ho))
        subst hxl
        exact ⟨l', mem_put.mpr (.inl rfl), (congrArg LinkOrigin.id ho).trans hid,
          (congrArg LinkOrigin.code ho).trans hcd⟩
      · exact ⟨x, mem_put.mpr (.inr ⟨hx, hk⟩), hid, hcd⟩
    links := forall_put hok hinv.links }

/-- An event, with what it does to the links. -/
theorem record {e : LinkEvent} (hhis : LinkHistory (e :: s.log))
    (hcrs : ∀ o, e = .created o → o.id ∉ idsOf creates s.log ∧ o.HeldIn s.devices)
    (hor : .created e.origin ∈ e :: s.log) {byID : Table DeviceLink fun l => l.id}
    {byCode : Table (String × String) Prod.fst}
    (hcdd : ∀ x ∈ byCode.rows, ∃ l ∈ byID.rows, l.id = x.2 ∧ l.code = x.1)
    (hlnk : ∀ l ∈ byID.rows, LinkOK (e :: s.log) (s.handlers l.creatorClientID) l)
    (hhds : ∀ client, HandlerOK (e :: s.log) s.devices client (s.handlers client)) :
    LinkInv (({ s with byID := byID, byCode := byCode } : LinkServer).record e) where
  history := hhis
  fresh := by
    refine nodup_idsOf_cons hinv.fresh fun id hid => ?_
    cases e with
    | created o => exact Option.some.inj hid ▸ (hcrs o rfl).1
    | _ => cases hid
  origins := forall_mem_cons.mpr ⟨hor, fun x hx => mem_cons_of_mem _ (hinv.origins x hx)⟩
  held o ho := by
    rcases mem_cons.mp ho with rfl | ho
    · exact (hcrs o rfl).2
    · exact hinv.held o ho
  coded := hcdd
  links := hlnk
  handlers := hhds

/-- Decisions on one link are made by one connection. -/
theorem creator_eq (ho : .created o ∈ s.log)
    (hclm : (s.handlers client).deciding = some claim) (hid : o.id = claim.id) :
    o.creatorClientID = client := by
  have hdec := (hinv.handlers client).deciding hclm
  rw [eq_of_created hinv.fresh ho hdec.created hid]
  exact hdec.creator

/-- The creator denies or cancels a link, between its other requests. -/
theorem refuse (ho : .created o ∈ s.log) (hidl : s.handlers o.creatorClientID = .idle)
    (hden : ∀ l ∈ s.byID.rows, l.id = o.id → l.state = .denied) {e : LinkEvent}
    (he : e = .denied o ∨ e = .cancelled o) : LinkInv (s.record e) := by
  have hcls : e.claims = none := by rcases he with rfl | rfl <;> rfl
  have hreg : e.registers = none := by rcases he with rfl | rfl <;> rfl
  have href : e.refuses = some o.id := by rcases he with rfl | rfl <;> rfl
  have hor : e.origin = o := by rcases he with rfl | rfl <;> rfl
  refine hinv.record (hinv.history.cons ?_ ?_) ?_ (hor ▸ mem_cons_of_mem _ ho) hinv.coded
    (fun l hl => ?_) fun client => ?_
  · rcases he with rfl | rfl <;> simp
  · rcases he with rfl | rfl <;> simp
  · rcases he with rfl | rfl <;> simp
  · refine (hinv.links l hl).cons (by simp [hcls]) (fun hst hid => ?_) (by simp [hreg])
    rw [href, Option.some.injEq] at hid
    rcases hst with hst | hst <;>
      exact absurd (hden l hl hid.symm) (by simp [hst])
  · refine (hinv.handlers client).cons fun claim hclm => ⟨fun hid => ?_, by simp [hreg]⟩
    rw [href, Option.some.injEq] at hid
    rw [← hinv.creator_eq ho hclm hid, hidl] at hclm
    simp [Handler.deciding] at hclm

theorem devices {ds : Devices}
    (hgrn : Grown s.devices added ds) : LinkInv { s with devices := ds } :=
  { hinv with
    held := fun o ho => hgrn.held (hinv.held o ho)
    handlers := fun client => (hinv.handlers client).grown hgrn }

/-! ### Steps -/

variable {link : DeviceLink}

theorem claimLink (hl : link ∈ s.byID.rows)
    (hops : link.Opens r) (hk : storedKey r.ed25519PublicKey = r.ed25519PublicKey) :
    Keeps undisturbed s (s.claimLink now r link).1 := by
  have hok := hinv.links link hl
  rw [LinkServer.claimLink]
  split
  · exact hinv.keeps
  rename_i hcn
  have hpe : link.state = .pending := by
    by_contra hne
    exact hcn (.inl hne)
  have hhis : LinkHistory (.claimed link.toLinkOrigin link.state r :: s.log) := by
    refine hinv.history.cons (fun o state q heq => ?_) (by simp)
    cases heq
    exact ⟨hok.pending hpe, hpe, hops⟩
  refine .of_framed (hinv.record hhis (by simp) (mem_cons_of_mem _ hok.created) (fun e he => ?_)
    (fun l hm => ?_) fun client => ?_) ((Framed.links _ _).trans (.record _ rfl))
  · -- The entries that are left belong to other links.
    obtain ⟨hm, hcd⟩ := mem_delete.mp he
    obtain ⟨x, hx, hid, hxc⟩ := hinv.coded e hm
    refine ⟨x, mem_put.mpr (.inr ⟨hx, fun hxid => ?_⟩), hid, hxc⟩
    rw [s.byID.eq_of_key hx hl hxid] at hxc
    exact of_decide_eq_false hcd hxc.symm
  · rcases mem_put.mp hm with rfl | ⟨hlm, hne⟩
    · refine ⟨mem_cons_of_mem _ hok.created, by simp, fun _ => ?_, fun _ hrf => ?_,
        fun _ hrg => ?_⟩
      · exact ⟨link.state, r, mem_cons_self, rfl, rfl, hk⟩
      · rcases mem_idsOf_cons.mp hrf with h | h
        · simp [refuses] at h
        · exact hok.waiting (.inl hpe) h
      · rcases mem_idsOf_cons.mp hrg with h | h
        · simp [registers] at h
        · exact hok.unregistered (.inl hpe) h
    · refine (hinv.links l hlm).cons (fun _ h => ?_) (by simp [refuses]) (by simp [registers])
      rw [claims, Option.some.injEq] at h
      exact hne h.symm
  · exact (hinv.handlers client).cons (by simp [refuses, registers])

theorem wrongProof (hl : link ∈ s.byID.rows) : Keeps undisturbed s (s.wrongProof link).1 := by
  rw [LinkServer.wrongProof]
  split
  · exact hinv.keeps_drop _
  · have hok := hinv.links link hl
    exact .of_framed (hinv.putLink hl rfl
      ⟨hok.created, hok.pending, hok.claimed, hok.waiting, hok.unregistered⟩) (.links _ _)

theorem claimLocked {limited : Bool} (hk : storedKey r.ed25519PublicKey = r.ed25519PublicKey) :
    Keeps undisturbed s (s.claimLocked now limited r).1 := by
  have hswp : LinkInv (s.sweepLocked now) := hinv.drop _
  refine (hinv.keeps_drop (LinkServer.expired now)).trans ?_
  rw [LinkServer.claimLocked]
  split
  · rename_i hcd
    split
    · exact hswp.keeps
    split
    · exact hswp.keeps
    rename_i link hlk
    -- The code that was given is the code of the link that is found.
    obtain ⟨e, he, hg⟩ := Option.bind_eq_some_iff.mp hlk
    obtain ⟨hem, hek⟩ := get_eq_some.mp he
    obtain ⟨hl, hid⟩ := get_eq_some.mp hg
    obtain ⟨x, hx, hxid, hxc⟩ := hswp.coded e hem
    rw [(s.sweepLocked now).byID.eq_of_key hx hl (hxid.trans hid.symm)] at hxc
    exact hswp.claimLink hl (.inr ⟨hcd, (hxc.trans hek).symm⟩) hk
  · rename_i hcd
    split
    · exact hswp.keeps
    rename_i link hg
    obtain ⟨hl, -⟩ := get_eq_some.mp hg
    split
    · rename_i hprf
      exact hswp.claimLink hl (.inl ⟨not_not.mp hcd, hprf⟩) hk
    · exact hswp.wrongProof hl

theorem decision (hidl : s.handlers client = .idle) :
    Keeps undisturbed s (s.decision client now r).1 := by
  have hswp : LinkInv (s.sweepLocked now) := hinv.drop _
  refine (hinv.keeps_drop (LinkServer.expired now)).trans ?_
  rw [LinkServer.decision]
  split
  · exact hswp.keeps
  rename_i link hg
  obtain ⟨hl, -⟩ := get_eq_some.mp hg
  have hok := hswp.links link hl
  split
  · exact hswp.keeps
  rename_i hcn
  have hcrr : link.creatorClientID = client := by
    by_contra hne
    exact hcn (.inl hne)
  have hcld : link.state = .claimed := by
    by_contra hne
    exact hcn (.inr hne)
  split
  · have hput : LinkInv ((s.sweepLocked now).putLink { link with state := .denied }) :=
      hswp.putLink hl rfl ⟨hok.created, by simp, by simp, by simp, by simp⟩
    refine .of_framed (hput.refuse hok.created (by rw [hcrr]; exact hidl) (fun x hx hid => ?_)
      (.inl rfl)) ((Framed.links _ _).trans (.record _ rfl))
    rcases mem_put.mp hx with rfl | ⟨-, hne⟩
    · rfl
    · exact absurd hid hne
  · rename_i happ
    split
    · exact hswp.keeps
    rename_i hsgd
    split
    · exact hswp.keeps
    have hold : ∀ claim q, (s.sweepLocked now).handlers client ≠ .finishing claim q := by
      intro claim q hf
      exact absurd (hidl.symm.trans hf) (by simp)
    refine hswp.keeps_setHandler hold ?_ (by simp)
    refine ⟨⟨hok.created, hcrr, hok.waiting (.inr hcld)⟩, hok.claimed hcld,
      by simpa using happ, by simpa using hsgd, fun hm => ?_⟩
    obtain ⟨claim, q, hf, -⟩ := hok.unregistered (.inr hcld) hm
    rw [hcrr] at hf
    exact absurd (hidl.symm.trans hf) (by simp)

/-- A new link. Its identifier has not been drawn before. -/
theorem insert (hfr : o.id ∉ idsOf creates s.log) (hhl : o.HeldIn s.devices)
    (hold : ∀ claim r, s.handlers client ≠ .finishing claim r) :
    Keeps undisturbed s (s.insert client now o).1 := by
  rw [LinkServer.insert]
  have hdrp : LinkInv ((s.sweepLocked now).drop fun l =>
      decide (l.creatorDeviceID = o.creatorDeviceID ∧ l.state = .pending)) := (hinv.drop _).drop _
  generalize hs : ((s.sweepLocked now).drop fun l =>
      decide (l.creatorDeviceID = o.creatorDeviceID ∧ l.state = .pending)) = s' at hdrp ⊢
  have hlog : s'.log = s.log := by rw [← hs]; rfl
  have hdv : s'.devices = s.devices := by rw [← hs]; rfl
  have hhds : s'.handlers = s.handlers := by rw [← hs]; rfl
  have hfrm : Framed s s' := by rw [← hs]; exact .links _ _
  rw [← hlog] at hfr
  rw [← hdv] at hhl
  rw [← hhds] at hold
  -- No event is about the identifier, since every event is about a link that was created.
  have hunk : ∀ kind : LinkEvent → Option String,
      (∀ e id, kind e = some id → e.origin.id = id) → kind (.created o) = none →
      o.id ∉ idsOf kind (.created o :: s'.log) := by
    intro kind hkd hno hm
    rcases mem_idsOf_cons.mp hm with hid | hm
    · rw [hno] at hid
      cases hid
    · obtain ⟨e, he, hid⟩ := mem_idsOf.mp hm
      refine hfr (mem_idsOf.mpr ⟨_, hdrp.origins e he, ?_⟩)
      rw [creates, hkd e _ hid]
  have hn : ∀ l ∈ s'.byID.rows, l.id ≠ o.id := by
    intro l hl hid
    refine hfr (mem_idsOf.mpr ⟨_, (hdrp.links l hl).created, ?_⟩)
    rw [creates, hid]
  split
  · refine .of_framed (LinkInv.setHandler_of (s := (LinkServer.record _ _)) ?_ hold trivial)
      (((hfrm.trans (.links _ _)).trans (.record _ rfl)).trans (.setHandler _ (by simp)))
    refine hdrp.record (hdrp.history.cons (e := .created o) (by simp) (by simp)) (fun x hx => ?_)
      mem_cons_self (fun e he => ?_) (fun l hl => ?_) fun x => ?_
    · cases hx
      exact ⟨hfr, hhl⟩
    · rcases mem_put.mp he with rfl | ⟨hm, -⟩
      · exact ⟨_, mem_put.mpr (.inl rfl), rfl, rfl⟩
      · obtain ⟨l, hl, hid, hcd⟩ := hdrp.coded e hm
        exact ⟨l, mem_put.mpr (.inr ⟨hl, hn l hl⟩), hid, hcd⟩
    · rcases mem_put.mp hl with rfl | ⟨hlm, -⟩
      · refine ⟨mem_cons_self, fun _ => hunk _ ?_ rfl, by simp, fun _ => hunk _ ?_ rfl,
          fun _ hm => absurd hm (hunk _ ?_ rfl)⟩
        all_goals
          rintro (_ | _ | _ | _ | _) id h <;> cases h <;> rfl
      · exact (hdrp.links l hlm).cons (by simp [claims]) (by simp [refuses]) (by simp [registers])
    · exact (hdrp.handlers x).cons (by simp [refuses, registers])
  · exact hinv.keeps

/-- The row of an approval is inserted. -/
theorem approve {approval : Bytes}
    (hhd : s.handlers client = .approving claim r approval) {drawn : Drawn} {limit : Int}
    {ds : Devices} {d : Device}
    (h : addDevice drawn s.devices (LinkServer.newDevice claim approval) limit = .ok (ds, d)) :
    LinkInv ((({ s with devices := ds } : LinkServer).setHandler client (.finishing claim r)).record
      (.registered claim.toLinkOrigin client r d s.devices)) := by
  have ha : Approving s.log client claim r := by
    have hok := hinv.handlers client
    rwa [hhd] at hok
  obtain ⟨hk, -⟩ := newRow_spelled h
  obtain ⟨hrow, -⟩ := addDevice_ok h
  obtain ⟨-, -, -, -, -, hspl⟩ := ha.claimed
  have hold : ∀ claim' q, s.handlers client ≠ .finishing claim' q := by simp [hhd]
  -- The handler is about to finish before the registration is recorded.
  have hf : LinkInv (({ s with devices := ds } : LinkServer).setHandler client
      (.finishing claim r)) :=
    (hinv.devices (addDevice_grown h)).setHandler_of hold ha.toDeciding
  have hhis : LinkHistory (.registered claim.toLinkOrigin client r d s.devices :: s.log) := by
    refine hinv.history.cons (by simp) fun o c q row before heq => ?_
    obtain ⟨rfl, rfl, rfl, rfl, rfl⟩ := registered.inj heq
    exact ⟨claim, rfl, ha, hinv.held _ ha.created, hk.trans hspl, by rw [hrow]; rfl⟩
  refine hf.record hhis (by simp) (mem_cons_of_mem _ ha.created) hf.coded
    (fun l hl => ?_) fun x => ?_
  · refine (hf.links l hl).cons (by simp [claims]) (by simp [refuses]) ?_
    intro _ hid
    rw [registers, Option.some.injEq] at hid
    refine ⟨claim, r, ?_, hid⟩
    have hcrr : l.creatorClientID = client := by
      have hor := eq_of_created hinv.fresh (hinv.links l hl).created ha.created hid.symm
      rw [hor]
      exact ha.creator
    simp [LinkServer.setHandler, hcrr]
  · refine (hf.handlers x).cons fun c hc => ⟨by simp [refuses], ?_⟩
    intro hoth hid
    rw [registers, Option.some.injEq] at hid
    have hx : x = client := (hf.creator_eq ha.created hc hid).symm.trans ha.creator
    subst hx
    simp only [LinkServer.setHandler, update_self, Handler.deciding, Option.some.injEq] at hc
    refine hoth r ?_
    simp [LinkServer.setHandler, hc]

theorem finish (hhd : s.handlers client = .finishing claim r) :
    Keeps undisturbed s ((s.finish now claim r).setHandler client .idle) := by
  -- A link of the connection that has a row is the one that is finished.
  have hon : ∀ l ∈ s.byID.rows, l.creatorClientID = client →
      l.state = .pending ∨ l.state = .claimed → l.id ∈ idsOf registers s.log → l.id = claim.id := by
    intro l hl hcl hst hm
    obtain ⟨claim', q, hf, hid⟩ := (hinv.links l hl).unregistered hst hm
    rw [hcl, hhd] at hf
    rw [(Handler.finishing.inj hf).1, hid]
  rw [LinkServer.finish]
  split
  · rename_i hno
    refine .of_framed (hinv.setHandler trivial fun l hl hcl hst hm => ?_)
      (.setHandler s (by simp))
    exact absurd (hon l hl hcl hst hm) (get_eq_none.mp hno l hl)
  · rename_i current hg
    obtain ⟨hcur, hid⟩ := get_eq_some.mp hg
    have hok := hinv.links current hcur
    have hput : LinkInv (s.putLink { current with
        state := .approved
        expires := now + deviceLinkTTL
        binding := r.serverBinding
        bindingSig := r.bindingSignature }) :=
      hinv.putLink hcur rfl ⟨hok.created, by simp, by simp, by simp, by simp⟩
    refine .of_framed (hput.setHandler trivial fun l hl hcl hst hm => ?_)
      ((Framed.links _ _).trans (.setHandler _ (by simp)))
    rcases mem_put.mp hl with rfl | ⟨hlm, hne⟩
    · rcases hst with hst | hst <;> exact absurd hst (by simp)
    · exact absurd ((hon l hlm hcl hst hm).trans hid.symm) hne

end

end LinkInv

/-! ### Runs -/

/-- The identifier of a new link has not been drawn before. -/
def FreshStep (s : LinkServer) : LinkInput → Prop
  | .insert _ _ id _ _ => id ∉ idsOf creates s.log
  | _ => True

/-- A call does not end the approver of a decision between its check and the insertion. -/
def UndisturbedStep (s : LinkServer) : LinkInput → Prop
  | .store drawn call => ∀ client claim r approval,
      s.handlers client = .approving claim r approval →
        claim.activeIn (call.perform drawn s.devices) = true
  | _ => True

variable {cfg : WebConfig}

theorem storedKey_of_canonicalPublicKey {text : String} (h : canonicalPublicKey text = some text) :
    storedKey text = text := by
  obtain ⟨key, hk, rfl⟩ := Option.map_eq_some_iff.mp h
  rw [storedKey, canonicalDeviceKey_publicKeyText (length_key_of_loadPublicKey hk),
    Option.getD_some]

theorem ensureDesktopDevice_grown {c : Client} {d : Device}
    (h : ensureDesktopDevice drawn ds limit c = .ok (ds', d)) :
    (∃ added, Grown ds added ds') ∧ (∀ x ∈ ds.rows, x ∈ ds'.rows) ∧ d ∈ ds'.rows ∧
      d.principal = c.principal := by
  by_cases hid : c.deviceID = ""
  · have hadd := ensureDesktopDevice_ok hid h
    obtain ⟨-, hpn, -⟩ := newRow_spelled hadd
    obtain ⟨-, hins, -⟩ := addDevice_ok hadd
    exact ⟨⟨_, addDevice_grown hadd⟩, fun x hx => (mem_insert hins).mpr (.inl hx),
      (mem_insert hins).mpr (.inr rfl), hpn⟩
  · rw [ensureDesktopDevice, if_pos hid] at h
    simp only [bind_eq_ok, found_eq_ok, pure_eq_ok] at h
    obtain ⟨x, hx, hpr⟩ := h
    cases hpr
    obtain ⟨hg, hpn⟩ := Option.filter_eq_some_iff.mp hx
    exact ⟨⟨none, (Continued.refl ds).grown none⟩, fun _ hx => hx, (get_eq_some.mp hg).1,
      of_decide_eq_true hpn⟩

theorem LinkInv.step (hinv : LinkInv s) {i : LinkInput} (hfr : FreshStep s i) :
    Keeps (UndisturbedStep s i) s (linkStep cfg s i).1 := by
  cases i with
  | create =>
    rw [linkStep]
    split
    · exact hinv.keeps
    rename_i hidl
    have hidl := not_not.mp hidl
    split
    · exact hinv.keeps
    split
    · exact hinv.keeps
    · exact hinv.keeps
    rename_i ds d hens
    obtain ⟨⟨added, hgrn⟩, hmo, hd, hpn⟩ := ensureDesktopDevice_grown hens
    exact ⟨(hinv.devices hgrn).setHandler_of (by simp [hidl]) ⟨d, hd, rfl, hpn, rfl⟩,
      fun _ h => (h.more hmo).framed (.setHandler _ (by simp))⟩
  | list client =>
    rw [linkStep]
    split
    · rename_i principal d hhd
      have hok := hinv.handlers client
      rw [hhd] at hok
      split
      · exact hinv.keeps_setHandler (by simp [hhd]) trivial (by simp)
      · exact hinv.keeps_setHandler (by simp [hhd]) hok (by simp)
    · exact hinv.keeps
  | insert client =>
    rw [linkStep]
    split
    · rename_i principal d hhd
      have hok := hinv.handlers client
      rw [hhd] at hok
      exact hinv.insert hfr hok (by simp [hhd])
    · exact hinv.keeps
  | claim =>
    rw [linkStep]
    split
    · exact hinv.keeps
    rename_i hidl
    have hidl := not_not.mp hidl
    split
    · exact hinv.keeps
    rename_i hcan
    split
    · exact hinv.keeps
    split
    · exact hinv.keeps
    · exact hinv.keeps_setHandler (by simp [hidl])
        (storedKey_of_canonicalPublicKey (not_not.mp hcan)) (by simp)
  | claimLocked client now limited =>
    rw [linkStep]
    split
    · rename_i r hhd
      have hok := hinv.handlers client
      rw [hhd] at hok
      have hidl : Keeps (UndisturbedStep s (.claimLocked client now limited)) s
          (s.setHandler client .idle) :=
        hinv.keeps_setHandler (by simp [hhd]) trivial (by simp)
      exact hidl.trans (hidl.1.claimLocked hok)
    · exact hinv.keeps
  | status now r =>
    have hswp : Keeps (UndisturbedStep s (.status now r)) s (s.sweepLocked now) :=
      hinv.keeps_drop _
    rw [linkStep]
    split
    · exact hswp
    split
    · exact hswp
    · split
      · exact hswp
      · exact hswp
  | decision =>
    rw [linkStep]
    split
    · exact hinv.keeps
    · exact hinv.decision (not_not.mp ‹_›)
  | check client =>
    rw [linkStep]
    split
    · rename_i claim r hhd
      have hok := hinv.handlers client
      rw [hhd] at hok
      split
      · exact hinv.keeps_setHandler (by simp [hhd]) trivial (by simp)
      rename_i creator hg
      split
      · exact hinv.keeps_setHandler (by simp [hhd]) trivial (by simp)
      rename_i hact
      refine ⟨hinv.setHandler_of (by simp [hhd]) hok, fun _ h =>
        ⟨(forall_update_iff s.handlers fun _ h => ∀ claim r approval,
          h = .approving claim r approval → claim.activeIn s.devices = true).mpr
            ⟨fun c q approval hx => ?_, fun x _ => h.approving x⟩, h.registered⟩⟩
      obtain ⟨rfl, -, -⟩ := Handler.approving.inj hx
      obtain ⟨hrow, hpn⟩ := Option.filter_eq_some_iff.mp hg
      obtain ⟨hm, hid⟩ := get_eq_some.mp hrow
      exact LinkOrigin.activeIn_eq_true.mpr
        ⟨creator, hm, ⟨hid, of_decide_eq_true hpn⟩, by simpa using hact⟩
    · exact hinv.keeps
  | approve client =>
    rw [linkStep]
    split
    · rename_i claim r approval hhd
      split
      · exact hinv.keeps_setHandler (by simp [hhd]) trivial (by simp)
      rename_i ds d hadd
      refine ⟨hinv.approve hhd hadd, fun _ h => ?_⟩
      obtain ⟨-, hins, -⟩ := addDevice_ok hadd
      have hmo : ActiveInv
          (({ s with devices := ds } : LinkServer).setHandler client (.finishing claim r)) :=
        (h.more fun x hx => (mem_insert hins).mpr (.inl hx)).framed (.setHandler _ (by simp))
      refine ⟨hmo.approving, fun o c q row before hm => ?_⟩
      rcases mem_cons.mp hm with heq | hm
      · obtain ⟨rfl, -, -, -, rfl⟩ := registered.inj heq
        exact h.approving client claim r approval hhd
      · exact hmo.registered o c q row before hm
    · exact hinv.keeps
  | finish =>
    rw [linkStep]
    split
    · exact hinv.finish ‹_›
    · exact hinv.keeps
  | cancel =>
    rw [linkStep]
    split
    · exact hinv.keeps
    rename_i hidl
    split
    · exact hinv.keeps
    rename_i link hg
    obtain ⟨hl, -⟩ := get_eq_some.mp hg
    split
    · rename_i hcrr
      refine .of_framed ((hinv.drop _).refuse (hinv.links link hl).created ?_ (fun x hx hid => ?_)
        (.inr rfl)) ((Framed.links _ _).trans (.record _ rfl))
      · rw [hcrr]
        exact not_not.mp hidl
      · exact absurd hid (of_decide_eq_false (mem_delete.mp hx).2)
    · exact hinv.keeps
  | store drawn call =>
    exact ⟨hinv.devices (perform_grown drawn s.devices call), fun hu h => ⟨hu, h.registered⟩⟩

theorem LinkInv.init (ds : Devices) : LinkInv { devices := ds } where
  history := ⟨nodup_nil, by simp, nodup_nil, by simp, by simp, List.Pairwise.nil⟩
  fresh := nodup_nil
  origins := by simp
  held := by simp
  coded := by simp [Table.empty]
  links := by simp [Table.empty]
  handlers _ := trivial

variable {inputs : List LinkInput}

theorem run_linkInv (ds : Devices) (hfr : Along (linkStep cfg) FreshStep { devices := ds } inputs) :
    LinkInv (run (linkStep cfg) { devices := ds } inputs) :=
  run_invariant_along (fun _ _ hi hinv => (hinv.step hi).1) (.init ds) hfr

theorem run_activeInv (ds : Devices) (hfr : Along (linkStep cfg) FreshStep { devices := ds } inputs)
    (h : Along (linkStep cfg) UndisturbedStep { devices := ds } inputs) :
    ActiveInv (run (linkStep cfg) { devices := ds } inputs) := by
  refine (run_invariant_along (P := fun s => LinkInv s ∧ ActiveInv s) (fun s i hi hs => ?_)
    ⟨.init ds, by simp, by simp⟩ (along_and.mpr ⟨hfr, h⟩)).2
  obtain ⟨hinv, hact⟩ := hs.1.step hi.1
  exact ⟨hinv, hact hi.2 hs.2⟩

/-- **Linking registers what was approved.** In every run in which link identifiers are not drawn
twice, each link is claimed at most once, with its secret or its code and while it is pending; at
most one device is registered for it, with the claimed keys, by the session that created the link
and with a signature of the creating device over these keys; and none is registered after the
creator refused. If no call ends a creating device between its check and the insertion, then the
creating device is active in the table into which the row is inserted. -/
theorem device_links_register_approved (ds : Devices) {inputs : List LinkInput}
    (hfr : Along (linkStep cfg) FreshStep { devices := ds } inputs) :
    let s := run (linkStep cfg) { devices := ds } inputs
    LinkHistory s.log ∧ (Along (linkStep cfg) UndisturbedStep { devices := ds } inputs →
      ∀ o client r row before, .registered o client r row before ∈ s.log →
        o.activeIn before = true) :=
  ⟨(run_linkInv ds hfr).history, fun h => (run_activeInv ds hfr h).registered⟩

end History

/-! ### An approver that is gone -/

namespace Sample

open Store.Sample

/-- Every message has its key as its code. -/
@[reducible]
def linking : Linking where
  toDeviceKeys := deviceKeys
  hmac key _ := key
  toUpper s := s

def cfg : WebConfig := ⟨true, 10⟩

/-- The first device of the account, and the session that uses it. -/
def first : Device where
  deviceID := "a"
  principal := "p"
  kind := .desktop
  ed25519Public := publicKeyText (sampleKey 1)
  x25519Public := String.ofList (Base64.encode (sampleKey 1))
  firstDevice := true

def linkServer : LinkServer := { devices := ⟨[first], nodup_singleton _⟩ }

def creator : Client := { client "x" with deviceID := "a", authed := true, phase := .ready }

def claimRequest : DeviceRequest where
  code := "CODE"
  ed25519PublicKey := publicKeyText (sampleKey 2)
  x25519PublicKey := String.ofList (Base64.encode (sampleKey 2))

def approval : DeviceRequest where
  linkID := "link"
  approve := true
  signature := sampleKey 1 ++ sampleKey 1

/-- A link is created, claimed and approved, up to the check of the approver. -/
def approved : List LinkInput :=
  [.create creator (drawn ""), .list "x", .insert "x" 0 "link" [7] "CODE", .claim "y" claimRequest,
    .claimLocked "y" 1 false, .decision "x" 2 approval, .check "x"]

theorem fresh_link : "link" ∉ idsOf creates (run (@linkStep linking cfg) linkServer
    [.create creator (drawn ""), .list "x"]).log := by
  decide +kernel

theorem fresh_approved : Along (@linkStep linking cfg) FreshStep linkServer approved :=
  ⟨trivial, trivial, fresh_link, trivial, trivial, trivial, trivial, trivial⟩

/-- Whether the approver of a row was active when it was inserted. -/
def approverActive : LinkEvent → Option Bool
  | .registered o _ _ _ before => some (o.activeIn before)
  | _ => none

end Sample

open Sample

/-- The creating device is revoked after its check, and the row it approved is inserted. -/
theorem approver_revoked_before_insert :
    let inputs := approved ++ [.store (drawn "") (.revoke "p" "a"), .approve "x" (drawn "b")]
    let s := run (@linkStep linking cfg) linkServer inputs
    Along (@linkStep linking cfg) FreshStep linkServer inputs ∧
      s.log.filterMap approverActive = [false] ∧
      (s.devices.rows.map fun d => (d.deviceID, d.approvedBy, d.active)) =
        [("a", "", false), ("b", "a", true)] := by
  refine ⟨along_append.mpr ⟨fresh_approved, trivial, trivial, trivial⟩, ?_⟩
  decide +kernel

theorem device_links_register_approved_first :
    let s := run (@linkStep linking cfg) linkServer
      (approved ++ [.approve "x" (drawn "b"), .finish "x" 3])
    idsOf registers s.log = ["link"] ∧ @LinkHistory linking s.log ∧
      ∀ o client r row before, .registered o client r row before ∈ s.log →
        o.activeIn before = true := by
  have hfr : Along (@linkStep linking cfg) FreshStep linkServer
      (approved ++ [.approve "x" (drawn "b"), .finish "x" 3]) :=
    along_append.mpr ⟨fresh_approved, trivial, trivial, trivial⟩
  obtain ⟨hhis, hact⟩ := @device_links_register_approved linking cfg linkServer.devices _ hfr
  exact ⟨by decide +kernel, hhis, hact
    ⟨trivial, trivial, trivial, trivial, trivial, trivial, trivial, trivial, trivial, trivial⟩⟩

end Noxa.Server

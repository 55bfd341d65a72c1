import Noxa.Store.Devices

/-!
# The sessions of a device

A sign-in is published first and looks for the device of its key afterwards; a session whose key is
not registered stays without a device until it manages devices, and then registers its own key. When
a device is ended, `afterDevicesRevoked` collects the sessions of the account and revokes those that
have the device. These are separate steps on the sessions, with a call of the database between any
two, and the steps of different sessions mix freely.

A session is found by the device it is attached to, not by its key. The design works for a sign-in
that runs against the ending of its device, since a session attaches itself before it reads the
device for the last time. It does not work for a session that looked for its device before the key
was registered: such a session never looks again (`unattached_session_survives`). Nor does it work
while a session that has registered its key is not yet attached. `SteadyStep` excludes the two.

## Main definitions

* `ensureDesktopDevice` — the device of a session, registered if there is none
* `SessionServer`, `sessionStep` — the machine
* `SteadyStep` — no key is registered past a session that already looked for it, and no device is
  ended whose session is about to attach

## Main results

* `run_sessionInv` — what holds of every session in a steady run
* `ended_device_has_no_session` — after an ending, the sessions of its key are revoked
-/

namespace Noxa.Server

open Store Identity Machine Fallible Text List Table

/-! ### Sessions -/

/-- Where a session is in `finishAuth`, `attachSessionDevice` and `ensureDesktopDevice`. -/
inductive ClientPhase
  | admitted
  | attaching
  | found (d : Device)
  | attached
  | refused
  | ready
  | registering (d : Device)
  deriving DecidableEq, Repr

/-- The session is inside `attachSessionDevice`. -/
def ClientPhase.signingIn : ClientPhase → Bool
  | .attaching | .found _ | .attached | .refused => true
  | _ => false

/-- A device that the session has read or registered and is not attached to yet. -/
def ClientPhase.device : ClientPhase → Option Device
  | .found d | .registering d => some d
  | _ => none

/-- A device that the session has registered and is not attached to yet. -/
def ClientPhase.registration : ClientPhase → Option Device
  | .registering d => some d
  | _ => none

structure Client where
  clientID : String
  principal : String
  userID : Int
  sessionKey : String
  x25519 : String
  webTransport : Bool
  deviceID : String := ""
  authed : Bool := false
  revoked : Bool := false
  phase : ClientPhase := .admitted
  deriving DecidableEq, Repr

def Client.isAuthed (c : Client) : Bool := c.authed && !c.revoked

section Keys

variable [DeviceKeys]

def uniqueIDFromPublicKey (publicKeyPEM : String) : Option String :=
  (loadPublicKey (bytes publicKeyPEM)).map fun key =>
    String.ofList (Base64.encode (bytes (String.ofList (Base64.encode (DeviceKeys.sha256 key)))))

/-- What a session registers its key as. -/
def Client.newDevice (c : Client) : NewDevice where
  principal := c.principal
  kind := if c.webTransport then .web else .desktop
  ed25519Public := c.sessionKey
  x25519Public := c.x25519

/-- The device of a session. A session without one registers its key, a web session only if the key
is the root of the account. Attaching the session to the new device is a step of its own. -/
def ensureDesktopDevice (drawn : Drawn) (ds : Devices) (limit : Int) (c : Client) :
    Except DeviceErr (Devices × Device) :=
  if c.deviceID ≠ "" then do
    let d ← Fallible.found (deviceByID ds c.principal c.deviceID) .notFound
    pure (ds, d)
  else do
    ensure (c.sessionKey ≠ "") .notFound
    ensure (c.webTransport = true → uniqueIDFromPublicKey c.sessionKey = some c.principal ∧
      c.userID ≤ 0) .notFound
    addDevice drawn ds c.newDevice limit

/-- The key of the session is not that of an ended device of the account. -/
def sessionDeviceAllowed (ds : Devices) (c : Client) : Bool :=
  match deviceByKey ds c.sessionKey with
  | none => true
  | some d => d.active || decide (d.principal ≠ c.principal)

end Keys

/-! ### The machine -/

/-- The calls that end devices and are followed by `afterDevicesRevoked`. -/
inductive Termination
  | signOut (principal deviceID : String)
  | revoke (principal deviceID : String)
  | reset (principal keep : String)

def Termination.principal : Termination → String
  | .signOut principal _ | .revoke principal _ | .reset principal _ => principal

/-- The table after the call, and the devices it ended. -/
def Termination.perform (drawn : Drawn) (ds : Devices) : Termination → Devices × List Device
  | .signOut principal deviceID =>
    match signOutDevice drawn ds principal deviceID with
    | .ok (ds', d) => (ds', [d])
    | .error _ => (ds, [])
  | .revoke principal deviceID =>
    match revokeDevice drawn ds principal deviceID with
    | .ok (ds', d) => (ds', [d])
    | .error _ => (ds, [])
  | .reset principal keep => resetDevices drawn ds principal keep

/-- A call of `afterDevicesRevoked`: the sessions it has still to visit, once it has collected
them. -/
structure Ending where
  principal : String
  ids : List String
  remaining : Option (List String) := none
  deriving DecidableEq, Repr

structure SessionServer where
  devices : Devices
  clients : Table Client Client.clientID := Table.empty
  endings : List Ending := []

def sessionsOf (clients : Table Client Client.clientID) (principal : String) : List String :=
  (clients.rows.filter fun c => c.isAuthed && decide (c.principal = principal)).map (·.clientID)

inductive SessionInput
  /-- A sign-in passes its checks. -/
  | signIn (c : Client)
  | publish (client : String)
  /-- The steps of `attachSessionDevice`; a read of the database may fail. -/
  | lookup (client : String) (fails : Bool)
  | attach (client : String)
  | reread (client : String) (fails : Bool)
  | refuse (client : String)
  /-- The steps of `ensureDesktopDevice`. -/
  | manage (client : String) (drawn : Drawn) (limit : Int)
  | register (client : String)
  | disconnect (client : String)
  /-- The steps of an ending. -/
  | terminate (drawn : Drawn) (call : Termination)
  | collect (n : ℕ)
  | visit (n : ℕ)
  /-- Other calls of the database. -/
  | store (drawn : Drawn) (call : DeviceCall)

open ClientPhase

section Steps

variable [DeviceKeys]

/-- The lookup of `attachSessionDevice`. -/
def lookedUp (ds : Devices) (fails : Bool) (c : Client) : ClientPhase :=
  if c.sessionKey = "" then .ready
  else if fails then .refused
  else match deviceByKey ds c.sessionKey with
    | none => .ready
    | some d => if d.principal = c.principal then .found d else .ready

/-- The last activity check. -/
def rereadPhase (ds : Devices) (fails : Bool) (c : Client) : ClientPhase :=
  if fails then .refused
  else match deviceByKey ds c.sessionKey with
    | none => .refused
    | some d => if d.active then .ready else .refused

/-- A session as its sign-in begins. -/
def Client.admitted (c : Client) : Client :=
  { c with deviceID := "", authed := false, revoked := false, phase := .admitted }

/-- A step of a session on its own. -/
def clientStep (ds : Devices) (c : Client) : SessionInput → Client
  | .publish _ => if c.phase = .admitted then { c with authed := true, phase := .attaching } else c
  | .lookup _ fails => if c.phase = .attaching then { c with phase := lookedUp ds fails c } else c
  | .attach _ =>
    match c.phase with
    | .found d => { c with deviceID := d.deviceID, phase := if d.active then
      .attached else .refused }
    | _ => c
  | .reread _ fails => if c.phase = .attached then { c with phase := rereadPhase ds fails c } else c
  | .refuse _ => if c.phase = .refused then { c with revoked := true, phase := .ready } else c
  | .register _ =>
    match c.phase with
    | .registering d => { c with deviceID := d.deviceID, phase := .ready }
    | _ => c
  | _ => c

/-- The visit of one session. -/
def visited (ids : List String) (c : Client) : Client :=
  if c.deviceID ∈ ids then { c with revoked := true } else c

def SessionServer.onClient (s : SessionServer) (client : String)
    (f : Client → SessionServer) : SessionServer :=
  match s.clients.get client with
  | none => s
  | some c => f c

def SessionServer.own (s : SessionServer) (client : String) (i : SessionInput) : SessionServer :=
  s.onClient client fun c => { s with clients := s.clients.put (clientStep s.devices c i) }

def sessionNext (s : SessionServer) : SessionInput → SessionServer
  | .signIn c =>
    if s.clients.get c.clientID = none ∧ sessionDeviceAllowed s.devices c = true then
      { s with clients := s.clients.put c.admitted }
    else s
  | .manage client drawn limit =>
    s.onClient client fun c =>
      if c.phase = .ready ∧ c.isAuthed = true then
        match ensureDesktopDevice drawn s.devices limit c with
        | .error _ => s
        | .ok (ds, d) =>
          if c.deviceID ≠ "" then s
          else { s with devices := ds, clients := s.clients.put { c with phase := .registering d } }
      else s
  | .disconnect client =>
    { s with clients := s.clients.delete fun c => decide (c.clientID = client) }
  | .terminate drawn call =>
    let (ds, ended) := call.perform drawn s.devices
    { s with
      devices := ds
      endings := if ended = [] then s.endings
        else s.endings ++ [⟨call.principal, ended.map (·.deviceID), none⟩] }
  | .collect n =>
    match s.endings[n]? with
    | some ⟨principal, ids, none⟩ =>
      { s with endings := s.endings.set n ⟨principal, ids, some (sessionsOf s.clients principal)⟩ }
    | _ => s
  | .visit n =>
    match s.endings[n]? with
    | some ⟨principal, ids, some (client :: rest)⟩ =>
      { s with
        clients := match s.clients.get client with
          | none => s.clients
          | some c => s.clients.put (visited ids c)
        endings := s.endings.set n ⟨principal, ids, some rest⟩ }
    | _ => s
  | .store drawn call => { s with devices := call.perform drawn s.devices }
  | .publish client => s.own client (.publish client)
  | .lookup client fails => s.own client (.lookup client fails)
  | .attach client => s.own client (.attach client)
  | .reread client fails => s.own client (.reread client fails)
  | .refuse client => s.own client (.refuse client)
  | .register client => s.own client (.register client)

def sessionStep (s : SessionServer) (i : SessionInput) :
    SessionServer × Unit := (sessionNext s i, ())

/-! ### Steady runs -/

/-- No other session of the account has looked for the key of a device before its registration. -/
def Unseen (s : SessionServer) (registering : Option String) (d : Device) : Prop :=
  d.deviceID ≠ "" ∧ ∀ c ∈ s.clients.rows, registering ≠ some c.clientID → c.isAuthed = true →
    c.principal = d.principal → storedKey c.sessionKey = d.ed25519Public → c.phase = .attaching

instance (s : SessionServer) (registering : Option String) (d : Device) :
    Decidable (Unseen s registering d) :=
  inferInstanceAs (Decidable (_ ∧ _))

/-- The row that a step registers, and the session that does it by itself. -/
def SessionServer.registered (s : SessionServer) : SessionInput → Option (Option String × Device)
  | .manage client drawn limit =>
    match s.clients.get client with
    | none => none
    | some c =>
      if (c.phase = .ready ∧ c.isAuthed = true) ∧ c.deviceID = "" then
        match ensureDesktopDevice drawn s.devices limit c with
        | .ok (_, d) => some (some client, d)
        | .error _ => none
      else none
  | .store drawn call => (call.added drawn s.devices).map (none, ·)
  | _ => none

omit [DeviceKeys] in
/-- The devices that a step ends. -/
def SessionServer.terminated (s : SessionServer) : SessionInput → List String
  | .terminate drawn call => (call.perform drawn s.devices).2.map (·.deviceID)
  | _ => []

/-- A registration is seen by the lookups of all sessions of its key, and an ending does not hit a
device whose session is about to attach. -/
def SteadyStep (s : SessionServer) (i : SessionInput) : Prop :=
  (∀ r ∈ s.registered i, Unseen s r.1 r.2) ∧
    ∀ c ∈ s.clients.rows, ∀ d ∈ c.phase.registration, d.deviceID ∉ s.terminated i

instance (s : SessionServer) (i : SessionInput) : Decidable (SteadyStep s i) :=
  inferInstanceAs (Decidable (_ ∧ _))

/-- What holds of a session, by the devices there are and the endings under way. -/
structure Placed (ds : Devices) (es : List Ending) (c : Client) : Prop where
  fresh : c.phase = .admitted ∨ c.phase = .attaching → c.deviceID = ""
  owner : c.deviceID ≠ "" → ∃ d ∈ ds.rows, d.deviceID = c.deviceID ∧ d.principal = c.principal
  /-- What the session has read is a row, which may have been ended since. -/
  read : ∀ d, c.phase.device = some d → d.principal = c.principal ∧
    d.ed25519Public = storedKey c.sessionKey ∧ ∃ d' ∈ ds.rows, d.Same d'
  attached : c.phase = .attached → ∃ d ∈ ds.rows, d.deviceID = c.deviceID ∧
    d.principal = c.principal ∧ d.ed25519Public = storedKey c.sessionKey
  /-- The device of the key is the one the session has, or will find. -/
  covered : c.isAuthed = true → ∀ d ∈ ds.rows, d.principal = c.principal →
    d.ed25519Public = storedKey c.sessionKey → c.phase = .attaching ∨ c.phase = .refused ∨
      c.deviceID = d.deviceID ∨ ∃ d', c.phase.device = some d' ∧ d'.deviceID = d.deviceID
  /-- An ending has not passed the session by. -/
  swept : c.isAuthed = true → c.phase = .ready → ∀ e ∈ es, c.deviceID ∈ e.ids →
    e.remaining = none ∨ ∃ l, e.remaining = some l ∧ c.clientID ∈ l
  registering : ∀ d, c.phase = .registering d → ∀ e ∈ es, d.deviceID ∉ e.ids

structure SessionInv (s : SessionServer) : Prop where
  keys : Spelled s.devices
  ended : ∀ e ∈ s.endings, ∀ id ∈ e.ids, ∃ d ∈ s.devices.rows, d.deviceID = id ∧
    d.principal = e.principal ∧ d.active = false
  placed : ∀ c ∈ s.clients.rows, Placed s.devices s.endings c

variable {ds ds' : Devices} {e : Ending} {es : List Ending} {d : Device} {n : ℕ}

theorem SessionInv.init (h : Spelled ds) : SessionInv ⟨ds, Table.empty, []⟩ where
  keys := h
  ended := by simp
  placed := by simp [Table.empty]

omit [DeviceKeys] in
theorem isAuthed_revoked (c : Client) : ({ c with revoked := true } : Client).isAuthed = false := by
  simp [Client.isAuthed]

/-! ### A session moves -/

theorem Placed.revoke {c : Client} (h : Placed ds es c) : Placed ds es { c with revoked := true } :=
  { h with
    covered hau := absurd hau (by simp [isAuthed_revoked])
    swept hau := absurd hau (by simp [isAuthed_revoked]) }

/-- The device that a session of the key has read is the only row of the key. -/
theorem Placed.eq_of_read {c : Client} (hks : Spelled ds) (h : Placed ds es c) {x : Device}
    (hd : c.phase.device = some d) (hx : x ∈ ds.rows)
    (hk : x.ed25519Public = storedKey c.sessionKey) : d.deviceID = x.deviceID := by
  obtain ⟨-, hdk, d', hd', hsm⟩ := h.read d hd
  have hdx : d' = x := hks.unique d' hd' x hx (hsm.ed25519Public.trans (hdk.trans hk.symm))
  rw [← hdx, hsm.deviceID]

section Moves

variable {s : SessionServer} {c : Client} (hinv : SessionInv s) (hc : Placed s.devices s.endings c)

include hinv hc

theorem SessionInv.lookup (hph : c.phase = .attaching) (fails : Bool) :
    Placed s.devices s.endings { c with phase := lookedUp s.devices fails c } := by
  have hid : c.deviceID = "" := hc.fresh (.inr hph)
  -- Whatever comes out, the session has no device yet, so no ending looks for it.
  have hpl : ∀ phase : ClientPhase, phase ≠ .attached → (∀ d, phase ≠ .registering d) →
      (∀ d, phase.device = some d → d.principal = c.principal ∧
        d.ed25519Public = storedKey c.sessionKey ∧ ∃ d' ∈ s.devices.rows, d.Same d') →
      (∀ d ∈ s.devices.rows, d.principal = c.principal →
        d.ed25519Public = storedKey c.sessionKey → phase = .refused ∨
          ∃ d', phase.device = some d' ∧ d'.deviceID = d.deviceID) →
      Placed s.devices s.endings { c with phase := phase } := by
    intro phase hatt hreg hrd hcov
    refine ⟨fun _ => hid, fun hne => absurd hid hne, hrd, fun h => absurd h hatt, ?_, ?_,
      fun d h => absurd h (hreg d)⟩
    · intro _ d hd hpn hk
      rcases hcov d hd hpn hk with h | h
      · exact .inr (.inl h)
      · exact .inr (.inr (.inr h))
    · intro _ _ e he hm
      obtain ⟨d, hd, heq, -⟩ := hinv.ended e he _ hm
      exact absurd (heq.trans hid) (hinv.keys.identified d hd)
  have hr := hpl .ready (by simp) (by simp) (by simp [device])
  rw [lookedUp]
  split
  · rename_i hemp
    refine hr fun d hd _ hk => ?_
    rw [hemp, storedKey_empty] at hk
    exact absurd hk (hinv.keys.named d hd)
  · split
    · exact hpl .refused (by simp) (by simp) (by simp [device]) fun _ _ _ _ =>
        .inl rfl
    · cases hfd : deviceByKey s.devices c.sessionKey with
      | none =>
        refine hr fun d hd _ hk => ?_
        rw [hinv.keys.deviceByKey_eq_some.mpr ⟨hd, hk⟩] at hfd
        simp at hfd
      | some d =>
        obtain ⟨hd, hdk⟩ := hinv.keys.deviceByKey_eq_some.mp hfd
        dsimp only
        split
        · rename_i hpn
          refine hpl (.found d) (by simp) (by simp) ?_ ?_
          · rintro _ ⟨⟩
            exact ⟨hpn, hdk, d, hd, .refl d⟩
          · intro x hx _ hk
            exact .inr ⟨d, rfl, by rw [hinv.keys.unique d hd x hx (hdk.trans hk.symm)]⟩
        · rename_i hpn
          refine hr fun x hx hxpr hk => ?_
          rw [hinv.keys.unique x hx d hd (hk.trans hdk.symm)] at hxpr
          exact absurd hxpr hpn

theorem SessionInv.attach {d : Device} (hph : c.phase = .found d) : Placed s.devices s.endings
      { c with deviceID := d.deviceID, phase := if d.active then .attached else .refused } := by
  have hdev : c.phase.device = some d := by rw [hph, device]
  obtain ⟨hpn, hk, d', hd', hsm⟩ := hc.read d hdev
  have hrow : ∃ x ∈ s.devices.rows, x.deviceID = d.deviceID ∧ x.principal = c.principal ∧
      x.ed25519Public = storedKey c.sessionKey :=
    ⟨d', hd', hsm.deviceID, hsm.principal.trans hpn, hsm.ed25519Public.trans hk⟩
  refine ⟨?_, ?_, ?_, fun _ => hrow, ?_, ?_, ?_⟩
  · intro h
    split at h <;> simp at h
  · intro _
    obtain ⟨x, hx, hid, hp, -⟩ := hrow
    exact ⟨x, hx, hid, hp⟩
  · intro x hx
    split at hx <;> exact absurd hx (by simp [device])
  · intro _ x hx _ hxk
    exact .inr (.inr (.inl (hc.eq_of_read hinv.keys hdev hx hxk)))
  · intro _ h
    split at h <;> simp at h
  · intro x h
    split at h <;> simp at h

theorem SessionInv.reread (hph : c.phase = .attached) (fails : Bool) :
    Placed s.devices s.endings { c with phase := rereadPhase s.devices fails c } := by
  obtain ⟨d, hd, hid, hpn, hk⟩ := hc.attached hph
  have hown : c.deviceID ≠ "" := hid ▸ hinv.keys.identified d hd
  have hpl : ∀ phase : ClientPhase, phase = .refused ∨ phase = .ready ∧ d.active = true →
      Placed s.devices s.endings { c with phase := phase } := by
    rintro phase hcs
    refine ⟨?_, hc.owner, ?_, ?_, ?_, ?_, ?_⟩
    · rcases hcs with rfl | ⟨rfl, -⟩ <;> simp
    · rcases hcs with rfl | ⟨rfl, -⟩ <;> simp [device]
    · rcases hcs with rfl | ⟨rfl, -⟩ <;> simp
    · intro _ x hx _ hxk
      rw [← hinv.keys.unique d hd x hx (hk.trans hxk.symm)]
      exact .inr (.inr (.inl hid.symm))
    · -- The device was active at the last check, so no ending has had it.
      intro _ hr e he hm
      rcases hcs with rfl | ⟨-, ha⟩
      · simp at hr
      · obtain ⟨x, hx, hxid, -, hend⟩ := hinv.ended e he c.deviceID hm
        rw [s.devices.eq_of_key hx hd (hxid.trans hid.symm), ha] at hend
        simp at hend
    · rcases hcs with rfl | ⟨rfl, -⟩ <;> simp
  apply hpl
  rw [rereadPhase]
  split
  · exact .inl rfl
  rw [hinv.keys.deviceByKey_eq_some.mpr ⟨hd, hk⟩]
  dsimp only
  split
  · exact .inr ⟨rfl, ‹_›⟩
  · exact .inl rfl

theorem SessionInv.register {d : Device} (hph : c.phase = .registering d) :
    Placed s.devices s.endings { c with deviceID := d.deviceID, phase := .ready } := by
  have hdev : c.phase.device = some d := by rw [hph, device]
  obtain ⟨hpn, hk, d', hd', hsm⟩ := hc.read d hdev
  refine ⟨by simp, ?_, by simp [device], by simp, ?_, ?_, by simp⟩
  · intro _
    exact ⟨d', hd', hsm.deviceID, hsm.principal.trans hpn⟩
  · intro _ x hx _ hxk
    exact .inr (.inr (.inl (hc.eq_of_read hinv.keys hdev hx hxk)))
  · intro _ _ e he hm
    exact absurd hm (hc.registering d hph e he)

theorem SessionInv.clientStep (i : SessionInput) :
    Placed s.devices s.endings (clientStep s.devices c i) := by
  cases i with
  | publish =>
    rw [Server.clientStep]
    split
    · rename_i hph
      exact ⟨fun _ => hc.fresh (.inl hph), hc.owner, by simp [device], by simp,
        fun _ _ _ _ _ => .inl rfl, by simp, by simp⟩
    · exact hc
  | lookup _ fails =>
    rw [Server.clientStep]
    split
    · exact hinv.lookup hc ‹_› fails
    · exact hc
  | attach =>
    rw [Server.clientStep]
    split
    · exact hinv.attach hc ‹_›
    · exact hc
  | reread _ fails =>
    rw [Server.clientStep]
    split
    · exact hinv.reread hc ‹_› fails
    · exact hc
  | refuse =>
    rw [Server.clientStep]
    split
    · exact ⟨by simp, hc.owner, by simp [device], by simp,
        fun h => absurd h (by simp [Client.isAuthed]),
        fun h => absurd h (by simp [Client.isAuthed]), by simp⟩
    · exact hc
  | register =>
    rw [Server.clientStep]
    split
    · exact hinv.register hc ‹_›
    · exact hc
  | signIn | manage | disconnect | terminate | collect | visit | store => exact hc

end Moves

/-! ### The table of devices changes -/

variable {c : Client} {added : Option Device}

theorem Placed.grown (h : Placed ds es c) (hg : Grown ds added ds')
    (hadde : ∀ d, added = some d → c.isAuthed = true → c.principal = d.principal →
      storedKey c.sessionKey = d.ed25519Public → c.phase = .attaching) : Placed ds' es c where
  fresh := h.fresh
  owner hne := hg.owned (h.owner hne)
  read d hd := by
    obtain ⟨hpn, hk, x, hx, hsm⟩ := h.read d hd
    obtain ⟨x', hx', hsm'⟩ := hg.successor x hx
    exact ⟨hpn, hk, x', hx', hsm.trans hsm'⟩
  attached hph := hg.held (h.attached hph)
  covered hau d' hd' hpn hk := by
    rcases hg.origin d' hd' with ⟨d, hd, hsm⟩ | hn
    · rw [hsm.deviceID]
      exact h.covered hau d hd (hsm.principal.symm.trans hpn) (hsm.ed25519Public.symm.trans hk)
    · exact .inl (hadde d' hn hau hpn.symm hk.symm)
  swept := h.swept
  registering := h.registering

variable {s : SessionServer}

section

variable (hinv : SessionInv s)

include hinv

theorem SessionInv.ended_grown (hg : Grown s.devices added ds') :
    ∀ e ∈ s.endings, ∀ id ∈ e.ids, ∃ d ∈ ds'.rows, d.deviceID = id ∧ d.principal = e.principal ∧
      d.active = false := by
  intro e he id hid
  obtain ⟨d, hd, hdid, hpn, hend⟩ := hinv.ended e he id hid
  obtain ⟨d', hd', hsm⟩ := hg.successor d hd
  refine ⟨d', hd', hsm.deviceID.trans hdid, hsm.principal.trans hpn, ?_⟩
  cases ha : d'.active with
  | false => rfl
  | true => exact absurd (hsm.active ha) (by simp [hend])

omit [DeviceKeys] in
omit hinv in
/-- What an ending commits. -/
theorem Termination.perform_spec (drawn : Drawn) (ds : Devices) (call : Termination) :
    Continued ds (call.perform drawn ds).1 ∧ ∀ d ∈ (call.perform drawn ds).2,
      d ∈ (call.perform drawn ds).1.rows ∧ d.principal = call.principal ∧ d.active = false := by
  -- The two calls that end one device return the first of those that `endDevices` ends.
  have hone : ∀ p ds' d rest, (∀ x, p x = true → x.principal = call.principal) →
      endDevices drawn ds p = (ds', d :: rest) → Continued ds ds' ∧
        ∀ x ∈ [d], x ∈ ds'.rows ∧ x.principal = call.principal ∧ x.active = false := by
    intro p ds' d rest hp heq
    have hct := @endDevices_continued drawn ds p
    have hend := @endDevices_ended drawn ds p _ hp
    rw [heq] at hct hend
    refine ⟨hct, fun x hx => ?_⟩
    rw [mem_singleton.mp hx]
    exact hend d mem_cons_self
  have hfa : Continued ds ds ∧ ∀ x ∈ ([] : List Device), x ∈ ds.rows ∧
      x.principal = call.principal ∧ x.active = false :=
    ⟨.refl ds, by simp⟩
  cases call with
  | signOut principal deviceID =>
    rw [Termination.perform]
    cases h : signOutDevice drawn ds principal deviceID with
    | error => exact hfa
    | ok r =>
      obtain ⟨p, rest, hp, heq⟩ := endOne_ok (.inl h)
      exact hone p r.1 r.2 rest hp heq
  | revoke principal deviceID =>
    rw [Termination.perform]
    cases h : revokeDevice drawn ds principal deviceID with
    | error => exact hfa
    | ok r =>
      obtain ⟨p, rest, hp, heq⟩ := endOne_ok (.inr h)
      exact hone p r.1 r.2 rest hp heq
  | reset =>
    refine ⟨endDevices_continued, endDevices_ended fun x hx => ?_⟩
    exact (of_decide_eq_true (Bool.and_eq_true_iff.mp hx).1).1

variable {drawn : Drawn} {limit : Int}

omit hinv in
theorem ensureDesktopDevice_ok (hid : c.deviceID = "")
    (h : ensureDesktopDevice drawn ds limit c = .ok (ds', d)) :
    addDevice drawn ds c.newDevice limit = .ok (ds', d) := by
  rw [ensureDesktopDevice, if_neg (by simp [hid])] at h
  simp only [bind_eq_ok, ensure_eq_ok] at h
  obtain ⟨-, -, -, -, h⟩ := h
  exact h

variable {client : String}

/-- A session registers its key. -/
theorem SessionInv.manage (hget : s.clients.get client = some c)
    (h : addDevice drawn s.devices c.newDevice limit = .ok (ds, d))
    (hu : Unseen s (some client) d) :
    SessionInv
      { s with devices := ds, clients := s.clients.put { c with phase := .registering d } } := by
  have hg := addDevice_grown h
  obtain ⟨hk, hpn, hnm, hspl, hks⟩ := newRow_spelled h
  obtain ⟨-, hins, -, -⟩ := addDevice_ok h
  obtain ⟨hc, rfl⟩ := get_eq_some.mp hget
  refine ⟨hinv.keys.grown hg ?_, hinv.ended_grown hg, ?_⟩
  · rintro _ ⟨⟩
    exact ⟨hu.1, hnm, hspl, hks⟩
  intro x hx
  rcases mem_put.mp hx with rfl | ⟨hxm, hne⟩
  · have hpl := hinv.placed c hc
    refine ⟨by simp, fun hne => hg.owned (hpl.owner hne), ?_, by simp, ?_, by simp, ?_⟩
    · rintro _ ⟨⟩
      exact ⟨hpn, hk, d, (mem_insert hins).mpr (.inr rfl), .refl d⟩
    · intro _ y hy _ hyk
      rcases hg.origin y hy with ⟨z, hz, hsm⟩ | hn
      · exact absurd (hsm.ed25519Public.symm.trans (hyk.trans hk.symm)) (hks z hz)
      · exact .inr (.inr (.inr ⟨d, rfl, by rw [Option.some.inj hn]⟩))
    · -- The identifier is new, so no ending has it.
      rintro _ ⟨⟩ e he hm
      obtain ⟨y, hy, hid, -⟩ := hinv.ended e he _ hm
      exact get_eq_none.mp (insert_eq_some hins).2 y hy hid
  · refine (hinv.placed x hxm).grown hg ?_
    rintro _ ⟨⟩ hau hxpr hxk
    exact hu.2 x hxm (fun heq => hne (Option.some.inj heq).symm) hau hxpr hxk

theorem SessionInv.store (drawn : Drawn) (call : DeviceCall)
    (hu : ∀ d, call.added drawn s.devices = some d → Unseen s none d) :
    SessionInv { s with devices := call.perform drawn s.devices } := by
  have hg := perform_grown drawn s.devices call
  refine ⟨hinv.keys.grown hg ?_, hinv.ended_grown hg, ?_⟩
  · intro d hd
    refine ⟨(hu d hd).1, ?_⟩
    cases call with
    | add =>
      rw [DeviceCall.added] at hd
      split at hd
      · rename_i ds' row hadd
        cases hd
        exact (newRow_spelled hadd).2.2
      · simp at hd
    | _ => simp [DeviceCall.added] at hd
  · intro c hc
    refine (hinv.placed c hc).grown hg fun d hd hau hpn hk => ?_
    exact (hu d hd).2 c hc (by simp) hau hpn hk

/-! ### Endings -/

theorem SessionInv.terminate (drawn : Drawn) (call : Termination)
    (hs : SteadyStep s (.terminate drawn call)) :
    SessionInv (sessionNext s (.terminate drawn call)) := by
  obtain ⟨hct, hrw⟩ := call.perform_spec drawn s.devices
  have hg := hct.grown none
  have hpl : ∀ c ∈ s.clients.rows, Placed (call.perform drawn s.devices).1 s.endings c :=
    fun c hc => (hinv.placed c hc).grown hg (by simp)
  have hks : Spelled (call.perform drawn s.devices).1 := hinv.keys.grown hg (by simp)
  rw [sessionNext]
  dsimp only
  split
  · exact ⟨hks, hinv.ended_grown hg, hpl⟩
  refine ⟨hks, fun e he => ?_, fun c hc => ?_⟩
  · rcases mem_append.mp he with he | he
    · exact hinv.ended_grown hg e he
    rw [mem_singleton.mp he]
    intro id hid
    obtain ⟨d, hd, rfl⟩ := mem_map.mp hid
    obtain ⟨hm, hpn, hend⟩ := hrw d hd
    exact ⟨d, hm, rfl, hpn, hend⟩
  · have h := hpl c hc
    refine { h with swept := ?_, registering := ?_ }
    · exact fun hau hr => forall_mem_append.mpr
        ⟨h.swept hau hr, forall_mem_singleton.mpr fun _ => .inl rfl⟩
    · exact fun d hd => forall_mem_append.mpr ⟨h.registering d hd,
        forall_mem_singleton.mpr (hs.2 c hc d (by rw [hd]; rfl))⟩

variable {e' : Ending}

omit hinv in
/-- An ending goes on, with the devices it has. -/
theorem Placed.set (h : Placed ds es c) (he : e ∈ es)
    (hids : e'.ids = e.ids) (hswp : c.isAuthed = true → c.phase = .ready → c.deviceID ∈ e.ids →
      e'.remaining = none ∨ ∃ l, e'.remaining = some l ∧ c.clientID ∈ l) :
    Placed ds (es.set n e') c := by
  refine { h with swept := ?_, registering := ?_ }
  · intro hau hr x hx hid
    rcases mem_or_eq_of_mem_set hx with hx | rfl
    · exact h.swept hau hr x hx hid
    · exact hswp hau hr (hids ▸ hid)
  · intro d hd x hx
    rcases mem_or_eq_of_mem_set hx with hx | rfl
    · exact h.registering d hd x hx
    · rw [hids]
      exact h.registering d hd e he

theorem SessionInv.ended_set (he : e ∈ s.endings) (hids : e'.ids = e.ids)
    (hpn : e'.principal = e.principal) :
    ∀ x ∈ s.endings.set n e', ∀ id ∈ x.ids, ∃ d ∈ s.devices.rows, d.deviceID = id ∧
      d.principal = x.principal ∧ d.active = false := by
  intro x hx
  rcases mem_or_eq_of_mem_set hx with hx | rfl
  · exact hinv.ended x hx
  · rw [hids, hpn]
    exact hinv.ended e he

variable {principal : String} {ids : List String}

/-- The sessions are collected after the devices were ended. -/
theorem SessionInv.collect (hget : s.endings[n]? = some ⟨principal, ids, none⟩) :
    SessionInv { s with
      endings := s.endings.set n ⟨principal, ids, some (sessionsOf s.clients principal)⟩ } := by
  have hm := mem_of_getElem? hget
  refine ⟨hinv.keys, hinv.ended_set hm rfl rfl, fun c hc => ?_⟩
  have h := hinv.placed c hc
  refine h.set hm rfl fun hau _ hid => .inr ⟨_, rfl, ?_⟩
  -- The session has a device of the account, so it is one of the sessions of the account.
  obtain ⟨d, hd, hdid, hpn, -⟩ := hinv.ended _ hm c.deviceID hid
  obtain ⟨x, hx, hxid, hxpr⟩ := h.owner (hdid ▸ hinv.keys.identified d hd)
  rw [s.devices.eq_of_key hx hd (hxid.trans hdid.symm)] at hxpr
  refine mem_map.mpr ⟨c, mem_filter.mpr ⟨hc, ?_⟩, rfl⟩
  simp [hau, ← hxpr, hpn]

/-- One session is visited. -/
theorem SessionInv.visit {rest : List String}
    (hget : s.endings[n]? = some ⟨principal, ids, some (client :: rest)⟩)
    {clients : Table Client Client.clientID}
    (hcls : ∀ c ∈ clients.rows, (∃ x ∈ s.clients.rows, c = visited ids x) ∨
      c ∈ s.clients.rows ∧ c.clientID ≠ client) :
    SessionInv { s with clients := clients, endings := s.endings.set n ⟨principal, ids, some rest⟩ }
    := by
  have hm := mem_of_getElem? hget
  -- The ending has one session less to visit, and that one is not of its devices any more.
  have hset : ∀ c, Placed s.devices s.endings c →
      (c.isAuthed = true → c.deviceID ∈ ids → c.clientID ≠ client) →
      Placed s.devices (s.endings.set n ⟨principal, ids, some rest⟩) c := by
    intro c h hoth
    refine h.set hm rfl fun hau hr hid => ?_
    rcases h.swept hau hr _ hm hid with hno | ⟨l, hl, hcl⟩
    · simp at hno
    cases hl
    rcases mem_cons.mp hcl with heq | hrs
    · exact absurd heq (hoth hau hid)
    · exact .inr ⟨rest, rfl, hrs⟩
  refine ⟨hinv.keys, hinv.ended_set hm rfl rfl, fun c hc => ?_⟩
  rcases hcls c hc with ⟨x, hx, rfl⟩ | ⟨hcm, hne⟩
  · rw [visited]
    split
    · exact hset _ (hinv.placed x hx).revoke fun hau =>
        absurd hau (by simp [isAuthed_revoked])
    · exact hset x (hinv.placed x hx) fun _ hid => absurd hid ‹_›
  · exact hset c (hinv.placed c hcm) fun _ _ => hne

/-! ### Every step -/

theorem SessionInv.own (client : String) (i : SessionInput) : SessionInv (s.own client i) := by
  rw [SessionServer.own, SessionServer.onClient]
  split
  · exact hinv
  · rename_i c hget
    exact ⟨hinv.keys, hinv.ended, forall_put
      (hinv.clientStep (hinv.placed c (get_eq_some.mp hget).1) i) hinv.placed⟩

theorem SessionInv.step {i : SessionInput} (hs : SteadyStep s i) :
    SessionInv (sessionNext s i) := by
  cases i with
  | signIn =>
    rw [sessionNext]
    split
    · refine ⟨hinv.keys, hinv.ended, forall_put ?_ hinv.placed⟩
      exact ⟨fun _ => rfl, fun h => absurd rfl h, by simp [Client.admitted, device],
        by simp [Client.admitted], fun h => absurd h (by simp [Client.admitted, Client.isAuthed]),
        by simp [Client.admitted], by simp [Client.admitted]⟩
    · exact hinv
  | manage client drawn limit =>
    rw [sessionNext, SessionServer.onClient]
    split
    · exact hinv
    rename_i c hget
    split
    · rename_i hr
      split
      · exact hinv
      rename_i ds d hens
      split
      · exact hinv
      rename_i hid
      have hid := not_not.mp hid
      have hrg : s.registered (.manage client drawn limit) = some (some client, d) := by
        simp only [SessionServer.registered, hget, if_pos (And.intro hr hid), hens]
      exact hinv.manage hget (ensureDesktopDevice_ok hid hens) (hs.1 _ hrg)
    · exact hinv
  | disconnect =>
    exact ⟨hinv.keys, hinv.ended, fun c hc => hinv.placed c (mem_delete.mp hc).1⟩
  | terminate drawn call => exact hinv.terminate drawn call hs
  | collect =>
    rw [sessionNext]
    split
    · exact hinv.collect ‹_›
    · exact hinv
  | visit =>
    rw [sessionNext]
    split
    · rename_i principal ids client rest hget
      refine hinv.visit hget fun c hc => ?_
      split at hc
      · rename_i hno
        exact .inr ⟨hc, get_eq_none.mp hno c hc⟩
      rename_i x hx
      obtain ⟨hxm, rfl⟩ := get_eq_some.mp hx
      have hvsd : (visited ids x).clientID = x.clientID := by
        rw [visited]
        split <;> rfl
      rcases mem_put.mp hc with rfl | ⟨hcm, hne⟩
      · exact .inl ⟨x, hxm, rfl⟩
      · exact .inr ⟨hcm, hvsd ▸ hne⟩
    · exact hinv
  | store drawn call =>
    refine hinv.store drawn call fun d hd => hs.1 (none, d) ?_
    rw [SessionServer.registered, hd]
    rfl
  | publish | lookup | attach | reread | refuse | register => exact hinv.own _ _

end

theorem run_sessionInv (hds : Spelled ds) {inputs : List SessionInput}
    (hs : Along sessionStep SteadyStep ⟨ds, Table.empty, []⟩ inputs) :
    SessionInv (run sessionStep ⟨ds, Table.empty, []⟩ inputs) :=
  run_invariant_along (fun _ _ hi hinv => hinv.step hi) (.init hds) hs

/-! ### After an ending -/

/-- What is left of `attachSessionDevice` for a session that is inside it. -/
def Client.finishAttach (ds : Devices) (fails fails' : Bool) (c : Client) : Client :=
  let c := clientStep ds c (.lookup c.clientID fails)
  let c := clientStep ds c (.attach c.clientID)
  let c := clientStep ds c (.reread c.clientID fails')
  clientStep ds c (.refuse c.clientID)

/-- A sign-in that meets the ended device of its key ends revoked, whichever reads fail. -/
theorem revoked_finishAttach (hinv : SessionInv s)
    (hd : deviceByKey s.devices c.sessionKey = some d) (hpn : c.principal = d.principal)
    (hend : d.active = false) (hph : c.phase.signingIn = true) (fails fails' : Bool) :
    (c.finishAttach s.devices fails fails').revoked = true := by
  obtain ⟨hm, hk⟩ := hinv.keys.deviceByKey_eq_some.mp hd
  have hne : c.sessionKey ≠ "" := by
    intro hemp
    rw [hemp, storedKey_empty] at hk
    exact hinv.keys.named d hm hk
  cases h : c.phase with
  | attaching =>
    cases fails <;> simp [Client.finishAttach, clientStep, h, lookedUp, hne, hd, hpn, hend]
  | found x =>
    cases hx : x.active <;> cases fails' <;>
      simp [Client.finishAttach, clientStep, h, hx, rereadPhase, hd, hend]
  | attached =>
    cases fails' <;> simp [Client.finishAttach, clientStep, h, rereadPhase, hd, hend]
  | refused => simp [Client.finishAttach, clientStep, h]
  | admitted | ready | registering => simp [h, signingIn] at hph

end Steps

section Main

variable [DeviceKeys]

/-- **Ended devices have no sessions.** In every state of a steady run, if `afterDevicesRevoked` has
returned for a device, then a published session of the account with the key of the device is
revoked, or it is inside `attachSessionDevice` and ends revoked there. -/
theorem ended_device_has_no_session {ds : Devices} (hds : Spelled ds) {inputs : List SessionInput}
    (hs : Along sessionStep SteadyStep ⟨ds, Table.empty, []⟩ inputs) :
    let s := run sessionStep ⟨ds, Table.empty, []⟩ inputs
    ∀ e ∈ s.endings, e.remaining = some [] → ∀ d, d.deviceID ∈ e.ids →
      ∀ c ∈ s.clients.rows, c.authed = true → c.principal = d.principal →
        deviceByKey s.devices c.sessionKey = some d → c.revoked = true ∨ c.phase.signingIn = true ∧
            ∀ fails fails', (c.finishAttach s.devices fails fails').revoked = true := by
  intro s e he hrtn d hid c hc hau hpn hk
  have hinv : SessionInv s := run_sessionInv hds hs
  obtain ⟨hd, hdk⟩ := hinv.keys.deviceByKey_eq_some.mp hk
  have hend : d.active = false := by
    obtain ⟨x, hx, hxid, -, hend⟩ := hinv.ended e he d.deviceID hid
    rwa [s.devices.eq_of_key hx hd hxid] at hend
  cases hrvk : c.revoked with
  | true => exact .inl rfl
  | false =>
    have hlv : c.isAuthed = true := by simp [Client.isAuthed, hau, hrvk]
    have h := hinv.placed c hc
    suffices hph : c.phase.signingIn = true from
      .inr ⟨hph, revoked_finishAttach hinv hk hpn hend hph⟩
    -- A session that is past its sign-in has the device, so the ending has visited it.
    have hdev := h.covered hlv d hd hpn.symm hdk
    cases hph : c.phase with
    | attaching | found | attached | refused => rfl
    | ready =>
      simp only [hph, device, reduceCtorEq, false_and, exists_false, or_false, false_or] at hdev
      rcases h.swept hlv hph e he (hdev ▸ hid) with hno | ⟨l, hl, hm⟩
      · exact absurd (hrtn.symm.trans hno) (by simp)
      · rw [hrtn, Option.some.injEq] at hl
        simp [← hl] at hm
    | registering x =>
      have hxd : x.deviceID = d.deviceID := h.eq_of_read hinv.keys (by simp [hph, device]) hd hdk
      exact absurd (hxd ▸ hid) (h.registering x hph e he)
    | admitted =>
      simp only [hph, device, reduceCtorEq, false_and, exists_false, or_false, false_or] at hdev
      exact absurd (hdev.symm.trans (h.fresh (.inl hph))) (hinv.keys.identified d hd)

end Main

/-! ### A session that looked too early -/

namespace Sample

open Store.Sample

def client (id : String) : Client where
  clientID := id
  principal := "p"
  userID := 1
  sessionKey := publicKeyText (sampleKey 1)
  x25519 := String.ofList (Base64.encode (sampleKey 1))
  webTransport := false

def signIn (id : String) : List SessionInput :=
  [.signIn (client id), .publish id, .lookup id false]

/-- The device is registered by a session, and ended. -/
def registerAndEnd (id : String) : List SessionInput :=
  [.manage id (drawn "d") 10, .register id, .terminate (drawn "") (.revoke "p" "d"), .collect 0]

/-- The row that is left of the device. -/
def endedDevice : Device where
  deviceID := "d"
  principal := "p"
  kind := .desktop
  ed25519Public := publicKeyText (sampleKey 1)
  x25519Public := String.ofList (Base64.encode (sampleKey 1))
  firstDevice := true
  revokedAt := some 0

/-- A server without devices and sessions. -/
def server : SessionServer := ⟨Table.empty, Table.empty, []⟩

def lateLookup : List SessionInput :=
  signIn "a" ++ [.signIn (client "b"), .publish "b"] ++ registerAndEnd "a" ++ [.visit 0, .visit 0]

def late : SessionServer := run (@sessionStep deviceKeys) server lateLookup

theorem late_state : (late.devices.rows, late.clients.rows, late.endings) = ([endedDevice],
      [{ client "b" with authed := true, phase := .attaching },
        { client "a" with deviceID := "d", authed := true, revoked := true, phase := .ready }],
      [⟨"p", ["d"], some []⟩]) := by
  decide +kernel

end Sample

open Sample

/-- Two sessions sign in with one unregistered key. The first registers the key and its device is
revoked; the second stays signed in. -/
theorem unattached_session_survives :
    let s := run (@sessionStep deviceKeys) server
      (signIn "a" ++ signIn "b" ++ registerAndEnd "a" ++ [.visit 0, .visit 0])
    s.endings = [⟨"p", ["d"], some []⟩] ∧ (s.clients.get "a").map (·.revoked) = some true ∧
      (s.clients.get "b").map (fun c => (c.authed, c.revoked, c.phase, c.principal)) =
        some (true, false, .ready, "p") ∧
      ∀ c ∈ s.clients.get "b", (@deviceByKey deviceKeys s.devices c.sessionKey).map
        (fun d => (d.deviceID, d.principal, d.active)) = some ("d", "p", false) := by
  decide +kernel

/-- The second session has not looked yet when the first registers the key. -/
theorem ended_device_has_no_session_late_lookup :
    late.clients.rows.map (fun c => (c.revoked, c.phase)) = [(false, .attaching), (true, .ready)] ∧
      ∀ c ∈ late.clients.rows, c.revoked = true ∨ c.phase.signingIn = true ∧ ∀ fails fails',
          (@Client.finishAttach deviceKeys late.devices fails fails' c).revoked = true := by
  obtain ⟨hdv, hrs⟩ := Prod.mk.inj late_state
  obtain ⟨hcls, hen⟩ := Prod.mk.inj hrs
  have hrtn : (⟨"p", ["d"], some []⟩ : Ending) ∈ late.endings := by
    rw [hen]
    exact mem_cons_self
  refine ⟨by rw [hcls]; rfl, fun c hc => ?_⟩
  have hc' : c.authed = true ∧ c.principal = "p" ∧ c.sessionKey = publicKeyText (sampleKey 1) := by
    rw [hcls] at hc
    rcases mem_pair.mp hc with rfl | rfl <;> exact ⟨rfl, rfl, rfl⟩
  have hk : @deviceByKey deviceKeys late.devices c.sessionKey = some endedDevice := by
    unfold deviceByKey
    rw [hc'.2.2, hdv]
    decide +kernel
  have hlt : run (@sessionStep deviceKeys) ⟨Table.empty, Table.empty, []⟩ lateLookup =
      late := rfl
  have hrun := @ended_device_has_no_session deviceKeys Table.empty (@spelled_empty deviceKeys)
    lateLookup (by decide +kernel)
  rw [hlt] at hrun
  exact hrun _ hrtn rfl endedDevice (mem_singleton.mpr rfl) c hc hc'.1 hc'.2.1 hk

end Noxa.Server

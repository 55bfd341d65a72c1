import Mathlib.Data.List.Sort
import Noxa.Durable.Transaction

/-!
# Operations of the durable store

The operations of `store.go`, `admission.go` and `account.go`, each as the transaction it runs. An
operation returns the new store, which is the old one where a repeated request is answered from
what is stored. Checks that the source makes before it opens the transaction come first, in order.

## Main definitions

* `read`, `setTrust`, `commitSend`, `commitAttempt`, `ack`, `commitReceive`, `logout`
* `commitPublicationForAccount`, `reserveClaim`
* `prepareTransition`, `promoteAccount`, `abandonRecoveryTransition`, `retireUnsubmittedKeys`,
  `retirePeerSessions`
* `applyAttemptResult`, `noteRetired`
-/

namespace Noxa.Durable

open Fallible Text Directory Admission

def trustRef (id : String) : Ref := ⟨.trust, id⟩

/-- The reference of a session record; `sessionRef` of the source makes the record's id. -/
def sessionRecord (id : String) : Ref := ⟨.session, id⟩

def outboxRef (id : String) : Ref := ⟨.outbox, id⟩

def inboxRef (id : String) : Ref := ⟨.inbox, id⟩

def accountRef (id : String) : Ref := ⟨.account, id⟩

def publicationRef (id : String) : Ref := ⟨.publication, id⟩

def claimRef (id : String) : Ref := ⟨.claim, id⟩

def obligationRef (id : String) : Ref := ⟨.obligation, id⟩

def transitionRef (id : String) : Ref := ⟨.transition, id⟩

def logicalRef (id : String) : Ref := ⟨.logical, id⟩

/-- The revision that a snapshot has for a record. -/
def Snapshot.revision (snap : Snapshot) (r : Ref) : ℕ :=
  revisionOf ((snap.records.lookup r).getD none)

/-! ### Reading, trust and logout -/

/-- Fails unless the peer is known to the snapshot and currently trusted. -/
def checkTrust (db : Db) (snap : Snapshot) (id : String) : Except Error Unit := do
  ensure (trustRef id ∈ snap.records) .invalid
  let v ← found (db.get (trustRef id)) .invalid
  let t ← found v.data.trust? .invalid
  ensure (t.revoked = false) .revoked

/-- A revoked peer stays revoked. -/
def checkUnrevoked (old : Option Record) (revoked : Bool) : Except Error Unit :=
  match old with
  | none => .ok ⟨⟩
  | some rec => do
    let t ← found rec.data.trust? .corrupt
    ensure (¬ (t.revoked = true ∧ revoked = false)) .revoked

def setTrust (ns : Namespace) [Codec] (db : Db) (snap : Snapshot) (id : String) (value : Bytes)
    (revoked : Bool) : Except Error Db := do
  ensure (trustRef id ∈ snap.records) .invalid
  let c ← fence ns db snap
  cas db snap
  checkUnrevoked (db.get (trustRef id)) revoked
  changes db c snap ((∅ : Changes).insert (trustRef id) (.trust ⟨revoked, value⟩))

/-- A new bucket with an inactive control record, which nothing makes active again. -/
def logout (db : Db) (fence : ℕ) : Except Error Db := do
  let c ← control db
  ensure (c.fence = fence) .fenced
  ensure (c.fence ≠ maxRevision) .exhausted
  pure { records := ∅, controlRevision := 1, control := { fence := c.fence + 1, active := false } }

variable [Codec] (ns : Namespace) (db : Db) (now : Int) (c : Control) (snap : Snapshot)

/-- One round of the loop of `read`. -/
def readOne (acc : ℕ × AList fun _ : Ref => Option Record) (r : Ref) :
    Except Error (ℕ × AList fun _ : Ref => Option Record) := do
  ensure (validRef r) .invalid
  ensure (acc.1 + sizeOf (db.get r) ≤ maxBatchBytes) .exhausted
  pure (acc.1 + sizeOf (db.get r), acc.2.insert r (db.get r))

def read (refs : List Ref) : Except Error Snapshot := do
  ensure (refs.length ≤ maxReads) .exhausted
  let c ← control db
  ensure (c.active = true) .fenced
  let acc ← refs.foldlM (readOne db) (0, ∅)
  pure { ns := ns, fence := c.fence, records := acc.2 }

/-! ### Sending -/

def validContext (c : SessionContext) : Bool :=
  validID c.localAccountID && decide (0 < c.localEpoch) && decide (0 < c.peerEpoch) &&
    validID c.peerPrincipal && validID c.peerDevice && validID c.peerIdentity &&
    decide (c.scope = devicePairScope) && decide (c.protocol = "noxa-olm-v1")

/-- The claim of a new session: only a send has one. -/
def claimOK (receiving : Bool) : Option SessionClaim → Bool
  | none => true
  | some claim => !receiving && validID claim.claimID && decide (0 < claim.claimUntil)

/-- A session that exists keeps its context and its claim. -/
def sessionAfter (prev : SessionState) (state : Bytes) (context : SessionContext)
    (receiving : Bool) (claim : Option SessionClaim) : Except Error SessionState := do
  ensure (prev.context = context) .conflict
  ensure (¬ (prev.retired = true ∧ receiving = false)) .conflict
  ensure (¬ (receiving = false ∧ prev.pending ≠ none ∧ claim = none)) .conflict
  ensure (claim = none ∨ prev.pending = claim) .conflict
  pure
    { snapshot := state, context := context, createdAt := prev.createdAt, retired := prev.retired
      pending := if receiving then none else prev.pending }

def sessionValue (id : String) (state : Bytes) (context : SessionContext) (receiving : Bool)
    (claim : Option SessionClaim) : Except Error SessionState := do
  ensure (state ≠ [] ∧ validContext context ∧ claimOK receiving claim) .invalid
  match db.get (sessionRecord id) with
  | none =>
    pure { snapshot := state, context := context, createdAt := now, pending := claim }
  | some old => do
    let prev ← found old.data.session? .corrupt
    sessionAfter prev state context receiving claim

/-- The outbox id of an attempt. -/
def attemptID (m : Manifest) : String := numbered m.accountEpoch m.attemptID

def checkSendAuthority (packets : List SendCandidate) (attempt : Option AttemptDescriptor) :
    Except Error Unit := do
  ensure (c.sendingBlocked = false ∧ 1 ≤ c.accountEpoch ∧ c.accountID ≠ "") .fenced
  ensure (∀ d ∈ attempt, d.manifest.accountEpoch = c.accountEpoch) .fenced
  ensure (∀ p ∈ packets, p.context.localAccountID = c.accountID ∧
    p.context.localEpoch = c.accountEpoch) .fenced

/-- A retry is answered only while every peer is trusted as it was. -/
def checkRetryTrust (p : SendCandidate) : Except Error Unit := do
  checkTrust db snap p.trustID
  ensure (db.revision (trustRef p.trustID) = p.trustRevision) .conflict

/-- The last attempt of a logical id has failed, if there was one. -/
def checkLogicalFree (old : Option Record) : Except Error Unit :=
  match old with
  | none => .ok ⟨⟩
  | some rec => do
    let logical ← found rec.data.logical? .corrupt
    ensure (logical.state = .result .rejected ∨ logical.state = .result .aborted) .conflict

/-- Number the attempt and take its logical id, which must be free. -/
def prepareAttempt (d : AttemptDescriptor) (chs : Changes) : Except Error (Control × Changes) := do
  let seq ← found (attemptSequence d.manifest.attemptID) .invalid
  ensure (seq = c.nextAttempt + 1) .conflict
  ensure (logicalRef d.manifest.logicalID ∈ snap.records) .invalid
  checkLogicalFree (db.get (logicalRef d.manifest.logicalID))
  pure ({ c with nextAttempt := seq },
    chs.insert (logicalRef d.manifest.logicalID) (.logical ⟨attemptID d.manifest, .pending⟩))

/-- The session that a packet replaces is retired with the same commit. -/
def replaceSession (p : SendCandidate) (chs : Changes) : Except Error Changes :=
  if p.replaces = "" then .ok chs
  else do
    let old ← found ((snap.records.lookup (sessionRecord p.replaces)).getD none) .invalid
    ensure (snap.revision (sessionRecord p.sessionID) = 0 ∧ p.replaces ≠ p.sessionID) .invalid
    ensure (sessionRecord p.replaces ∉ chs) .invalid
    let previous ← found old.data.session? .corrupt
    ensure (previous.context = p.context ∧ previous.retired = false) .conflict
    pure (chs.insert (sessionRecord p.replaces) (.session { previous with retired := true }))

/-- One packet of a send. -/
def sendOne (isAttempt : Bool) (acc : Changes × List SendCandidate) (p : SendCandidate) :
    Except Error (Changes × List SendCandidate) := do
  ensure (sessionRecord p.sessionID ∈ snap.records) .invalid
  ensure (sessionRecord p.sessionID ∉ acc.1) .invalid
  ensure (p.envelope.length ≤ maxRecordBytes ∧ p.state.length ≤ maxRecordBytes) .exhausted
  ensure (p.envelope ≠ []) .invalid
  ensure (¬ (isAttempt = true ∧ snap.revision (sessionRecord p.sessionID) = 0 ∧ p.claim = none))
    .invalid
  checkTrust db snap p.trustID
  let state ← sessionValue db now p.sessionID p.state p.context false p.claim
  let chs ← replaceSession snap p (acc.1.insert (sessionRecord p.sessionID) (.session state))
  pure (chs, acc.2 ++ [{ sessionID := p.sessionID, trustID := p.trustID, envelope := p.envelope
                         trustRevision := snap.revision (trustRef p.trustID)
                         context := p.context }])

structure SendResult where
  data : SentBatch
  reused : Bool
  deriving DecidableEq, Repr

/-- A send that is already in the outbox. -/
def resend (old : Record) : Except Error (Db × SendResult) := do
  let saved ← found old.data.outbox? .corrupt
  checkSendAuthority c saved.packets saved.attempt
  saved.packets.forM (checkRetryTrust db snap)
  pure (db, ⟨saved, true⟩)

/-- The control record and the first changes of a send. -/
def prepareSend (attempt : Option AttemptDescriptor) : Except Error (Control × Changes) :=
  match attempt with
  | none => .ok (c, ∅)
  | some d => prepareAttempt db c snap d ∅

/-- A send that is not in the outbox yet. -/
def firstSend (id : String) (packets : List SendCandidate) (archive : Bytes)
    (attempt : Option AttemptDescriptor) : Except Error (Db × SendResult) := do
  cas db snap
  checkSendAuthority c packets attempt
  let start ← prepareSend db c snap attempt
  let acc ← packets.foldlM (sendOne db now snap attempt.isSome) (start.2, [])
  let db' ← changes db start.1 snap
    (acc.1.insert (outboxRef id) (.outbox ⟨attempt, none, acc.2, .pending, archive⟩))
  pure (db', ⟨⟨attempt, none, acc.2, .pending, archive⟩, false⟩)

/-- `commitSend` of the source; `CommitSend` is the case without an attempt. -/
def commitSend (id : String) (packets : List SendCandidate) (archive : Bytes)
    (attempt : Option AttemptDescriptor) : Except Error (Db × SendResult) := do
  ensure (archive.length ≤ maxRecordBytes) .exhausted
  ensure (validID id ∧ ¬ (packets = [] ∧ attempt = none) ∧ archive ≠ []) .invalid
  ensure (packets.length ≤ maxFanout) .exhausted
  let c ← fence ns db snap
  match db.get (outboxRef id) with
  | some old => resend db c snap old
  | none => firstSend db now c snap id packets archive attempt

/-- One packet belongs to a copy of the manifest that no earlier packet has taken. -/
def matchPacket (m : Manifest) (copies : List Copy) (seen : List String) (p : SendCandidate) :
    Except Error (List String) := do
  let copy ← found (copies.find? (·.device = p.context.peerDevice)) .invalid
  ensure (copy.device ∉ seen ∧ copy.principal = p.context.peerPrincipal ∧
    copy.accountEpoch = p.context.peerEpoch ∧ copy.envelope = p.envelope) .invalid
  ensure (checkEnvelope m copy) .invalid
  -- the last target of the device decides; a valid manifest has one
  let target ← found (m.targets.reverse.find? (·.device = copy.device)) .invalid
  ensure (p.context.peerIdentity = target.identity ∧ p.context.scope = devicePairScope ∧
    p.sessionID = sessionRef copy.sessionID ∧
    copy.claimID = (p.claim.map (·.claimID)).getD "") .invalid
  pure (copy.device :: seen)

def commitAttempt (m : Manifest) (parts : List Bytes) (packets : List SendCandidate)
    (archive : Bytes) : Except Error (Db × SendResult) := do
  let copies ← found (openParts m parts) .invalid
  ensure (ns.server = m.server ∧ ns.principal = m.sender ∧ ns.device = m.device ∧
    copies.length = packets.length) .invalid
  let _ ← packets.foldlM (matchPacket m copies) []
  commitSend ns db now snap (attemptID m) packets archive (some ⟨m, parts⟩)

def ack (id : String) : Except Error Db := do
  let c ← fence ns db snap
  cas db snap
  let v ← found (db.get (outboxRef id)) .invalid
  let b ← found v.data.outbox? .invalid
  ensure (b.attempt = none) .invalid
  if b.status = .sent then pure db
  else changes db c snap ((∅ : Changes).insert (outboxRef id) (.outbox { b with status := .sent }))

/-! ### Receiving -/

structure ReceiveCandidate where
  accountID : String := ""
  sessionID : String
  trustID : String
  session : Bytes
  account : Bytes := []
  archive : Bytes
  envelope : Bytes
  consumedOTK : String := ""
  context : SessionContext
  deriving DecidableEq, Repr

/-- The account of a receive, by default the first one. -/
def ReceiveCandidate.accountOf (p : ReceiveCandidate) : String :=
  if p.accountID = "" then "local" else p.accountID

/-- A message that is already in the inbox. -/
def rereceive (digest : String) (old : Record) : Except Error (Db × Bytes) := do
  let rec ← found old.data.inbox? .corrupt
  ensure (rec.digest = digest) .conflict
  pure (db, rec.archive)

/-- The new state of the account, when a one-time key was used. -/
def receiveAccount (p : ReceiveCandidate) (chs : Changes) : Except Error Changes :=
  if p.account = [] then .ok chs
  else do
    ensure (accountRef p.accountOf ∈ snap.records) .invalid
    pure (chs.insert (accountRef p.accountOf) (.account p.account))

/-- The one-time key that was used is consumed. -/
def consumeKey (p : ReceiveCandidate) (chs : Changes) : Except Error Changes :=
  if p.consumedOTK = "" then .ok chs
  else do
    let v ← found ((snap.records.lookup (obligationRef p.consumedOTK)).getD none) .invalid
    ensure (p.account ≠ []) .invalid
    let o ← found v.data.obligation? .corrupt
    ensure (o.accountID = p.accountOf ∧ o.closed = false) .conflict
    pure (chs.insert (obligationRef p.consumedOTK) (.obligation { o with consumed := true }))

/-- A message that is not in the inbox yet. -/
def firstReceive (id : String) (p : ReceiveCandidate) : Except Error (Db × Bytes) := do
  cas db snap
  checkTrust db snap p.trustID
  ensure (sessionRecord p.sessionID ∈ snap.records) .invalid
  let state ← sessionValue db now p.sessionID p.session p.context true none
  let chs ← receiveAccount snap p (((∅ : Changes).insert (sessionRecord p.sessionID)
    (.session state)).insert (inboxRef id) (.inbox ⟨Crypto.digest p.envelope, p.archive⟩))
  let chs ← consumeKey snap p chs
  let db' ← changes db c snap chs
  pure (db', p.archive)

def commitReceive (id : String) (p : ReceiveCandidate) : Except Error (Db × Bytes) := do
  ensure (p.account ≠ [] ↔ p.consumedOTK ≠ "") .invalid
  ensure (p.envelope.length ≤ maxRecordBytes ∧ p.archive.length ≤ maxRecordBytes) .exhausted
  ensure (validID id ∧ p.envelope ≠ [] ∧ p.archive ≠ []) .invalid
  let c ← fence ns db snap
  match db.get (inboxRef id) with
  | some old => rereceive db (Crypto.digest p.envelope) old
  | none => firstReceive db now c snap id p

/-! ### Publications and claims -/

abbrev Obligations := AList fun _ : String => OTKObligation

/-- A publication that is already stored. -/
def republish (accountID : String) (old : Record) : Except Error (Db × Bytes) := do
  let publication ← found old.data.publication? .corrupt
  ensure (publication.accountID = accountID) .conflict
  pure (db, publication.payload)

/-- One one-time key of a publication. -/
def publishOne (accountID id : String) (chs : Changes)
    (entry : Sigma fun _ : String => OTKObligation) : Except Error Changes := do
  ensure (db.get (obligationRef entry.1) = none ∧ entry.2.publicationID = id ∧
    entry.2.consumed = false ∧ entry.2.closed = false) .conflict
  ensure (entry.2.accountID = "" ∨ entry.2.accountID = accountID) .invalid
  ensure (entry.2.accountEpoch = 0 ∨ entry.2.accountEpoch = c.accountEpoch) .conflict
  pure (chs.insert (obligationRef entry.1) (.obligation
    { entry.2 with
      accountID := accountID, accountEpoch := c.accountEpoch
      keyID := if entry.2.keyID = "" then entry.1 else entry.2.keyID }))

/-- A publication that is not stored yet. -/
def firstPublish (accountID id : String) (account signed : Bytes) (otks : Obligations) :
    Except Error (Db × Bytes) := do
  cas db snap
  ensure (accountRef accountID ∈ snap.records) .invalid
  ensure (c.outstanding + otks.entries.length ≤ 100) .exhausted
  let chs ← otks.entries.foldlM (publishOne db c accountID id)
    (((∅ : Changes).insert (accountRef accountID) (.account account)).insert (publicationRef id)
      (.publication ⟨accountID, signed⟩))
  let db' ← changes db c snap chs
  pure (db', signed)

def commitPublicationForAccount (accountID id : String) (account signed : Bytes)
    (otks : Obligations) : Except Error (Db × Bytes) := do
  ensure (validID accountID ∧ validID id ∧ account ≠ [] ∧ signed ≠ []) .invalid
  ensure (otks.entries.length ≠ 0 ∧ otks.entries.length ≤ 100) .exhausted
  let c ← fence ns db snap
  ensure (c.sendingBlocked = false ∧ accountID = c.accountID) .fenced
  match db.get (publicationRef id) with
  | some old => republish db accountID old
  | none => firstPublish db c snap accountID id account signed otks

/-- A claim that is already reserved. -/
def rereserve (trustID : String) (old : Record) : Except Error (Db × Bytes) := do
  let saved ← found old.data.claim? .corrupt
  ensure (saved.accountID = c.accountID ∧ saved.accountEpoch = c.accountEpoch) .fenced
  ensure (saved.trustID = trustID ∧
    db.revision (trustRef saved.trustID) = saved.trustRevision) .conflict
  pure (db, saved.request)

/-- A claim that is not reserved yet. -/
def firstReserve (id trustID : String) (request : Bytes) : Except Error (Db × Bytes) := do
  cas db snap
  let db' ← changes db c snap ((∅ : Changes).insert (claimRef id) (.claim
    ⟨c.accountID, c.accountEpoch, trustID, snap.revision (trustRef trustID), request⟩))
  pure (db', request)

def reserveClaim (id trustID : String) (request : Bytes) : Except Error (Db × Bytes) := do
  ensure (validID id ∧ validID trustID ∧ request ≠ []) .invalid
  ensure (request.length ≤ maxRecordBytes) .exhausted
  let c ← fence ns db snap
  ensure (c.sendingBlocked = false) .fenced
  checkTrust db snap trustID
  match db.get (claimRef id) with
  | some old => rereserve db c trustID old
  | none => firstReserve db c snap id trustID request

/-! ### Account transitions -/

/-- A transition that is already stored: the same intent, whatever its receipt. -/
def reprepare (expected : AccountTransition) (old : Record) : Except Error Db := do
  let prior ← found old.data.transition? .corrupt
  ensure ({ prior with receipt := none } = expected) .conflict
  pure db

/-- One one-time key of the new account, with the keys seen so far. -/
def transitionKey (accountID : String) (r : Reset) (b : Bundle) (acc : Changes × List String)
    (entry : Sigma fun _ : String => OTKObligation) : Except Error (Changes × List String) := do
  ensure (db.get (obligationRef entry.1) = none ∧ entry.2.consumed = false ∧
    entry.2.closed = false ∧ entry.2.accountID = accountID ∧ entry.2.accountEpoch = r.newEpoch ∧
    entry.2.publicationID = r.transitionID) .conflict
  ensure ((∃ k ∈ b.oneTimeKeys, k.id = entry.2.keyID ∧ k.key = entry.2.publicKey) ∧
    entry.2.keyID ∉ acc.2) .invalid
  pure (acc.1.insert (obligationRef entry.1) (.obligation entry.2), entry.2.keyID :: acc.2)

/-- A transition that is not stored yet. It blocks sending. -/
def firstPrepare (accountID : String) (account : Bytes) (r : Reset) (b : Bundle)
    (otks : Obligations) (recovery : Bool) (expected : AccountTransition) : Except Error Db := do
  ensure (r.newEpoch = r.oldEpoch + 1 ∧ c.accountID ≠ accountID ∧ c.sendingBlocked = false ∧
    (recovery = true → c.accountEpoch ≤ r.oldEpoch) ∧
    (recovery = false → c.accountEpoch = r.oldEpoch)) .fenced
  ensure (db.get (accountRef accountID) = none) .conflict
  let acc ← otks.entries.foldlM (transitionKey db accountID r b)
    ((((∅ : Changes).insert (transitionRef r.transitionID) (.transition expected)).insert
      (accountRef accountID) (.account account)).insert (publicationRef r.transitionID)
        (.publication ⟨accountID, Codec.bundleBytes b⟩), [])
  changes db { c with sendingBlocked := true } snap acc.1

/-- `PrepareAccountTransition`, and `PrepareRecoveryTransition` when `recovery` is set. -/
def prepareTransition (accountID : String) (account : Bytes) (r : Reset) (b : Bundle)
    (otks : Obligations) (recovery : Bool) : Except Error Db := do
  ensure (recovery = false ∨ r.reason = "lost" ∨ r.reason = "restored") .invalid
  ensure (validID accountID ∧ account ≠ [] ∧ otks.entries.length = b.oneTimeKeys.length) .invalid
  ensure (publicationDigest b = some r.publicationDigest ∧ r.newEpoch = b.accountEpoch ∧
    r.generation = b.generation ∧ r.newIdentity = b.identity ∧ r.newSigning = b.signing) .invalid
  ensure (r.server = ns.server ∧ r.principal = ns.principal ∧ r.device = ns.device) .invalid
  let c ← fence ns db snap
  cas db snap
  let expected ← pure
    { accountID := accountID, reset := r, bundle := b, recovery := recovery
      fromEpoch := if recovery then c.accountEpoch else 0 : AccountTransition }
  match db.get (transitionRef r.transitionID) with
  | some old => reprepare db expected old
  | none => firstPrepare db c snap accountID account r b otks recovery expected

/-- The epoch from which a transition may be promoted. -/
def AccountTransition.startEpoch (t : AccountTransition) : Int :=
  if t.recovery then t.fromEpoch else t.reset.oldEpoch

/-- The control record after a promotion. -/
def Control.promoted (c : Control) (t : AccountTransition) : Control :=
  { c with
    accountID := t.accountID, accountEpoch := t.reset.newEpoch, nextAttempt := 0
    sendingBlocked := false }

/-- A transition without a receipt gets one. -/
def firstPromote (id : String) (t : AccountTransition) (receipt : ResetReceipt) :
    Except Error Db := do
  ensure (t.abandoned = false) .fenced
  ensure (c.accountEpoch = t.startEpoch ∧ c.sendingBlocked = true) .fenced
  changes db (c.promoted t) snap
    ((∅ : Changes).insert (transitionRef id) (.transition { t with receipt := some receipt }))

def promoteAccount (id : String) (receipt : ResetReceipt) : Except Error Db := do
  let c ← fence ns db snap
  cas db snap
  let v ← found (db.get (transitionRef id)) .invalid
  let t ← found v.data.transition? .invalid
  ensure (receipt.server = t.reset.server ∧ receipt.device = t.reset.device ∧
    receipt.transitionID = t.reset.transitionID ∧ receipt.accountEpoch = t.reset.newEpoch ∧
    receipt.publicationDigest = t.reset.publicationDigest ∧
    receipt.digest = Crypto.digest (Codec.resetBytes t.reset)) .conflict
  match t.receipt with
  | some known => do
    ensure (known = receipt) .conflict
    pure db
  | none => firstPromote db c snap id t receipt

/-- The state of the search for the keys of an abandoned transition. -/
structure Abandoning where
  keys : AList fun _ : String => String
  reads : AList fun _ : Ref => Option Record
  chs : Changes

/-- Close a key of the candidate account, unless it is closed already. -/
def closeCandidate (id : String) (acc : Abandoning) (r : Ref) (rec : Record) (o : OTKObligation) :
    Abandoning :=
  if o.closed then { acc with keys := acc.keys.erase o.keyID }
  else
    { keys := acc.keys.erase o.keyID
      reads := acc.reads.insert r (some rec)
      chs := acc.chs.insert r (.obligation
        { o with closed := true, closureProof := "abandoned-recovery:" ++ id }) }

/-- One record of the store: only obligations of the candidate account matter. -/
def abandonOne (id : String) (t : AccountTransition) (acc : Abandoning)
    (entry : Sigma fun _ : Ref => Record) : Except Error Abandoning :=
  if entry.1.kind ≠ .obligation then .ok acc
  else do
    let o ← found entry.2.data.obligation? .corrupt
    if o.accountID ≠ t.accountID then pure acc
    else do
      ensure (o.publicationID = id ∧ o.accountEpoch = t.reset.newEpoch ∧
        (acc.keys.lookup o.keyID).getD "" = o.publicKey ∧ o.publicKey ≠ "" ∧
        o.consumed = false) .conflict
      pure (closeCandidate id acc entry.1 entry.2 o)

/-- A recovery that is given up. -/
def firstAbandon (id : String) (t : AccountTransition) : Except Error Db := do
  ensure (c.accountEpoch = t.fromEpoch ∧ c.sendingBlocked = true ∧ c.accountID ≠ t.accountID)
    .fenced
  let acc ← db.records.entries.foldlM (abandonOne id t)
    ⟨t.bundle.oneTimeKeys.foldl (fun keys k => keys.insert k.id k.key) ∅, snap.records, ∅⟩
  ensure (acc.keys.entries.length = 0 ∧ acc.reads.entries.length ≤ maxReads) .conflict
  changes db { c with sendingBlocked := false } { snap with records := acc.reads }
    (acc.chs.insert (transitionRef id) (.transition { t with abandoned := true }))

def abandonRecoveryTransition (id : String) : Except Error Db := do
  let c ← fence ns db snap
  cas db snap
  let v ← found (db.get (transitionRef id)) .invalid
  let t ← found v.data.transition? .invalid
  ensure (t.recovery = true ∧ t.receipt = none) .invalid
  if t.abandoned then pure db else firstAbandon db c snap id t

/-- One proof that a one-time key is closed. -/
def retireKey (accountID : String) (chs : Changes) (entry : Sigma fun _ : String => KeyClosure) :
    Except Error Changes := do
  let v ← found (db.get (obligationRef entry.1)) .invalid
  let o ← found v.data.obligation? .invalid
  ensure (entry.2.state = "closed" ∧ entry.2.server = ns.server ∧ entry.2.device = ns.device ∧
    entry.2.accountEpoch = o.accountEpoch ∧ entry.2.keyID = o.keyID ∧ o.accountID = accountID ∧
    o.consumed = false ∧ o.publicKey ≠ "" ∧ entry.2.proof.utf8ByteSize = 64) .conflict
  ensure (entry.2.proof = Crypto.digest (Codec.closureBytes { entry.2 with proof := "" })) .conflict
  ensure (o.closed = false) .conflict
  pure (chs.insert (obligationRef entry.1)
    (.obligation { o with closed := true, closureProof := entry.2.proof }))

def retireUnsubmittedKeys (accountID : String) (account : Bytes)
    (proofs : AList fun _ : String => KeyClosure) : Except Error Db := do
  ensure (account ≠ [] ∧ 1 ≤ proofs.entries.length ∧ proofs.entries.length ≤ 100) .invalid
  let c ← fence ns db snap
  cas db snap
  ensure (accountRef accountID ∈ snap.records) .invalid
  let chs ← proofs.entries.foldlM (retireKey ns db accountID)
    ((∅ : Changes).insert (accountRef accountID) (.account account))
  changes db c snap chs

/-- One session with a peer whose account was reset. -/
def retireSession (r : Reset) (chs : Changes) (id : String) : Except Error Changes := do
  let v ← found (db.get (sessionRecord id)) .invalid
  let state ← found v.data.session? .invalid
  ensure (state.context.peerPrincipal = r.principal ∧ state.context.peerDevice = r.device ∧
    state.context.peerEpoch = r.oldEpoch ∧ state.context.peerIdentity = r.oldIdentity) .conflict
  pure (chs.insert (sessionRecord id) (.session { state with retired := true }))

def retirePeerSessions (trustID : String) (r : Reset) (ids : List String) : Except Error Db := do
  ensure (1 ≤ ids.length ∧ ids.length ≤ 160) .invalid
  ensure (r.server = ns.server) .invalid
  let c ← fence ns db snap
  cas db snap
  checkTrust db snap trustID
  let chs ← ids.foldlM (retireSession db r) ∅
  changes db c snap chs

/-! ### Results of attempts -/

/-- The sessions of an accepted attempt stop carrying their claim. -/
def establishOne (acc : (AList fun _ : Ref => Option Record) × Changes) (p : SendCandidate) :
    Except Error ((AList fun _ : Ref => Option Record) × Changes) := do
  let cur ← found (db.get (sessionRecord p.sessionID)) .corrupt
  let st ← found cur.data.session? .corrupt
  if st.pending = none then pure acc
  else pure (acc.1.insert (sessionRecord p.sessionID) (some cur),
    acc.2.insert (sessionRecord p.sessionID) (.session { st with pending := none }))

/-- The records read and changed besides the attempt's own. -/
def establish (b : SentBatch) (state : ReceiptState) (chs : Changes) :
    Except Error ((AList fun _ : Ref => Option Record) × Changes) :=
  if state = .accepted then b.packets.foldlM (establishOne db) (snap.records, chs)
  else .ok (snap.records, chs)

/-- An attempt without a receipt gets one, and so does its logical id. -/
def firstResult (id : String) (b : SentBatch) (m : Manifest) (result : Receipt) :
    Except Error Db := do
  let old ← found (db.get (logicalRef m.logicalID)) .conflict
  let logical ← found old.data.logical? .conflict
  ensure (logical.attemptID = id) .conflict
  let acc ← establish db snap b result.state
    (((∅ : Changes).insert (outboxRef id)
      (.outbox { b with receipt := some result, status := .result result.state })).insert
        (logicalRef m.logicalID) (.logical { logical with state := .result result.state }))
  changes db c { snap with records := acc.1 } acc.2

def applyAttemptResult (id : String) (result : Receipt) : Except Error Db := do
  ensure (result.state = .accepted ∨ result.state = .rejected ∨ result.state = .aborted) .invalid
  let c ← fence ns db snap
  cas db snap
  let r ← found (db.get (outboxRef id)) .invalid
  let b ← found r.data.outbox? .invalid
  let d ← found b.attempt .invalid
  ensure (result.server = d.manifest.server ∧ result.accountEpoch = d.manifest.accountEpoch ∧
    result.attemptID = d.manifest.attemptID ∧ result.logicalID = d.manifest.logicalID ∧
    result.digest = d.manifest.digest ∧
    (result.state = .accepted → result.messageID ≠ "")) .conflict
  match b.receipt with
  | some known => do
    ensure (known = result) .conflict
    pure db
  | none => firstResult db c snap id b d.manifest result

/-- `RetiredMark.Has`. -/
def RetiredMark.has (mark : RetiredMark) (seq : Int) : Bool :=
  seq ≤ mark.through ∨ seq ∈ mark.above

/-- Absorb the sequences that follow the watermark. -/
def absorb (through : Int) : List Int → Int × List Int
  | [] => (through, [])
  | a :: above => if a = through + 1 then absorb (through + 1) above else (through, a :: above)

/-- The watermark of an epoch. -/
def Control.mark (c : Control) : RetiredMark :=
  match c.retired with
  | some mark => if mark.epoch = c.accountEpoch then mark else { epoch := c.accountEpoch }
  | none => { epoch := c.accountEpoch }

/-- The watermark after one more sequence. -/
def RetiredMark.note (mark : RetiredMark) (seq : Int) : RetiredMark :=
  let absorbed := absorb mark.through ((mark.above ++ [seq]).insertionSort (· ≤ ·))
  { epoch := mark.epoch, through := absorbed.1, above := absorbed.2 }

def noteRetired (id : String) : Except Error Db := do
  let c ← fence ns db snap
  ensure (outboxRef id ∈ snap.records) .invalid
  cas db snap
  let r ← found (db.get (outboxRef id)) .invalid
  let b ← found r.data.outbox? .invalid
  let d ← found b.attempt .invalid
  ensure (b.receipt ≠ none ∧ d.manifest.accountEpoch = c.accountEpoch) .invalid
  let seq ← found (attemptSequence d.manifest.attemptID) .invalid
  ensure (attemptID d.manifest = id) .invalid
  if c.mark.has seq then pure db
  else do
    ensure ((c.mark.note seq).above.length ≤ 1024) .exhausted
    changes db { c with retired := some (c.mark.note seq) } snap ∅

end Noxa.Durable

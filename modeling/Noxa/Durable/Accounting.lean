import Noxa.Durable.Obligations
import Noxa.Lib.Tally

/-!
# The counters of the store

The control record counts the store's records, the bytes of their data and the one-time keys that
are still open. `changes` keeps the counters with every record it writes, from the record before and
the record after. The number of open keys is kept right only if no finished key becomes open again:
`changes` subtracts when a key is finished but does not add when an old one is opened. No operation
writes an open key over an old one, so this does not matter.

A key that is consumed or closed is not written again as long as receives name keys that are not
consumed. The store does not refuse the others: it looks at `closed` only.

## Main definitions

* `Accounted` — the counters are what they should be
* `Consumes` — a message is received for the first time and consumes a key

## Main results

* `changes_accounted` — `changes` keeps the counters
* `durable_accounting` — the counters after any calls, and the life of a key
* `key_consumed_twice` — two messages with one key
-/

namespace Noxa.Durable

open Fallible Machine Tally List

/-- A one-time key that is neither consumed nor closed. -/
def openObligation (entry : Sigma fun _ : Ref => Record) : Bool :=
  decide (entry.1.kind = .obligation) && (entry.2.data.obligation?.map open?).getD false

def openWeight (entry : Sigma fun _ : Ref => Record) : ℤ := if openObligation entry then 1 else 0

section

variable [Codec]

def sizeWeight (entry : Sigma fun _ : Ref => Record) : ℤ := entry.2.data.size

/-- The counters of a control record are those of the records. -/
structure Accounted (records : AList fun _ : Ref => Record) (c : Control) : Prop where
  count : c.count = total (fun _ => 1) records
  bytes : c.bytes = total sizeWeight records
  outstanding : c.outstanding = total openWeight records

/-- A change that would open a finished key is none of the changes. -/
def NoReopening (db : Db) (entry : Sigma fun _ : Ref => Value) : Prop :=
  entry.1.kind = .obligation → ∀ o, entry.2.obligation? = some o →
    open? o = false ∨ db.get entry.1 = none

/-! ### One write -/

variable {rec : Record}

omit [Codec] in
theorem countObligation_ok {n n' : ℤ} {db : Db} {r : Ref} {v : Value}
    (hdt : rec.data = v) (h : countObligation n r (db.get r) v = .ok n')
    (hr : NoReopening db ⟨r, v⟩) :
    n' = n + (openWeight ⟨r, rec⟩ - weightAt openWeight r (db.get r)) := by
  unfold countObligation at h
  split at h
  · rename_i hkd
    have hz : ∀ rec : Record, openWeight ⟨r, rec⟩ = 0 := by
      intro rec
      simp [openWeight, openObligation, hkd]
    cases h
    cases db.get r with
    | none => simp [weightAt, hz]
    | some => simp [weightAt, hz]
  · rename_i hkd
    have hkd : r.kind = .obligation := not_not.mp hkd
    simp only [bind_eq_ok, found_eq_ok] at h
    obtain ⟨after, haft, h⟩ := h
    have hwgt : ∀ (rec : Record) (o : OTKObligation), rec.data.obligation? = some o →
        openWeight ⟨r, rec⟩ = if open? o then 1 else 0 := by
      intro rec o ho
      simp [openWeight, openObligation, hkd, ho]
    rw [hwgt rec after (hdt ▸ haft)]
    split at h
    · rename_i hno
      obtain rfl := pure_eq_ok.mp h
      rw [hno, weightAt, outstandingAfter]
      split <;> omega
    · rename_i old hold
      simp only [bind_eq_ok, found_eq_ok, pure_eq_ok] at h
      obtain ⟨before, hbef, rfl⟩ := h
      have hfin : open? after = false :=
        (hr hkd after haft).resolve_right (by simp [hold])
      rw [hold, weightAt, hwgt old before hbef, outstandingAfter, hfin]
      cases open? before with
      | false => simp
      | true => simp [Int.sub_eq_add_neg]

variable {snap : Snapshot} {b b' : Batch}

theorem writeOne_accounted {entry : Sigma fun _ : Ref => Value}
    (hr : NoReopening b.db entry) (h : writeOne snap b entry = .ok b')
    (hb : Accounted b.db.records b.control) : Accounted b'.db.records b'.control := by
  simp only [writeOne, bind_eq_ok, ensure_eq_ok, pure_eq_ok] at h
  obtain ⟨-, -, -, -, -, -, n, hn, -, -, -, -, rfl⟩ := h
  constructor
  · rw [total_insert, ← hb.count]
    dsimp only
    cases hold : b.db.get entry.1 with
    | none =>
      rw [if_pos (Db.revision_eq_zero.mpr hold), show b.db.records.lookup entry.1 = none from hold,
        weightAt]
      omega
    | some old =>
      rw [if_neg fun hz => by simp [Db.revision_eq_zero.mp hz] at hold,
        show b.db.records.lookup entry.1 = some old from hold, weightAt]
      omega
  · rw [total_insert, ← hb.bytes]
    cases hold : b.db.get entry.1 with
    | none => rw [show b.db.records.lookup entry.1 = none from hold]; rfl
    | some old => rw [show b.db.records.lookup entry.1 = some old from hold]; rfl
  · rw [total_insert, ← hb.outstanding]
    exact countObligation_ok rfl hn hr

/-- The loop of `changes`, by induction on the changes, which name each record once. -/
theorem writeLoop_accounted {chs : List (Sigma fun _ : Ref => Value)}
    (hnd : chs.NodupKeys) (hr : ∀ e ∈ chs, NoReopening b.db e)
    (h : chs.foldlM (writeOne snap) b = .ok b') (hb : Accounted b.db.records b.control) :
    Accounted b'.db.records b'.control := by
  induction chs generalizing b with
  | nil =>
    rw [foldlM_nil, pure_eq_ok] at h
    exact h ▸ hb
  | cons e chs ih =>
    rw [foldlM_cons, bind_eq_ok] at h
    obtain ⟨b₁, hf, hrs⟩ := h
    obtain ⟨hfr, hnd⟩ := nodupKeys_cons.mp hnd
    refine ih hnd (fun e' he' => ?_) hrs (writeOne_accounted (hr e mem_cons_self) hf hb)
    have hne : e'.1 ≠ e.1 := fun heq => hfr (heq ▸ mem_keys_of_mem he')
    rw [NoReopening, (writeOne_ok hf).get_ne e'.1 hne]
    exact hr e' (mem_cons_of_mem _ he')

/-- **The counters after a write**: they are right, and within the limits. -/
theorem changes_accounted {db db' : Db} {c : Control} {chs : Changes}
    (h : changes db c snap chs = .ok db') (hr : ∀ e ∈ chs.entries, NoReopening db e)
    (hc : Accounted db.records c) :
    Accounted db'.records db'.control ∧ db'.control.count ≤ maxRecords ∧
      db'.control.bytes ≤ maxNamespaceBytes ∧ db'.control.outstanding ≤ 100 := by
  simp only [changes, bind_eq_ok, ensure_eq_ok, pure_eq_ok] at h
  obtain ⟨b, hlp, -, hlim, -, -, rfl⟩ := h
  exact ⟨writeLoop_accounted chs.nodupKeys hr hlp hc, hlim⟩

/-! ### Every call -/

section

variable {ns : Namespace} {db db' : Db} {call : Call}

omit [Codec] in
theorem Op.Controls.counters {op : Op} {old new : Control} (h : op.Controls old new) :
    new.count = old.count ∧ new.bytes = old.bytes ∧ new.outstanding = old.outstanding := by
  cases op with
  | promoteAccount | noteRetired =>
    obtain ⟨_, rfl⟩ := h
    exact ⟨rfl, rfl, rfl⟩
  | _ =>
    obtain rfl := h
    exact ⟨rfl, rfl, rfl⟩

variable {o : OTKObligation} {id : String}

omit [Codec] in
/-- What a call writes of a key that exists is not open. -/
theorem ObligationStep.not_reopened (hstp : ObligationStep db call db' id)
    (hg : db'.get (obligationRef id) = some rec)
    (ho : rec.data.obligation? = some o) (hwrn : rec.revision ≠ db.revision (obligationRef id)) :
    open? o = false ∨ db.get (obligationRef id) = none := by
  have hs : HasObligation db' id o := hasObligation_of_get hg ho
  cases hstp with
  | kept same =>
    rw [same] at hg
    exact absurd (by rw [Db.revision, hg]; rfl) hwrn
  | created o' new => exact .inr new
  | consumed snap message p rec' o' op key first live read revision data notClosed stored =>
    rw [hs.unique stored]
    exact .inl (by simp [open?])
  | closed o' proof before isOpen stored =>
    rw [hs.unique stored]
    exact .inl (by simp [open?])
  | gone fence op empty => cases empty.symm.trans hg

/-- The counters, and the limits they are within. -/
structure AccountInv (db : Db) : Prop where
  accounted : Accounted db.records db.control
  count_le : db.control.count ≤ maxRecords
  bytes_le : db.control.bytes ≤ maxNamespaceBytes
  outstanding_le : db.control.outstanding ≤ 100

theorem accountInv_empty (h : db.records = ∅) (hcnt : db.control.count = 0)
    (hby : db.control.bytes = 0) (hot : db.control.outstanding = 0) : AccountInv db := by
  refine ⟨⟨?_, ?_, ?_⟩, ?_, ?_, ?_⟩ <;> simp [h, hcnt, hby, hot, total_empty]

theorem step_accounts (ns : Namespace) (call : Call) (h : AccountInv db) :
    AccountInv (step ns db call).1 := by
  rcases step_frame ns db call with hsm | ⟨snap, c, reads, chs, -, hcom, -, hctl⟩ | ⟨fence, -, hl⟩
  · rwa [hsm]
  · obtain ⟨hcnt, hby, hot⟩ := hctl.counters
    have hc : Accounted db.records c :=
      ⟨hcnt.trans h.accounted.count, hby.trans h.accounted.bytes, hot.trans h.accounted.outstanding⟩
    have hr : ∀ e ∈ chs.entries, NoReopening db e := by
      rintro ⟨r, v⟩ he hkd o ho
      have href : r = obligationRef r.id := by rw [obligationRef,
        ← show r.kind = .obligation from hkd]
      rw [href] at he ⊢
      have hg := hcom.get_of_lookup_some (AList.mem_lookup_iff.mpr he)
      exact (step_obligations ns db call r.id).not_reopened hg ho (Nat.succ_ne_self _)
    obtain ⟨hacd, hcnt, hby, hot⟩ := changes_accounted hcom.written hr hc
    exact ⟨hacd, hcnt, hby, hot⟩
  · obtain ⟨f, heq⟩ := logout_ok hl
    rw [heq]
    exact accountInv_empty rfl rfl rfl rfl

theorem accountInv_run (ns : Namespace) (calls : List Call) :
    AccountInv (run (step ns) Db.fresh calls) :=
  run_invariant (fun _ call h => step_accounts ns call h) (accountInv_empty rfl rfl rfl rfl) calls

/-! ### The life of a key in a run -/

/-- The call receives a message for the first time and consumes a key. -/
def Consumes (ns : Namespace) (db : Db) (call : Call) (key : String) : Prop :=
  ∃ snap message p reply, call.op = .commitReceive snap message p ∧ p.consumedOTK = key ∧ key ≠ "" ∧
    db.get (inboxRef message) = none ∧ (step ns db call).2 = .ok reply

variable {key : String}

/-- A first receive with a key, in an open store, leaves the key consumed. -/
theorem Consumes.consumed (h : Consumes ns db call key) : db.control.active = true ∧
    ∃ o, HasObligation (step ns db call).1 key o ∧ o.consumed = true := by
  obtain ⟨snap, message, p, reply, hop, rfl, hk, hf, hrpl⟩ := h
  have hxc := exec_of_op hop hrpl
  obtain ⟨archive, hrcv, -⟩ := pair_ok hxc
  rcases commitReceive_ok hrcv with ⟨-, hold⟩ | ⟨state, chs, chs', -, -, -, -, hcon, hcom⟩
  · exact absurd hf hold
  simp only [consumeKey, if_neg hk, bind_eq_ok, pure_eq_ok] at hcon
  obtain ⟨v, -, _, -, o, -, _, -, rfl⟩ := hcon
  exact ⟨hcom.live, { o with consumed := true }, hcom.stored (AList.lookup_insert _), rfl⟩

theorem Consumes.not_consumed (h : Consumes ns db call key) (hfr : FreshKey db call)
    (ho : HasObligation db key o) : o.consumed = false := by
  obtain ⟨snap, message, p, reply, hop, rfl, -, hf, -⟩ := h
  exact hfr snap message p hop hf o ho

/-- A finished key stays as it is until a logout. -/
theorem finished_run {later : List Call}
    (hlat : Along (step ns) (fun db call => Current db call ∧ FreshKey db call) db later)
    (ho : HasObligation db id o) (hfin : open? o = false) :
    HasObligation (run (step ns) db later) id o ∨
      (run (step ns) db later).control.active = false := by
  refine run_invariant_along (P := fun db => HasObligation db id o ∨ db.control.active = false)
    (fun db call hca h => ?_) (.inl ho) hlat
  rcases h with h | h
  · rcases (step_obligations ns db call id).final hca.1 hca.2 h hfin with hsm | ⟨fence, hop⟩
    · exact .inl (by rwa [HasObligation, hsm])
    rcases step_frame ns db call with hsm | hfrm | ⟨fence', -, hl⟩
    · rw [hsm]
      exact .inl h
    · obtain ⟨snap, -, -, -, hsna, -⟩ := hfrm
      rw [hop] at hsna
      cases hsna
    · obtain ⟨f, heq⟩ := logout_ok hl
      exact .inr (by rw [heq])
  · refine .inr (Bool.not_eq_true _ ▸ fun hlv => ?_)
    exact absurd ((versioned ns).live_of_live db call hlv) (by rw [h]; decide)

/-- **Accounting.** After any calls the counters are the number of records, the bytes of their data
and the number of one-time keys that are neither consumed nor closed, and each is within its limit.

In a run whose snapshots hold records that the store once had and in which no new message is
received with a key that is consumed already, a call leaves every key that is consumed or closed as
it is, unless it logs out; and a key is consumed by one message at most. -/
theorem durable_accounting (ns : Namespace) (calls : List Call) :
    let db := run (step ns) Db.fresh calls
    db.control.count = db.records.entries.length ∧
    db.control.bytes = (db.records.entries.map fun e => (e.2.data.size : ℤ)).sum ∧
    db.control.outstanding = db.records.entries.countP openObligation ∧
    db.control.count ≤ maxRecords ∧ db.control.bytes ≤ maxNamespaceBytes ∧
    db.control.outstanding ≤ 100 ∧
    (HeldRun ns Db.fresh calls → Along (step ns) FreshKey Db.fresh calls →
      (∀ before call after id o, calls = before ++ call :: after →
        HasObligation (run (step ns) Db.fresh before) id o → o.consumed = true ∨ o.closed = true →
        (step ns (run (step ns) Db.fresh before) call).1.get (obligationRef id) =
          (run (step ns) Db.fresh before).get (obligationRef id) ∨ ∃ fence,
            call.op = .logout fence) ∧
      (∀ before first between second after key,
        calls = before ++ first :: (between ++ second :: after) →
        Consumes ns (run (step ns) Db.fresh before) first key →
        ¬ Consumes ns (run (step ns) Db.fresh (before ++ first :: between)) second key)) := by
  intro db
  obtain ⟨⟨hcnt, hby, hot⟩, hcount_le, hbytes_le, houtstanding_le⟩ := accountInv_run ns calls
  refine ⟨hcnt.trans (total_one _), hby, hot.trans (total_indicator openObligation _),
    hcount_le, hbytes_le, houtstanding_le, fun hhd hfr => ?_⟩
  have haln : Along (step ns) (fun db call => Current db call ∧ FreshKey db call) Db.fresh calls :=
    along_and.mpr ⟨hhd.along, hfr⟩
  constructor
  · rintro before call after id o rfl ho hfin
    obtain ⟨-, ⟨hcur, hk⟩, -⟩ := along_append.mp haln
    refine (step_obligations ns _ call id).final hcur hk ho ?_
    rcases hfin with h | h <;> simp [open?, h]
  · rintro before first between second after key rfl hf hsec
    obtain ⟨-, -, hrs⟩ := along_append.mp haln
    obtain ⟨hbtw, ⟨-, hk⟩, -⟩ := along_append.mp hrs
    obtain ⟨-, o, ho, hcsm⟩ := hf.consumed
    rw [run_append, run_cons] at hsec
    -- the key is still there, since a store that was logged out receives nothing
    have hstl := (finished_run hbtw ho (by simp [open?, hcsm])).resolve_right
      fun hout => absurd (hsec.consumed.1.symm.trans hout) (by decide)
    exact absurd (hcsm.symm.trans (hsec.not_consumed hk hstl)) (by decide)

end

end

/-! ### Two messages with one key -/

def keySnapshot (db : Db) : Snapshot :=
  snapshotOf [trustRef "bob", sessionRecord "olm:1", accountRef "local", obligationRef "k1"] db

/-- The device publishes one key. -/
def publishKey (snap : Snapshot) : Call :=
  ⟨.commitPublication snap "local" "pub" [1] [1] ((∅ : Obligations).insert "k1"
    { accountID := "", publicationID := "pub", expiresAt := 0, accountEpoch := 0, keyID := ""
      publicKey := "key" }), 0, false⟩

def receiveWithKey (snap : Snapshot) (message : String) : Call :=
  ⟨.commitReceive snap message
    { sessionID := "olm:1", trustID := "bob", session := [1], account := [2], archive := [1]
      envelope := [1], consumedOTK := "k1", context := peerContext }, 0, false⟩

def trustedPeer : Db :=
  let := Codec.plain
  run (step homeDevice) Db.fresh [trustPeer]

/-- The calls up to the first message; every client reads right before it commits. -/
def publishCalls : List Call := [trustPeer, publishKey (keySnapshot trustedPeer)]

def publishedKey : Db :=
  let := Codec.plain
  run (step homeDevice) Db.fresh publishCalls

def firstMessage : Call := receiveWithKey (keySnapshot publishedKey) "m1"

def receivedOnce : Db :=
  let := Codec.plain
  run (step homeDevice) Db.fresh (publishCalls ++ [firstMessage])

def secondMessage : Call := receiveWithKey (keySnapshot receivedOnce) "m2"

theorem firstMessage_held :
    letI := Codec.plain; HeldRun homeDevice Db.fresh (publishCalls ++ [firstMessage]) := by
  let := Codec.plain
  have htru : HeldRun homeDevice Db.fresh [trustPeer] :=
    HeldRun.read (r := [trustRef "bob", sessionRecord "olm:1"]) (heldRun_nil _ _)
      (by decide +kernel) rfl
  have hpub : HeldRun homeDevice Db.fresh publishCalls := htru.read (by decide +kernel) rfl
  exact hpub.read (by decide +kernel) rfl

theorem firstMessage_consumes :
    letI := Codec.plain; Consumes homeDevice publishedKey firstMessage "k1" := by
  let := Codec.plain
  have hok : (step homeDevice publishedKey firstMessage).2.isOk = true := by decide +kernel
  obtain ⟨reply, hrpl⟩ := exists_ok hok
  exact ⟨_, "m1", _, reply, rfl, rfl, by decide, by decide +kernel, hrpl⟩

def publishedObligation : OTKObligation :=
  { accountID := "local", publicationID := "pub", expiresAt := 0, accountEpoch := 1, keyID := "k1"
    publicKey := "key" }

/-- A message after the first one that uses no key. -/
def plainMessage : Call := receiveCall (takeSnapshot receivedOnce) "m2" 2

theorem plainMessage_fresh : letI := Codec.plain
    Along (step homeDevice) FreshKey Db.fresh
      (publishCalls ++ [firstMessage] ++ [plainMessage]) := by
  let := Codec.plain
  have hf : FreshKey publishedKey firstMessage := by
    rintro snap message p hop - o ho
    cases hop
    have hs : HasObligation publishedKey "k1" publishedObligation := by
      unfold HasObligation
      decide +kernel
    rw [ho.unique hs]
    rfl
  have hpln : FreshKey receivedOnce plainMessage := by
    rintro snap message p hop - o ho
    cases hop
    have hno : receivedOnce.get (obligationRef "") = none := by decide +kernel
    rw [HasObligation, hno] at ho
    cases ho
  refine along_append.mpr ⟨along_append.mpr ⟨⟨?_, ?_, trivial⟩, hf, trivial⟩, hpln, trivial⟩
  · rintro snap message p ⟨⟩
  · rintro snap message p ⟨⟩

/-- A run with one use of the key and one message more, which leaves the key alone. -/
theorem durable_accounting_plain_message :
    let := Codec.plain
    HeldRun homeDevice Db.fresh (publishCalls ++ [firstMessage] ++ [plainMessage]) ∧
      Along (step homeDevice) FreshKey Db.fresh (publishCalls ++ [firstMessage] ++ [plainMessage]) ∧
      (step homeDevice receivedOnce plainMessage).1.get (obligationRef "k1") =
        receivedOnce.get (obligationRef "k1") := by
  intro _
  have hhd : HeldRun homeDevice Db.fresh (publishCalls ++ [firstMessage] ++ [plainMessage]) :=
    firstMessage_held.read (r := [trustRef "bob", sessionRecord "olm:1"]) (by decide +kernel) rfl
  have hs : HasObligation receivedOnce "k1" { publishedObligation with consumed := true } := by
    unfold HasObligation
    decide +kernel
  obtain ⟨-, -, -, -, -, -, hlf⟩ :=
    durable_accounting homeDevice (publishCalls ++ [firstMessage] ++ [plainMessage])
  refine ⟨hhd, plainMessage_fresh, ?_⟩
  refine ((hlf hhd plainMessage_fresh).1 _ plainMessage [] "k1" _ rfl hs
    (.inl rfl)).resolve_right ?_
  rintro ⟨fence, hop⟩
  exact nomatch hop

/-- Both messages are received, the second with a snapshot that shows the key as consumed, and the
second one writes the key again. -/
theorem key_consumed_twice :
    let := Codec.plain
    HeldRun homeDevice Db.fresh (publishCalls ++ [firstMessage] ++ [secondMessage]) ∧
      Consumes homeDevice publishedKey firstMessage "k1" ∧
      Consumes homeDevice receivedOnce secondMessage "k1" ∧
      (step homeDevice receivedOnce secondMessage).1.get (obligationRef "k1") ≠
        receivedOnce.get (obligationRef "k1") := by
  intro _
  have hok : (step homeDevice receivedOnce secondMessage).2.isOk = true := by decide +kernel
  obtain ⟨reply, hrpl⟩ := exists_ok hok
  exact ⟨firstMessage_held.read (by decide +kernel) rfl, firstMessage_consumes,
    ⟨_, "m2", _, reply, rfl, rfl, by decide, by decide +kernel, hrpl⟩, by decide +kernel⟩

end Noxa.Durable

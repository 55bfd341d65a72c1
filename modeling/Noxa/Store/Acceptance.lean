import Noxa.Store.Calls
import Noxa.Store.Ledger

/-!
# What acceptance stores

A message that is accepted was judged against the current rosters, is the first under its logical
identifier, and gets one delivery for each copy. Later calls may mark a delivery as received and
empty it, but none adds or removes one.

## Main definitions

* `Mail.Sound` — the invariant of messages and deliveries

## Main results

* `judge_accept` — what an admitted attempt has passed
* `deliver_ok` — the rows that acceptance adds
* `finalizeOlmAttempt_cases` — the three outcomes of finalizing
* `deliver_sound`, `Mail.Sound.update` — what keeps the invariant
-/

namespace Noxa.Store

open Admission Fallible List

variable [Setting]

/-! ### The judgement -/

variable {mail : Mail} {env : Env} {a : Source} {m : Manifest} {copies : List Copy}
  {db : Db} {id : String}

/-- An admitted attempt covers its audience, and its parts hold the copies. -/
theorem judge_accept (hm : a.matches m) (hv : m.validate = true)
    (h : judge db env a m id = .ok (.accept copies)) : Covers db m ∧ (copies.map Copy.address).Perm
      ((m.targets.filter (!·.isLocal)).map Target.address) := by
  unfold judge at h
  split at h
  · simp only [bind_eq_ok] at h
    obtain ⟨-, -, h⟩ := h
    split at h
    · exact absurd (pure_eq_ok.mp h) (by simp)
    · cases h
  · rename_i ps hps
    simp only [bind_eq_ok] at h
    obtain ⟨snap, hsna, -, -, h⟩ := h
    split at h
    · exact absurd (pure_eq_ok.mp h) (by simp)
    split at h
    · exact absurd (pure_eq_ok.mp h) (by simp)
    rename_i hcov
    simp only [bind_eq_ok] at h
    obtain ⟨parts, -, h⟩ := h
    have hp := pure_eq_ok.mp h
    refine ⟨covers_of_equalCoverage hm hv hps hsna (by simpa using hcov), ?_⟩
    unfold judgeParts at hp
    split at hp
    · simp at hp
    rename_i copies' hop
    repeat' split at hp
    · simp at hp
    · simp at hp
    · simp at hp
    · injection hp with hc
      exact hc ▸ (openParts_perm hop).2

/-! ### The rows -/

/-- What a delivery is addressed to. -/
def Delivery.address (d : Delivery) : String × String × Int :=
  (d.principal, d.device, d.accountEpoch)

/-- The deliveries of a message. -/
def Mail.deliveriesOf (mail : Mail) (id : String) : List Delivery :=
  mail.deliveries.rows.filter (·.messageID = id)

omit [Setting] in
theorem insertDelivery_rows {t t' : Table Delivery Delivery.id} {d : Delivery}
    (h : insertDelivery t d = some t') : t'.rows = t.rows ++ [d] := by
  unfold insertDelivery at h
  split at h
  · exact (Table.insert_eq_some h).1
  · simp at h

/-- One copy adds one delivery. -/
theorem deliverCopy_mail {s s' : Mail × Keyring} {ci : Copy × ℕ}
    (h : deliverCopy env a m s ci = .ok s') :
    s'.1.messages = s.1.messages ∧ ∃ d, s'.1.deliveries.rows = s.1.deliveries.rows ++ [d] ∧
      d.messageID = env.uuid 0 ∧ d.address = ci.1.address := by
  simp only [deliverCopy, bind_eq_ok, found_eq_ok, pure_eq_ok] at h
  obtain ⟨keyring, -, deliveries, hi, rfl⟩ := h
  exact ⟨rfl, _, insertDelivery_rows hi, rfl, rfl⟩

variable {mail' : Mail} {keyring keyring' : Keyring}

/-- What acceptance adds: the message, and one delivery for each copy. -/
theorem deliver_ok (h : deliver mail keyring env a m copies = .ok (mail', keyring')) :
    ∃ msg : Message, msg.id = env.uuid 0 ∧ msg.lane = a.lane ∧ msg.sender = a.principal ∧
      msg.logicalID = m.logicalID ∧ msg.manifest = m ∧
      mail.messages.insert msg = some mail'.messages ∧
      findMessage mail a.server a.principal m.logicalID = none ∧
      ∃ ds : List Delivery, mail'.deliveries.rows = mail.deliveries.rows ++ ds ∧
        (∀ d ∈ ds, d.messageID = env.uuid 0) ∧
        (ds.map Delivery.address).Perm (copies.map Copy.address) := by
  simp only [deliver, bind_eq_ok, found_eq_ok] at h
  obtain ⟨messages, hmes, hfl⟩ := h
  have hn : findMessage mail a.server a.principal m.logicalID = none ∧
      mail.messages.insert ⟨env.uuid 0, a.lane, a.principal, m.logicalID, m⟩ = some messages := by
    unfold insertMessage at hmes
    split at hmes
    · rename_i hno
      exact ⟨Option.isNone_iff_eq_none.mp hno, hmes⟩
    · simp at hmes
  -- the loop adds one delivery a round, and keeps the messages
  have hlp : mail'.messages = messages ∧ ∃ ds : List Delivery,
      mail'.deliveries.rows = mail.deliveries.rows ++ ds ∧ (∀ d ∈ ds, d.messageID = env.uuid 0) ∧
        ds.map Delivery.address
          = (inDeviceOrder copies).zipIdx.map fun ci : Copy × ℕ => ci.1.address := by
    refine foldlM_ok_loop (P := fun done s => s.1.messages = messages ∧ ∃ ds : List Delivery,
      s.1.deliveries.rows = mail.deliveries.rows ++ ds ∧ (∀ d ∈ ds, d.messageID = env.uuid 0) ∧
        ds.map Delivery.address = done.map fun ci : Copy × ℕ => ci.1.address)
      hfl ?_ ⟨rfl, [], by simp⟩
    rintro done ci s s' ⟨hmsgs, ds, hrw, hids, ha⟩ hrnd
    obtain ⟨hkp, d, hd, hid, had⟩ := deliverCopy_mail hrnd
    refine ⟨hkp.trans hmsgs, ds ++ [d], by rw [hd, hrw, append_assoc], ?_, ?_⟩
    · exact forall_mem_append.mpr ⟨hids, forall_mem_singleton.mpr hid⟩
    · rw [map_append, map_append, ha, map_singleton, map_singleton, had]
  obtain ⟨rfl, ds, hrw, hids, ha⟩ := hlp
  refine ⟨⟨env.uuid 0, a.lane, a.principal, m.logicalID, m⟩, rfl, rfl, rfl, rfl, rfl,
    hn.2, hn.1,
    ds, hrw, hids, ?_⟩
  have hmap : ((inDeviceOrder copies).zipIdx.map fun ci : Copy × ℕ => ci.1.address)
      = (inDeviceOrder copies).map Copy.address :=
    map_map.symm.trans (congrArg (List.map Copy.address) (zipIdx_map_fst 0 _))
  rw [ha, hmap]
  exact (perm_insertionSort _ copies).map _

/-! ### The invariant -/

/-- Messages are unique under their logical identifier, and each has exactly the deliveries of its
targets but the local one. -/
structure Mail.Sound (mail : Mail) : Prop where
  once : ∀ msg ∈ mail.messages.rows, ∀ msg' ∈ mail.messages.rows,
    msg.lane.server = msg'.lane.server → msg.sender = msg'.sender →
      msg.logicalID = msg'.logicalID → msg = msg'
  filed : ∀ msg ∈ mail.messages.rows, msg.manifest.validate = true ∧
    msg.lane = ⟨msg.manifest.server, msg.manifest.device, msg.manifest.accountEpoch⟩ ∧
      msg.sender = msg.manifest.sender ∧ msg.logicalID = msg.manifest.logicalID
  covered : ∀ msg ∈ mail.messages.rows, ((mail.deliveriesOf msg.id).map Delivery.address).Perm
    ((msg.manifest.targets.filter (!·.isLocal)).map Target.address)
  known : ∀ d ∈ mail.deliveries.rows, ∃ msg ∈ mail.messages.rows, msg.id = d.messageID

/-- A change of deliveries that keeps their messages and addresses. -/
theorem Mail.Sound.update (h : mail.Sound) {p : Delivery → Bool} {f : Delivery → Delivery}
    (hf : ∀ d, (f d).id = d.id) (hms : ∀ d, (f d).messageID = d.messageID)
    (had : ∀ d, (f d).address = d.address) :
    Mail.Sound { mail with deliveries := mail.deliveries.update p f hf } where
  once := h.once
  filed := h.filed
  covered msg hmsg := by
    have hsm := Table.map_filter_update (t := mail.deliveries) (p := p)
      (q := fun d => decide (d.messageID = msg.id)) hf (fun d => by rw [hms]) had
    exact hsm ▸ h.covered msg hmsg
  known d hd := by
    obtain ⟨d', hd', rfl⟩ := (Table.mem_update hf).mp hd
    obtain ⟨msg, hmsg, hid⟩ := h.known d' hd'
    refine ⟨msg, hmsg, hid.trans ?_⟩
    split
    · exact (hms d').symm
    · rfl

theorem Mail.Sound.devices_nodup (h : mail.Sound) {msg : Message}
    (hmsg : msg ∈ mail.messages.rows) : ((mail.deliveriesOf msg.id).map (·.device)).Nodup := by
  have hpm := (h.covered msg hmsg).map fun address => address.2.1
  rw [map_map, map_map] at hpm
  refine hpm.nodup_iff.mpr ?_
  exact (msg.manifest.targets_nodup (h.filed msg hmsg).1).sublist (filter_sublist.map _)

/-- Acceptance keeps the invariant and adds one message. -/
theorem deliver_sound (hml : mail.Sound)
    (hm : a.matches m) (hv : m.validate = true) (hc : (copies.map Copy.address).Perm
      ((m.targets.filter (!·.isLocal)).map Target.address))
    (h : deliver mail keyring env a m copies = .ok (mail', keyring')) :
    mail'.Sound ∧ ∃ msg, msg.id = env.uuid 0 ∧ msg.manifest = m ∧
      ∀ msg', msg' ∈ mail'.messages.rows ↔ msg' ∈ mail.messages.rows ∨ msg' = msg := by
  obtain ⟨msg, hid, hln, hs, hlg, hmf, hi, hn, ds, hrw, hids, hpm⟩ :=
    deliver_ok h
  have hmem : ∀ msg', msg' ∈ mail'.messages.rows ↔ msg' ∈ mail.messages.rows ∨ msg' = msg :=
    fun msg' => Table.mem_insert hi
  have hfr : ∀ msg' ∈ mail.messages.rows, msg'.id ≠ msg.id :=
    Table.get_eq_none.mp (Table.insert_eq_some hi).2
  have hoth : ∀ msg' ∈ mail.messages.rows,
      ¬ (msg'.lane.server = msg.lane.server ∧ msg'.sender = msg.sender ∧
        msg'.logicalID = msg.logicalID) := by
    rw [hln, hs, hlg]
    simpa [findMessage, Source.lane] using hn
  -- the deliveries of a message are the old ones, and for the new message those added
  have hof : ∀ id, mail'.deliveriesOf id
      = mail.deliveriesOf id ++ ds.filter (·.messageID = id) := by
    intro id
    rw [Mail.deliveriesOf, hrw, filter_append]
    rfl
  refine ⟨⟨Table.forall_insert hi (fun x hx => ?_) ?_, Table.forall_insert hi hml.filed ?_,
    Table.forall_insert hi (fun x hx => ?_) ?_, ?_⟩, msg, hid, hmf, hmem⟩
  · refine Table.forall_insert hi (hml.once x hx) fun hsrv hsm hlog => ?_
    exact absurd ⟨hsrv, hsm, hlog⟩ (hoth x hx)
  · refine Table.forall_insert hi (fun y hy hsrv hsm hlog => ?_) fun _ _ _ => rfl
    exact absurd ⟨hsrv.symm, hsm.symm, hlog.symm⟩ (hoth y hy)
  · rw [hmf, hln, hs]
    refine ⟨hv, ?_, hm.2.1, hlg⟩
    simp [Source.lane, hm.1, hm.2.2.1, hm.2.2.2]
  · have hno : ds.filter (·.messageID = x.id) = [] := by
      refine filter_eq_nil_iff.mpr fun d hd => ?_
      rw [hids d hd, ← hid, decide_eq_true_eq]
      exact fun heq => hfr x hx heq.symm
    rw [hof, hno, append_nil]
    exact hml.covered x hx
  · have hno : mail.deliveriesOf msg.id = [] := by
      refine filter_eq_nil_iff.mpr fun d hd => ?_
      obtain ⟨msg', hm', hid'⟩ := hml.known d hd
      rw [decide_eq_true_eq, ← hid']
      exact hfr msg' hm'
    have hall : ds.filter (·.messageID = msg.id) = ds := by
      refine filter_eq_self.mpr fun d hd => ?_
      rw [hids d hd, hid, decide_eq_true_eq]
    rw [hof, hno, hall, nil_append, hmf]
    exact hpm.trans hc
  · rw [hrw]
    refine forall_mem_append.mpr ⟨fun d hd => ?_, fun d hd => ?_⟩
    · obtain ⟨msg', hm', hid'⟩ := hml.known d hd
      exact ⟨msg', (hmem msg').mpr (.inl hm'), hid'⟩
    · exact ⟨msg, (hmem msg).mpr (.inr rfl), hid.trans (hids d hd).symm⟩

/-! ### The outcomes of finalizing -/

/-- The session speaks for the manifest it loads. -/
theorem Attempt.Filed.matches {row : Attempt} (h : row.Filed) (hln : row.lane = a.lane)
    (hs : row.sender = a.principal) : a.matches row.manifest := by
  have hfld : a.lane = ⟨row.manifest.server, row.manifest.device, row.manifest.accountEpoch⟩ :=
    hln.symm.trans h.lane
  injection hfld with hsrv hdev hep
  exact ⟨hsrv, hs.symm.trans h.sender, hdev, hep⟩

/-- Finalizing changes nothing, rejects a staged attempt, or accepts it. -/
theorem finalizeOlmAttempt_cases {db' : Db} {f : Finalized} (hl : db.ledger.Sound)
    (h : finalizeOlmAttempt db env a id = .ok (db', f)) :
    db' = db ∨ ∃ row ∈ db.ledger.attempts.rows, row.key = (a.lane, id) ∧ row.state = staging ∧
      a.matches row.manifest ∧
      ((∃ r : Receipt, r.attemptID = id ∧ r.state = .rejected ∧
          db' = { db with ledger := saveReceipt db.ledger a.lane r }) ∨
        ∃ (r : Receipt) (copies : List Copy) (mail : Mail) (keyring : Keyring),
          r.attemptID = id ∧ r.state = .accepted ∧ r.messageID = env.uuid 0 ∧
          judge db env a row.manifest id = .ok (.accept copies) ∧
          deliver db.mail db.keyring env a row.manifest copies = .ok (mail, keyring) ∧
          db' = { db with
            ledger := saveReceipt db.ledger a.lane r, mail := mail, keyring := keyring }) := by
  simp only [finalizeOlmAttempt, bind_eq_ok] at h
  obtain ⟨loaded, hld, h⟩ := h
  cases loaded with
  | absent => cases h
  | retired =>
    simp only [bind_eq_ok, pure_eq_ok, Prod.mk.injEq] at h
    obtain ⟨-, -, rfl, -⟩ := h
    exact .inl rfl
  | found =>
    obtain ⟨row, hrow, hk, hs, rfl, rfl⟩ := loadAttempt_found hld
    have hfil := (hl row hrow).1
    have hid : row.receipt.attemptID = id := hfil.receiptID.trans (congrArg Prod.snd hk)
    dsimp only at h
    split at h
    · simp only [bind_eq_ok, pure_eq_ok, Prod.mk.injEq] at h
      obtain ⟨-, -, rfl, -⟩ := h
      exact .inl rfl
    · rename_i hstg
      push Not at hstg
      refine .inr ⟨row, hrow, hk, hfil.receiptState ▸ hstg,
        hfil.matches (congrArg Prod.fst hk) hs, ?_⟩
      simp only [bind_eq_ok] at h
      obtain ⟨verdict, hjdg, h⟩ := h
      cases verdict with
      | reject reason =>
        obtain ⟨rfl, -⟩ := Prod.mk.inj (Except.ok.inj h)
        exact .inl ⟨{ row.receipt with state := .rejected, reason := reason }, hid, rfl, rfl⟩
      | accept copies =>
        simp only [bind_eq_ok, pure_eq_ok, Prod.mk.injEq] at h
        obtain ⟨-, -, ⟨mail, keyring⟩, hdlv, rfl, -⟩ := h
        exact .inr ⟨{ row.receipt with state := .accepted, messageID := env.uuid 0 }, copies, mail,
          keyring, hid, rfl, rfl, hjdg, hdlv, rfl⟩

end Noxa.Store

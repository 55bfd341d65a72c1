import Noxa.Store.KeyCalls

/-!
# The admission state machine

What holds across every run of the store: an attempt settles once, a logical message is accepted
once and delivered to exactly the devices its manifest names, which were the current ones, and a
retired number is never used again.

## Main definitions

* `Db.Sound` — the invariant of ledger and mail
* `Admits` — what one step may do to them
* `SettlesOnce`, `AcceptsOnce`, `DeliversToTargets`, `StaysRetired`, `AcceptsCurrent`,
  `FenceFollows` — the guarantees

## Main results

* `step_admits` — every step
* `admission_state_machine` — every run
-/

namespace Noxa.Store

open Admission Fallible List

variable [Setting]

/-- The ledger and the mail are sound, and an accepted attempt has its message. -/
structure Db.Sound (db : Db) : Prop where
  ledger : db.ledger.Sound
  mail : db.mail.Sound
  accepted : ∀ row ∈ db.ledger.attempts.rows, row.state = .accepted →
    ∃ msg ∈ db.mail.messages.rows, msg.id = row.receipt.messageID ∧ msg.manifest = row.manifest

theorem Db.initial_sound (world : World) : (Db.initial world).Sound where
  ledger row hrow := absurd hrow (by simp [Db.initial, Table.empty])
  mail := by constructor <;> simp [Db.initial, Table.empty]
  accepted := by simp [Db.initial, Table.empty]

/-- What one step may do to the ledger and the mail. -/
structure Admits (db db' : Db) (acks : Option (Lane × String)) : Prop where
  sound : db'.Sound
  fences : ∀ lane, db.ledger.fences lane ≤ db'.ledger.fences lane
  becomes : ∀ row ∈ db.ledger.attempts.rows,
    (∃ row' ∈ db'.ledger.attempts.rows, row.Becomes row') ∨ db'.ledger.Retired row.key
  passed : ∀ lane n, db.ledger.fences lane < n → n ≤ db'.ledger.fences lane →
    ∃ row ∈ db.ledger.attempts.rows, row.key = (lane, toString n) ∧ Terminal row.state ∧
      (row.acked = true ∨ acks = some row.key)
  messages : ∀ msg ∈ db.mail.messages.rows, msg ∈ db'.mail.messages.rows
  current : ∀ msg ∈ db'.mail.messages.rows, msg ∉ db.mail.messages.rows → Covers db msg.manifest

/-! ### One lemma for each kind of call -/

variable {db db' : Db} {env : Env}

theorem closeOlmKeys_frame {a : Source} {keys : List String} {l : List OlmKeyLifecycle}
    (h : closeOlmKeys db env a keys = .ok (db', l)) :
    db'.ledger = db.ledger ∧ db'.mail = db.mail := by
  simp only [closeOlmKeys, bind_eq_ok, pure_eq_ok, Prod.mk.injEq] at h
  obtain ⟨-, -, -, -, out, -, rfl, -⟩ := h
  exact ⟨rfl, rfl⟩

section

variable (hdb : db.Sound)

include hdb

/-- A call of the ledger alone that accepts nothing. -/
theorem admits_of_advances {l' : Ledger} {acks : Option (Lane × String)}
    (h : Advances db.ledger l' acks) : Admits db { db with ledger := l' } acks where
  sound :=
    { ledger := h.sound
      mail := hdb.mail
      accepted := by
        intro row' hr' hst
        obtain ⟨row, hrow, hst', -, -, hmf, hsm⟩ := h.accepted row' hr' hst
        obtain ⟨msg, hm, hid, hc⟩ := hdb.accepted row hrow hst'
        refine ⟨msg, hm, ?_, hc.trans hmf.symm⟩
        rcases hsm with ⟨hstg, -⟩ | ⟨-, hrc⟩
        · exact absurd (hst'.symm.trans hstg) (by simp [staging])
        · exact hid.trans (by rw [hrc]) }
  fences := h.fences
  becomes := h.becomes
  passed := h.passed
  messages _ hm := hm
  current _ hm hnew := absurd hm hnew

/-- A call that changes neither the ledger nor the messages. -/
theorem admits_of_frame (hl : db'.ledger = db.ledger)
    (hms : db'.mail.messages = db.mail.messages) (hml : db'.mail.Sound)
    (acks : Option (Lane × String)) : Admits db db' acks where
  sound :=
    { ledger := hl ▸ hdb.ledger
      mail := hml
      accepted := by
        rw [hl, hms]
        exact hdb.accepted }
  fences lane := (congrFun (congrArg Ledger.fences hl) lane).ge
  becomes row hrow := .inl ⟨row, hl ▸ hrow, .refl row⟩
  passed lane n hlow hhi := by
    rw [hl] at hhi
    omega
  messages _ hm := hms ▸ hm
  current _ hm hnew := absurd (hms ▸ hm) hnew

theorem admits_of_kept (hl : db'.ledger = db.ledger) (hml : db'.mail = db.mail)
    (acks : Option (Lane × String)) : Admits db db' acks :=
  admits_of_frame hdb hl (congrArg Mail.messages hml) (hml ▸ hdb.mail) acks

theorem finalizeOlmAttempt_admits {a : Source} {id : String} {f : Finalized}
    (h : finalizeOlmAttempt db env a id = .ok (db', f)) : Admits db db' none := by
  obtain rfl | ⟨row, hrow, hk, hst, hmts, hcs⟩ := finalizeOlmAttempt_cases hdb.ledger h
  · exact admits_of_kept hdb rfl rfl none
  rcases hcs with ⟨r, hid, hr, rfl⟩ | ⟨r, copies, mail, keyring, hid, hr, hmes, hjdg, hdlv, rfl⟩
  · have hqt := saveReceipt_quiet hdb.ledger hrow (hid ▸ hk) hst (.inl hr)
    exact admits_of_advances hdb (hqt.advances none)
  · have hval := (hdb.ledger row hrow).1.valid
    obtain ⟨hcov, hpm⟩ := judge_accept hmts hval hjdg
    obtain ⟨hml, msg, hmsgi, hmf, hmem⟩ :=
      deliver_sound hdb.mail hmts hval hpm hdlv
    refine ⟨⟨saveReceipt_sound hdb.ledger (.inl hr), hml, ?_⟩, fun _ => le_rfl, ?_, ?_, ?_, ?_⟩
    · intro row' hr' hacc
      obtain ⟨row₀, hrow₀, rfl⟩ := mem_saveReceipt.mp hr'
      by_cases hsm : row₀.key = (a.lane, r.attemptID)
      · obtain rfl := db.ledger.attempts.eq_of_key hrow₀ hrow (hsm.trans (hid ▸ hk.symm))
        rw [if_pos hsm]
        exact ⟨msg, (hmem msg).mpr (.inr rfl), hmsgi.trans hmes.symm, hmf⟩
      · rw [if_neg hsm] at hacc ⊢
        obtain ⟨msg', hm', hid', hc⟩ := hdb.accepted row₀ hrow₀ hacc
        exact ⟨msg', (hmem msg').mpr (.inl hm'), hid', hc⟩
    · intro row₀ hrow₀
      exact .inl (saveReceipt_becomes hrow (hid ▸ hk) hst (.inl hr) hrow₀)
    · intro lane n hlow hhi
      exact absurd hhi (not_le.mpr hlow)
    · intro msg' hm'
      exact (hmem msg').mpr (.inl hm')
    · intro msg' hm' hnew
      rw [((hmem msg').mp hm').resolve_left hnew, hmf]
      exact hcov

/-! ### The calls of the keyring change nothing here -/

theorem ackOlmDelivery_admits {a : Source} {id digest : String}
    (h : ackOlmDelivery db a id digest = .ok db') : Admits db db' none := by
  simp only [ackOlmDelivery, bind_eq_ok, pure_eq_ok] at h
  obtain ⟨-, -, d, -, -, -, -, -, rfl⟩ := h
  refine admits_of_frame hdb ?_ ?_ ?_ none
  · rfl
  · rfl
  · refine hdb.mail.update ?_ ?_ ?_ <;> exact fun _ => rfl

theorem expirePendingOlmControls_admits (env : Env) :
    Admits db (expirePendingOlmControls db env) none := by
  refine admits_of_frame hdb ?_ ?_ ?_ none
  · rfl
  · rfl
  · refine hdb.mail.update ?_ ?_ ?_ <;> exact fun _ => rfl

/-! ### Every step -/

/-- The attempt that a call acknowledges. -/
def Call.acknowledges : Call → Option (Lane × String)
  | .retireOlmReceipt a id _ => some (a.lane, id)
  | _ => none

theorem perform_admits {call : Call} {reply : Reply} (h : perform db env call = .ok (db', reply)) :
    Admits db db' call.acknowledges := by
  cases call with
  | beginOlmAttempt =>
    obtain ⟨⟨l, r⟩, hca, rfl, -⟩ := map_eq_ok_pair.mp h
    exact admits_of_advances hdb ((beginOlmAttempt_quiet hdb.ledger hca).advances none)
  | putOlmPart =>
    obtain ⟨⟨l, e⟩, hca, rfl, -⟩ := map_eq_ok_pair.mp h
    exact admits_of_advances hdb ((putOlmPart_quiet hdb.ledger hca).advances none)
  | finalizeOlmAttempt =>
    obtain ⟨⟨db'', f⟩, hca, rfl, -⟩ := map_eq_ok_pair.mp h
    exact finalizeOlmAttempt_admits hdb hca
  | abortOlmAttempt =>
    obtain ⟨⟨l, r⟩, hca, rfl, -⟩ := map_eq_ok_pair.mp h
    exact admits_of_advances hdb ((abortOlmAttempt_quiet hdb.ledger hca).advances none)
  | expireOlmAttempts =>
    obtain ⟨rfl, -⟩ := Prod.mk.inj (Except.ok.inj h)
    exact admits_of_advances hdb ((expireOlmAttempts_quiet hdb.ledger env 200 "").advances none)
  | retireOlmReceipt =>
    obtain ⟨⟨l, n⟩, hca, rfl, -⟩ := map_eq_ok_pair.mp h
    exact admits_of_advances hdb (retireOlmReceipt_advances hdb.ledger hca)
  | publishOlmBundle =>
    obtain ⟨db'', hca, rfl, -⟩ := map_eq_ok_pair.mp h
    obtain ⟨⟨hl, hml⟩, -⟩ := publishOlmBundle_turned hca
    exact admits_of_kept hdb hl hml none
  | resetOlmAccount =>
    obtain ⟨⟨db'', out⟩, hca, rfl, -⟩ := map_eq_ok_pair.mp h
    obtain ⟨⟨hl, hml⟩, -⟩ := resetOlmAccount_turns hca
    exact admits_of_kept hdb hl hml none
  | claimOlmKey =>
    obtain ⟨⟨db'', c⟩, hca, rfl, -⟩ := map_eq_ok_pair.mp h
    obtain ⟨⟨hl, hml⟩, -⟩ := claimOlmKey_turned hca
    exact admits_of_kept hdb hl hml none
  | ackOlmDelivery =>
    obtain ⟨db'', hca, rfl, -⟩ := map_eq_ok_pair.mp h
    exact ackOlmDelivery_admits hdb hca
  | closeOlmKeys =>
    obtain ⟨⟨db'', l⟩, hca, rfl, -⟩ := map_eq_ok_pair.mp h
    obtain ⟨hl, hml⟩ := closeOlmKeys_frame hca
    exact admits_of_kept hdb hl hml none
  | expirePendingOlmControls =>
    obtain ⟨rfl, -⟩ := Prod.mk.inj (Except.ok.inj h)
    exact expirePendingOlmControls_admits hdb env
  | other =>
    obtain ⟨rfl, -⟩ := Prod.mk.inj (Except.ok.inj h)
    refine admits_of_kept hdb ?_ ?_ none <;> rfl

/-- **Every step admits what it should.** -/
theorem step_admits (i : Input) : Admits db (step db i).1 i.call.acknowledges := by
  rcases step_cases db i with ⟨e, he⟩ | hok
  · rw [he]
    exact admits_of_kept hdb rfl rfl _
  · exact perform_admits hdb hok

/-! ### Every run -/

end

/-- An attempt leaves staging once, for good, and keeps its receipt until it is retired. -/
def SettlesOnce (db db' : Db) : Prop :=
  ∀ row ∈ db.ledger.attempts.rows, (row.state = staging ∨ Terminal row.state) ∧
    row.receipt.state = row.state ∧
      ((∃ row' ∈ db'.ledger.attempts.rows, row.Becomes row') ∨ db'.ledger.Retired row.key)

/-- A message stays, is the only one under its logical identifier, and is what an accepted attempt
names. -/
def AcceptsOnce (db db' : Db) : Prop :=
  (∀ msg ∈ db.mail.messages.rows, msg ∈ db'.mail.messages.rows) ∧
    (∀ msg ∈ db.mail.messages.rows, ∀ msg' ∈ db'.mail.messages.rows,
      msg.lane.server = msg'.lane.server → msg.sender = msg'.sender →
        msg.logicalID = msg'.logicalID → msg = msg') ∧
    ∀ row ∈ db.ledger.attempts.rows, row.state = .accepted → ∃ msg ∈ db.mail.messages.rows,
      msg.id = row.receipt.messageID ∧ msg.manifest = row.manifest

/-- A message has exactly one delivery for every target but the local one, and no other. -/
def DeliversToTargets (db : Db) : Prop :=
  ∀ msg ∈ db.mail.messages.rows,
    (∀ t ∈ msg.manifest.targets, t.isLocal = false → ∃! d, d ∈ db.mail.deliveries.rows ∧
      d.messageID = msg.id ∧ d.device = t.device) ∧
    ∀ d ∈ db.mail.deliveries.rows, d.messageID = msg.id →
      ∃ t ∈ msg.manifest.targets, t.isLocal = false ∧ t.address = d.address

/-- A number at or below the fence stays there, and has no attempt. -/
def StaysRetired (db db' : Db) : Prop :=
  ∀ k, db.ledger.Retired k → db'.ledger.Retired k ∧ ∀ row ∈ db'.ledger.attempts.rows, row.key ≠ k

/-- A message that is new covers its audience as it is. -/
def AcceptsCurrent (db db' : Db) : Prop :=
  ∀ msg ∈ db'.mail.messages.rows, msg ∉ db.mail.messages.rows → Covers db msg.manifest

/-- The fence moves up only, over settled attempts that are acknowledged, by this call or before. -/
def FenceFollows (db db' : Db) (call : Call) : Prop :=
  ∀ lane, db.ledger.fences lane ≤ db'.ledger.fences lane ∧
    ∀ n, db.ledger.fences lane < n → n ≤ db'.ledger.fences lane →
      ∃ row ∈ db.ledger.attempts.rows, row.key = (lane, toString n) ∧ Terminal row.state ∧
        (row.acked = true ∨ call.acknowledges = some row.key)

theorem Db.Sound.deliversToTargets (h : db.Sound) : DeliversToTargets db := by
  intro msg hm
  have hpm := h.mail.covered msg hm
  have hmem : ∀ d, d ∈ db.mail.deliveriesOf msg.id ↔
      d ∈ db.mail.deliveries.rows ∧ d.messageID = msg.id := by
    intro d
    simp [Mail.deliveriesOf, mem_filter]
  constructor
  · intro t ht hrmt
    have had : t.address ∈ (db.mail.deliveriesOf msg.id).map Delivery.address := by
      rw [hpm.mem_iff]
      exact mem_map_of_mem (mem_filter.mpr ⟨ht, by simp [hrmt]⟩)
    obtain ⟨d, hd, heq⟩ := mem_map.mp had
    have hdev : d.device = t.device := congrArg (fun x => x.2.1) heq
    obtain ⟨hrow, hid⟩ := (hmem d).mp hd
    refine ⟨d, ⟨hrow, hid, hdev⟩, fun d' hd' => ?_⟩
    exact inj_on_of_nodup_map (h.mail.devices_nodup hm) ((hmem d').mpr ⟨hd'.1, hd'.2.1⟩) hd
      (hd'.2.2.trans hdev.symm)
  · intro d hd hid
    have had : d.address ∈ (msg.manifest.targets.filter (!·.isLocal)).map Target.address := by
      rw [← hpm.mem_iff]
      exact mem_map_of_mem ((hmem d).mpr ⟨hd, hid⟩)
    obtain ⟨t, ht, heq⟩ := mem_map.mp had
    obtain ⟨htgt, hrmt⟩ := mem_filter.mp ht
    exact ⟨t, htgt, by simpa using hrmt, heq⟩

/-- What a run keeps of the state it starts from. -/
structure Progress (db db' : Db) : Prop where
  sound : db'.Sound
  fences : ∀ lane, db.ledger.fences lane ≤ db'.ledger.fences lane
  becomes : ∀ row ∈ db.ledger.attempts.rows,
    (∃ row' ∈ db'.ledger.attempts.rows, row.Becomes row') ∨ db'.ledger.Retired row.key
  messages : ∀ msg ∈ db.mail.messages.rows, msg ∈ db'.mail.messages.rows

theorem run_progress (hdb : db.Sound) (inputs : List Input) :
    Progress db (Machine.run step db inputs) := by
  refine Machine.run_invariant (P := Progress db) (fun db' i h => ?_)
    ⟨hdb, fun _ => le_rfl, fun row hrow => .inl ⟨row, hrow, .refl row⟩, fun _ hm => hm⟩ inputs
  have hs := step_admits h.sound i
  refine ⟨hs.sound, fun lane => (h.fences lane).trans (hs.fences lane), ?_, ?_⟩
  · intro row hrow
    rcases h.becomes row hrow with ⟨row', hr', hbec⟩ | ⟨n, hn, hle⟩
    · rcases hs.becomes row' hr' with ⟨row'', hrow'', hbec'⟩ | hret
      · exact .inl ⟨row'', hrow'', hbec.trans hbec'⟩
      · exact .inr (hbec.1 ▸ hret)
    · exact .inr ⟨n, hn, hle.trans (hs.fences _)⟩
  · intro msg hm
    exact hs.messages msg (h.messages msg hm)

/-- **The admission state machine.** Whatever calls come before and after, in whatever order:
attempts settle once, logical messages are accepted once and delivered exactly to the targets of
their manifest, which are the current ones when the message is accepted, and retired numbers stay
unused, the fence following the acknowledged attempts. -/
theorem admission_state_machine (world : World) (before after : List Input) (i : Input) :
    let db := Machine.run step (Db.initial world) before
    let db' := Machine.run step db after
    SettlesOnce db db' ∧ AcceptsOnce db db' ∧ DeliversToTargets db ∧ StaysRetired db db' ∧
      AcceptsCurrent db (step db i).1 ∧ FenceFollows db (step db i).1 i.call := by
  intro db db'
  have hdb : db.Sound := (run_progress (Db.initial_sound world) before).sound
  have hrun : Progress db db' := run_progress hdb after
  have hs := step_admits hdb i
  refine ⟨?_, ⟨hrun.messages, ?_, hdb.accepted⟩, hdb.deliversToTargets, ?_, hs.current, ?_⟩
  · intro row hrow
    have hfil := (hdb.ledger row hrow).1
    exact ⟨hfil.state, hfil.receiptState, hrun.becomes row hrow⟩
  · intro msg hm msg' hm'
    exact hrun.sound.mail.once msg (hrun.messages msg hm) msg' hm'
  · rintro k ⟨n, hn, hle⟩
    have hret : db'.ledger.Retired k := ⟨n, hn, hle.trans (hrun.fences _)⟩
    refine ⟨hret, fun row hrow hk => ?_⟩
    exact (hrun.sound.ledger row hrow).2 (hk ▸ hret)
  · exact fun lane => ⟨hs.fences lane, hs.passed lane⟩

end Noxa.Store

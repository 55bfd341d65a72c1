import Noxa.Store.KeyLifecycle

/-!
# The resets of a device, read back

The store keeps every reset it accepts, each from the account the device had to the next one. So a
reader that holds an earlier account and asks for pages of resets is led to the present one.

## Main definitions

* `Recorded` — the resets since a pin lead from it to the present

## Main results

* `run_recorded` — every run
* `reset_chain_verified` — what a reader may conclude, and that it succeeds
-/

namespace Noxa.Store

open Directory List

variable [Setting] {db db' : Db} {reader : Reader} {i : Input} {reply : Reply}

/-! ### Every run -/

/-- Every reset on record leads away from an account that its device has left. -/
def Dated (kr : Keyring) : Prop :=
  ∀ row ∈ kr.resets.rows, ∃ acc, kr.accounts.get row.device = some acc ∧
    row.record.oldEpoch < acc.accountEpoch

theorem Dated.resets (h : Dated db.keyring) (hrss : Resets db db' i.call reply) :
    Dated db'.keyring := by
  intro row hrow
  rcases hrss with hst | ⟨a, r, b, out, -, -, -, hrst⟩
  · obtain ⟨acc, ha, hlt⟩ := h row (hst.resets ▸ hrow)
    obtain ⟨acc', ha', hp⟩ := hst.pins row.device acc ha
    have hep : acc'.accountEpoch = acc.accountEpoch := congrArg ResetPin.epoch hp
    exact ⟨acc', ha', hep ▸ hlt⟩
  · obtain ⟨acc, key, type, ha, -, hac⟩ := hrst.from_account
    obtain ⟨acc', ha', hp⟩ := hrst.to_account
    obtain ⟨new, hrw, hdev, hrec⟩ := hrst.recorded
    obtain ⟨hold, -⟩ := Reader.epoch_of_accepts hac
    have hep : acc'.accountEpoch = acc.accountEpoch + 1 :=
      (congrArg ResetPin.epoch hp).trans (Reset.newEpoch_of_verify hac hrst.epoch)
    have hol : r.oldEpoch = acc.accountEpoch := hold
    by_cases hsm : row.device = a.device
    · rw [hsm]
      refine ⟨acc', ha', ?_⟩
      rw [hrw, mem_append, mem_singleton] at hrow
      rcases hrow with hrow | rfl
      · obtain ⟨acc₀, ha₀, hlt⟩ := h row hrow
        obtain rfl : acc₀ = acc := Option.some.inj (ha₀.symm.trans (hsm ▸ ha))
        omega
      · rw [hrec]
        omega
    · rw [hrst.others row.device hsm]
      rw [hrw, mem_append, mem_singleton] at hrow
      rcases hrow with hrow | rfl
      · exact h row hrow
      · exact absurd hdev hsm

/-- A reset of the reader's device that leads away from the epoch of a pin or a later one. -/
def ResetRow.since (reader : Reader) (start : ResetPin) (row : ResetRow) : Bool :=
  decide (row.device = reader.device ∧ start.epoch ≤ row.record.oldEpoch)

/-- The resets of the reader's device since a pin, in some order, lead from it to the present. -/
def Recorded (reader : Reader) (start : ResetPin) (kr : Keyring) : Prop :=
  ∃ acc, kr.accounts.get reader.device = some acc ∧ ∃ resets, Leads reader start resets acc.pin ∧
    ((kr.resets.rows.filter (ResetRow.since reader start)).map (·.record)).Perm resets

/-- The resets that are accepted for the reader's device are made on its server, under the key the
reader holds. -/
def SameAuthority (reader : Reader) (db : Db) (i : Input) : Prop :=
  ∀ a r b out, i.call = .resetOlmAccount a r b → (step db i).2 = .reset out →
    a.device = reader.device →
      a.server = reader.server ∧ ∃ type, Setting.pemBlock a.signing = some (type, reader.key)

theorem Recorded.resets {start : ResetPin} (h : Recorded reader start db.keyring)
    (ho : reader.principal = Setting.owner reader.device)
    (hau : SameAuthority reader db i)
    (hrss : Resets db (step db i).1 i.call (step db i).2) :
    Recorded reader start (step db i).1.keyring := by
  obtain ⟨acc, ha, resets, hl, hpm⟩ := h
  rcases hrss with hst | ⟨a, r, b, out, hca, hrpl, hpn, hrst⟩
  · obtain ⟨acc', ha', hp⟩ := hst.pins reader.device acc ha
    exact ⟨acc', ha', resets, hp ▸ hl, hst.resets ▸ hpm⟩
  obtain ⟨row, hrw, hdev, hrec⟩ := hrst.recorded
  by_cases hsm : a.device = reader.device
  · obtain ⟨hs, type, hkey⟩ := hau a r b out hca hrpl hsm
    obtain ⟨acc₀, key, type', ha₀, hkey', hac⟩ := hrst.from_account
    obtain ⟨acc', ha', hp⟩ := hrst.to_account
    obtain rfl : acc₀ = acc := Option.some.inj (ha₀.symm.trans (hsm ▸ ha))
    obtain ⟨-, rfl⟩ := Prod.mk.inj (Option.some.inj (hkey.symm.trans hkey'))
    have hrd : Reader.mk reader.key a.server a.principal a.device = reader := by
      rw [hs, hpn, hsm, ← ho]
    rw [hrd] at hac
    obtain ⟨hold, hpos⟩ := Reader.epoch_of_accepts hac
    have hep := hl.epoch hpos
    refine ⟨acc', hsm ▸ ha', resets ++ [r], ?_, ?_⟩
    · rw [hp]
      exact hl.append (.cons hac (.nil _))
    have hkt : row.since reader start = true := by
      rw [ResetRow.since, decide_eq_true_eq, hdev, hrec]
      exact ⟨hsm, by omega⟩
    rw [hrw, filter_append, map_append, filter_cons_of_pos hkt, filter_nil, map_singleton, hrec]
    exact hpm.append_right [r]
  · have hdrp : ¬ row.since reader start = true := by
      rw [ResetRow.since, decide_eq_true_eq, hdev]
      exact fun hbt => hsm hbt.1
    refine ⟨acc, ?_, resets, hl, ?_⟩
    · rw [hrst.others _ (Ne.symm hsm), ha]
    · rw [hrw, filter_append, filter_cons_of_neg hdrp, filter_nil, append_nil]
      exact hpm

theorem run_recorded {acc : Account} {inputs : List Input} (hdb : db.Sound)
    (hkr : db.keyring.Sound) (hdtd : Dated db.keyring)
    (ho : reader.principal = Setting.owner reader.device)
    (ha : db.keyring.accounts.get reader.device = some acc)
    (hau : Machine.Along step (SameAuthority reader) db inputs) :
    Recorded reader acc.pin (Machine.run step db inputs).keyring := by
  have hstr : (db.Sound ∧ db.keyring.Sound) ∧ Recorded reader acc.pin db.keyring := by
    refine ⟨⟨hdb, hkr⟩, acc, ha, [], .nil _, ?_⟩
    have hno : db.keyring.resets.rows.filter (ResetRow.since reader acc.pin) = [] := by
      refine filter_eq_nil_iff.mpr fun row hrow hsnc => ?_
      rw [ResetRow.since, decide_eq_true_eq] at hsnc
      obtain ⟨acc', ha', hlt⟩ := hdtd row hrow
      obtain rfl : acc' = acc := Option.some.inj (ha'.symm.trans (hsnc.1 ▸ ha))
      exact absurd hsnc.2 (not_le.mpr hlt)
    rw [hno]
    exact .nil
  refine (Machine.run_invariant_along (P := fun db' : Db => (db'.Sound ∧ db'.keyring.Sound) ∧
    Recorded reader acc.pin db'.keyring) (fun db' i hi h => ?_) hstr hau).2
  obtain ⟨hsrs, hrss⟩ := step_serves h.1.1 h.1.2 i
  exact ⟨⟨(step_admits h.1.1 i).sound, hsrs.turns.sound⟩, h.2.resets ho hi hrss⟩

/-! ### Serving pages -/

/-- The rows of a chain, sorted by epoch, are the chain. -/
theorem insertionSort_eq_of_perm {p q : ResetPin} {rows resets : List Reset}
    (h : Leads reader p resets q) (hq : 0 ≤ q.epoch) (hpm : rows.Perm resets) :
    rows.insertionSort (fun r r' => r.oldEpoch ≤ r'.oldEpoch) = resets := by
  have hle : resets.Pairwise fun r r' => r.oldEpoch ≤ r'.oldEpoch :=
    (h.sorted hq).1.imp fun hlt => le_of_lt hlt
  have htot : Std.Total fun r r' : Reset => r.oldEpoch ≤ r'.oldEpoch :=
    ⟨fun r r' => le_total r.oldEpoch r'.oldEpoch⟩
  have htr : IsTrans Reset fun r r' => r.oldEpoch ≤ r'.oldEpoch :=
    ⟨fun _ _ _ => le_trans⟩
  refine List.Perm.eq_of_pairwise (fun r r' hr hr' hle₁ hle₂ => ?_)
    (pairwise_insertionSort _ rows) hle ((perm_insertionSort _ rows).trans hpm)
  -- epochs are distinct along the chain
  have hmem : r ∈ resets := hpm.mem_iff.mp ((mem_insertionSort _).mp hr)
  have hnd : (resets.map (·.oldEpoch)).Nodup := pairwise_map.mpr ((h.sorted hq).1.imp ne_of_lt)
  exact inj_on_of_nodup_map hnd hmem hr' (le_antisymm hle₁ hle₂)

theorem olmResetChain_page {a : Source} {start q : ResetPin} {resets : List Reset}
    (hau : sourceAuthority db a false = .ok ()) (hs : a.server = reader.server)
    (hl : Leads reader start resets q) (hq : 0 ≤ q.epoch)
    (hpm : ((db.keyring.resets.rows.filter (ResetRow.since reader start)).map (·.record)).Perm
      resets) (k : ℕ) :
    olmResetChain db a reader.device (start.epoch + k) = .ok ((resets.drop k).take pageSize) := by
  have hrw : ((db.keyring.resets.rows.filter fun row =>
      decide (row.device = reader.device ∧ start.epoch + k ≤ row.record.oldEpoch)).map
        (·.record)).Perm (resets.drop k) := by
    have hlat : db.keyring.resets.rows.filter (fun row =>
        decide (row.device = reader.device ∧ start.epoch + k ≤ row.record.oldEpoch)) =
        (db.keyring.resets.rows.filter (ResetRow.since reader start)).filter
          ((fun r : Reset => decide (start.epoch + k ≤ r.oldEpoch)) ∘ (·.record)) := by
      rw [filter_filter]
      refine filter_congr fun row _ => ?_
      rw [ResetRow.since, Function.comp_apply, ← Bool.decide_and, decide_eq_decide]
      constructor
      · rintro ⟨hdev, hle⟩
        exact ⟨hle, hdev, by omega⟩
      · rintro ⟨hle, hdev, -⟩
        exact ⟨hdev, hle⟩
    rw [hlat, ← filter_map, ← hl.filter_eq_drop hq k]
    exact hpm.filter _
  have hcut : Leads reader start (resets.take k ++ resets.drop k) q := by
    rw [take_append_drop]
    exact hl
  obtain ⟨m, -, hrs⟩ := hcut.split
  rw [olmResetChain, hau]
  show Except.ok _ = _
  rw [insertionSort_eq_of_perm hrs hq hrw, filter_eq_self.mpr]
  · rfl
  · intro r hr
    rw [hs, decide_eq_true_eq]
    exact hrs.server r (mem_of_mem_take hr)

/-- **Verifying a chain of resets.** Whatever the server answers, a success is reached by resets
that the device signed, each from the account before it to the next epoch, and a failure leaves the
pin as it was; the server is asked 64 times at most. Pages from the store lead to the present
account of the device from every account it had before, if no more than 64 pages lie in between. -/
theorem reset_chain_verified : (∀ (ε : Type) (reader : Reader) (start target : ResetPin)
      (fetch : ℕ → Int → Except ε (List Reset)),
      (verifyResetChain reader start target fetch).Sound reader start target ∧
        (verifyResetChain reader start target fetch).calls ≤ 64) ∧
    ∀ (world : World) (before after : List Input) (reader : Reader) (a : Source)
      (acc acc' : Account) (target : ResetPin),
      let db := Machine.run step (Db.initial world) before
      let db' := Machine.run step db after
      reader.principal = Setting.owner reader.device →
      Machine.Along step (SameAuthority reader) db after →
      db.keyring.accounts.get reader.device = some acc →
      db'.keyring.accounts.get reader.device = some acc' →
      acc.accountEpoch < acc'.accountEpoch → acc'.accountEpoch ≤ acc.accountEpoch + 32 * 64 →
      sourceAuthority db' a false = .ok () → a.server = reader.server →
      target.epoch = acc'.accountEpoch → target.identity = acc'.identity →
      (target.signing = "" ∨ target.signing = acc'.signing) →
      (verifyResetChain reader acc.pin target
          fun _ epoch => olmResetChain db' a reader.device epoch).err = none ∧
        (verifyResetChain reader acc.pin target
          fun _ epoch => olmResetChain db' a reader.device epoch).pin = acc'.pin := by
  refine ⟨fun ε reader start target fetch => verifyResetChain_sound reader start target fetch, ?_⟩
  intro world before after reader a acc acc' target db db' ho hau ha ha' hlat hpag
    hsrc hs hep hidn hsgn
  obtain ⟨⟨hdb, hkr⟩, hdtd⟩ : (db.Sound ∧ db.keyring.Sound) ∧ Dated db.keyring := by
    refine Machine.run_invariant (P := fun db : Db => (db.Sound ∧ db.keyring.Sound) ∧
      Dated db.keyring) (fun db i h => ?_)
      ⟨⟨Db.initial_sound world, Db.initial_keyring_sound world⟩, fun row hrow => ?_⟩ before
    · obtain ⟨hsrs, hrss⟩ := step_serves h.1.1 h.1.2 i
      exact ⟨⟨(step_admits h.1.1 i).sound, hsrs.turns.sound⟩, h.2.resets hrss⟩
    · simp [Db.initial, Table.empty] at hrow
  obtain ⟨acc₁, ha₁, resets, hl, hpm⟩ :=
    run_recorded hdb hkr hdtd ho ha hau
  obtain rfl : acc₁ = acc' := Option.some.inj (ha₁.symm.trans ha')
  have hpos : 0 ≤ acc₁.pin.epoch := hl.nonneg_of_lt hlat
  have hlen := hl.epoch hpos
  have hlt : ¬ target.epoch ≤ acc.pin.epoch := by
    rw [hep]
    exact not_le.mpr hlat
  rw [verifyResetChain, if_neg hlt]
  refine chainLoop_complete hep.symm hidn.symm (hsgn.imp_right fun h => h.symm) hpos
    (fun _ k _ => olmResetChain_page hsrc hs hl hpos hpm k) maxResetChainPages 0 0 []
    (Nat.zero_le _) (by simp) hl ?_
  simp only [Account.pin] at hlen
  rw [pageSize, maxResetChainPages]
  omega

end Noxa.Store

/-! ### A lost account -/

namespace Noxa.Store.LostAccount

open Directory List

/-- Keys and signatures are taken as they come. -/
local instance trusting : Setting where
  digest _ := String.ofList (replicate 64 '0')
  agrees _ := true
  signingPoint _ := true
  manifestBytes _ := []
  pairText _ _ := ""
  decodeCopies _ := none
  decodeEnvelope _ := none
  jsonValid _ := true
  verifies _ _ _ := true
  copyBytes _ := []
  bundleBytes _ := []
  resetBytes _ := []
  lifecycleBytes _ _ _ _ _ := []
  pemBlock _ := some ("PUBLIC KEY", replicate 32 0)
  owner _ := "ada"

def keyText (length : ℕ) (b : UInt8) : String :=
  String.ofList (Base64.encodeRaw (replicate length b))

def server : String := String.ofList ("tls-sha256:".toList ++ replicate 64 '0')

/-- The bundle of an account, with one key. -/
def bundle (epoch : Int) (b : UInt8) : Bundle where
  version := Directory.version
  protocol := protocol
  server := server
  principal := "ada"
  deviceID := "laptop"
  accountEpoch := epoch
  generation := epoch
  issuedAt := 1
  expiresAt := 1000
  identity := keyText 32 b
  signing := keyText 32 b
  oneTimeKeys := [⟨keyText 8 0, keyText 32 9⟩]
  signature := replicate 64 0

def lost : Reset where
  version := resetVersion
  server := server
  principal := "ada"
  device := "laptop"
  transitionID := "t"
  oldEpoch := 1
  oldIdentity := keyText 32 1
  oldSigning := keyText 32 1
  newEpoch := 2
  newIdentity := keyText 32 2
  newSigning := keyText 32 2
  generation := 2
  publicationDigest := String.ofList (replicate 64 '0')
  reason := "lost"
  signature := replicate 64 0

def laptop : Device := ⟨"laptop", "ada", .desktop, "pem", "", true, "", [], 0, none, none⟩

def home : World where
  devices := Table.empty.put laptop
  owned _ hd := by rw [mem_singleton.mp hd]; rfl
  rosters _ := ⟨1, by decide⟩
  group _ := .missing

def session : Source := ⟨server, "ada", "laptop", "pem", 1, false⟩

def env : Env := ⟨fun _ => 10, 10, fun _ => "", fun _ => 0, fun _ => 0, fun _ => false⟩

def published : Input := ⟨.publishOlmBundle "ada" "laptop" server (bundle 1 1), env, false⟩

def reset : Input := ⟨.resetOlmAccount session lost (bundle 2 2), env, false⟩

/-- The account that goes with the bundle. -/
def account (epoch : Int) (b : UInt8) : Account :=
  ⟨"laptop", keyText 32 b, keyText 32 b, epoch, 0, bundle epoch b, epoch⟩

def reader : Reader := ⟨replicate 32 0, server, "ada", "laptop"⟩

/-- A reader that holds the first account is led to the second one. -/
theorem reset_chain_verified_lost :
    let db := Machine.run step (Db.initial home) [published]
    let db' := Machine.run step db [reset]
    db.keyring.accounts.get "laptop" = some (account 1 1) ∧
    db'.keyring.accounts.get "laptop" = some (account 2 2) ∧
    (verifyResetChain reader (account 1 1).pin (account 2 2).pin
      fun _ epoch => olmResetChain db' session "laptop" epoch).pin = (account 2 2).pin := by
  intro db db'
  have ha : db.keyring.accounts.get "laptop" = some (account 1 1) := by decide +kernel
  have ha' : db'.keyring.accounts.get "laptop" = some (account 2 2) := by decide +kernel
  refine ⟨ha, ha', (reset_chain_verified.2 home [published] [reset] reader session (account 1 1)
    (account 2 2) (account 2 2).pin rfl ⟨?_, trivial⟩ ha ha' (by decide) (by decide)
    (by decide +kernel) rfl rfl rfl (.inr rfl)).2⟩
  intro a r b out hca _ _
  cases hca
  exact ⟨rfl, _, rfl⟩

end Noxa.Store.LostAccount

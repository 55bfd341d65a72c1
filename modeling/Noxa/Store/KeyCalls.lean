import Noxa.Directory.ResetChain
import Noxa.Store.Acceptance
import Noxa.Store.KeyRows

/-!
# What the calls do to the directory

## Main definitions

* `AccountMoves` — an account is new, unchanged, or one generation further
* `Turns` — what one call may do to the keyring
* `Account.pin` — what a reader holds of an account
* `PinsStay`, `ResetBy` — what a call does to accounts and resets

## Main results

* `publishOlmBundle_turned`, `resetOlmAccount_turns`, `claimOlmKey_turned`, `deliver_turned`,
  `closeOlmKeys_turned`, `release_turned` — one lemma for each call
-/

namespace Noxa.Store

open Directory Admission Fallible List Table

variable {kr kr' : Keyring} {env : Env} {a : Source} {c : Copy} {m : Manifest} {b : Bundle}
  {principal requestID targetID server keyID target deliveryID : String} {now claimUntil : Int}
  {keys : Table KeyRow KeyRow.id} {k : KeyRow} {accounts : Table Account Account.device}
  {account : Account}

/-- An account is unchanged, new, or one generation further, in its epoch or the next. -/
def AccountMoves (o o' : Option Account) : Prop :=
  o' = o ∨ (o = none ∧ ∃ acc', o' = some acc' ∧ acc'.generation = 1 ∧ acc'.accountEpoch = 1) ∨
    ∃ acc acc', o = some acc ∧ o' = some acc' ∧ acc'.generation = acc.generation + 1 ∧
      (acc'.accountEpoch = acc.accountEpoch ∨ acc'.accountEpoch = acc.accountEpoch + 1)

theorem AccountMoves.generation_le {o o' : Option Account} (h : AccountMoves o o') {g : Int}
    (ha : ∃ acc, o = some acc ∧ g ≤ acc.generation) :
    ∃ acc', o' = some acc' ∧ g ≤ acc'.generation := by
  obtain ⟨acc, rfl, hle⟩ := ha
  rcases h with rfl | ⟨hno, -⟩ | ⟨acc₀, acc', hso, rfl, hgn, -⟩
  · exact ⟨acc, rfl, hle⟩
  · simp at hno
  · cases hso
    exact ⟨acc', rfl, by omega⟩

theorem findRequest_eq_some {c : Claim} (h : findRequest keys principal requestID = some (k, c)) :
    k ∈ keys.rows ∧ k.claim = some c ∧ c.claimedBy = principal ∧ c.requestID = requestID := by
  obtain ⟨k', hk', hfnd⟩ := exists_of_findSome?_eq_some h
  split at hfnd
  · simp at hfnd
  rename_i c' hc'
  obtain ⟨hn, heq⟩ := Option.ite_none_right_eq_some.mp hfnd
  obtain ⟨rfl, rfl⟩ : k' = k ∧ c' = c := by simpa using heq
  exact ⟨hk', hc', hn⟩

theorem findRequest_eq_none
    (h : findRequest keys principal requestID = none) (hk : k ∈ keys.rows) {c : Claim}
    (hc : k.claim = some c) : ¬ (c.claimedBy = principal ∧ c.requestID = requestID) := by
  intro hn
  have hno := List.findSome?_eq_none_iff.mp h k hk
  simp [hc, hn] at hno

theorem mem_claimable {p : Publication} (h : (k, p) ∈ claimable kr env account targetID server) :
    k ∈ kr.keys.rows ∧ p ∈ kr.publications.rows ∧ k.id.device = p.device ∧
      k.generation = p.generation ∧ k.lifecycle = .available := by
  rw [claimable, mem_insertionSort, mem_filterMap] at h
  obtain ⟨k', hk', hso⟩ := h
  split at hso
  · simp at hso
  rename_i p' hp'
  obtain ⟨hm, hkey⟩ := get_eq_some.mp hp'
  obtain ⟨hok, heq⟩ := Option.ite_none_right_eq_some.mp hso
  obtain ⟨rfl, rfl⟩ : k' = k ∧ p' = p := by simpa using heq
  exact ⟨hk', hm, (congrArg Prod.fst hkey).symm, (congrArg Prod.snd hkey).symm, hok.2.2.1⟩

theorem findClaimed_eq_some {claim : Claim} (h : findClaimed kr a c = some (k, claim)) :
    k ∈ kr.keys.rows ∧ k.claim = some claim ∧ k.id.device = c.device ∧
      k.id.accountEpoch = c.accountEpoch ∧ claim.requestID = c.claimID ∧
      claim.claimedDevice = a.device ∧ claim.claimedEpoch = a.accountEpoch := by
  obtain ⟨k', hk', hfnd⟩ := exists_of_findSome?_eq_some h
  split at hfnd
  · simp at hfnd
  rename_i claim' hclm
  obtain ⟨hok, heq⟩ := Option.ite_none_right_eq_some.mp hfnd
  obtain ⟨rfl, rfl⟩ : k' = k ∧ claim' = claim := by simpa using heq
  have hn := hok.2.2.2
  rw [Claim.names, decide_eq_true_eq] at hn
  exact ⟨hk', hclm, hok.1, hok.2.1, hn.1, hn.2.2⟩

theorem insertKeys_ok {keys' : Table KeyRow KeyRow.id} (h : insertKeys keys b = .ok keys') :
    keys'.rows = keys.rows ++ b.oneTimeKeys.map (keyRow b) := by
  refine foldlM_ok_loop (P := fun done (t : Table KeyRow KeyRow.id) =>
    t.rows = keys.rows ++ done.map (keyRow b)) h ?_ (by simp)
  intro done k t t' ht hrnd
  rw [(insert_eq_some (found_eq_ok.mp hrnd)).1, ht, append_assoc, map_append]
  rfl

/-- Storing a bundle leaves the rest. -/
theorem publish_frame (h : publish kr b = .ok kr') :
    kr'.resets = kr.resets ∧ ∀ device, kr'.accounts.get device = kr.accounts.get device := by
  simp only [publish, bind_eq_ok, pure_eq_ok] at h
  obtain ⟨publications, -, keys, -, rfl⟩ := h
  exact ⟨rfl, fun _ => rfl⟩

/-- Replacing the account of one device. -/
theorem update_moves {id : String} {f : Account → Account} (hf : ∀ acc, (f acc).device = acc.device)
    (hg : accounts.get id = some account)
    (hgn : (f account).generation = account.generation + 1)
    (hep : (f account).accountEpoch = account.accountEpoch ∨
      (f account).accountEpoch = account.accountEpoch + 1) :
    (accounts.update (fun row => row.device = id) f hf).get id = some (f account) ∧
      (∀ device, device ≠ id → (accounts.update (fun row => row.device = id) f hf).get device =
        accounts.get device) ∧ ∀ device, AccountMoves (accounts.get device)
        ((accounts.update (fun row => row.device = id) f hf).get device) := by
  obtain ⟨-, hd⟩ := get_eq_some.mp hg
  have hsm : (accounts.update (fun row => row.device = id) f hf).get id = some (f account) := by
    rw [get_update, hg, Option.map_some, if_pos (by simpa using hd)]
  have hoth : ∀ device, device ≠ id → (accounts.update (fun row => row.device = id) f hf).get
      device = accounts.get device := by
    intro device hid
    rw [get_update]
    cases hot : accounts.get device with
    | none => rfl
    | some =>
      obtain ⟨-, hkey⟩ := get_eq_some.mp hot
      rw [Option.map_some, if_neg]
      simpa [hkey] using hid
  refine ⟨hsm, hoth, fun device => ?_⟩
  by_cases hid : device = id
  · subst hid
    exact .inr (.inr ⟨account, f account, hg, hsm, hgn, hep⟩)
  · exact .inl (hoth device hid)

variable [Setting] {db db' : Db}

/-- What one call may do to the keyring. -/
structure Turns (kr kr' : Keyring) : Prop where
  sound : kr'.Sound
  moves : ∀ k ∈ kr.keys.rows, ∃ k' ∈ kr'.keys.rows, k' = k ∨ k.Edge k'
  fresh : ∀ k' ∈ kr'.keys.rows, (∃ k ∈ kr.keys.rows, k.id = k'.id) ∨
    (k'.lifecycle = .available ∧ k'.claim = none)
  accounts : ∀ device, AccountMoves (kr.accounts.get device) (kr'.accounts.get device)
  /-- A new publication is of the generation after the last. -/
  publications : ∀ p ∈ kr'.publications.rows, p ∈ kr.publications.rows ∨
    (p.generation = ((kr.accounts.get p.device).map (·.generation)).getD 0 + 1 ∧
      (kr'.accounts.get p.device).map (·.generation) = some p.generation)
  sessions : ∀ s ∈ kr.sessions.rows, s ∈ kr'.sessions.rows

/-- What a reader holds of an account. -/
def Account.pin (acc : Account) : ResetPin := ⟨acc.accountEpoch, acc.identity, acc.signing⟩

/-- The resets, and the accounts that there are, stay as they were. -/
structure PinsStay (kr kr' : Keyring) : Prop where
  resets : kr'.resets = kr.resets
  pins : ∀ device acc, kr.accounts.get device = some acc →
    ∃ acc', kr'.accounts.get device = some acc' ∧ acc'.pin = acc.pin

/-- One device moves on by a reset that is recorded. -/
structure ResetBy (kr kr' : Keyring) (a : Source) (r : Reset) : Prop where
  from_account : ∃ acc key type, kr.accounts.get a.device = some acc ∧
    Setting.pemBlock a.signing = some (type, key) ∧
    (Reader.mk key a.server a.principal a.device).accepts acc.pin r = true
  epoch : 0 ≤ r.newEpoch
  to_account : ∃ acc', kr'.accounts.get a.device = some acc' ∧ acc'.pin = r.pin
  others : ∀ device, device ≠ a.device → kr'.accounts.get device = kr.accounts.get device
  recorded : ∃ row, kr'.resets.rows = kr.resets.rows ++ [row] ∧ row.device = a.device ∧
    row.record = r

/-- What a call that resets no account may do. -/
structure Turned (kr kr' : Keyring) : Prop extends Turns kr kr', PinsStay kr kr'

theorem Turns.refl (h : kr.Sound) : Turns kr kr where
  sound := h
  moves k hk := ⟨k, hk, .inl rfl⟩
  fresh k hk := .inl ⟨k, hk, rfl⟩
  accounts _ := .inl rfl
  publications _ hp := .inl hp
  sessions _ hs := hs

theorem Turns.turned (h : Turns kr kr') (hr : kr'.resets = kr.resets)
    (hac : kr'.accounts = kr.accounts) : Turned kr kr' :=
  { h with resets := hr, pins := fun _ acc ha => ⟨acc, hac ▸ ha, rfl⟩ }

theorem Turned.refl (h : kr.Sound) : Turned kr kr := (Turns.refl h).turned rfl rfl

/-- A call that only moves keys. -/
theorem turned_of_evolves (h : kr.Sound) (he : Evolves kr.keys keys)
    (hcls : ClaimsSound keys) : Turned kr { kr with keys := keys } where
  resets := rfl
  pins _ acc ha := ⟨acc, ha, rfl⟩
  sound := h.evolve he hcls
  moves _ hk := he.to hk
  fresh _ hk' := .inl (he.same_id hk')
  accounts _ := .inl rfl
  publications _ hp := .inl hp
  sessions _ hs := hs

/-! ### Releasing -/

theorem release_turned (h : kr.Sound) (deliveries : List String) :
    Turned kr (release kr deliveries) := by
  refine turned_of_evolves h (evolves_update _ fun k hk hp => ?_) (h.claims mark_claims)
  rw [Bool.and_eq_true, decide_eq_true_eq] at hp
  exact .receive hp.2

/-! ### Closing -/

/-- The key that a reply is about. -/
def OlmKeyLifecycle.id (e : OlmKeyLifecycle) : KeyID := ⟨e.device, e.accountEpoch, e.keyID⟩

/-- The state of the loop that closes keys: some that were unused are closed, and the reply so far
gives the states. -/
def Closing (kr : Keyring) (s : Keyring × List OlmKeyLifecycle) : Prop :=
  ∃ ids, s.1 = { kr with keys := s.1.keys } ∧ s.1.keys.rows = (mark kr.keys ids .closed).rows ∧
    (∀ k ∈ kr.keys.rows, k.id ∈ ids → k.lifecycle = .available ∨ k.lifecycle = .reserved) ∧
    (∀ id ∈ ids, id ∈ s.2.map OlmKeyLifecycle.id) ∧
    ∀ e ∈ s.2, ∃ k ∈ s.1.keys.rows, k.id = e.id ∧ k.lifecycle = e.state

theorem closeOne_closing {s s' : Keyring × List OlmKeyLifecycle}
    (hs : Closing kr s) (h : closeOne env a s keyID = .ok s') : Closing kr s' := by
  obtain ⟨ids, hfrm, hrw, hu, hl, hrpl⟩ := hs
  simp only [closeOne, bind_eq_ok, ensure_eq_ok, found_eq_ok, pure_eq_ok] at h
  obtain ⟨-, hnew, k, hg, -, -, rfl⟩ := h
  obtain ⟨hk, hid⟩ := get_eq_some.mp hg
  -- the key has not been looked at before
  have hot : ∀ e ∈ s.2, e.id ≠ k.id := by
    intro e he heq
    have hsm : e.keyID = keyID := congrArg KeyID.keyID (heq.trans hid)
    exact hnew (hsm ▸ mem_map_of_mem he)
  have hold : k ∈ kr.keys.rows := by
    rcases mem_mark (hrw ▸ hk) with ⟨hin, -⟩ | ⟨-, hold⟩
    · obtain ⟨e, he, heq⟩ := mem_map.mp (hl _ hin)
      exact absurd heq (hot e he)
    · exact hold
  set canClose := (decide (k.lifecycle = .available) && claimsOver s.1 env k) ||
    (decide (k.lifecycle = .reserved) &&
      decide (((k.claim.map (·.claimUntil)).getD 0) ≤ env.epoch)) with hcan
  cases hcl : canClose with
  | false =>
    refine ⟨ids, ?_, ?_, hu, ?_, ?_⟩
    · simp only [Bool.false_eq_true, if_false]
      exact hfrm
    · simpa using hrw
    · intro id hin
      rw [map_append]
      exact mem_append_left _ (hl id hin)
    · refine forall_mem_append.mpr ⟨by simpa using hrpl, forall_mem_singleton.mpr ?_⟩
      exact ⟨k, by simpa using hk, hid, by simp⟩
  | true =>
    have hst : k.lifecycle = .available ∨ k.lifecycle = .reserved := by
      rw [hcan, Bool.or_eq_true, Bool.and_eq_true, Bool.and_eq_true, decide_eq_true_eq,
        decide_eq_true_eq] at hcl
      exact hcl.imp And.left And.left
    have hset : ∀ x ∈ s.1.keys.rows, (if x.id = k.id then { x with lifecycle := .closed } else x)
        ∈ (setLifecycle s.1.keys k.id .closed).rows := by
      intro x hx
      exact (mem_update _).mpr ⟨x, hx, by simp⟩
    refine ⟨ids ++ [k.id], ?_, ?_, ?_, ?_, ?_⟩
    · simp only [if_true]
      rw [hfrm]
    · simp only [if_true]
      exact setLifecycle_mark hrw
    · intro x hx hin
      rcases mem_append.mp hin with hin | hin
      · exact hu x hx hin
      · obtain rfl := kr.keys.eq_of_key hx hold (mem_singleton.mp hin)
        exact hst
    · rw [map_append]
      refine forall_mem_append.mpr ⟨fun id hin => mem_append_left _ (hl id hin),
        forall_mem_singleton.mpr (mem_append_right _ ?_)⟩
      rw [map_singleton, mem_singleton]
      exact hid
    · simp only [if_true]
      refine forall_mem_append.mpr ⟨fun e he => ?_, forall_mem_singleton.mpr ?_⟩
      · obtain ⟨x, hx, hxid, hxst⟩ := hrpl e he
        have hkp := hset x hx
        rw [if_neg (fun heq => hot e he (hxid.symm.trans heq))] at hkp
        exact ⟨x, hkp, hxid, hxst⟩
      · have hcld := hset k hk
        rw [if_pos rfl] at hcld
        exact ⟨_, hcld, hid, rfl⟩

variable {l : List OlmKeyLifecycle}

theorem closeOlmKeys_closing {keys : List String} (h : closeOlmKeys db env a keys = .ok (db', l)) :
    Closing db.keyring (db'.keyring, l) := by
  simp only [closeOlmKeys, bind_eq_ok, pure_eq_ok, Prod.mk.injEq] at h
  obtain ⟨-, -, -, -, out, hlp, rfl, rfl⟩ := h
  refine foldlM_ok_invariant (P := Closing db.keyring) hlp
    (fun keyID _ s s' hs hrnd => closeOne_closing hs hrnd) ⟨[], rfl, ?_, ?_, ?_, ?_⟩
  · exact (mark_nil _ _).symm
  · simp
  · simp
  · simp

theorem closeOlmKeys_turned {keys : List String} (hkr : db.keyring.Sound)
    (h : closeOlmKeys db env a keys = .ok (db', l)) : Turned db.keyring db'.keyring := by
  obtain ⟨ids, hfrm, hrw, hu, -, -⟩ := closeOlmKeys_closing h
  have hev := evolves_mark hrw fun k hk hin => .close (hu k hk hin)
  have hcls : ClaimsSound db'.keyring.keys := by
    refine hkr.claims fun k' hk' => ?_
    exact mark_claims k' (hrw ▸ hk')
  rw [show db'.keyring = { db.keyring with keys := db'.keyring.keys } from hfrm]
  exact turned_of_evolves hkr hev hcls

/-! ### Claiming -/

/-- A confirmed device belongs to the account it was drawn for. -/
theorem lockOlmDevice_owner {world : World} {id : String} {d : Device}
    (h : lockOlmDevice world principal id = .ok d) : principal = Setting.owner id := by
  simp only [lockOlmDevice, bind_eq_ok, found_eq_ok, pure_eq_ok] at h
  obtain ⟨d', hd', -⟩ := h
  obtain ⟨hg, hpn⟩ := Option.filter_eq_some_iff.mp hd'
  obtain ⟨hm, rfl⟩ := get_eq_some.mp hg
  rw [← world.owned d' hm]
  exact (of_decide_eq_true hpn).symm

/-- Reserving a key under a new request. -/
theorem reserve_turned (h : kr.Sound) (hk : k ∈ kr.keys.rows)
    (hav : k.lifecycle = .available) (claim : Claim)
    (ho : claim.claimedBy = Setting.owner claim.claimedDevice)
    (hnew : findRequest kr.keys claim.claimedBy claim.requestID = none) :
    Turned kr { kr with keys := reserve kr.keys k.id claim } ∧
      { k with lifecycle := .reserved, claim := some claim }
        ∈ (reserve kr.keys k.id claim).rows := by
  have hm : ∀ k', k' ∈ (reserve kr.keys k.id claim).rows ↔ ∃ x ∈ kr.keys.rows,
      (if x.id = k.id ∧ x.lifecycle = .available then
        { x with lifecycle := .reserved, claim := some claim } else x) = k' := by
    intro k'
    refine (mem_update _).trans ?_
    simp only [decide_eq_true_eq]
  -- a claim after the change is an old one, or the new one on the key that was reserved
  have hcs : ∀ k' ∈ (reserve kr.keys k.id claim).rows, ∀ c, k'.claim = some c →
      k' ∈ kr.keys.rows ∨ (k'.id = k.id ∧ c = claim) := by
    intro k' hk' c hc
    obtain ⟨x, hx, rfl⟩ := (hm k').mp hk'
    by_cases hsm : x.id = k.id ∧ x.lifecycle = .available
    · rw [if_pos hsm] at hc ⊢
      exact .inr ⟨hsm.1, (Option.some.inj hc).symm⟩
    · rw [if_neg hsm]
      exact .inl hx
  refine ⟨turned_of_evolves h (evolves_update _ fun x hx hp => ?_) ⟨?_, ?_⟩, ?_⟩
  · exact .reserve claim (of_decide_eq_true hp).2
  · intro k' hk' c hc
    rcases hcs k' hk' c hc with hold | ⟨-, rfl⟩
    · exact h.owner k' hold c hc
    · exact ho
  · intro k' hk' k'' hk'' c c' hc hc' hby hrq
    rcases hcs k' hk' c hc with hold | ⟨hid, rfl⟩
    · rcases hcs k'' hk'' c' hc' with ho' | ⟨-, rfl⟩
      · exact h.request k' hold k'' ho' c c' hc hc' hby hrq
      · exact absurd ⟨hby, hrq⟩ (findRequest_eq_none hnew hold hc)
    · rcases hcs k'' hk'' c' hc' with ho' | ⟨hid', -⟩
      · exact absurd ⟨hby.symm, hrq.symm⟩ (findRequest_eq_none hnew ho' hc')
      · exact (reserve kr.keys k.id c).eq_of_key hk' hk'' (hid.trans hid'.symm)
  · exact (hm _).mpr ⟨k, hk, if_pos ⟨rfl, hav⟩⟩

/-- The key that a claim names. -/
def OlmClaim.id (c : OlmClaim) : KeyID := ⟨c.bundle.deviceID, c.bundle.accountEpoch, c.keyID⟩

/-- A key with its claim, by a device of an account under a request, that is neither unused nor
closed. -/
def HandedTo (kr : Keyring) (id : KeyID) (principal device requestID : String) : Prop :=
  ∃ k ∈ kr.keys.rows, k.id = id ∧ k.lifecycle ≠ .closed ∧ ∃ claim, k.claim = some claim ∧
    claim.claimedBy = principal ∧ claim.claimedDevice = device ∧ claim.requestID = requestID

theorem claimFor_turned {id : String} {sourceEpoch : Int}
    {bundle : Bundle} (hkr : db.keyring.Sound) (ho : principal = Setting.owner id)
    (h : claimFor db env principal id target targetID requestID claimUntil server sourceEpoch
      = .ok (kr, keyID, bundle)) :
    Turned db.keyring kr ∧ HandedTo kr (OlmClaim.id ⟨bundle, keyID⟩) principal id requestID := by
  unfold claimFor at h
  split at h
  · rename_i k claim hrq
    obtain ⟨hk, hclm, hby, hreq⟩ := findRequest_eq_some hrq
    simp only [claimAgain, bind_eq_ok, ensure_eq_ok, pure_eq_ok, Prod.mk.injEq] at h
    obtain ⟨-, hsm, -, hop, rfl, rfl, rfl⟩ := h
    obtain ⟨hd, hep, -⟩ := hkr.filed k hk
    refine ⟨.refl hkr, k, hk, ?_, hop, claim, hclm, hby, hsm.2.1, hreq⟩
    rw [OlmClaim.id, hd, hep]
  · rename_i hno
    simp only [claimFresh, bind_eq_ok, found_eq_ok, pure_eq_ok, Prod.mk.injEq] at h
    obtain ⟨-, -, account, -, ⟨k, p⟩, hhd, rfl, rfl, rfl⟩ := h
    obtain ⟨hk, hp, hd, hgn, hav⟩ :=
      mem_claimable (mem_of_mem_head? (Option.mem_def.mpr hhd))
    obtain ⟨htrn, hrsv⟩ := reserve_turned hkr hk hav
      ⟨principal, id, claimUntil, requestID, env.now, sourceEpoch⟩ ho hno
    refine ⟨htrn, _, hrsv, ?_, by simp, _, rfl, rfl, rfl, rfl⟩
    obtain ⟨hfil, hep, -⟩ := hkr.filed k hk
    rw [OlmClaim.id, ← hkr.same p hp k hk hd hgn, hfil, hep]

theorem claimOlmKey_turned {id : String} {expectedEpoch : List Int} {c : OlmClaim}
    (h : claimOlmKey db env principal id target targetID requestID claimUntil server expectedEpoch
      = .ok (db', c)) : (db'.ledger = db.ledger ∧ db'.mail = db.mail) ∧ (db.keyring.Sound →
      Turned db.keyring db'.keyring ∧ HandedTo db'.keyring c.id principal id requestID) := by
  simp only [claimOlmKey, bind_eq_ok, pure_eq_ok, Prod.mk.injEq] at h
  obtain ⟨-, -, -, -, -, -, d, hd, d', -, -, -, ⟨kr, keyID, bundle⟩, hclm, account, -, -, -, -,
    -, rfl, rfl⟩ := h
  exact ⟨⟨rfl, rfl⟩, fun hkr => claimFor_turned hkr (lockOlmDevice_owner hd) hclm⟩

/-! ### Admitting -/

/-- A state of the loop over the copies: some reserved keys are admitted. -/
structure Admitting (kr kr' : Keyring) : Prop where
  sound : kr'.Sound
  accounts : kr'.accounts = kr.accounts
  publications : kr'.publications = kr.publications
  sessions : ∀ s ∈ kr.sessions.rows, s ∈ kr'.sessions.rows
  keys : ∃ ids, kr'.keys.rows = (mark kr.keys ids .admitted).rows ∧
    ∀ k ∈ kr.keys.rows, k.id ∈ ids → k.lifecycle = .reserved

/-- Opening a session uses a reserved key, which has opened none before. -/
theorem openSession_sound (h : kr.Sound) (hop : openSession kr now a m c deliveryID = .ok kr') :
    kr'.Sound ∧ kr'.resets = kr.resets ∧ kr'.accounts = kr.accounts ∧
      kr'.publications = kr.publications ∧ (∀ s ∈ kr.sessions.rows, s ∈ kr'.sessions.rows) ∧
      ∃ k ∈ kr.keys.rows, k.lifecycle = .reserved ∧
        kr'.keys = setLifecycle kr.keys k.id .admitted := by
  simp only [openSession, bind_eq_ok, ensure_eq_ok, found_eq_ok, pure_eq_ok] at hop
  obtain ⟨-, -, ⟨k, claim⟩, hfnd, -, ⟨hrsv, -⟩, account, -, sessions, hi, rfl⟩ := hop
  obtain ⟨hk, hclm, hd, hep, hrq, hsrc, hsep⟩ := findClaimed_eq_some hfnd
  have hev : Evolves kr.keys (setLifecycle kr.keys k.id .admitted) := by
    refine evolves_update _ fun x hx hp => ?_
    obtain rfl := kr.keys.eq_of_key hx hk (of_decide_eq_true hp)
    exact .accept hrsv
  have hmvd := h.evolve hev (h.claims mark_claims)
  have huse : { k with lifecycle := .admitted } ∈ (setLifecycle kr.keys k.id .admitted).rows :=
    (mem_update _).mpr ⟨k, hk, by simp⟩
  refine ⟨{ hmvd with opened := forall_insert hi hmvd.opened ?_, once := ?_ }, rfl,
    rfl, rfl, fun s hs => (mem_insert hi).mpr (.inl hs), k, hk, hrsv, rfl⟩
  · exact ⟨_, huse, ⟨hd, hep, claim, hclm, hrq, hsrc, hsep⟩, .inl rfl⟩
  -- an earlier session of this origin would have been opened with this key, which is unused
  have hno : ∀ s ∈ kr.sessions.rows, s.origin ≠
      (c.device, c.accountEpoch, a.device, a.accountEpoch, c.claimID) := by
    intro s hs hor
    simp only [Session.origin, Prod.mk.injEq] at hor
    obtain ⟨htgt, htep, hfr, hfep, hreq⟩ := hor
    obtain ⟨k', hk', hops, hus⟩ := h.opened s hs
    have hth : k.Opens s := ⟨hd.trans htgt.symm, hep.trans htep.symm, claim, hclm,
      hrq.trans hreq.symm, hsrc.trans hfr.symm, hsep.trans hfep.symm⟩
    rw [← h.opens_unique hk hk' hth hops, hrsv] at hus
    rcases hus with hus | hus <;> exact absurd hus (by simp)
  refine forall_insert hi (fun s hs => forall_insert hi (h.once s hs) ?_)
    (forall_insert hi (fun s' hs' => ?_) fun _ => rfl)
  · exact fun hor => absurd hor (hno s hs)
  · exact fun hor => absurd hor.symm (hno s' hs')

theorem sessionFor_admitting {kr₁ kr₂ : Keyring} (hs : Admitting kr kr₁)
    (h : sessionFor kr₁ now a m c deliveryID = .ok kr₂) :
    Admitting kr kr₂ ∧ kr₂.resets = kr₁.resets := by
  unfold sessionFor at h
  split at h
  · simp only [bind_eq_ok, pure_eq_ok] at h
    obtain ⟨-, -, rfl⟩ := h
    exact ⟨hs, rfl⟩
  · obtain ⟨ids, hrw, hids⟩ := hs.keys
    obtain ⟨hsnd, hr, hac, hpbs, hses, k, hk, hrsv, hks⟩ :=
      openSession_sound hs.sound h
    refine ⟨⟨hsnd, hac.trans hs.accounts, hpbs.trans hs.publications,
      fun s hm => hses s (hs.sessions s hm), ids ++ [k.id], ?_, ?_⟩, hr⟩
    · rw [hks]
      exact setLifecycle_mark hrw
    · intro x hx hin
      rcases mem_append.mp hin with hin | hin
      · exact hids x hx hin
      · rcases mem_mark (hrw ▸ hk) with ⟨-, hadmi⟩ | ⟨-, hold⟩
        · exact absurd (hrsv.symm.trans hadmi) (by simp)
        · rwa [kr.keys.eq_of_key hx hold (mem_singleton.mp hin)]

theorem deliver_turned {mail mail' : Mail} (hkr : kr.Sound) {copies : List Copy}
    (h : deliver mail kr env a m copies = .ok (mail', kr')) : Turned kr kr' := by
  simp only [deliver, bind_eq_ok] at h
  obtain ⟨messages, -, hlp⟩ := h
  obtain ⟨hadm, hr⟩ : Admitting kr kr' ∧ kr'.resets = kr.resets := by
    refine foldlM_ok_invariant (P := fun s : Mail × Keyring => Admitting kr s.2 ∧
      s.2.resets = kr.resets) hlp (fun ci _ s s' hs hrnd => ?_)
      ⟨⟨hkr, rfl, rfl, fun _ hs => hs, [], (mark_nil _ _).symm, by simp⟩, rfl⟩
    simp only [deliverCopy, bind_eq_ok, pure_eq_ok] at hrnd
    obtain ⟨keyring, hss, deliveries, -, rfl⟩ := hrnd
    obtain ⟨hnx, hsm⟩ := sessionFor_admitting hs.1 hss
    exact ⟨hnx, hsm.trans hs.2⟩
  obtain ⟨ids, hrw, hids⟩ := hadm.keys
  have hev := evolves_mark hrw fun k hk hin => .accept (hids k hk hin)
  refine Turns.turned ⟨hadm.sound, fun _ hk => hev.to hk,
    fun _ hk' => .inl (hev.same_id hk'), fun device => ?_,
    fun p hp => .inl (hadm.publications ▸ hp), hadm.sessions⟩ hr hadm.accounts
  rw [hadm.accounts]
  exact .inl rfl

/-! ### Publishing -/

/-- Storing a bundle of the generation after the last one of its device. -/
theorem publish_turns (h : kr.Sound)
    (hmvs : ∀ device, AccountMoves (kr.accounts.get device) (accounts.get device))
    (hnew : ∃ acc, accounts.get b.deviceID = some acc ∧ acc.generation = b.generation)
    (hnx : b.generation = ((kr.accounts.get b.deviceID).map (·.generation)).getD 0 + 1)
    (hrm : hasRoom kr.keys b) (hpb : publish { kr with accounts := accounts } b = .ok kr') :
    Turns kr kr' := by
  simp only [publish, bind_eq_ok, found_eq_ok, pure_eq_ok] at hpb
  obtain ⟨publications, hpub, keys, hks, rfl⟩ := hpb
  have hrw := insertKeys_ok hks
  obtain ⟨acc, ha, hgn⟩ := hnew
  have hall : ∀ {P : KeyRow → Prop}, (∀ k ∈ kr.keys.rows, P k) →
      (∀ key ∈ b.oneTimeKeys, P (keyRow b key)) → ∀ k ∈ keys.rows, P k := by
    intro P hold had
    rw [hrw]
    exact forall_mem_append.mpr ⟨hold, forall_mem_map.mpr had⟩
  have hold : ∀ k ∈ kr.keys.rows, k ∈ keys.rows := fun k hk => hrw ▸ mem_append_left _ hk
  -- no key and no publication of the device is of this generation yet
  have hear : ∀ {device g}, (∃ acc, kr.accounts.get device = some acc ∧ g ≤ acc.generation) →
      device = b.deviceID → g ≠ b.generation := by
    rintro _ g ⟨acc, ha, hle⟩ rfl
    rw [hnx, ha, Option.map_some, Option.getD_some]
    omega
  have hcls : ClaimsSound keys :=
    h.claims (hall (fun k hk => .inr ⟨k, hk, rfl, rfl⟩) fun _ _ => .inl rfl)
  refine ⟨⟨hall h.filed fun _ _ => ⟨rfl, rfl, rfl⟩, ?_, hall h.unclaimed fun _ _ _ => rfl,
      hcls.owner, hcls.request, forall_insert hpub (fun p hp => ?_) ?_,
      forall_insert hpub h.distinct ?_, ?_, fun s hs => ?_, h.once, ?_⟩,
    fun k hk => ⟨k, hold k hk, .inl rfl⟩, ?_, hmvs, ?_, fun _ hs => hs⟩
  · exact hall (fun k hk => (hmvs _).generation_le (h.account k hk)) fun _ _ =>
      ⟨acc, ha, hgn.ge⟩
  · obtain ⟨hd, hgn, hacct, hcon⟩ := h.published p hp
    refine ⟨hd, hgn, (hmvs _).generation_le hacct, fun key hkey => ?_⟩
    obtain ⟨k, hk, hid, hgen⟩ := hcon key hkey
    exact ⟨k, hold k hk, hid, hgen⟩
  · refine ⟨rfl, rfl, ⟨acc, ha, hgn.ge⟩, fun key hkey => ?_⟩
    exact ⟨keyRow b key, hrw ▸ mem_append_right _ (mem_map_of_mem hkey), rfl, rfl⟩
  · have hnd := keys.nodup
    rw [hrw, map_append, map_map] at hnd
    exact (map_map (g := fun keyID => (⟨b.deviceID, b.accountEpoch, keyID⟩ : KeyID)) ▸
      (nodup_append.mp hnd).2.1).of_map _
  · refine forall_insert hpub (fun p hp => hall (h.same p hp) fun _ _ hd hgen => ?_)
      (hall (fun k hk hd hgen => ?_) fun _ _ _ _ => rfl)
    · exact absurd hgen.symm (hear (h.published p hp).2.2.1 hd.symm)
    · exact absurd hgen (hear (h.account k hk) hd)
  · obtain ⟨k, hk, hops, huse⟩ := h.opened s hs
    exact ⟨k, hold k hk, hops, huse⟩
  · intro device
    rw [unresolvedKeys, hrw, countP_append]
    by_cases hd : device = b.deviceID
    · subst hd
      have had := countP_le_length (p := fun k : KeyRow =>
        decide (k.id.device = b.deviceID) && k.lifecycle.unresolved)
        (l := b.oneTimeKeys.map (keyRow b))
      rw [length_map] at had
      exact (Nat.add_le_add_left had _).trans hrm.1
    · have hno : (b.oneTimeKeys.map (keyRow b)).countP (fun k =>
          decide (k.id.device = device) && k.lifecycle.unresolved) = 0 := by
        rw [countP_eq_zero]
        intro k hk
        obtain ⟨key, -, rfl⟩ := mem_map.mp hk
        simp [keyRow, Ne.symm hd]
      rw [hno, Nat.add_zero]
      exact h.bounded device
  · exact hall (fun k hk => .inl ⟨k, hk, rfl⟩) fun _ _ => .inr ⟨rfl, rfl⟩
  · exact forall_insert hpub (fun p hp => .inl hp) (.inr ⟨hnx, by rw [ha, Option.map_some, hgn]⟩)

theorem expirePublications_sound (h : kr.Sound) (now : Int) (device : String) :
    (expirePublications kr now device).Sound :=
  { h with
    published := fun p hp => h.published p (mem_delete.mp hp).1
    distinct := fun p hp => h.distinct p (mem_delete.mp hp).1
    same := fun p hp => h.same p (mem_delete.mp hp).1 }

/-- Dropping old publications first makes no difference to the rest. -/
theorem Turns.of_expirePublications {device : String}
    (h : Turns (expirePublications kr now device) kr') : Turns kr kr' :=
  { h with
    publications := fun p hp => (h.publications p hp).imp_left fun hold =>
      (mem_delete.mp hold).1 }

theorem publishOlmBundle_turned {id : String}
    (h : publishOlmBundle db env principal id server b = .ok db') :
    (db'.ledger = db.ledger ∧ db'.mail = db.mail) ∧
      (db.keyring.Sound → Turned db.keyring db'.keyring) := by
  simp only [publishOlmBundle, bind_eq_ok, ensure_eq_ok] at h
  obtain ⟨-, ⟨-, rfl, -⟩, d, -, key, -, -, -, -, -, h⟩ := h
  split at h
  · -- the first bundle of a device
    rename_i hno
    simp only [bind_eq_ok, ensure_eq_ok, found_eq_ok, pure_eq_ok] at h
    obtain ⟨-, hep, -, hfst, -, -, -, hrm, accounts, hi, kr, hpb, world, -, rfl⟩ := h
    have hg : ∀ device, accounts.get device = if b.deviceID = device then
        some (newAccount b (highest (-1) b)) else db.keyring.accounts.get device :=
      get_insert hi
    obtain ⟨hr, hac⟩ := publish_frame hpb
    refine ⟨⟨rfl, rfl⟩, fun hkr => ⟨(publish_turns (expirePublications_sound hkr env.now b.deviceID)
      (fun device => ?_) ⟨newAccount b (highest (-1) b), ?_, rfl⟩ ?_ hrm
      hpb).of_expirePublications, hr, fun device acc ha => ⟨acc, ?_, rfl⟩⟩⟩
    · by_cases hd : b.deviceID = device
      · subst hd
        refine .inr (.inl ⟨hno, newAccount b (highest (-1) b), ?_, hfst, hep⟩)
        rw [hg, if_pos rfl]
      · left
        rw [hg, if_neg hd]
        rfl
    · rw [hg, if_pos rfl]
    · rw [hfst, show (expirePublications db.keyring env.now b.deviceID).accounts.get b.deviceID
        = none from hno]
      rfl
    · refine (hac device).trans ((hg device).trans ((if_neg ?_).trans ha))
      rintro rfl
      exact absurd (hno.symm.trans ha) (by simp)
  · rename_i account hso
    simp only [bind_eq_ok] at h
    obtain ⟨-, -, h⟩ := h
    split at h
    · obtain rfl := pure_eq_ok.mp h
      exact ⟨⟨rfl, rfl⟩, .refl⟩
    simp only [bind_eq_ok] at h
    obtain ⟨-, -, h⟩ := h
    split at h
    · obtain rfl := pure_eq_ok.mp h
      exact ⟨⟨rfl, rfl⟩, .refl⟩
    -- the next one
    simp only [bind_eq_ok, ensure_eq_ok, pure_eq_ok] at h
    obtain ⟨-, hnx, -, -, -, hrm, kr, hpb, rfl⟩ := h
    obtain ⟨hg, -, hmvs⟩ := update_moves (f := fun row => { row with
      generation := b.generation, highwater := highest account.highwater b, lastBundle := b })
      (fun _ => rfl) hso hnx (.inl rfl)
    obtain ⟨hr, hac⟩ := publish_frame hpb
    refine ⟨⟨rfl, rfl⟩, fun hkr => ⟨(publish_turns (expirePublications_sound hkr env.now
      b.deviceID) hmvs ⟨_, hg, rfl⟩ ?_ hrm hpb).of_expirePublications, hr,
      fun device acc ha => ⟨_, (hac device).trans
        ((get_update (by intro _; rfl) device).trans (congrArg (Option.map _) ha)), ?_⟩⟩⟩
    · rw [show (expirePublications db.keyring env.now b.deviceID).accounts.get b.deviceID
        = some account from hso]
      exact hnx
    · dsimp only
      split <;> rfl

/-- A reset that is new is recorded. -/
theorem resetOlmAccount_turns {r : Reset} {out : ResetReceipt}
    (h : resetOlmAccount db env a r b = .ok (db', out)) :
    (db'.ledger = db.ledger ∧ db'.mail = db.mail) ∧ (db.keyring.Sound →
      Turns db.keyring db'.keyring ∧ a.principal = Setting.owner a.device ∧
        (PinsStay db.keyring db'.keyring ∨ ResetBy db.keyring db'.keyring a r)) := by
  simp only [resetOlmAccount, bind_eq_ok] at h
  obtain ⟨u, hau, digest, -, -, -, h⟩ := h
  have ho : a.principal = Setting.owner a.device := by
    simp only [sourceAuthority, bind_eq_ok] at hau
    obtain ⟨d, hd, -⟩ := hau
    exact lockOlmDevice_owner hd
  split at h
  · simp only [bind_eq_ok, pure_eq_ok, Prod.mk.injEq] at h
    obtain ⟨-, -, rfl, -⟩ := h
    exact ⟨⟨rfl, rfl⟩, fun hkr => ⟨.refl hkr, ho, .inl (Turned.refl hkr).toPinsStay⟩⟩
  · simp only [bind_eq_ok, ensure_eq_ok, found_eq_ok, pure_eq_ok, Prod.mk.injEq] at h
    obtain ⟨account, hso, ⟨type, key⟩, hkey, -, ⟨hver, hgn, -⟩, -, ⟨hep, hbg,
      hidn, hsgn, hbv⟩, -, hrm, history, -, -, -, kr, hpb, resets, hi, world,
      -, rfl, -⟩ := h
    have hnx : b.generation = account.generation + 1 := hbg.trans hgn
    obtain ⟨hd, hone⟩ := Bundle.device_of_verify hbv
    have hpos : 0 ≤ r.newEpoch := by omega
    obtain ⟨hg, hoth, hmvs⟩ := update_moves (f := fun row => { row with
      accountEpoch := b.accountEpoch, identity := b.identity, signing := b.signing,
      generation := b.generation, highwater := highest (-1) b, lastBundle := b })
      (fun _ => rfl) hso hnx (.inr (hep.trans (Reset.newEpoch_of_verify hver hpos)))
    obtain ⟨hr, hac⟩ := publish_frame hpb
    refine ⟨⟨rfl, rfl⟩, fun hkr => ⟨?_, ho, .inr ⟨⟨account, key, type, hso, hkey, hver⟩, hpos,
      ⟨_, (hac _).trans hg, ?_⟩, fun device hne => (hac device).trans
      (hoth device hne), _, (insert_eq_some hi).1.trans (by rw [hr]), rfl, rfl⟩⟩⟩
    · have htrn : Turns { db.keyring with history := history } kr := by
        refine publish_turns { hkr with } hmvs ⟨_, (congrArg _ hd).trans hg, rfl⟩ ?_ hrm hpb
        rw [hd]
        exact hnx.trans (by rw [hso]; rfl)
      exact { htrn with sound := { htrn.sound with } }
    · rw [Account.pin, Reset.pin, hep, hidn, hsgn]

end Noxa.Store

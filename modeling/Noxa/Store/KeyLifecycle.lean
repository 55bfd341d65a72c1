import Noxa.Store.AdmissionSafety

/-!
# The lifecycle of one-time keys

What holds across every run of the store: a key moves along its edges only, it is handed out under
one request and opens one session, a key reported closed stays so, and a device publishes every key
once, one generation after the other.

## Main definitions

* `Serves` — what one step does to the keyring, and what its reply says
* `Resets` — what it does to the accounts that there are
* `Keeps` — what a run keeps of the keyring
* `KeysMove`, `HandedOnce`, `OpensOnce`, `ClosedForGood`, `PublishedOnce`, `GenerationsFollow` — the
  guarantees

## Main results

* `step_serves` — every step
* `one_time_key_lifecycle` — every run
* `tables_sound` — every reachable state
-/

namespace Noxa.Store

open Fallible

/-! ### A key -/

section

variable {k k' : KeyRow}

theorem KeyRow.Edge.claim (h : k.Edge k') (hk : k.lifecycle ≠ .available) : k'.claim = k.claim := by
  cases h with
  | reserve claim h => exact absurd h hk
  | accept | receive | close => rfl

/-- What a key goes through. -/
def KeyRow.Path : KeyRow → KeyRow → Prop := Relation.ReflTransGen KeyRow.Edge

variable (h : k.Path k')

include h

/-- A key is the same key at the end. -/
theorem KeyRow.Path.same : k'.id = k.id ∧ k'.generation = k.generation ∧ k'.bundle = k.bundle := by
  induction h with
  | refl => exact ⟨rfl, rfl, rfl⟩
  | tail _ heg ih =>
    exact ⟨heg.id.trans ih.1, heg.generation.trans ih.2.1, heg.bundle.trans ih.2.2⟩

/-- A claim stays. -/
theorem KeyRow.Path.claim (hk : k.lifecycle ≠ .available) :
    k'.lifecycle ≠ .available ∧ k'.claim = k.claim := by
  induction h with
  | refl => exact ⟨hk, rfl⟩
  | tail _ heg ih => exact ⟨heg.not_available, (heg.claim ih.1).trans ih.2⟩

/-- No edge leaves a closed key. -/
theorem KeyRow.Path.closed (hk : k.lifecycle = .closed) : k'.lifecycle = .closed := by
  induction h with
  | refl => exact hk
  | tail _ heg ih =>
    cases heg with
    | reserve _ h | accept h | receive h => exact absurd (h.symm.trans ih) (by simp)
    | close => rfl

end

variable [Setting]

/-! ### Every step -/

/-- Who claims a key: the account, its device and the request. -/
def Call.requester : Call → Option (String × String × String)
  | .claimOlmKey principal id _ _ requestID _ _ _ => some (principal, id, requestID)
  | _ => none

/-- What a call does to the keyring, and what its reply says about it. -/
structure Serves (db db' : Db) (call : Call) (reply : Reply) : Prop where
  turns : Turns db.keyring db'.keyring
  handed : ∀ claim, reply = .claimed claim → ∃ principal device requestID,
    call.requester = some (principal, device, requestID) ∧
      HandedTo db'.keyring claim.id principal device requestID
  reported : ∀ l, reply = .lifecycles l → ∀ e ∈ l,
    ∃ k ∈ db'.keyring.keys.rows, k.id = e.id ∧ k.lifecycle = e.state

/-- What a call does to the accounts that there are. -/
def Resets (db db' : Db) (call : Call) (reply : Reply) : Prop :=
  PinsStay db.keyring db'.keyring ∨ ∃ a r b out, call = .resetOlmAccount a r b ∧
    reply = .reset out ∧ a.principal = Setting.owner a.device ∧
    ResetBy db.keyring db'.keyring a r

variable {db db' : Db} {call : Call} {reply : Reply} {kr kr' : Keyring}

/-- A call whose reply is not about keys. -/
theorem serves_of_turns (h : Turns db.keyring db'.keyring)
    (hclm : ∀ claim, reply ≠ .claimed claim) (hcls : ∀ l, reply ≠ .lifecycles l) :
    Serves db db' call reply where
  turns := h
  handed claim hr := absurd hr (hclm claim)
  reported l hr := absurd hr (hcls l)

theorem serves_of_turned (h : Turned db.keyring db'.keyring)
    (hclm : ∀ claim, reply ≠ .claimed claim) (hcls : ∀ l, reply ≠ .lifecycles l) :
    Serves db db' call reply ∧ Resets db db' call reply :=
  ⟨serves_of_turns h.toTurns hclm hcls, .inl h.toPinsStay⟩

section

variable (hdb : db.Sound) (hkr : db.keyring.Sound)

include hdb hkr

variable {env : Env} {a : Source} {id : String}

theorem finalizeOlmAttempt_turned {f : Finalized}
    (h : finalizeOlmAttempt db env a id = .ok (db', f)) : Turned db.keyring db'.keyring := by
  obtain rfl | ⟨row, -, -, -, -, hcs⟩ := finalizeOlmAttempt_cases hdb.ledger h
  · exact .refl hkr
  · rcases hcs with ⟨r, -, -, rfl⟩ | ⟨r, copies, mail, keyring, -, -, -, -, hdlv, rfl⟩
    · exact .refl hkr
    · exact deliver_turned hkr hdlv

omit hdb in
theorem ackOlmDelivery_turned {digest : String}
    (h : ackOlmDelivery db a id digest = .ok db') : Turned db.keyring db'.keyring := by
  simp only [ackOlmDelivery, bind_eq_ok, pure_eq_ok] at h
  obtain ⟨-, -, d, -, -, -, -, -, rfl⟩ := h
  exact release_turned hkr [id]

theorem perform_serves (h : perform db env call = .ok (db', reply)) :
    Serves db db' call reply ∧ Resets db db' call reply := by
  cases call with
  | beginOlmAttempt | abortOlmAttempt | retireOlmReceipt =>
    obtain ⟨⟨l, r⟩, -, rfl, rfl⟩ := map_eq_ok_pair.mp h
    exact serves_of_turned (.refl hkr) (by simp) (by simp)
  | putOlmPart =>
    obtain ⟨⟨l, e⟩, -, rfl, rfl⟩ := map_eq_ok_pair.mp h
    cases e <;> exact serves_of_turned (.refl hkr) (by simp) (by simp)
  | finalizeOlmAttempt =>
    obtain ⟨⟨db'', f⟩, hca, rfl, rfl⟩ := map_eq_ok_pair.mp h
    exact serves_of_turned (finalizeOlmAttempt_turned hdb hkr hca) (by simp) (by simp)
  | publishOlmBundle =>
    obtain ⟨db'', hca, rfl, rfl⟩ := map_eq_ok_pair.mp h
    exact serves_of_turned ((publishOlmBundle_turned hca).2 hkr) (by simp) (by simp)
  | resetOlmAccount a r b =>
    obtain ⟨⟨db'', out⟩, hca, rfl, rfl⟩ := map_eq_ok_pair.mp h
    obtain ⟨htur, hown, hrss⟩ := (resetOlmAccount_turns hca).2 hkr
    exact ⟨serves_of_turns htur (by simp) (by simp),
      hrss.imp_right fun hrst => ⟨a, r, b, out, rfl, rfl, hown, hrst⟩⟩
  | claimOlmKey principal id target targetID requestID =>
    obtain ⟨⟨db'', c⟩, hca, rfl, rfl⟩ := map_eq_ok_pair.mp h
    obtain ⟨htrn, hhnd⟩ := (claimOlmKey_turned hca).2 hkr
    refine ⟨⟨htrn.toTurns, fun claim hr => ?_, by simp⟩, .inl htrn.toPinsStay⟩
    cases hr
    exact ⟨principal, id, requestID, rfl, hhnd⟩
  | ackOlmDelivery =>
    obtain ⟨db'', hca, rfl, rfl⟩ := map_eq_ok_pair.mp h
    exact serves_of_turned (ackOlmDelivery_turned hkr hca) (by simp) (by simp)
  | closeOlmKeys =>
    obtain ⟨⟨db'', l⟩, hca, rfl, rfl⟩ := map_eq_ok_pair.mp h
    have htrn := closeOlmKeys_turned hkr hca
    refine ⟨⟨htrn.toTurns, by simp, fun l' hr e he => ?_⟩, .inl htrn.toPinsStay⟩
    cases hr
    obtain ⟨-, -, -, -, -, hr⟩ := closeOlmKeys_closing hca
    exact hr e he
  | expirePendingOlmControls =>
    obtain ⟨rfl, rfl⟩ := Prod.mk.inj (Except.ok.inj h)
    exact serves_of_turned (release_turned hkr _) (by simp) (by simp)
  | expireOlmAttempts | other =>
    obtain ⟨rfl, rfl⟩ := Prod.mk.inj (Except.ok.inj h)
    exact serves_of_turned (.refl hkr) (by simp) (by simp)

/-- **Every step serves its caller.** -/
theorem step_serves (i : Input) : Serves db (step db i).1 i.call (step db i).2 ∧
      Resets db (step db i).1 i.call (step db i).2 := by
  rcases step_cases db i with ⟨e, he⟩ | hok
  · rw [he]
    exact serves_of_turned (.refl hkr) (by simp) (by simp)
  · exact perform_serves hdb hkr hok

end

/-! ### Every run -/

/-- What a run keeps of the keyring it starts from. -/
structure Keeps (kr kr' : Keyring) : Prop where
  sound : kr'.Sound
  moves : ∀ k ∈ kr.keys.rows, ∃ k' ∈ kr'.keys.rows, k.Path k'
  sessions : ∀ s ∈ kr.sessions.rows, s ∈ kr'.sessions.rows

theorem Keeps.trans_turns {kr'' : Keyring} (h : Keeps kr kr') (ht : Turns kr' kr'') :
    Keeps kr kr'' where
  sound := ht.sound
  moves k hk := by
    obtain ⟨k', hk', hpt⟩ := h.moves k hk
    obtain ⟨k'', hk'', rfl | heg⟩ := ht.moves k' hk'
    · exact ⟨_, hk'', hpt⟩
    · exact ⟨k'', hk'', hpt.tail heg⟩
  sessions s hs := ht.sessions s (h.sessions s hs)

/-- A key later on is the end of its path. -/
theorem Keeps.path {k k' : KeyRow} (h : Keeps kr kr') (hk : k ∈ kr.keys.rows)
    (hk' : k' ∈ kr'.keys.rows) (hid : k'.id = k.id) : k.Path k' := by
  obtain ⟨k₂, hk₂, hpt⟩ := h.moves k hk
  rwa [kr'.keys.eq_of_key hk₂ hk' (hpt.same.1.trans hid.symm)] at hpt

theorem run_keeps (hdb : db.Sound) (hkr : db.keyring.Sound) (inputs : List Input) :
    (Machine.run step db inputs).Sound ∧ Keeps db.keyring (Machine.run step db inputs).keyring := by
  refine Machine.run_invariant (P := fun db' : Db => db'.Sound ∧ Keeps db.keyring db'.keyring)
    (fun db' i h => ?_) ⟨hdb, hkr, fun k hk => ⟨k, hk, .refl⟩, fun _ hs => hs⟩ inputs
  exact ⟨(step_admits h.1 i).sound, h.2.trans_turns (step_serves h.1 h.2.sound i).1.turns⟩

theorem Db.initial_keyring_sound (world : World) : (Db.initial world).keyring.Sound := by
  constructor <;> simp [Db.initial, Table.empty, unresolvedKeys]

/-- The tables agree with each other after any calls. -/
theorem tables_sound (world : World) (inputs : List Input) :
    let db := Machine.run step (Db.initial world) inputs
    db.Sound ∧ db.keyring.Sound := by
  intro db
  obtain ⟨hdb, hkps⟩ :=
    run_keeps (Db.initial_sound world) (Db.initial_keyring_sound world) inputs
  exact ⟨hdb, hkps.sound⟩

/-! ### The guarantees -/

/-- Every key makes one move at most, and a new one is unclaimed. -/
def KeysMove (kr kr' : Keyring) : Prop :=
  (∀ k ∈ kr.keys.rows, ∃ k' ∈ kr'.keys.rows, k'.id = k.id ∧ (k' = k ∨ k.Edge k')) ∧
    ∀ k' ∈ kr'.keys.rows, (∃ k ∈ kr.keys.rows, k.id = k'.id) ∨
      (k'.lifecycle = .available ∧ k'.claim = none)

/-- Two replies that hand out one key answer one request of one device. -/
def HandedOnce (call call' : Call) (reply reply' : Reply) : Prop :=
  ∀ claim claim', reply = .claimed claim → reply' = .claimed claim' → claim.id = claim'.id →
    call.requester.isSome ∧ call.requester = call'.requester

/-- A session was opened with one used key, and no other session, then or later, with the same. -/
def OpensOnce (kr kr' : Keyring) : Prop :=
  ∀ s ∈ kr.sessions.rows, (∃! k, k ∈ kr.keys.rows ∧ k.Opens s) ∧
    (∀ k ∈ kr.keys.rows, k.Opens s → k.lifecycle = .admitted ∨ k.lifecycle = .received) ∧
    ∀ k ∈ kr'.keys.rows, ∀ s' ∈ kr'.sessions.rows, k.Opens s → k.Opens s' → s' = s

/-- A key reported closed is closed later on, and no later reply hands it out. -/
def ClosedForGood (reply : Reply) (kr : Keyring) (reply' : Reply) : Prop :=
  ∀ l, reply = .lifecycles l → ∀ e ∈ l, e.state = .closed →
    (∃ k ∈ kr.keys.rows, k.id = e.id ∧ k.lifecycle = .closed) ∧
      ∀ claim, reply' = .claimed claim → claim.id ≠ e.id

/-- The key identifiers of a bundle are distinct, and no other bundle of the device and epoch, then
or later, has one of them. -/
def PublishedOnce (kr kr' : Keyring) : Prop :=
  ∀ p ∈ kr.publications.rows, (p.bundle.oneTimeKeys.map (·.id)).Nodup ∧
    ∀ p' ∈ kr'.publications.rows, p.device = p'.device →
      p.bundle.accountEpoch = p'.bundle.accountEpoch →
      (∃ key ∈ p.bundle.oneTimeKeys, ∃ key' ∈ p'.bundle.oneTimeKeys, key.id = key'.id) →
        p.generation = p'.generation ∧ p.bundle = p'.bundle

/-- The generation of a device stays or grows by one, and new publications are of the new one. -/
def GenerationsFollow (kr kr' : Keyring) : Prop :=
  (∀ device, AccountMoves (kr.accounts.get device) (kr'.accounts.get device)) ∧
    ∀ p ∈ kr'.publications.rows, p ∈ kr.publications.rows ∨
      (p.generation = ((kr.accounts.get p.device).map (·.generation)).getD 0 + 1 ∧
        (kr'.accounts.get p.device).map (·.generation) = some p.generation)

variable {db₀ db₁ db₂ db₃ : Db} {call' : Call} {reply' : Reply}

theorem handedOnce_of_keeps (h : Serves db₀ db₁ call reply) (h' : Serves db₂ db₃ call' reply')
    (hkps : Keeps db₁.keyring db₃.keyring) : HandedOnce call call' reply reply' := by
  intro claim claim' hr hr' hid
  obtain ⟨principal, device, requestID, hca, k, hk, hkid, hop, c, hc, hby, hd, hreq⟩ :=
    h.handed claim hr
  obtain ⟨principal', device', requestID', hca', k', hk', hkid', hop', c', hc', hby', hdev',
    hreq'⟩ := h'.handed claim' hr'
  refine ⟨hca ▸ rfl, ?_⟩
  have hus : k.lifecycle ≠ .available := by
    intro hav
    exact absurd ((h.turns.sound.unclaimed k hk hav).symm.trans hc) (by simp)
  -- the key of the first reply, later, is the key of the second, with the claim it had
  have hpt := hkps.path hk hk' (by rw [hkid, hid, hkid'])
  obtain rfl : c' = c := Option.some.inj (hc'.symm.trans ((hpt.claim hus).2.trans hc))
  rw [hca, hca', ← hby, ← hby', ← hd, ← hdev', ← hreq, ← hreq']

theorem opensOnce_of_keeps (hkr : kr.Sound) (h : Keeps kr kr') : OpensOnce kr kr' := by
  intro s hs
  obtain ⟨k, hk, hops, hus⟩ := hkr.opened s hs
  refine ⟨⟨k, ⟨hk, hops⟩, fun k' hk' => ?_⟩, fun k' hk' hops' => ?_, ?_⟩
  · exact hkr.opens_unique hk'.1 hk hk'.2 hops
  · rw [hkr.opens_unique hk' hk hops' hops]
    exact hus
  · intro k' hk' s' hs' hops₁ hops₂
    exact h.sound.once s' hs' s (h.sessions s hs) (hops₂.origin hops₁)

theorem closedForGood_of_keeps (h : Serves db₀ db₁ call reply)
    (hkps : Keeps db₁.keyring db₂.keyring)
    (h' : Serves db₂ db₃ call' reply') : ClosedForGood reply db₂.keyring reply' := by
  intro l hr e he hcld
  obtain ⟨k, hk, hid, hst⟩ := h.reported l hr e he
  obtain ⟨k₂, hk₂, hpt⟩ := hkps.moves k hk
  have hcld₂ := hpt.closed (hst.trans hcld)
  refine ⟨⟨k₂, hk₂, hpt.same.1.trans hid, hcld₂⟩, fun claim hr' hclm => ?_⟩
  obtain ⟨-, -, -, -, k', hk', hkid', hop', -⟩ := h'.handed claim hr'
  have hpt' := (hkps.trans_turns h'.turns).path hk hk' (by rw [hid, hkid', hclm])
  exact hop' (hpt'.closed (hst.trans hcld))

theorem publishedOnce_of_keeps (hkr : kr.Sound) (h : Keeps kr kr') : PublishedOnce kr kr' := by
  intro p hp
  refine ⟨hkr.distinct p hp, ?_⟩
  rintro p' hp' hd hep ⟨key, hkey, key', hkey', hid⟩
  obtain ⟨-, -, -, hks⟩ := hkr.published p hp
  obtain ⟨k, hk, hkid, hgen⟩ := hks key hkey
  obtain ⟨-, -, -, hks'⟩ := h.sound.published p' hp'
  obtain ⟨k', hk', hkid', hgen'⟩ := hks' key' hkey'
  -- both bundles brought the same row
  have hpt := h.path hk hk' (by rw [hkid, hkid', hd, hep, hid])
  refine ⟨hgen.symm.trans (hpt.same.2.1.symm.trans hgen'), ?_⟩
  rw [← hkr.same p hp k hk (by rw [hkid]) hgen, ← hpt.same.2.2]
  exact h.sound.same p' hp' k' hk' (by rw [hkid']) hgen'

/-- **The lifecycle of one-time keys.** After any calls, for any call, any calls after it and one
more: keys move along their edges, are handed out to one request of one device, open one session,
stay closed once reported so and are published once, one generation after the other, and a device
never owes more than a hundred. -/
theorem one_time_key_lifecycle (world : World) (before between : List Input) (i j : Input) :
    let db := Machine.run step (Db.initial world) before
    let db₁ := (step db i).1
    let db₂ := Machine.run step db₁ between
    KeysMove db.keyring db₁.keyring ∧ HandedOnce i.call j.call (step db i).2 (step db₂ j).2 ∧
      OpensOnce db₁.keyring db₂.keyring ∧
      ClosedForGood (step db i).2 db₂.keyring (step db₂ j).2 ∧
      PublishedOnce db₁.keyring db₂.keyring ∧
      GenerationsFollow db.keyring db₁.keyring ∧
      ∀ device, unresolvedKeys db₁.keyring.keys device ≤ 100 := by
  intro db db₁ db₂
  obtain ⟨hdb, hkps₀⟩ :=
    run_keeps (Db.initial_sound world) (Db.initial_keyring_sound world) before
  have hsrs := (step_serves hdb hkps₀.sound i).1
  have hkr₁ := hsrs.turns.sound
  obtain ⟨hdb₂, hkps⟩ := run_keeps (step_admits hdb i).sound hkr₁ between
  have hsrs' := (step_serves hdb₂ hkps.sound j).1
  refine ⟨⟨fun k hk => ?_, hsrs.turns.fresh⟩,
    handedOnce_of_keeps hsrs hsrs' (hkps.trans_turns hsrs'.turns),
    opensOnce_of_keeps hkr₁ hkps, closedForGood_of_keeps hsrs hkps hsrs',
    publishedOnce_of_keeps hkr₁ hkps, ⟨hsrs.turns.accounts, hsrs.turns.publications⟩,
    hkr₁.bounded⟩
  obtain ⟨k', hk', hmv⟩ := hsrs.turns.moves k hk
  refine ⟨k', hk', ?_, hmv⟩
  rcases hmv with rfl | heg
  · rfl
  · exact heg.id

end Noxa.Store

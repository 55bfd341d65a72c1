import Mathlib.Order.Lattice
import Noxa.Lib.Machine
import Noxa.Lib.Table
import Noxa.Media.Worker

/-!
# The key store of the media worker

`media-e2ee-core.js` keeps a state for every publication that it knows, and knows up to which epoch
a publication is retired: in its state, and in a table of marks that survives `forget` and holds a
bounded number of publications. The operations run one after the other (`serial`), and nothing else
changes these maps, so an operation is one step here, with its awaits.

The state of a publication is a `Ring`, and an operation gives its ring to the command of that name.
`retireEpoch` marks an epoch as soon as it is gone; here the ring comes first and the marks of the
epochs that are gone come after it. That is the same, since each mark of a publication with a state
is what its state says and takes the place of the one before.

An epoch or a key index that is not a natural number is refused like one out of range, and a
negative `through` does what zero does. `none` stands for a key that is not of 32 bytes. The source
compares the keys of an epoch by a digest.

## Main definitions

* `KeyStore`, `keyStep` — the maps and the operations
* `KeyStore.ring` — what the maps say about one publication

## Main results

* `keyStep_follows` — an operation does to a publication what the command does to its ring
-/

namespace Noxa.Media

open Function Machine Table List

/-! ### The maps -/

structure PidState where
  pid : String
  ring : Ring

structure RetiredMark where
  pid : String
  through : ℕ
  deriving DecidableEq, Repr

def maxRetiredMarkers : ℕ := 4096

structure KeyStore where
  pids : Table PidState PidState.pid
  retiredMarks : Table RetiredMark RetiredMark.pid
  bounded : retiredMarks.rows.length ≤ maxRetiredMarkers

def KeyStore.empty : KeyStore := ⟨Table.empty, Table.empty, Nat.zero_le _⟩

inductive MediaErr
  | invalidKey
  | retiredEpoch
  | conflictingKey
  | capacityReached
  | newerHoldsSlot
  | unknownEpoch
  | olderThanActive
  | invalidRetirement
  | invalidPid
  deriving DecidableEq, Repr

def keyring : ℕ := 16

def maxPids : ℕ := 512

def maxSafeInteger : ℕ := 9007199254740991

/-- Up to 160 visible ASCII characters. -/
def validPid (pid : String) : Bool :=
  decide (1 ≤ pid.length) && decide (pid.length ≤ 160) &&
    pid.toList.all fun c => decide (0x21 ≤ c.toNat) && decide (c.toNat ≤ 0x7e)

def validEpoch (epoch : ℕ) : Bool := decide (0 < epoch) && decide (epoch ≤ maxSafeInteger)

def validKid (kid : ℕ) : Bool := decide (kid < keyring)

namespace KeyStore

variable (s : KeyStore) (pid : String)

/-- What the marks say about a publication. -/
def markOf : ℕ := (s.retiredMarks.get pid).elim 0 (·.through)

/-- What is known about a publication. Without a state there is the mark. -/
def ring : Ring :=
  match s.pids.get pid with
  | none => { Ring.empty with retired := s.markOf pid }
  | some st => { st.ring with known := true }

/-- The epochs of a publication that are live. -/
def live : List Held := (s.ring pid).epochs

def active : ℕ := (s.ring pid).active

def retiredThrough : ℕ := max ((s.pids.get pid).elim 0 (·.ring.retired)) (s.markOf pid)

/-- The old mark is taken out first. -/
def mark (epoch : ℕ) : KeyStore :=
  let s := { s with
    retiredMarks := s.retiredMarks.delete fun m => decide (m.pid = pid)
    bounded := Nat.le_trans length_delete_le s.bounded }
  { s with
    retiredMarks :=
      (s.retiredMarks.put ⟨pid, max epoch (s.retiredThrough pid)⟩).latest maxRetiredMarkers
    bounded := length_latest_le _ }

def setRing (r : Ring) : KeyStore := { s with pids := s.pids.put ⟨pid, r⟩ }

/-- The state after a command, with marks for the epochs that are gone. -/
def adopt (r : Ring) : KeyStore :=
  ((s.live pid).filter (· ∉ r.epochs)).foldl (fun s h => s.mark pid h.epoch) (s.setRing pid r)

/-- `key`. A state that is made for the publication is retired as far as the mark and has no epochs,
so no slot of it is held. -/
def key (epoch kid : ℕ) (key : Option Keys) : KeyStore × Except MediaErr Bool :=
  match key with
  | none => (s, .error .invalidKey)
  | some key =>
    if (validPid pid && validEpoch epoch && validKid kid) = false then (s, .error .invalidKey)
    else if epoch ≤ s.retiredThrough pid then (s, .error .retiredEpoch)
    else
      match (s.live pid).find? (·.epoch = epoch) with
      | some existing =>
        if existing.keys ≠ key ∨ existing.kid ≠ kid then (s, .error .conflictingKey)
        else (s, .ok false)
      | none =>
        if s.pids.get pid = none ∧ maxPids ≤ s.pids.rows.length then (s, .error .capacityReached)
        else
          match (s.ring pid).key ⟨epoch, kid, key⟩ with
          | none => (s, .error .newerHoldsSlot)
          | some r => (s.adopt pid r, .ok true)

def activate (epoch : ℕ) : KeyStore × Except MediaErr Bool :=
  if ¬ (s.ring pid).Holds epoch then (s, .error .unknownEpoch)
  else
    match (s.ring pid).activate epoch with
    | none => (s, .error .olderThanActive)
    | some r => (s.setRing pid r, .ok true)

def retire (through : ℕ) : KeyStore × Except MediaErr Bool :=
  if (validPid pid && decide (through ≤ maxSafeInteger)) = false then
    (s, .error .invalidRetirement)
  else
    let s := match s.pids.get pid with
      | none => s
      | some _ => s.adopt pid ((s.ring pid).retire through)
    (if 0 < through then s.mark pid through else s, .ok true)

def retireOne (epoch : ℕ) : KeyStore × Except MediaErr Bool :=
  if (validPid pid && validEpoch epoch) = false then (s, .error .invalidRetirement)
  else
    match s.pids.get pid with
    | none => (s, .ok true)
    | some _ => (s.adopt pid ((s.ring pid).retireEpoch epoch), .ok true)

def forget : KeyStore × Except MediaErr Bool :=
  if validPid pid = false then (s, .error .invalidPid)
  else
    match s.pids.get pid with
    | none => (s, .ok true)
    | some _ =>
      let s := s.adopt pid (s.ring pid).forget
      ({ s with pids := s.pids.delete fun st => decide (st.pid = pid) }, .ok true)

end KeyStore

/-! ### Operations -/

inductive KeyOp
  | key (pid : String) (epoch kid : ℕ) (key : Option Keys)
  | activate (pid : String) (epoch : ℕ)
  | retire (pid : String) (through : ℕ)
  | retireOne (pid : String) (epoch : ℕ)
  | forget (pid : String)

def keyStep (s : KeyStore) : KeyOp → KeyStore × Except MediaErr Bool
  | .key pid epoch kid key => s.key pid epoch kid key
  | .activate pid epoch => s.activate pid epoch
  | .retire pid through => s.retire pid through
  | .retireOne pid epoch => s.retireOne pid epoch
  | .forget pid => s.forget pid

namespace KeyOp

def pid : KeyOp → String
  | .key pid _ _ _ | .activate pid _ | .retire pid _ | .retireOne pid _ | .forget pid => pid

/-- What the worker does with the ring of the publication. -/
def command : KeyOp → Ring → Option Ring
  | .key _ epoch kid k, r => k.bind fun k => r.key ⟨epoch, kid, k⟩
  | .activate _ epoch, r => r.activate epoch
  | .retire _ through, r => some (r.retire through)
  | .retireOne _ epoch, r => some (r.retireEpoch epoch)
  | .forget _, r => some r.forget

end KeyOp

/-! ### Rings -/

namespace Ring

/-- What is lost is retired, and stays so. -/
structure Keeps (r r' : Ring) : Prop where
  covered : ∀ h ∈ r.epochs, h ∈ r'.epochs ∨ h.epoch ≤ r'.retired
  retired : r.retired ≤ r'.retired

variable {r r' : Ring} {h : Held}

theorem Trims.keeps (h : Trims r r') : Keeps r r' := ⟨h.covered, h.retired⟩

theorem Keeps.refl (r : Ring) : Keeps r r := (Trims.refl r).keeps

theorem key_keeps (hk : r.key h = some r') : Keeps r r' ∧
    ((∀ g ∈ r.epochs, g ∈ r'.epochs) → r'.retired = r.retired) := by
  rcases key_cases hk with rfl | ⟨-, hnew, q, ht, -, rfl⟩
  · exact ⟨.refl _, fun _ => rfl⟩
  have hall := ht.trans (q.makeRoom_trims q.epochs.length)
  refine ⟨⟨fun g hg => ?_, hall.retired⟩, fun hkt => hall.exact fun g hg => ?_⟩
  · exact (hall.covered g hg).imp_left (mem_append_left _)
  · refine (mem_append.mp (hkt g hg)).resolve_right fun heq => hnew ⟨g, hg, ?_⟩
    rw [mem_singleton.mp heq]

theorem activate_keeps {epoch : ℕ} (ha : r.activate epoch = some r') :
    r'.epochs = r.epochs ∧ r'.retired = r.retired ∧ r.active ≤ r'.active := by
  rw [activate] at ha
  split at ha
  case isFalse => cases ha
  split at ha
  · cases ha
  · next hnew =>
    cases ha
    exact ⟨rfl, rfl, by dsimp only; omega⟩

/-- Only a ring that is not known may be retired less far afterwards. -/
theorem retire_keeps (r : Ring) (through : ℕ) : through ≤ (r.retire through).retired ∧
    (r.known = true ∨ r.retired ≤ through ∨ through = 0 → Keeps r (r.retire through)) ∧
    (through = 0 → (∀ g ∈ r.epochs, g ∈ (r.retire through).epochs) →
      (r.retire through).retired = r.retired) := by
  have ht := r.foldl_retireEpoch_trims (r.epochs.filter (·.epoch ≤ through))
  have hret := ht.retired
  rw [retire]
  refine ⟨?_, fun hhi => ⟨fun g hg => ?_, ?_⟩, ?_⟩
  · dsimp only
    split <;> omega
  · by_cases hle : g.epoch ≤ through
    · right
      dsimp only
      split <;> omega
    · refine .inl (foldl_retireEpoch_epochs r _ ▸
        mem_filter.mpr ⟨hg, all_eq_true.mpr fun x hx => ?_⟩)
      simp only [mem_filter, decide_eq_true_eq] at hx ⊢
      omega
  · dsimp only
    split
    · omega
    · next hlow =>
      rw [ht.known] at hlow
      simp only [Bool.or_eq_true, decide_eq_true_eq, not_or] at hlow
      exact (hhi.resolve_left hlow.1).resolve_right hlow.2
  · rintro rfl hall
    simpa using ht.exact hall

theorem forget_keeps (r : Ring) : Keeps r r.forget ∧
    ((∀ g ∈ r.epochs, g ∈ r.forget.epochs) → r.forget.retired = r.retired) := by
  have ht := r.foldl_retireEpoch_trims r.epochs
  refine ⟨⟨fun g hg => .inr ((ht.covered g hg).resolve_left fun hin => ?_), ht.retired⟩,
    fun hall => ht.exact fun g hg => absurd (hall g hg) not_mem_nil⟩
  rw [foldl_retireEpoch_epochs, mem_filter, all_eq_true] at hin
  simpa using hin.2 g hg

end Ring

/-! ### Marks -/

namespace KeyStore

variable {s s' a b c : KeyStore} {pid : String}

/-- A mark for the publication puts no other out. -/
def Room (s : KeyStore) (pid : String) : Prop :=
  s.retiredMarks.get pid ≠ none ∨ s.retiredMarks.rows.length < maxRetiredMarkers

/-- Other publications keep their states, and with room their marks. -/
structure Frame (pid : String) (s s' : KeyStore) : Prop where
  pids : ∀ q, q ≠ pid → s'.pids.get q = s.pids.get q
  room : s.Room pid → s'.Room pid ∧ ∀ q, q ≠ pid → s'.markOf q = s.markOf q

theorem Frame.of_pids {t : Table PidState PidState.pid}
    (h : ∀ q, q ≠ pid → t.get q = s.pids.get q) : Frame pid s { s with pids := t } :=
  ⟨h, fun hrm => ⟨hrm, fun _ _ => rfl⟩⟩

theorem Frame.trans (hab : Frame pid a b) (hbc : Frame pid b c) : Frame pid a c where
  pids q hq := (hbc.pids q hq).trans (hab.pids q hq)
  room hrm := by
    obtain ⟨hb, hm⟩ := hab.room hrm
    obtain ⟨hc, hmks'⟩ := hbc.room hb
    exact ⟨hc, fun q hq => (hmks' q hq).trans (hm q hq)⟩

section

variable (s pid) (epoch : ℕ)

theorem mark_pids : (s.mark pid epoch).pids = s.pids := by
  rw [mark]

/-- The new mark is the epoch, unless the state is retired further. -/
theorem mark_retiredMarks : (s.mark pid epoch).retiredMarks =
    ((s.retiredMarks.delete fun m => decide (m.pid = pid)).put
      ⟨pid, max epoch ((s.pids.get pid).elim 0 (·.ring.retired))⟩).latest maxRetiredMarkers := by
  simp only [mark, retiredThrough, markOf, get_delete, if_true, Option.elim_none, Nat.max_zero]

theorem mark_get_self : (s.mark pid epoch).retiredMarks.get pid =
    some ⟨pid, max epoch ((s.pids.get pid).elim 0 (·.ring.retired))⟩ := by
  rw [mark_retiredMarks]
  exact get_latest_put (by decide)

theorem mark_self :
    (s.mark pid epoch).markOf pid = max epoch ((s.pids.get pid).elim 0 (·.ring.retired)) := by
  rw [markOf, mark_get_self]
  rfl

theorem mark_frame : Frame pid s (s.mark pid epoch) := by
  refine ⟨fun _ _ => by rw [mark_pids], fun hrm => ⟨?_, fun q hq => ?_⟩⟩
  · rw [Room, mark_get_self]
    exact .inl (Option.some_ne_none _)
  rw [markOf, mark_retiredMarks, latest_of_le, get_put, if_neg hq.symm, get_delete, if_neg hq,
    markOf]
  rw [length_put_of_none (by rw [get_delete, if_pos rfl])]
  cases hget : s.retiredMarks.get pid with
  | none =>
    have hls := hrm.resolve_left (not_not.mpr hget)
    exact Nat.lt_of_le_of_lt length_delete_le hls
  | some =>
    rw [length_delete_of_some hget]
    exact s.bounded

end

/-! ### A publication and its ring -/

variable {st : PidState} {r r' : Ring}

theorem ring_of_get (h : s.pids.get pid = some st) :
    s.ring pid = { st.ring with known := true } := by
  rw [ring, h]

theorem ring_of_none (h : s.pids.get pid = none) :
    s.ring pid = { Ring.empty with retired := s.markOf pid } := by
  rw [ring, h]

theorem epochs_of_none (h : s.pids.get pid = none) : (s.ring pid).epochs = [] := by
  rw [ring_of_none h]
  rfl

/-- One publication is what the ring says now, and the others are as they were. What is retired is
lost only if the mark was. -/
structure Follows (pid : String) (s s' : KeyStore) (r' : Ring) : Prop extends Frame pid s s' where
  epochs : s'.live pid = r'.epochs
  active : s'.active pid = r'.active
  exact : s.markOf pid = (s.ring pid).retired →
    s'.markOf pid = r'.retired ∧ (s'.ring pid).retired = r'.retired

/-- Nothing changes, and no operation is reported as done. -/
def Idle (s : KeyStore) (r : KeyStore × Except MediaErr Bool) : Prop := r.1 = s ∧ r.2 ≠ .ok true

/-- The mark says what the ring says, or is as it was where the ring is retired as before. -/
def Marks (pid : String) (s s' : KeyStore) (r' : Ring) : Prop :=
  s'.markOf pid = r'.retired ∨ s'.markOf pid = s.markOf pid ∧ r'.retired = (s.ring pid).retired

theorem Marks.exact (h : Marks pid s s' r') (hmk : s.markOf pid = (s.ring pid).retired) :
    s'.markOf pid = r'.retired := by
  rcases h with h | ⟨h, hret⟩ <;> omega

/-- A state that is what the ring says, with the mark that it leaves. -/
theorem Frame.follows (h : Frame pid s s') (hget : s'.pids.get pid = some ⟨pid, r'⟩)
    (hm : Marks pid s s' r') : Follows pid s s' r' := by
  have hrn := ring_of_get hget
  refine ⟨h, ?_, ?_, fun hmk => ⟨hm.exact hmk, ?_⟩⟩
  · rw [live, hrn]
  · rw [active, hrn]
  · rw [hrn]

/-- No state, with the mark that is left. -/
theorem Frame.follows_none (h : Frame pid s s') (hno : s'.pids.get pid = none)
    (he : r'.epochs = []) (hm : Marks pid s s' r') : Follows pid s s' r' := by
  have hrn := ring_of_none hno
  refine ⟨h, ?_, ?_, fun hmk => ⟨hm.exact hmk, ?_⟩⟩
  · rw [live, hrn, he]
    rfl
  · rw [active, hrn]
    rcases r'.active_held with hz | ⟨x, hx, -⟩
    · exact hz.symm
    · rw [he] at hx
      cases hx
  · rw [hrn, ← hm.exact hmk]

theorem get_setRing (r : Ring) : (s.setRing pid r).pids.get pid = some ⟨pid, r⟩ :=
  (get_put pid).trans (if_pos rfl)

theorem setRing_frame (r : Ring) : Frame pid s (s.setRing pid r) :=
  .of_pids fun q hq => by rw [get_put, if_neg hq.symm]

/-- The marks of epochs that are gone say what the state says. -/
theorem foldl_mark_spec (h : s.pids.get pid = some ⟨pid, r⟩) {l : List Held}
    (hl : ∀ x ∈ l, x.epoch ≤ r.retired) :
    Frame pid s (l.foldl (fun s h => s.mark pid h.epoch) s) ∧
      (l.foldl (fun s h => s.mark pid h.epoch) s).pids = s.pids ∧
      ((l.foldl (fun s h => s.mark pid h.epoch) s).markOf pid = r.retired ∨ l = []) := by
  induction l generalizing s with
  | nil => exact ⟨.of_pids fun _ _ => rfl, rfl, .inr rfl⟩
  | cons x l ih =>
    rw [forall_mem_cons] at hl
    rw [foldl_cons]
    have hpd := s.mark_pids pid x.epoch
    obtain ⟨hf, hpd', hmr⟩ := @ih (s.mark pid x.epoch) (by rwa [hpd]) hl.2
    refine ⟨(mark_frame s pid x.epoch).trans hf, hpd'.trans hpd, .inl ?_⟩
    rcases hmr with hmr | rfl
    · exact hmr
    · rw [foldl_nil, mark_self, h]
      exact Nat.max_eq_right hl.1

theorem adopt_spec (h : (s.ring pid).Keeps r) :
    Frame pid s (s.adopt pid r) ∧ (s.adopt pid r).pids.get pid = some ⟨pid, r⟩ ∧
      ((s.adopt pid r).markOf pid = r.retired ∨
        (s.adopt pid r).markOf pid = s.markOf pid ∧ ∀ x ∈ (s.ring pid).epochs, x ∈ r.epochs) := by
  obtain ⟨hm, hpd, hmr⟩ := foldl_mark_spec (get_setRing (s := s) r)
    (l := (s.live pid).filter (· ∉ r.epochs)) fun x hx => by
      rw [mem_filter, decide_eq_true_eq] at hx
      exact (h.covered x hx.1).resolve_left hx.2
  refine ⟨(setRing_frame r).trans hm, (congrArg (·.get pid) hpd).trans (get_setRing r),
    hmr.imp_right fun hn => ?_⟩
  rw [adopt, hn]
  exact ⟨rfl, by simpa [live] using hn⟩

theorem adopt_follows (hkps : (s.ring pid).Keeps r')
    (hex : (∀ x ∈ (s.ring pid).epochs, x ∈ r'.epochs) → r'.retired = (s.ring pid).retired) :
    Follows pid s (s.adopt pid r') r' := by
  obtain ⟨hf, hget, hmr⟩ := adopt_spec hkps
  exact hf.follows hget (hmr.imp_right (And.imp_right hex))

/-! ### Operations on a publication -/

variable (s pid) (epoch : ℕ)

/-- A key that is refused or held changes nothing. -/
theorem key_follows (kid : ℕ) (key : Option Keys) :
    Idle s (s.key pid epoch kid key) ∨ ∃ r', key.bind (fun k => (s.ring pid).key ⟨epoch, kid, k⟩) =
      some r' ∧ Follows pid s (s.key pid epoch kid key).1 r' := by
  cases key with
  | none => exact .inl ⟨rfl, by simp [KeyStore.key]⟩
  | some k =>
    rw [KeyStore.key]
    split
    · exact .inl ⟨rfl, by simp⟩
    split
    · exact .inl ⟨rfl, by simp⟩
    cases (s.live pid).find? (·.epoch = epoch) with
    | some x =>
      dsimp only
      split
      · exact .inl ⟨rfl, by simp⟩
      · exact .inl ⟨rfl, by simp⟩
    | none =>
      dsimp only
      split
      · exact .inl ⟨rfl, by simp⟩
      cases hkey : (s.ring pid).key ⟨epoch, kid, k⟩ with
      | none => exact .inl ⟨rfl, by simp⟩
      | some r =>
        obtain ⟨hkps, hex⟩ := Ring.key_keeps hkey
        exact .inr ⟨r, hkey, adopt_follows hkps hex⟩

theorem activate_follows :
    Idle s (s.activate pid epoch) ∨ ∃ r', (s.ring pid).activate epoch = some r' ∧
      Follows pid s (s.activate pid epoch).1 r' := by
  rw [activate]
  split
  · exact .inl ⟨rfl, by simp⟩
  cases hr : (s.ring pid).activate epoch with
  | none => exact .inl ⟨rfl, by simp⟩
  | some r =>
    obtain ⟨-, hret, -⟩ := Ring.activate_keeps hr
    exact .inr ⟨r, rfl, (setRing_frame r).follows (get_setRing r) (.inr ⟨rfl, hret⟩)⟩

theorem retire_follows (through : ℕ) : Idle s (s.retire pid through) ∨
      Follows pid s (s.retire pid through).1 ((s.ring pid).retire through) := by
  rw [retire]
  split
  · exact .inl ⟨rfl, by simp⟩
  right
  obtain ⟨hthr, hkps, hex⟩ := (s.ring pid).retire_keeps through
  cases hst : s.pids.get pid with
  | none =>
    have hrn := ring_of_none hst
    have he : ((s.ring pid).retire through).epochs = [] := by
      rw [hrn]
      rfl
    dsimp only
    split
    · next hpos =>
      have hpd := s.mark_pids pid through
      refine (s.mark_frame pid through).follows_none (by rwa [hpd]) he (.inl ?_)
      rw [s.mark_self, hst, hrn, Ring.retire]
      simp [Ring.empty, Nat.ne_of_gt hpos]
    · next hz =>
      refine (Frame.of_pids fun _ _ => rfl).follows_none hst he (.inr ⟨rfl, hex ?_ ?_⟩)
      · exact Nat.eq_zero_of_not_pos hz
      · exact fun x hx => absurd (epochs_of_none hst ▸ hx) not_mem_nil
  | some st =>
    obtain ⟨hf, hget, hmr⟩ := adopt_spec (hkps (.inl (by rw [ring_of_get hst])))
    dsimp only
    split
    · have hpd := (s.adopt pid ((s.ring pid).retire through)).mark_pids pid through
      refine (hf.trans (mark_frame _ pid through)).follows (by rwa [hpd]) (.inl ?_)
      rw [mark_self, hget]
      exact Nat.max_eq_right hthr
    · next hz =>
      exact hf.follows hget (hmr.imp_right (And.imp_right (hex (Nat.eq_zero_of_not_pos hz))))

theorem retireOne_follows : Idle s (s.retireOne pid epoch) ∨
      Follows pid s (s.retireOne pid epoch).1 ((s.ring pid).retireEpoch epoch) := by
  have ht := (s.ring pid).retireEpoch_trims epoch
  rw [retireOne]
  split
  · exact .inl ⟨rfl, by simp⟩
  right
  cases hst : s.pids.get pid with
  | none =>
    have hn := epochs_of_none hst
    refine (Frame.of_pids fun _ _ => rfl).follows_none hst ?_ (.inr ⟨rfl, ht.exact ?_⟩)
    · exact eq_nil_of_sublist_nil (hn ▸ ht.sub)
    · exact fun x hx => absurd (hn ▸ hx) not_mem_nil
  | some => exact adopt_follows ht.keeps ht.exact

/-- The mark outlives the publication, unless it was put out. -/
theorem forget_follows : Idle s (s.forget pid) ∨
    Follows pid s (s.forget pid).1 (s.ring pid).forget := by
  obtain ⟨hkps, hn⟩ := (s.ring pid).forget_keeps
  rw [forget]
  split
  · exact .inl ⟨rfl, by simp⟩
  right
  cases hst : s.pids.get pid with
  | none =>
    refine (Frame.of_pids fun _ _ => rfl).follows_none hst rfl (.inr ⟨rfl, hn ?_⟩)
    exact fun x hx => absurd (epochs_of_none hst ▸ hx) not_mem_nil
  | some st =>
    obtain ⟨hf, -, hmr⟩ := adopt_spec hkps
    refine (hf.trans (.of_pids fun q hq => ?_)).follows_none ?_ rfl
      (hmr.imp_right (And.imp_right hn))
    · exact (get_delete ..).trans (if_neg hq)
    · exact (get_delete ..).trans (if_pos rfl)

end KeyStore

open KeyStore in
/-- An operation that is refused changes nothing, nor does a key that is held. Any other is accepted
by the ring of its publication, and leaves what the ring says, as long as the mark was not put
out. -/
theorem keyStep_follows (s : KeyStore) (op : KeyOp) :
    Idle s (keyStep s op) ∨ ∃ r, op.command (s.ring op.pid) = some r ∧
      Follows op.pid s (keyStep s op).1 r := by
  cases op with
  | key pid epoch kid key => exact key_follows s pid epoch kid key
  | activate pid epoch => exact activate_follows s pid epoch
  | retire pid through => exact (retire_follows s pid through).imp_right fun h => ⟨_, rfl, h⟩
  | retireOne pid epoch => exact (retireOne_follows s pid epoch).imp_right fun h => ⟨_, rfl, h⟩
  | forget pid => exact (forget_follows s pid).imp_right fun h => ⟨_, rfl, h⟩

end Noxa.Media

import Noxa.Media.KeyStore

/-!
# Retired epochs

An epoch that the media worker has retired is not to come back. In a ring this is so: a key is
accepted above what is retired only, what a ring loses is retired, and only a `retire` of a
publication without state lowers that. The key store follows the rings as long as no mark is put
out.

`mark` takes the old mark of a publication out before it looks for the higher one. Without a state
there is no other place to find it, so a `retire` after `forget` can lower the mark
(`forgotten_epoch_comes_back`). A full table also loses its oldest mark. And `retireOne` of an epoch
that is not live answers without a mark.

## Main definitions

* `Ring.Moves` — what a command does to what is held
* `KeepsMarks` — an operation that puts no mark out and lowers none
* `Retires` — an operation after which an epoch is retired

## Main results

* `keyStep_moves`, `keyStep_keeps` — what an operation does to every publication
* `retired_epoch_stays_retired` — the law over histories
-/

namespace Noxa.Media

open Machine KeyStore List

/-! ### Rings -/

namespace Ring

/-- Few epochs, each once and with an index of its own. -/
def WF (r : Ring) : Prop :=
  r.epochs.length ≤ maxLiveEpochs ∧ (r.epochs.map Held.kid).Nodup ∧ (r.epochs.map Held.epoch).Nodup

/-- A command adds an epoch above what is retired only, and the active epoch goes up or is gone. -/
structure Moves (r r' : Ring) : Prop where
  wf : r.WF → r'.WF
  fresh : ∀ h ∈ r'.epochs, h ∈ r.epochs ∨ r.retired < h.epoch ∧ ¬ r.Holds h.epoch
  active : r.active ≤ r'.active ∨ ¬ r'.Holds r.active

variable {r r' q : Ring} {h : Held}

/-- What is retired afterwards does not matter. -/
theorem Moves.congr (h : Moves r q) (heps : r'.epochs = q.epochs) (hact : r'.active = q.active) :
    Moves r r' := by
  obtain ⟨hwf, hfr, ha⟩ := h
  refine ⟨fun h => ?_, ?_, ?_⟩
  · rw [WF, heps]
    exact hwf h
  · rwa [heps]
  · rwa [Holds, heps, hact]

theorem Trims.moves (h : Trims r r') : Moves r r' where
  wf hwf :=
    ⟨h.sub.length_le.trans hwf.1, hwf.2.1.sublist (h.sub.map _), hwf.2.2.sublist (h.sub.map _)⟩
  fresh _ hg := .inl (h.sub.subset hg)
  active := h.active.imp (fun heq => Nat.le_of_eq heq.symm) And.right

theorem Moves.refl (r : Ring) : Moves r r := (Trims.refl r).moves

theorem makeRoom_length (fuel : ℕ) (hl : r.epochs.length < fuel + maxLiveEpochs) :
    (makeRoom fuel r).epochs.length < maxLiveEpochs := by
  induction fuel generalizing r with
  | zero => simpa [makeRoom] using hl
  | succ fuel ih =>
    rw [makeRoom]
    split
    · next hfu =>
      cases hm : (r.epochs.map Held.epoch).min? with
      | none =>
        rw [min?_eq_none_iff, map_eq_nil_iff] at hm
        rw [hm] at hfu
        exact absurd hfu (by decide)
      | some =>
        obtain ⟨g, hg, rfl⟩ := mem_map.mp (min?_mem hm)
        have hls : (r.retireEpoch g.epoch).epochs.length < r.epochs.length := by
          rw [retireEpoch_epochs]
          exact length_filter_lt_length_iff_exists.mpr ⟨g, hg, by simp⟩
        exact ih (by omega)
    · next hrm => omega

theorem key_moves (hk : r.key h = some r') : Moves r r' := by
  rcases key_cases hk with rfl | ⟨hr, hnew, q, htrm, hsl, rfl⟩
  · exact .refl _
  have hrm := q.makeRoom_trims q.epochs.length
  have hl := makeRoom_length q.epochs.length (r := q) (by rw [maxLiveEpochs]; omega)
  have hall := htrm.trans hrm
  generalize makeRoom q.epochs.length q = p at hrm hl hall ⊢
  have hmem : ∀ g, g ∈ (p.install h).epochs ↔ g ∈ p.epochs ∨ g = h := by simp [install]
  refine ⟨fun hwf => ⟨?_, ?_, ?_⟩, fun g hg => ?_, ?_⟩
  · rw [install, length_append]
    exact hl
  · rw [install, map_append]
    refine (hall.moves.wf hwf).2.1.append (nodup_singleton _) fun k hk hk' => ?_
    obtain ⟨g, hg, rfl⟩ := mem_map.mp hk
    exact hsl g (hrm.sub.subset hg) (by simpa using hk')
  · rw [install, map_append]
    refine (hall.moves.wf hwf).2.2.append (nodup_singleton _) fun e he he' => ?_
    obtain ⟨g, hg, rfl⟩ := mem_map.mp he
    exact hnew ⟨g, hall.sub.subset hg, by simpa using he'⟩
  · rcases (hmem g).mp hg with hg | rfl
    · exact .inl (hall.sub.subset hg)
    · exact .inr ⟨hr, hnew⟩
  · rcases r.active_held with hz | hhd
    · exact .inl (hz ▸ Nat.zero_le _)
    refine hall.active.imp (fun heq => Nat.le_of_eq heq.symm) ?_
    rintro ⟨-, hno⟩ ⟨g, hg, he⟩
    rcases (hmem g).mp hg with hg | rfl
    · exact hno ⟨g, hg, he⟩
    · exact hnew (he ▸ hhd)

theorem forget_moves (r : Ring) : Moves r r.forget :=
  ⟨fun _ => ⟨Nat.zero_le _, nodup_nil, nodup_nil⟩, fun _ hg => absurd hg not_mem_nil,
    .inr fun ⟨_, hg, _⟩ => absurd hg not_mem_nil⟩

end Ring

/-! ### Operations -/

def Live (s : KeyStore) (pid : String) (epoch : ℕ) : Prop := (s.ring pid).Holds epoch

instance (s : KeyStore) (pid : String) (epoch : ℕ) : Decidable (Live s pid epoch) :=
  inferInstanceAs (Decidable ((s.ring pid).Holds epoch))

/-- No mark is put out, none of a forgotten publication is lowered, and what is retired alone is
live or marked. -/
def KeepsMarks (s : KeyStore) : KeyOp → Prop
  | .key pid _ _ _ | .forget pid => s.Room pid
  | .retireOne pid epoch => s.Room pid ∧ (Live s pid epoch ∨ epoch ≤ s.markOf pid)
  | .retire pid through =>
    s.Room pid ∧ ((s.pids.get pid).isSome = true ∨ s.markOf pid ≤ through ∨ through = 0)
  | .activate _ _ => True

instance (s : KeyStore) (pid : String) : Decidable (s.Room pid) :=
  inferInstanceAs (Decidable (_ ∨ _))

instance (s : KeyStore) : DecidablePred (KeepsMarks s)
  | .key .. => inferInstanceAs (Decidable (s.Room _))
  | .forget .. => inferInstanceAs (Decidable (s.Room _))
  | .retireOne .. => inferInstanceAs (Decidable (_ ∧ _))
  | .retire .. => inferInstanceAs (Decidable (_ ∧ _))
  | .activate .. => inferInstanceAs (Decidable True)

variable {s s' : KeyStore} {pid q : String} {r r' : Ring} {op : KeyOp}

theorem KeyOp.command_moves (h : op.command r = some r') : r.Moves r' := by
  cases op with
  | key =>
    obtain ⟨k, -, hk⟩ := Option.bind_eq_some_iff.mp h
    exact Ring.key_moves hk
  | activate =>
    obtain ⟨heps, -, hact⟩ := Ring.activate_keeps h
    refine ⟨fun hwf => ?_, fun _ hg => .inl (heps ▸ hg), .inl hact⟩
    rwa [Ring.WF, heps]
  | retire =>
    obtain rfl := Option.some.inj h
    exact (r.foldl_retireEpoch_trims _).moves.congr rfl rfl
  | retireOne =>
    obtain rfl := Option.some.inj h
    exact (r.retireEpoch_trims _).moves
  | forget =>
    obtain rfl := Option.some.inj h
    exact r.forget_moves

/-- Of another publication at most the mark is lost. -/
theorem KeyStore.Frame.ring (h : Frame pid s s') (hq : q ≠ pid) :
    (s'.ring q).epochs = (s.ring q).epochs ∧ (s'.ring q).active = (s.ring q).active ∧
      (s'.markOf q = s.markOf q → (s'.ring q).retired = (s.ring q).retired) := by
  rw [KeyStore.ring, KeyStore.ring, h.pids q hq]
  cases s.pids.get q with
  | none => exact ⟨rfl, rfl, id⟩
  | some => exact ⟨rfl, rfl, fun _ => rfl⟩

theorem keyStep_moves (s : KeyStore) (op : KeyOp) (q : String) :
    (s.ring q).Moves ((keyStep s op).1.ring q) := by
  rcases keyStep_follows s op with hidl | ⟨r, hc, hf⟩
  · rw [hidl.1]
    exact .refl _
  by_cases hq : q = op.pid
  · subst hq
    exact (KeyOp.command_moves hc).congr hf.epochs hf.active
  · obtain ⟨heps, hact, -⟩ := hf.toFrame.ring hq
    exact (Ring.Moves.refl _).congr heps hact

/-! ### Marks over a history -/

theorem activate_retiredMarks (epoch : ℕ) :
    (s.activate pid epoch).1.retiredMarks = s.retiredMarks := by
  rw [activate]
  repeat' split
  all_goals rfl

/-- No mark is put out. -/
def Marked (s : KeyStore) : Prop := ∀ pid, s.markOf pid = (s.ring pid).retired

section

variable (hmk : Marked s) (hop : KeepsMarks s op)

include hmk hop

theorem KeyOp.command_keeps (h : op.command (s.ring op.pid) = some r) :
    (s.ring op.pid).Keeps r := by
  cases op with
  | key =>
    obtain ⟨k, -, hk⟩ := Option.bind_eq_some_iff.mp h
    exact (Ring.key_keeps hk).1
  | activate =>
    obtain ⟨heps, hr, -⟩ := Ring.activate_keeps h
    exact ⟨fun g hg => .inl (heps ▸ hg), hr.ge⟩
  | retire pid through =>
    obtain rfl := Option.some.inj h
    refine ((s.ring pid).retire_keeps _).2.1 (hop.2.imp (fun hso => ?_) (Or.imp_left fun hle => ?_))
    · obtain ⟨st, hst⟩ := Option.isSome_iff_exists.mp hso
      rw [ring_of_get hst]
    · exact hmk pid ▸ hle
  | retireOne =>
    obtain rfl := Option.some.inj h
    exact (Ring.retireEpoch_trims _ _).keeps
  | forget =>
    obtain rfl := Option.some.inj h
    exact (Ring.forget_keeps _).1

omit hmk in
theorem keyStep_marks (hf : Frame op.pid s (keyStep s op).1) (hq : q ≠ op.pid) :
    (keyStep s op).1.markOf q = s.markOf q := by
  cases op with
  | key | forget => exact (hf.room hop).2 q hq
  | retire | retireOne => exact (hf.room hop.1).2 q hq
  | activate => rw [markOf, keyStep, activate_retiredMarks, markOf]

theorem keyStep_keeps :
    Marked (keyStep s op).1 ∧ ∀ q, (s.ring q).Keeps ((keyStep s op).1.ring q) := by
  rcases keyStep_follows s op with hidl | ⟨r, hc, hf⟩
  · rw [hidl.1]
    exact ⟨hmk, fun q => .refl _⟩
  have hkps := KeyOp.command_keeps hmk hop hc
  obtain ⟨hmr, hr⟩ := hf.exact (hmk _)
  have ho := fun q => keyStep_marks (q := q) hop hf.toFrame
  refine ⟨fun q => ?_, fun q => ?_⟩ <;> by_cases hq : q = op.pid
  · rw [hq, hmr, hr]
  · rw [ho q hq, (hf.toFrame.ring hq).2.2 (ho q hq)]
    exact hmk q
  · subst hq
    refine ⟨fun g hg => ?_, hr ▸ hkps.retired⟩
    rw [hr, show ((keyStep s op).1.ring op.pid).epochs = r.epochs from hf.epochs]
    exact hkps.covered g hg
  · obtain ⟨heps, -, hr⟩ := hf.toFrame.ring hq
    exact ⟨fun g hg => .inl (heps ▸ hg), (hr (ho q hq)).ge⟩

end

theorem run_wf (ops : List KeyOp) (pid : String) : ((run keyStep .empty ops).ring pid).WF := by
  refine run_invariant (P := fun s => ∀ pid, (s.ring pid).WF)
    (fun s op h q => (keyStep_moves s op q).wf (h q)) (fun _ => ?_) ops pid
  exact ⟨Nat.zero_le _, nodup_nil (α := ℕ), nodup_nil (α := ℕ)⟩

theorem run_marked {ops : List KeyOp} (h : Along keyStep KeepsMarks .empty ops) :
    Marked (run keyStep .empty ops) :=
  run_invariant_along (P := Marked) (fun _ _ hop hs => (keyStep_keeps hs hop).1) (fun _ => rfl) h

/-! ### The law -/

/-- An operation retires an epoch that is live, or names it in a retirement. -/
def Retires (s : KeyStore) (op : KeyOp) (pid : String) (epoch : ℕ) : Prop :=
  Live s pid epoch ∧ ¬ Live (keyStep s op).1 pid epoch ∨ (keyStep s op).2 = .ok true ∧
      ((∃ through, op = .retire pid through ∧ epoch ≤ through) ∨ op = .retireOne pid epoch)

section

variable (hmk : Marked s) {epoch : ℕ}

include hmk

theorem Retires.markOf_ge (hop : KeepsMarks s op) (hrts : Retires s op pid epoch) :
    epoch ≤ (keyStep s op).1.markOf pid := by
  obtain ⟨hmk', hkps⟩ := keyStep_keeps hmk hop
  have hgo : Live s pid epoch → ¬ Live (keyStep s op).1 pid epoch →
      epoch ≤ (keyStep s op).1.markOf pid := by
    rintro ⟨x, hx, rfl⟩ hgo
    rw [hmk' pid]
    exact ((hkps pid).covered x hx).resolve_left fun hlv => hgo ⟨x, hlv, rfl⟩
  rcases hrts with ⟨hlv, hn⟩ | ⟨hok, hnm⟩
  · exact hgo hlv hn
  -- what is reported as done was done to the ring
  rcases keyStep_follows s op with hidl | ⟨r, hc, hf⟩
  · exact absurd hok hidl.2
  rcases hnm with ⟨through, rfl, hle⟩ | rfl
  · obtain rfl := Option.some.inj hc
    have hmr := (hf.exact (hmk pid)).1
    rw [KeyOp.pid] at hmr
    rw [hmr]
    exact hle.trans ((s.ring pid).retire_keeps through).1
  · obtain rfl := Option.some.inj hc
    rcases hop.2 with hlv | hle
    · refine hgo hlv ?_
      rintro ⟨g, hg, he⟩
      exact (s.ring pid).retireEpoch_not_holds epoch ⟨g, hf.epochs ▸ hg, he⟩
    · rw [hmk' pid]
      exact (hmk pid ▸ hle).trans (hkps pid).retired

/-- An epoch that becomes live is above the mark. -/
theorem not_newly_live (op : KeyOp) (hle : epoch ≤ s.markOf pid) (hn : ¬ Live s pid epoch) :
    ¬ Live (keyStep s op).1 pid epoch := by
  rintro ⟨y, hy, rfl⟩
  rcases (keyStep_moves s op pid).fresh y hy with hlv | ⟨habv, -⟩
  · exact hn ⟨y, hlv, rfl⟩
  · rw [hmk pid] at hle
    omega

end

/-- What is live keeps its key and its index; there are four at most, with distinct indices; and the
active epoch is live or zero and goes up until it is retired. In a history in which no mark is lost
or lowered, an epoch that was retired, and every lower one, does not become live again. -/
theorem retired_epoch_stays_retired {before later : List KeyOp} {op op' : KeyOp}
    (h : Along keyStep KeepsMarks .empty (before ++ op :: (later ++ [op']))) :
    (∀ ops, ∀ s, s = run keyStep .empty ops → ∀ pid, (s.live pid).length ≤ maxLiveEpochs ∧
      (∀ x ∈ s.live pid, ∀ y ∈ s.live pid, x.kid = y.kid → x = y) ∧
      (s.active pid = 0 ∨ Live s pid (s.active pid)) ∧
      ∀ next, (∀ x ∈ s.live pid, ∀ y ∈ (keyStep s next).1.live pid, x.epoch = y.epoch → x = y) ∧
        (s.active pid ≤ (keyStep s next).1.active pid ∨
          ¬ Live (keyStep s next).1 pid (s.active pid))) ∧
    ∀ pid epoch, Retires (run keyStep .empty before) op pid epoch →
      ∀ e ≤ epoch, ¬ Live (run keyStep .empty (before ++ op :: later)) pid e →
        ¬ Live (run keyStep .empty (before ++ op :: (later ++ [op']))) pid e := by
  refine ⟨fun ops s hs pid => ?_, fun pid epoch hrts e he hn => ?_⟩
  · obtain ⟨hfew, hslt, heps⟩ := hs ▸ run_wf ops pid
    refine ⟨hfew, fun x hx y hy => inj_on_of_nodup_map hslt hx hy, (s.ring pid).active_held,
      fun next => ⟨fun x hx y hy hxy => ?_, (keyStep_moves s next pid).active⟩⟩
    rcases (keyStep_moves s next pid).fresh y hy with hlv | ⟨-, hot⟩
    · exact inj_on_of_nodup_map heps hx hlv hxy
    · exact absurd ⟨x, hx, hxy⟩ hot
  · obtain ⟨hbef, hop, hrs⟩ := along_append.mp h
    obtain ⟨hlat, -⟩ := along_append.mp hrs
    have hmk := run_marked hbef
    -- the mark stays at the epoch or above
    obtain ⟨hmk', hmr⟩ : Marked (run keyStep .empty (before ++ op :: later)) ∧
        epoch ≤ (run keyStep .empty (before ++ op :: later)).markOf pid := by
      rw [run_append, run_cons]
      refine run_invariant_along (P := fun s => Marked s ∧ epoch ≤ s.markOf pid)
        (fun s i hi h => ?_) ⟨(keyStep_keeps hmk hop).1, hrts.markOf_ge hmk hop⟩ hlat
      obtain ⟨hmk', hkps⟩ := keyStep_keeps h.1 hi
      refine ⟨hmk', h.2.trans ?_⟩
      rw [h.1 pid, hmk' pid]
      exact (hkps pid).retired
    have hla : run keyStep .empty (before ++ op :: (later ++ [op'])) =
        (keyStep (run keyStep .empty (before ++ op :: later)) op').1 := by
      rw [← cons_append, ← append_assoc, run_append keyStep .empty (before ++ op :: later)]
      rfl
    rw [hla]
    exact not_newly_live hmk' op' (he.trans hmr) hn

namespace Sample

def keyOf (epoch : ℕ) : KeyOp := .key "self|mic" epoch (epoch % 16) (some ⟨epoch, 0⟩)

end Sample

open Sample

theorem retired_epoch_stays_retired_mic : Live (run keyStep .empty [keyOf 10]) "self|mic" 10 ∧
    ¬ Live (run keyStep .empty [keyOf 10, .forget "self|mic", keyOf 11, keyOf 10])
      "self|mic" 10 := by
  have h : Along keyStep KeepsMarks .empty ([keyOf 10] ++ .forget "self|mic" ::
      ([keyOf 11] ++ [keyOf 10])) := by
    decide +kernel
  have hlv : Live (run keyStep .empty [keyOf 10]) "self|mic" 10 := by decide +kernel
  have hgo : ¬ Live (keyStep (run keyStep .empty [keyOf 10]) (.forget "self|mic")).1
      "self|mic" 10 := by
    decide +kernel
  exact ⟨hlv, (retired_epoch_stays_retired h).2 "self|mic" 10 (.inl ⟨hlv, hgo⟩) 10 le_rfl
    (by decide +kernel)⟩

/-- A retirement after `forget` lowers the mark, and the epoch that was live before is accepted
again; and so is an epoch that was retired alone before it was live. -/
theorem forgotten_epoch_comes_back : Live (run keyStep .empty [keyOf 10]) "self|mic" 10 ∧
    ¬ Live (run keyStep .empty [keyOf 10, .forget "self|mic"]) "self|mic" 10 ∧
    ¬ Live (run keyStep .empty [keyOf 10, .forget "self|mic", .retire "self|mic" 5]) "self|mic" 10 ∧
    Live (run keyStep .empty [keyOf 10, .forget "self|mic", .retire "self|mic" 5, keyOf 10])
      "self|mic" 10 ∧
    (keyStep .empty (.retireOne "self|mic" 7)).2 = .ok true ∧
    Live (run keyStep .empty [.retireOne "self|mic" 7, keyOf 7]) "self|mic" 7 := by
  decide +kernel

end Noxa.Media

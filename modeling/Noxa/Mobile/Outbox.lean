import Mathlib.Data.List.Sort
import Mathlib.Algebra.Order.Group.Unbundled.Int
import Noxa.Lib.Machine

/-!
# The outbox of the web app

Messages wait in the outbox, under the ID chosen when they were written, until the server accepts
them. A flush goes through the queued entries, oldest first. An entry for the ratchet is first
marked committed, since its operation may be delivered from then on with that text.

`flush` is one flush, with what it meets at each entry as data. `step` is the outbox that the tabs
of a browser share: one transaction of any tab is one step, and what a tab has read before stays
in `copies` until it is written back.

## Main results

* `mem_flush` — what a flush does with each entry, from the entries before it
* `flush_keeps_order` — when nothing is sent past an earlier entry for the same destination
* `commitment_survives` — a committed entry stays committed, when no older copy is written back
-/

namespace Noxa.Mobile

open Machine List

/-- Where a message goes, which is also its ordering key. -/
inductive Target
  | channel (scope : String)
  | dm (peer : String)
  | conversation (conversation : String)
  deriving DecidableEq

structure Entry where
  id : String
  target : Target
  text : String
  createdAt : ℤ
  holdUntil : ℤ := 0
  /-- The text of the attempt, once there is one. -/
  committed : Option String := none
  failed : Bool := false
  error : String := ""
  expired : Bool := false
  deriving DecidableEq

/-- What a send throws. `original` is the text of the operation the consumer has committed. -/
structure SendError where
  message : String
  code : String := ""
  blocked : Bool := false
  retryable : Bool := false
  retryAfterMS : ℕ := 0
  original : Option String := none

/-- The consumer's committed original is authoritative. -/
def SendError.corrected (err : SendError) (current : Entry) : Entry :=
  match err.original, current.committed with
  | some original, some _ => { current with committed := some original }
  | _, _ => current

/-- What a flush that listed `entry` writes back when sending `current` fails. -/
def SendError.back (err : SendError) (entry current : Entry) : Option Entry :=
  let current := err.corrected current
  if err.blocked then some { current with error := err.message }
  else if err.retryable then if current = entry then none else some current
  else some { current with failed := true, error := err.message }

def stopsFlush (connected : Bool) (err : SendError) : Bool :=
  !connected || err.code == "rate-limit" || err.retryAfterMS != 0

/-! ### One flush -/

/-- How the compare-and-swap that commits an entry ends. -/
inductive Commit
  | fenced
  | contended
  | removed
  /-- Another tab marked the draft as failed. -/
  | failed
  | committed (text : String)
  deriving DecidableEq

/-- What a flush meets at one entry. -/
structure Surroundings where
  stillCurrent : Bool := true
  now : ℤ
  commit : Commit
  /-- How the last attempt to send and to delete the entry ends: `none` is a success. -/
  result : Option SendError
  currentAfter : Bool := true
  connected : Bool := true
  /-- The write that keeps the entry queued takes effect. -/
  kept : Bool := true

/-- What a flush does with an entry. -/
inductive Fate
  | stopped (tried : Bool)
  /-- It failed or expired and is only shown. -/
  | shown
  | noGroups
  | waits
  | held
  | contended
  | removed
  | sent
  | blocked
  | retried
  | refused (kept : Bool)
  deriving DecidableEq

/-- The entry was handed to the session. -/
def Fate.tried : Fate → Bool
  | stopped tried => tried
  | sent | blocked | retried | refused _ => true
  | _ => false

/-- The entry has left the queue, or is marked as failed or expired. -/
def Fate.settled : Fate → Bool
  | shown | removed | sent => true
  | refused kept => kept
  | _ => false

/-- Later entries for the destination wait. -/
def Fate.blocks : Fate → Bool
  | blocked | retried => true
  | _ => false

/-- The entry stays queued, and later ones for the destination do not wait. -/
def Fate.passes : Fate → Bool
  | held | contended => true
  | refused kept => !kept
  | _ => false

def sendEntry (a : Surroundings) : Fate :=
  match a.result with
  | none => .sent
  | some err =>
    if err.code == "fenced" || !a.currentAfter then .stopped true
    else if err.blocked then .blocked
    else if err.retryable then if stopsFlush a.connected err then .stopped true else .retried
    else .refused a.kept

/-- A private group's message without groups, from an older caller. -/
def Target.lacksGroups (groups : Bool) : Target → Bool
  | conversation _ => !groups
  | _ => false

/-- What a flush is given. `ratchet` tells the destinations whose messages go over the ratchet, and
`around` what the flush meets at each entry. -/
structure Flush where
  groups : Bool
  ratchet : Target → Bool
  around : Entry → Surroundings

def flushEntry (f : Flush) (waiting : List Target) (entry : Entry) : Fate :=
  if !(f.around entry).stillCurrent then .stopped false
  else if entry.failed || (entry.expired && entry.committed.isNone) then .shown
  else if entry.target.lacksGroups f.groups then .noGroups
  else if entry.target ∈ waiting then .waits
  else if (f.around entry).now < entry.holdUntil && entry.committed.isNone then .held
  else if f.ratchet entry.target && entry.committed.isNone then
    match (f.around entry).commit with
    | .fenced => .stopped false
    | .contended => .contended
    | .removed => .removed
    | .failed => .shown
    | .committed _ => sendEntry (f.around entry)
  else sendEntry (f.around entry)

/-- The loop of `flush`: the entries it comes to and what it does with each. -/
def flushLoop (f : Flush) : List Target → List Entry → List (Entry × Fate)
  | _, [] => []
  | waiting, entry :: rest =>
    match flushEntry f waiting entry with
    | .stopped tried => [(entry, .stopped tried)]
    | fate => (entry, fate) :: flushLoop f
          (if fate.blocks then entry.target :: waiting else waiting) rest

/-- `pending` lists the entries oldest first. -/
def flush (f : Flush) (entries : List Entry) : List (Entry × Fate) :=
  flushLoop f [] (entries.insertionSort fun a b => a.createdAt ≤ b.createdAt)

section Order

variable (f : Flush) (entries : List Entry)

/-- What a flush does with an entry whose destination does not wait. -/
def ownFate (entry : Entry) : Fate := flushEntry f [] entry

/-- An earlier entry makes the destination wait. -/
def blockedAt (entry : Entry) : Bool :=
  entries.any fun b => b.createdAt < entry.createdAt && b.target = entry.target &&
    (ownFate f b).blocks

def fateOf (entry : Entry) : Fate :=
  flushEntry f (if blockedAt f entries entry then [entry.target] else []) entry

/-- No earlier entry ends the flush. -/
def Reached (entry : Entry) : Prop :=
  ∀ s ∈ entries, s.createdAt < entry.createdAt →
    ∀ tried, fateOf f entries s ≠ .stopped tried

variable {f entries} {waiting waiting' : List Target} {entry : Entry}
  {rest done : List Entry} {x : Entry × Fate} {a : Surroundings}

theorem blockedAt_iff : blockedAt f entries entry = true ↔
    ∃ b ∈ entries, b.createdAt < entry.createdAt ∧ b.target = entry.target ∧
      (ownFate f b).blocks = true := by
  simp [blockedAt, and_assoc]

theorem flushEntry_congr (h : entry.target ∈ waiting ↔ entry.target ∈ waiting') :
    flushEntry f waiting entry = flushEntry f waiting' entry := by
  simp only [flushEntry, h]

theorem fateOf_of_not_blocked (h : blockedAt f entries entry = false) :
    fateOf f entries entry = ownFate f entry := by
  rw [fateOf, if_neg (by simp [h]), ownFate]

/-- An entry whose destination waits neither blocks it nor is tried. -/
theorem flushEntry_of_waiting (h : entry.target ∈ waiting) :
    (flushEntry f waiting entry).blocks = false ∧
      (flushEntry f waiting entry).tried = false := by
  unfold flushEntry
  split_ifs <;> exact ⟨rfl, rfl⟩

theorem sendEntry_ne : sendEntry a ≠ .noGroups ∧ sendEntry a ≠ .waits := by
  unfold sendEntry
  split
  · exact ⟨by simp, by simp⟩
  · split_ifs <;> exact ⟨by simp, by simp⟩

theorem flushEntry_eq_waits (h : flushEntry f waiting entry = .waits) :
    entry.target ∈ waiting := by
  unfold flushEntry at h
  split_ifs at h with _ _ _ hwt
  · exact hwt
  · split at h <;> first | exact absurd h (by simp) | exact absurd h sendEntry_ne.2
  · exact absurd h sendEntry_ne.2

/-- Whether groups are missing is the same for all entries of a destination. -/
theorem flushEntry_ne_noGroups {earlier : Entry} (hd : earlier.target = entry.target)
    (h : (flushEntry f waiting entry).tried = true) :
    flushEntry f waiting' earlier ≠ .noGroups := by
  have hgrp : earlier.target.lacksGroups f.groups = false := by
    unfold flushEntry at h
    rw [hd]
    split_ifs at h <;> first | exact absurd h (by decide) | simp_all
  unfold flushEntry
  rw [hgrp]
  split_ifs <;> first | exact absurd ‹_› (by decide) | exact sendEntry_ne.1 | simp
  split <;> first | exact sendEntry_ne.1 | simp

/-- The loop goes on after an entry unless that entry stops it. -/
theorem mem_flushLoop_cons : x ∈ flushLoop f waiting (entry :: rest) ↔
      x = (entry, flushEntry f waiting entry) ∨
        (∀ tried, flushEntry f waiting entry ≠ .stopped tried) ∧
          x ∈ flushLoop f
            (if (flushEntry f waiting entry).blocks
              then entry.target :: waiting else waiting) rest := by
  rw [flushLoop]
  cases flushEntry f waiting entry <;> simp

/-- Induction over what is left: the destinations that wait are those an entry before blocks. -/
theorem mem_flushLoop (hsrt : (done ++ rest).Pairwise (·.createdAt < ·.createdAt))
    (hwt : ∀ t, t ∈ waiting ↔
      ∃ b ∈ done, b.target = t ∧ (ownFate f b).blocks = true)
    (hgo : ∀ s ∈ done, ∀ tried, fateOf f (done ++ rest) s ≠ .stopped tried) :
    x ∈ flushLoop f waiting rest ↔
      x.1 ∈ rest ∧ Reached f (done ++ rest) x.1 ∧
        x.2 = fateOf f (done ++ rest) x.1 := by
  induction rest generalizing done waiting with
  | nil => simp [flushLoop]
  | cons entry rest ih =>
    obtain ⟨-, hrs, hacr⟩ := pairwise_append.mp hsrt
    have hbef : ∀ b ∈ done ++ entry :: rest, b.createdAt < entry.createdAt ↔ b ∈ done := by
      intro b hb
      refine ⟨fun hlt => (mem_append.mp hb).resolve_right fun hb => ?_,
        fun hb => hacr b hb entry mem_cons_self⟩
      rcases mem_cons.mp hb with rfl | hb
      · exact lt_irrefl _ hlt
      · exact lt_asymm hlt ((pairwise_cons.mp hrs).1 b hb)
    have hm : entry.target ∈ waiting ↔
        blockedAt f (done ++ entry :: rest) entry = true := by
      rw [hwt, blockedAt_iff]
      constructor
      · rintro ⟨b, hb, htgt, hbks⟩
        exact ⟨b, mem_append_left _ hb, (hbef b (mem_append_left _ hb)).mpr hb, htgt, hbks⟩
      · rintro ⟨b, hb, hlt, htgt, hbks⟩
        exact ⟨b, (hbef b hb).mp hlt, htgt, hbks⟩
    have hft : flushEntry f waiting entry =
        fateOf f (done ++ entry :: rest) entry := by
      refine flushEntry_congr (hm.trans ?_)
      split_ifs <;> simp_all
    have hwt' : ∀ t, t ∈ (if (fateOf f (done ++ entry :: rest) entry).blocks
        then entry.target :: waiting else waiting) ↔ ∃ b ∈ done ++ [entry], b.target = t ∧
          (ownFate f b).blocks = true := by
      intro t
      simp only [mem_append, mem_singleton, or_and_right, exists_or, exists_eq_left, ← hwt]
      by_cases hw : entry.target ∈ waiting
      · rw [← hft, (flushEntry_of_waiting hw).1, if_neg (by simp)]
        exact ⟨.inl, fun h => h.elim id fun h => h.1 ▸ hw⟩
      · rw [fateOf_of_not_blocked (by simpa [hw] using hm)]
        split_ifs with hbks
        · simp [hbks, or_comm, eq_comm]
        · simp [hbks]
    have hnx : (∀ tried, fateOf f (done ++ entry :: rest) entry ≠
        .stopped tried) → (x ∈ flushLoop f
          (if (fateOf f (done ++ entry :: rest) entry).blocks
            then entry.target :: waiting else waiting) rest ↔
          x.1 ∈ rest ∧ Reached f (done ++ entry :: rest) x.1 ∧
            x.2 = fateOf f (done ++ entry :: rest) x.1) := by
      intro hsp
      have hgo' := forall_mem_append.mpr ⟨hgo, forall_mem_singleton.mpr hsp⟩
      rw [append_cons done entry rest] at hsrt hgo' hwt' ⊢
      exact ih hsrt hwt' hgo'
    rw [mem_flushLoop_cons, hft]
    constructor
    · rintro (rfl | ⟨hsp, hx⟩)
      · exact ⟨mem_cons_self, fun s hs hlt => hgo s ((hbef s hs).mp hlt), rfl⟩
      · exact ((hnx hsp).mp hx).imp_left (mem_cons_of_mem _)
    · rintro ⟨hx, hrcd, hfx⟩
      rcases mem_cons.mp hx with rfl | hx'
      · exact .inl (Prod.ext rfl hfx)
      · have hsp := hrcd entry (mem_append_right _ mem_cons_self) ((pairwise_cons.mp hrs).1 _ hx')
        exact .inr ⟨hsp, (hnx hsp).mpr ⟨hx', hrcd, hfx⟩⟩

/-- **What a flush does**, entry by entry. -/
theorem mem_flush (hdis : (entries.map (·.createdAt)).Nodup) :
    x ∈ flush f entries ↔ x.1 ∈ entries ∧
      Reached f entries x.1 ∧
        x.2 = fateOf f entries x.1 := by
  rw [flush]
  generalize hl : entries.insertionSort (fun a b => a.createdAt ≤ b.createdAt) = l
  have hm : ∀ e, e ∈ l ↔ e ∈ entries := fun e => hl ▸ mem_insertionSort _
  have hblk : blockedAt f l = blockedAt f entries := by
    funext e
    rw [Bool.eq_iff_iff, blockedAt_iff, blockedAt_iff]
    simp only [hm]
  have hsrt : l.Pairwise (·.createdAt < ·.createdAt) := by
    have hle := pairwise_insertionSort (fun a b : Entry => a.createdAt ≤ b.createdAt) entries
    have hne := ((perm_insertionSort (fun a b : Entry => a.createdAt ≤ b.createdAt) entries).map
      (·.createdAt)).nodup_iff.mpr hdis
    rw [hl] at hle hne
    exact (hle.and (pairwise_map.mp hne)).imp fun h => lt_of_le_of_ne h.1 h.2
  rw [mem_flushLoop (show ([] ++ l).Pairwise _ from hsrt) (by simp) (by simp), nil_append, hm]
  simp only [Reached, fateOf, hblk, hm]

/-- Before an entry that is tried, an entry for its destination is settled or passed over. -/
theorem settled_iff_of_tried {earlier later : Entry} (he : earlier ∈ entries)
    (hlt : earlier.createdAt < later.createdAt) (hd : earlier.target = later.target)
    (hrcd : Reached f entries later)
    (ht : (fateOf f entries later).tried = true) :
    (fateOf f entries earlier).settled = true ↔
      (ownFate f earlier).passes = false := by
  have hop : blockedAt f entries later = false := by
    by_contra hblk
    rw [fateOf, if_pos (by simpa using hblk)] at ht
    simp [(flushEntry_of_waiting mem_cons_self).2] at ht
  have hop' : blockedAt f entries earlier = false := by
    by_contra hblk
    obtain ⟨b, hb, hlt', hd', hbks⟩ := blockedAt_iff.mp (by simpa using hblk)
    refine Bool.false_ne_true (hop.symm.trans (blockedAt_iff.mpr ?_))
    exact ⟨b, hb, hlt'.trans hlt, hd'.trans hd, hbks⟩
  have hgs := hrcd earlier he hlt
  have hfe : (ownFate f earlier).blocks = false := by
    by_contra hbks
    refine Bool.false_ne_true (hop.symm.trans (blockedAt_iff.mpr ?_))
    exact ⟨earlier, he, hlt, hd, by simpa using hbks⟩
  rw [fateOf_of_not_blocked hop] at ht
  rw [fateOf_of_not_blocked hop'] at hgs ⊢
  have hgrp : ownFate f earlier ≠ .noGroups := flushEntry_ne_noGroups hd ht
  have hwts : ownFate f earlier ≠ .waits := fun h =>
    absurd (flushEntry_eq_waits h) not_mem_nil
  generalize ownFate f earlier = fate at *
  cases fate <;> simp_all [Fate.settled, Fate.passes, Fate.blocks]

end Order

/-- A message for one channel, written at time `n`. -/
def draft (n : ℤ) : Entry :=
  { id := "m", target := .channel "1", text := "hi", createdAt := n }

/-- Another message for the channel. -/
def laterDraft : Entry := { draft 2 with id := "n" }

def allSent : Flush :=
  ⟨true, fun _ => false, fun _ => { now := 5, commit := .fenced, result := none }⟩

/-- 14 days in milliseconds. -/
def outboxTTL : ℤ := 14 * 24 * 3600 * 1000

/-- What `enqueue` stores: an entry whose attempt is committed keeps it, and a retry clears its
failure. -/
def enqueued (entry : Entry) : Option Entry → Option Entry
  | none => some entry
  | some existing =>
    if existing.committed = none then some entry
    else if existing.failed || existing.error != "" then
      some { existing with failed := false, error := "" }
    else none

/-- What `pending` writes back: a draft past the TTL loses its text. -/
def expired (now : ℤ) (entry : Entry) : Option Entry :=
  if entry.committed = none ∧ entry.expired = false ∧ outboxTTL < now - entry.createdAt then
    some { entry with expired := true, text := "" }
  else none

/-- The compare-and-swap of `flush` over the current draft. -/
def committing : Option Entry → Option Entry
  | some cur =>
    if cur.committed = none ∧ cur.failed = false then some { cur with committed := some cur.text }
    else none
  | none => none

/-- The shared store and its identity fence. `copies` are the entries that tabs have read, each with
the generation it was read in. -/
structure Outbox where
  store : String → Option Entry
  generation : ℕ
  active : Bool
  copies : List (ℕ × Entry)

/-- One transaction of a tab. A flush gives the generation it started in. -/
inductive Act
  | enqueue (entry : Entry)
  | read (id : String)
  /-- `pending` writes back what it read, fenced when a flush called it. -/
  | expire (entry : Entry) (now : ℤ) (fence : Option ℕ)
  | commit (entry : Entry) (fence : ℕ)
  /-- `keepQueued` after a failed send. -/
  | keep (entry current : Entry) (err : SendError) (fence : ℕ)
  /-- The entry is deleted after a successful send. -/
  | sent (entry : Entry) (fence : ℕ)
  | remove (id : String)
  | logout
  | signIn

def Outbox.set (s : Outbox) (id : String) (value : Option Entry) : Outbox :=
  { s with store := fun k => if k = id then value else s.store k }

/-- A write under the fence, of nothing when there is no new value. -/
def Outbox.write (s : Outbox) (fence : ℕ) (id : String) : Option Entry → Outbox
  | some value => if s.active ∧ s.generation = fence then s.set id (some value) else s
  | none => s

def step (s : Outbox) : Act → Outbox × Unit
  | .enqueue entry => (s.write s.generation entry.id (enqueued entry (s.store entry.id)), ())
  | .read id =>
    ({ s with copies := ((s.store id).map (s.generation, ·)).toList ++ s.copies }, ())
  | .expire entry now fence =>
    (s.write (fence.getD s.generation) entry.id
      (if entry ∈ s.copies.map Prod.snd then expired now entry else none), ())
  | .commit entry fence =>
    let s := s.write fence entry.id (committing (s.store entry.id))
    ({ s with copies := ((s.store entry.id).map (fence, ·)).toList ++ s.copies }, ())
  | .keep entry current err fence =>
    (s.write fence current.id
      (if (fence, entry) ∈ s.copies ∧ (fence, current) ∈ s.copies ∧ s.store current.id ≠ none then
        err.back entry current
      else none), ())
  | .sent entry fence =>
    (if s.active ∧ s.generation = fence then s.set entry.id none else s, ())
  | .remove id => (s.set id none, ())
  | .logout => ({ s with store := fun _ => none, generation := s.generation + 1, active := false },
    ())
  | .signIn => ({ s with generation := s.generation + 1, active := true }, ())

/-- What is written back still carries what it overwrites: an expired copy meets a draft, and the
copy a flush keeps has the commitment that is stored. -/
def UpToDate (s : Outbox) : Act → Prop
  | .expire entry _ _ => ∃ cur, s.store entry.id = some cur ∧ cur.committed = none
  | .keep _ current _ _ =>
    ∀ cur t, s.store current.id = some cur → cur.committed = some t → current.committed = some t
  | _ => True

/-- The transaction takes the entry out of the outbox. -/
def Act.Deletes (id : String) : Act → Prop
  | sent entry _ => entry.id = id
  | remove key => key = id
  | logout => True
  | _ => False

/-- The consumer reports `text` as the original of the entry. -/
def Act.Reports (id text : String) : Act → Prop
  | keep _ current err _ => current.id = id ∧ err.original = some text
  | _ => False

/-- The entry is stored with a committed text that is `ok`. -/
def Committed (ok : String → Prop) (id : String) (s : Outbox) : Prop :=
  ∃ cur t, s.store id = some cur ∧ cur.committed = some t ∧ ok t

section Commitments

variable {s : Outbox} {id key : String} {fence : ℕ} {value : Option Entry} {ok : String → Prop}
  {a : Act}

theorem Outbox.write_cases (s : Outbox) (fence : ℕ) (id key : String) (value : Option Entry) :
    (s.write fence key value).store id = s.store id ∨
      id = key ∧ value ≠ none ∧ (s.write fence key value).store id = value := by
  unfold write set
  cases value with
  | none => exact .inl rfl
  | some => grind

theorem Committed.write (h : Committed ok id s)
    (hv : ∀ cur t e, id = key → s.store key = some cur → cur.committed = some t → ok t →
      value = some e → ∃ t', e.committed = some t' ∧ ok t') :
    Committed ok id (s.write fence key value) := by
  obtain ⟨cur, t, hs, hc, hok⟩ := h
  rcases s.write_cases fence id key value with hsm | ⟨rfl, hne, hnew⟩
  · exact ⟨cur, t, hsm.trans hs, hc, hok⟩
  · obtain ⟨e, rfl⟩ := Option.ne_none_iff_exists'.mp hne
    obtain ⟨t', ht', hok'⟩ := hv cur t e rfl hs hc hok rfl
    exact ⟨e, t', hnew, ht', hok'⟩

theorem SendError.back_committed {err : SendError} {entry current e : Entry}
    (h : err.back entry current = some e) : e.committed = (err.corrected current).committed := by
  unfold back at h
  grind

theorem Committed.delete (h : Committed ok id s) (hne : id ≠ key) :
    Committed ok id (s.set key none) := by
  obtain ⟨cur, t, hs, hc⟩ := h
  exact ⟨cur, t, (if_neg hne).trans hs, hc⟩

theorem Committed.step (h : Committed ok id s) (hu : UpToDate s a) (hd : ¬a.Deletes id)
    (hr : ∀ t, a.Reports id t → ok t) : Committed ok id (step s a).1 := by
  cases a with
  | enqueue =>
    refine h.write fun cur t e _ hs hc hok he => ⟨t, ?_, hok⟩
    rw [hs] at he
    unfold enqueued at he
    grind
  | read | signIn => exact h
  | expire =>
    obtain ⟨cur', hs', hnn⟩ := hu
    refine h.write fun cur t e _ hs hc _ _ => ?_
    grind
  | commit =>
    refine Committed.write h fun cur t e _ hs hc _ he => ?_
    rw [hs, committing, if_neg (by simp [hc])] at he
    cases he
  | keep entry current err =>
    refine h.write fun cur t e hid hs hc hok he => ?_
    have hcur := hu cur t hs hc
    split_ifs at he
    rw [SendError.back_committed he, SendError.corrected, hcur]
    cases ho : err.original with
    | none => exact ⟨t, hcur, hok⟩
    | some original => exact ⟨original, rfl, hr _ ⟨hid.symm, ho⟩⟩
  | sent =>
    change Committed ok id (if _ then _ else _)
    split_ifs
    exacts [h.delete (Ne.symm hd), h]
  | remove => exact h.delete (Ne.symm hd)
  | logout => exact absurd trivial hd

/-- A deleted entry only comes back by a new `enqueue`. -/
theorem step_absent (h : s.store id = none) (hu : UpToDate s a)
    (ha : ∀ entry, a = .enqueue entry → entry.id ≠ id) : (step s a).1.store id = none := by
  have hwr : ∀ {fence key value}, (id = key → value = none) →
      (s.write fence key value).store id = none := by
    intro fence key value hv
    rcases s.write_cases fence id key value with hsm | ⟨hid, hne, -⟩
    exacts [hsm.trans h, absurd (hv hid) hne]
  have hset : ∀ key, (s.set key none).store id = none := fun key => by
    unfold Outbox.set
    grind
  cases a with
  | enqueue entry => exact hwr fun hid => absurd hid.symm (ha entry rfl)
  | read | signIn => exact h
  | expire =>
    obtain ⟨cur, hs, -⟩ := hu
    exact hwr fun hid => by simp [← hid, h] at hs
  | commit => exact hwr fun hid => by rw [← hid, h]; rfl
  | keep => exact hwr fun hid => by simp [← hid, h]
  | sent =>
    change (if _ then _ else _ : Outbox).store id = none
    split_ifs
    exacts [hset _, h]
  | remove key => exact hset key
  | logout => rfl

end Commitments

/-- A committed entry stays committed until it is sent, removed or cleared, with its text or an
original that was reported, and a deleted one stays away, when nothing older is written back. -/
theorem commitment_survives (id : String) (s : Outbox) (acts : List Act)
    (hu : Along step UpToDate s acts) :
    (∀ ok, Committed ok id s → (∀ a ∈ acts, ¬a.Deletes id ∧ ∀ t, a.Reports id t → ok t) →
      Committed ok id (run step s acts)) ∧
    (s.store id = none → (∀ entry, .enqueue entry ∈ acts → entry.id ≠ id) →
      (run step s acts).store id = none) := by
  induction acts generalizing s with
  | nil => exact ⟨fun _ h _ => h, fun h _ => h⟩
  | cons a acts ih =>
    obtain ⟨hkps, habs⟩ := ih _ hu.2
    refine ⟨fun ok h ha => ?_, fun h ha => ?_⟩
    · obtain ⟨hd, hr⟩ := ha a mem_cons_self
      exact hkps ok (h.step hu.1 hd hr) fun b hb => ha b (mem_cons_of_mem _ hb)
    · refine habs (step_absent h hu.1 ?_) fun entry he => ha entry (mem_cons_of_mem _ he)
      rintro entry rfl
      exact ha entry mem_cons_self

/-- Two tabs have read a draft and one of them has committed it. -/
def committedByOther : Outbox :=
  run step { store := fun _ => none, generation := 1, active := true, copies := [] }
    [.enqueue (draft 0), .read "m", .commit (draft 0) 1]

/-- The message is sent from the committed copy and kept, since the peer is blocked. -/
def keepBlocked : Act :=
  .keep (draft 0) { draft 0 with committed := some "hi" }
    { message := "blocked", blocked := true } 1

theorem commitment_survives_retry :
    Committed (· = "hi") "m" (run step committedByOther [keepBlocked, .enqueue (draft 7)]) := by
  have hu : UpToDate committedByOther keepBlocked := by
    intro cur t hcur ht
    cases Option.some.inj (show some { draft 0 with committed := some "hi" } = some cur from hcur)
    exact ht
  exact (commitment_survives "m" committedByOther [keepBlocked, .enqueue (draft 7)]
    ⟨hu, trivial, trivial⟩).1 _ ⟨_, "hi", rfl, rfl, rfl⟩
    (by simp [keepBlocked, Act.Deletes, Act.Reports])

/-- The other tab then writes its older copy back as expired. -/
theorem expiry_drops_commitment : (committedByOther.store "m").bind Entry.committed = some "hi" ∧
      ((run step committedByOther [.expire (draft 0) (outboxTTL + 1) none]).store "m").bind
        Entry.committed = none := by
  decide

end Noxa.Mobile

import Noxa.Webrtc.Continuity

/-!
# The streams that receivers get

A stream is cut into epochs. A packet that is passed on starts one if it is the first of all, if its
source is not that of the packet before it, or if a new epoch was asked for since then (audio: if
its epoch is not that of the packet before). Its number is unwrapped around the highest number so
far.

An epoch starts right after the highest number before it, and nothing in it comes before its first
packet: `epochPackets` never exceeds the distance from there. The first epoch of an audio stream is
the exception. It takes packets that are older than the first one.

## Main definitions

* `History` — what a stream has passed on, by epochs
* `History.Continuous` — the epochs follow one another
* `videoStep`, `audioStep` — a stream with its history

## Main results

* `Linked.pass` — a packet that is passed on keeps the history linked to the numbers
* `rtp_continuity` — what holds in all histories
-/

namespace Noxa.Webrtc

open Machine List

/-! ### Histories -/

/-- A packet that was passed on, with its unwrapped number. -/
structure Passage where
  input : RtpPacket
  output : RtpPacket
  number : ℤ

structure Epoch where
  first : Passage
  rest : List Passage

def Epoch.passages (e : Epoch) : List Passage := e.first :: e.rest

/-- The epochs of a stream, the current one first, and the highest number in them. -/
structure History where
  epochs : List Epoch := []
  highest : ℤ := 0

/-- The number of the next packet: the one nearest to the highest, or its own if it is the first. -/
def History.number (h : History) (output : RtpPacket) : ℤ :=
  match h.epochs with
  | [] => output.sequenceNumber.toNat
  | _ :: _ => Serial.near h.highest output.sequenceNumber

def History.pass (h : History) (starts : Bool) (input output : RtpPacket) : History :=
  let p : Passage := ⟨input, output, h.number output⟩
  match h.epochs with
  | [] => ⟨[⟨p, []⟩], p.number⟩
  | e :: older =>
    ⟨if starts then ⟨p, []⟩ :: e :: older else { e with rest := e.rest ++ [p] } :: older,
      max h.highest p.number⟩

/-- A timestamp that was sent in the current epoch. -/
def History.Sent (h : History) (timestamp : BitVec 32) : Prop :=
  ∃ e ∈ h.epochs.head?, ∃ p ∈ e.passages, p.output.timestamp = timestamp

/-- The numbers that were used. -/
def numbers (epochs : List Epoch) : Set ℤ := { n | ∃ e ∈ epochs, ∃ p ∈ e.passages, p.number = n }

/-- An epoch after the older ones. If it `reaches` back, it may hold numbers before its first
one. -/
structure Epoch.Follows (e : Epoch) (reaches : Prop) (older : List Epoch) : Prop where
  starts : older ≠ [] → IsGreatest (numbers older) (e.first.number - 1)
  floor : ¬ reaches → ∀ p ∈ e.rest, e.first.number ≤ p.number
  apart : ∀ n ∈ numbers older, ∀ p ∈ e.passages, n < p.number
  constant : ∃ sequence timestamp, ∀ p ∈ e.passages,
    p.output.sequenceNumber = p.input.sequenceNumber + sequence ∧
    p.output.timestamp = p.input.timestamp + timestamp
  aligned : ∀ p ∈ e.passages, p.output.sequenceNumber = BitVec.ofInt 16 p.number

/-- All epochs follow those before them. With `reach`, the first of all reaches back. -/
def History.Continuous (h : History) (reach : ℕ) : Prop :=
  ∀ e older, e :: older <:+ h.epochs → e.Follows (reach ≠ 0 ∧ older = []) older

/-! ### Histories and numbers -/

/-- The numbers are those of the history. -/
structure Linked (reach : ℕ) (n : Numbering) (h : History) : Prop where
  continuous : h.Continuous reach
  seen : n.seen = false ↔ h.epochs = []
  greatest : h.epochs ≠ [] → IsGreatest (numbers h.epochs) h.highest
  sequence : h.epochs ≠ [] → n.sequence = BitVec.ofInt 16 h.highest
  offsets : ∀ e older, h.epochs = e :: older → ∀ p ∈ e.passages,
    p.output.sequenceNumber = p.input.sequenceNumber + n.sequenceOffset ∧
    p.output.timestamp = p.input.timestamp + n.timestampOffset
  window : ∀ e older, h.epochs = e :: older → ¬ (reach ≠ 0 ∧ older = []) →
    (n.epochPackets : ℤ) ≤ h.highest - e.first.number

variable {reach : ℕ} {n n' : Numbering} {h : History} {input output : RtpPacket}

theorem Linked.empty (reach : ℕ) (hsn : n.seen = false) : Linked reach n {} where
  continuous _ _ hs := absurd (suffix_nil.mp hs) (cons_ne_nil _ _)
  seen := ⟨fun _ => rfl, fun _ => hsn⟩
  greatest hne := absurd rfl hne
  sequence hne := absurd rfl hne
  offsets _ _ heq := absurd heq (cons_ne_nil _ _).symm
  window _ _ heq := absurd heq (cons_ne_nil _ _).symm

/-- A packet is sent in the current epoch, and what was sent there stays unless a new one starts. -/
theorem History.Sent.pass {timestamp : BitVec 32} {starts : Bool}
    (hse : output.timestamp = timestamp ∨ h.Sent timestamp ∧ starts = false) :
    (h.pass starts input output).Sent timestamp := by
  rw [Sent, History.pass]
  cases heq : h.epochs with
  | nil =>
    obtain hts | ⟨⟨e, he, -⟩, -⟩ := hse
    · exact ⟨_, rfl, _, mem_cons_self, hts⟩
    · rw [heq] at he
      cases he
  | cons e older =>
    obtain hts | ⟨⟨e', he, p, hp, hts⟩, rfl⟩ := hse
    · cases starts with
      | true => exact ⟨_, rfl, _, mem_cons_self, hts⟩
      | false => exact ⟨_, rfl, _, mem_cons_of_mem _ (mem_append_right _ mem_cons_self), hts⟩
    · rw [heq] at he
      cases he
      exact ⟨_, rfl, p, mem_append_left [_] hp, hts⟩

variable {older : List Epoch}

theorem mem_numbers_cons {e : Epoch} {k : ℤ} :
    k ∈ numbers (e :: older) ↔ (∃ p ∈ e.passages, p.number = k) ∨ k ∈ numbers older := by
  simp [numbers]

theorem numbers_concat (e : Epoch) (p : Passage) :
    numbers (⟨e.first, e.rest ++ [p]⟩ :: older) = insert p.number (numbers (e :: older)) := by
  ext k
  simp only [Set.mem_insert_iff, mem_numbers_cons, Epoch.passages, ← cons_append, mem_append,
    mem_singleton, or_and_right, exists_or, exists_eq_left, @eq_comm _ k]
  exact or_assoc.trans or_left_comm

/-- An epoch in front of those that follow one another. -/
theorem continuous_cons {e : Epoch} (highest : ℤ) {highest' : ℤ}
    (he : e.Follows (reach ≠ 0 ∧ older = []) older)
    (h : (History.mk older highest).Continuous reach) :
    (History.mk (e :: older) highest').Continuous reach := by
  intro x rest hs
  rcases suffix_cons_iff.mp hs with heq | hs
  · cases heq
    exact he
  · exact h x rest hs

theorem lt_of_starts {number k : ℤ} (hst : older ≠ [] → IsGreatest (numbers older) (number - 1))
    (hk : k ∈ numbers older) : k < number := by
  obtain ⟨e, he, -⟩ := id hk
  exact Int.lt_of_le_sub_one ((hst (ne_nil_of_mem he)).2 hk)

section

variable (older) (number : ℤ) (hst : older ≠ [] → IsGreatest (numbers older) (number - 1))
  (hal : output.sequenceNumber = BitVec.ofInt 16 number)
  (hseq : output.sequenceNumber = input.sequenceNumber + n'.sequenceOffset)
  (hts : output.timestamp = input.timestamp + n'.timestampOffset)

include hst hal hseq hts

/-- An epoch of one packet. -/
theorem Epoch.follows_single {reaches : Prop} :
    Epoch.Follows ⟨⟨input, output, number⟩, []⟩ reaches older where
  starts := hst
  floor _ _ hp := absurd hp not_mem_nil
  apart _ hk := forall_mem_singleton.mpr (lt_of_starts hst hk)
  constant := ⟨_, _, forall_mem_singleton.mpr ⟨hseq, hts⟩⟩
  aligned := forall_mem_singleton.mpr hal

/-- A new epoch, of one packet with the number above the others. -/
theorem Linked.start (highest : ℤ) {starts : Bool}
    (hcon : (History.mk older highest).Continuous reach)
    (hps : h.pass starts input output = ⟨⟨⟨input, output, number⟩, []⟩ :: older, number⟩)
    (hsn : n'.seen = true) (hla : n'.sequence = output.sequenceNumber)
    (hpk : older = [] ∧ reach ≠ 0 ∨ n'.epochPackets = 0) :
    Linked reach n' (h.pass starts input output) := by
  rw [hps]
  refine ⟨continuous_cons highest (Epoch.follows_single older number hst hal hseq hts) hcon,
    by simp [hsn], fun _ => ⟨mem_numbers_cons.mpr (.inl ⟨_, mem_cons_self, rfl⟩), fun k hk => ?_⟩,
    fun _ => hla.trans hal, fun e rest heq => ?_, fun e rest heq hrch => ?_⟩
  · rcases mem_numbers_cons.mp hk with ⟨p, hp, rfl⟩ | hk
    · rw [mem_singleton.mp hp]
    · exact (lt_of_starts hst hk).le
  · obtain ⟨rfl, -⟩ := List.cons.inj heq
    exact forall_mem_singleton.mpr ⟨hseq, hts⟩
  · cases heq
    rw [hpk.resolve_left fun hfst => hrch ⟨hfst.2, hfst.1⟩]
    dsimp only
    omega

end

section

variable (hl : Linked reach n h)

include hl

/-- The first packet of all. -/
theorem Linked.first (hm : Moves reach .first n input output n') (starts : Bool) :
    Linked reach n' (h.pass starts input output) := by
  obtain ⟨hsn, hla, hpk⟩ := hm.effect
  have hnil := hl.seen.mp hsn
  refine Linked.start [] output.sequenceNumber.toNat (fun hne => absurd rfl hne) ?_ hm.sequence
    hm.timestamp 0 (fun _ _ hs => absurd (suffix_nil.mp hs) (cons_ne_nil _ _)) ?_ hm.seen
    hla ?_
  · rw [BitVec.ofInt_natCast, BitVec.ofNat_toNat, BitVec.setWidth_eq]
  · rw [History.pass, History.number, hnil]
  · by_cases hrch : reach = 0
    · exact .inr (hpk.trans hrch)
    · exact .inl ⟨rfl, hrch⟩

theorem Linked.exists_epoch (hsn : n.seen = true) : ∃ e older, h.epochs = e :: older := by
  refine exists_cons_of_ne_nil fun hnil => ?_
  rw [hl.seen.mpr hnil] at hsn
  exact absurd hsn (by decide)

/-- A switch goes on right after the highest number. -/
theorem Linked.switch (hm : Moves reach .switch n input output n') :
    Linked reach n' (h.pass true input output) := by
  obtain ⟨hsn, hnx, hla, hpk⟩ := hm.effect
  obtain ⟨e, older, heq⟩ := hl.exists_epoch hsn
  have hne : h.epochs ≠ [] := heq ▸ cons_ne_nil _ _
  have hal : output.sequenceNumber = BitVec.ofInt 16 (h.highest + 1) := by
    rw [hnx, hl.sequence hne, Serial.ofInt_succ]
  have hnum : h.number output = h.highest + 1 := by
    rw [History.number, heq]
    rw [hal, Serial.near_ofInt (by omega) (by omega)]
  refine Linked.start (e :: older) (h.highest + 1) (fun _ => ?_) hal hm.sequence hm.timestamp
    h.highest ?_ ?_ hm.seen hla (.inr hpk)
  · rw [← heq, add_sub_cancel_right]
    exact hl.greatest hne
  · rw [← heq]
    exact hl.continuous
  · rw [History.pass, heq]
    dsimp only
    rw [hnum, if_pos rfl, max_eq_right (by omega)]

/-- Inside an epoch, ahead of the highest number or back to the first one. -/
theorem Linked.inside (hm : Moves reach .inside n input output n') :
    Linked reach n' (h.pass false input output) := by
  obtain ⟨hsn, hof, hts, hbk, hla⟩ := hm.effect
  obtain ⟨e, older, heq⟩ := hl.exists_epoch hsn
  have hne : h.epochs ≠ [] := heq ▸ cons_ne_nil _ _
  set number := h.number output with hnum
  have hdlt : rtpSequenceDelta output.sequenceNumber n.sequence = number - h.highest := by
    rw [hnum, History.number, heq, rtpSequenceDelta_eq, hl.sequence hne]
    dsimp only
    rw [Serial.near]
    omega
  have hal : output.sequenceNumber = BitVec.ofInt 16 number := by
    rw [hnum, History.number, heq]
    exact (Serial.ofInt_near _ _).symm
  have hf := hl.continuous e older (heq ▸ suffix_refl _)
  have hflo : ¬ (reach ≠ 0 ∧ older = []) → e.first.number ≤ number := fun hrch => by
    have hwin := hl.window e older heq hrch
    omega
  have ha {P : Passage → Prop} (hold : ∀ p ∈ e.passages, P p) (hn : P ⟨input, output, number⟩) :
      ∀ p ∈ e.passages ++ [⟨input, output, number⟩], P p :=
    forall_mem_append.mpr ⟨hold, forall_mem_singleton.mpr hn⟩
  have hoff := ha (hl.offsets e older heq) ⟨hof ▸ hm.sequence, hts ▸ hm.timestamp⟩
  have hn : Epoch.Follows ⟨e.first, e.rest ++ [⟨input, output, number⟩]⟩
    (reach ≠ 0 ∧ older = []) older := by
    refine ⟨hf.starts, fun hrch => ?_, fun k hk => ha (hf.apart k hk) ?_,
      ⟨n.sequenceOffset, n.timestampOffset, hoff⟩, ha hf.aligned hal⟩
    · exact forall_mem_append.mpr ⟨hf.floor hrch, forall_mem_singleton.mpr (hflo hrch)⟩
    · obtain ⟨x, hx, -⟩ := id hk
      have hlt := hf.apart k hk e.first mem_cons_self
      exact hlt.trans_le (hflo fun hrch => ne_nil_of_mem hx hrch.2)
  have hps : h.pass false input output =
      ⟨⟨e.first, e.rest ++ [⟨input, output, number⟩]⟩ :: older, max h.highest number⟩ := by
    rw [History.pass, heq]
    rfl
  rw [hps]
  refine ⟨continuous_cons h.highest hn fun x rest hs => ?_, by simp [hm.seen], fun _ => ?_,
    fun _ => ?_, fun x rest hx => ?_, fun x rest hx hrch => ?_⟩
  · exact hl.continuous x rest (hs.trans (heq ▸ suffix_cons _ _))
  · rw [numbers_concat, ← heq, max_comm]
    exact (hl.greatest hne).insert number
  · dsimp only
    split at hla
    · rw [hla.1, hal, max_eq_right (by omega)]
    · rw [hla.1, hl.sequence hne, max_eq_left (by omega)]
  · obtain ⟨rfl, -⟩ := List.cons.inj hx
    rw [hof, hts]
    exact hoff
  · cases hx
    have hwin := hl.window e older heq hrch
    dsimp only
    split at hla
    · rw [hla.2]
      omega
    · rw [hla.2]
      omega

/-- A packet that is passed on keeps the history linked to the numbers. -/
theorem Linked.pass {switching starts : Bool}
    (hm : Moves reach (placeOf n.seen switching) n input output n')
    (hst : n.seen = true → starts = switching) :
    Linked reach n' (h.pass starts input output) := by
  cases hsn : n.seen with
  | false =>
    rw [hsn] at hm
    exact hl.first hm starts
  | true =>
    rw [hst hsn]
    rw [hsn] at hm
    cases switching with
    | true => exact hl.switch hm
    | false => exact hl.inside hm

end

/-! ### Video streams -/

/-- The video of a receiver. `source` and `begun` tell where the next epoch starts. -/
structure VideoStream where
  video : VideoContinuity := {}
  history : History := {}
  source : BitVec 32 := 0
  begun : Bool := false

inductive VideoInput where
  | beginEpoch
  | prefer (offset : BitVec 32) (ok : Bool)
  | vp8 (pkt : RtpPacket) (now : ℤ)
  | h264 (pkt : RtpPacket) (now : ℤ) (frameStart : Bool)
  | h265 (pkt : RtpPacket) (now : ℤ) (frameStart : Bool)

/-- What became of a packet. -/
def VideoStream.record (s : VideoStream) (pkt : RtpPacket)
    (r : Option RtpPacket × VideoContinuity) : VideoStream × Option RtpPacket :=
  match r.1 with
  | none => ({ s with video := r.2 }, none)
  | some out =>
    ({ video := r.2
       history := s.history.pass (s.begun || s.source != pkt.ssrc) pkt out
       source := pkt.ssrc
       begun := false }, some out)

def videoStep [VP8] (s : VideoStream) : VideoInput → VideoStream × Option RtpPacket
  | .beginEpoch => ({ s with video := s.video.beginEpoch, begun := true }, none)
  | .prefer offset ok =>
    ({ s with video := { s.video with preferredOffset := offset, preferredOffsetOK := ok } }, none)
  | .vp8 pkt now => s.record pkt (s.video.translate pkt now)
  | .h264 pkt now frameStart => s.record pkt (s.video.translateH264 pkt now frameStart)
  | .h265 pkt now frameStart => s.record pkt (s.video.translateH265 pkt now frameStart)

structure VideoStream.Inv (s : VideoStream) : Prop where
  linked : Linked 0 s.video.numbering s.history
  source : s.video.seen = true → s.video.ssrc = s.source
  begun : s.video.pendingEpoch = s.begun
  newest : s.video.seen = true → s.history.Sent s.video.timestamp

variable {r : Option RtpPacket × VideoContinuity} {s : VideoStream}

/-- A packet starts an epoch of the history exactly if it is a switch. -/
theorem VideoStream.Inv.starts (h : s.Inv) (hsn : s.video.seen = true) (pkt : RtpPacket) :
    (s.begun || s.source != pkt.ssrc) = s.video.switching pkt := by
  rw [VideoContinuity.switching, hsn, h.begun, h.source hsn, Bool.true_and, Bool.or_comm]

theorem VideoStream.Inv.record (h : s.Inv) {pkt : RtpPacket} {now : ℤ}
    (hr : Answers s.video (s.video.Translated pkt now) r) : (s.record pkt r).1.Inv := by
  obtain ⟨out, v'⟩ := r
  cases out with
  | none =>
    obtain rfl : v' = s.video := hr
    exact h
  | some =>
    have hp := hr.1
    refine ⟨h.linked.pass hp.moves fun hsn => h.starts hsn pkt, fun _ => hp.ssrc, hp.pending,
      fun _ => .pass ?_⟩
    obtain hn | ⟨hold, hsn, hsty⟩ := hp.newest
    · exact .inl hn.symm
    · exact .inr ⟨hold ▸ h.newest hsn, (h.starts hsn pkt).trans hsty⟩

theorem VideoStream.Inv.step [VP8] (h : s.Inv) (i : VideoInput) : (videoStep s i).1.Inv := by
  cases i with
  | beginEpoch => exact ⟨h.linked, h.source, rfl, h.newest⟩
  | prefer => exact ⟨h.linked, h.source, h.begun, h.newest⟩
  | vp8 pkt now =>
    exact h.record (s.video.translate_answers pkt now)
  | h264 pkt now frameStart | h265 pkt now frameStart =>
    exact h.record (s.video.translateH264_answers pkt now frameStart)

theorem VideoStream.run_inv [VP8] (inputs : List VideoInput) : (run videoStep {} inputs).Inv :=
  run_invariant (P := VideoStream.Inv) (fun _ i h => h.step i) ⟨.empty 0 rfl,
    fun hsn => absurd hsn Bool.false_ne_true, rfl,
    fun hsn => absurd hsn Bool.false_ne_true⟩ inputs

/-! ### Audio streams -/

structure AudioStream where
  audio : AudioContinuity := {}
  history : History := {}
  source : BitVec 32 := 0
  epoch : ℕ := 0

structure AudioInput where
  packet : RtpPacket
  epoch : ℕ
  clockRate : BitVec 32
  now : ℤ
  preferred : BitVec 32 := 0
  havePreferred : Bool := false

def audioStep (s : AudioStream) (i : AudioInput) : AudioStream × Option RtpPacket :=
  let r := s.audio.translate i.packet i.epoch i.clockRate i.now i.preferred i.havePreferred
  match r.1 with
  | none => ({ s with audio := r.2 }, none)
  | some out =>
    ({ audio := r.2
       history := s.history.pass (i.epoch != s.epoch || i.packet.ssrc != s.source) i.packet out
       source := i.packet.ssrc
       epoch := i.epoch }, some out)

structure AudioStream.Inv (s : AudioStream) : Prop where
  linked : Linked 32768 s.audio.numbering s.history
  source : s.audio.seen = true → s.audio.ssrc = s.source ∧ s.audio.epoch = s.epoch
  newest : s.audio.seen = true → s.history.Sent s.audio.timestamp

theorem AudioStream.Inv.starts {s : AudioStream} (h : s.Inv) (hsn : s.audio.seen = true)
    (packet : RtpPacket) (epoch : ℕ) :
    (epoch != s.epoch || packet.ssrc != s.source) = s.audio.switching packet epoch := by
  obtain ⟨hss, hep⟩ := h.source hsn
  rw [AudioContinuity.switching, hsn, hss, hep, Bool.true_and]

theorem AudioStream.Inv.step {s : AudioStream} (h : s.Inv) (i : AudioInput) :
    (audioStep s i).1.Inv := by
  have hr := s.audio.translate_answers i.packet i.epoch i.clockRate i.now i.preferred
    i.havePreferred
  rw [audioStep]
  generalize s.audio.translate i.packet i.epoch i.clockRate i.now i.preferred i.havePreferred =
    r at hr ⊢
  cases r with
  | mk out a' =>
    cases out with
    | none =>
      obtain rfl : a' = s.audio := hr
      exact h
    | some =>
      have hp := hr.1
      refine ⟨h.linked.pass hp.moves fun hsn => h.starts hsn i.packet i.epoch,
        fun _ => ⟨hp.ssrc, hp.epoch⟩, fun _ => .pass ?_⟩
      obtain hn | ⟨hold, hsn, hsty⟩ := hp.newest
      · exact .inl hn.symm
      · exact .inr ⟨hold ▸ h.newest hsn, (h.starts hsn i.packet i.epoch).trans hsty⟩

theorem AudioStream.run_inv (inputs : List AudioInput) : (run audioStep {} inputs).Inv :=
  run_invariant (P := AudioStream.Inv) (fun _ i h => h.step i) ⟨.empty _ rfl,
    fun hsn => absurd hsn Bool.false_ne_true, fun hsn =>
      absurd hsn Bool.false_ne_true⟩ inputs

/-! ### Continuity -/

/-- Padding that is passed on belongs to the current epoch. -/
theorem VideoStream.Inv.padding (h : s.Inv) {pkt : RtpPacket}
    (hr : r = s.video.translatePadding pkt) :
    (s.record pkt r).1.history.epochs.length = s.history.epochs.length ∧
    (s.record pkt r).1.begun = s.begun := by
  obtain ⟨out, v'⟩ := r
  cases out with
  | none => exact ⟨rfl, rfl⟩
  | some =>
    obtain ⟨hsn, hpe, hss⟩ := VideoContinuity.translatePadding_current hr.symm
    have hbgn : s.begun = false := h.begun ▸ hpe
    have hst : (s.begun || s.source != pkt.ssrc) = false := by
      rw [hbgn, ← h.source hsn, hss]
      simp
    refine ⟨?_, hbgn.symm⟩
    rw [VideoStream.record]
    dsimp only
    rw [hst, History.pass]
    cases heq : s.history.epochs with
    | nil =>
      have huns : s.video.seen = false := h.linked.seen.mpr heq
      rw [hsn] at huns
      exact absurd huns (by decide)
    | cons e older => rfl

/-- An audio packet of the microphone. -/
def micPacket (ssrc : BitVec 32) (sequenceNumber : SequenceNumber) : RtpPacket :=
  ⟨false, false, 0, 0, ssrc, sequenceNumber, 0, [1]⟩

/-- The first epoch of audio takes a packet from before its first one, and padding starts the
next. -/
theorem audio_reaches_back_padding_starts :
    (run audioStep {} [⟨micPacket 1 100, 1, 48000, 0, 0, false⟩,
      ⟨micPacket 1 99, 1, 48000, 0, 0, false⟩]).history.epochs.map
      (fun e => (e.first.number, e.rest.map Passage.number)) = [(100, [99])] ∧
    isVideoPadding { micPacket 2 7 with padding := true, paddingSize := 1, payload := [] } = true ∧
    (run audioStep {} [⟨micPacket 1 100, 1, 48000, 0, 0, false⟩,
      ⟨{ micPacket 2 7 with padding := true, paddingSize := 1, payload := [] }, 2, 48000, 0,
        0, false⟩
      ]).history.epochs.map (fun e => (e.first.number, e.rest.map Passage.number)) =
      [(101, []), (100, [])] := by
  decide

/-- In every history of a stream, with any sources: the epochs follow one another, with constant
offsets, and do not share numbers. Only the first epoch of audio may reach back behind its first
packet. Padding of video never starts an epoch or completes a pending one. A packet that is rejected
changes nothing. -/
theorem rtp_continuity [VP8] : (∀ inputs, (run videoStep {} inputs).history.Continuous 0 ∧
      ∀ pkt now frameStart, isVideoPadding pkt = true →
        ∀ i ∈ [VideoInput.vp8 pkt now, .h264 pkt now frameStart, .h265 pkt now frameStart],
          (videoStep (run videoStep {} inputs) i).1.history.epochs.length =
            (run videoStep {} inputs).history.epochs.length ∧
          (videoStep (run videoStep {} inputs) i).1.begun = (run videoStep {} inputs).begun) ∧
    (∀ inputs, (run audioStep {} inputs).history.Continuous 32768) ∧
    (∀ (v v' : VideoContinuity) pkt now frameStart, (v.translate pkt now = (none, v') → v' = v) ∧
      (v.translateH264 pkt now frameStart = (none, v') → v' = v) ∧
      (v.translateH265 pkt now frameStart = (none, v') → v' = v)) ∧
    ∀ (a a' : AudioContinuity) packet epoch clockRate now preferred havePreferred,
      a.translate packet epoch clockRate now preferred havePreferred = (none, a') → a' = a := by
  refine ⟨fun inputs => ?_, fun inputs => (AudioStream.run_inv inputs).linked.continuous,
    fun v v' pkt now frameStart => ⟨(v.translate_answers pkt now).refused,
      (v.translateH264_answers pkt now frameStart).refused,
      (v.translateH264_answers pkt now frameStart).refused⟩,
    fun a a' packet epoch clockRate now preferred havePreferred =>
      (a.translate_answers packet epoch clockRate now preferred havePreferred).refused⟩
  have hinv := VideoStream.run_inv inputs
  refine ⟨hinv.linked.continuous, fun pkt now frameStart hpad i hi => ?_⟩
  have hvp8 := hinv.padding (if_pos hpad : (run videoStep {} inputs).video.translate pkt now = _)
  have hh2 := hinv.padding
    (if_pos hpad : (run videoStep {} inputs).video.translateH264 pkt now frameStart = _)
  simp only [mem_cons, not_mem_nil, or_false] at hi
  rcases hi with rfl | rfl | rfl
  · exact hvp8
  · exact hh2
  · exact hh2

end Noxa.Webrtc

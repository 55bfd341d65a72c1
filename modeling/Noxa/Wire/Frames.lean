import Noxa.Lib.BigEndian
import Noxa.Lib.ChunkReader

/-!
# Frames of the control channel

The framing of `internal/netproto/frame.go`: the length of what follows, a type and a payload. A
reader is an `io.Reader` that may cut the stream anywhere. What a read allocates is part of its
result, since the point of the limit is that a length is judged before a buffer of that length is
made.

## Main definitions

* `readFrameLimit`, `writeFrame` — the two directions
* `readStream` — reading until an error

## Main results

* `readFrameLimit_encoding` — what was written is read
* `encoding_of_readFrameLimit` — what was read is what would be written
* `frame_stream_round_trip` — streams of frames, in any pieces
-/

namespace Noxa.Wire

open ChunkReader List BigEndian

/-- The largest frame, without its length. -/
def maxFrameSize : ℕ := 2 ^ 20

def maxPayloadSize : ℕ := maxFrameSize - 2

structure Frame where
  type : UInt16
  payload : List UInt8
  deriving DecidableEq, Repr

inductive FrameErr
  /-- `netproto: reading length prefix` -/
  | lengthPrefix (e : ReadErr)
  | invalidLength (length : ℕ)
  | tooLarge
  /-- `netproto: reading frame body` -/
  | body (e : ReadErr)
  deriving DecidableEq, Repr

/-- What a read returns, the reader after it, and the bytes it allocates for the body. -/
structure FrameRead where
  result : Except FrameErr Frame
  reader : ChunkReader UInt8
  allocated : ℕ

def readFrameLimit (r : ChunkReader UInt8) (limit : UInt32) : FrameRead :=
  match r.readFull 4 with
  | (.error e, r) => ⟨.error (.lengthPrefix e), r, 0⟩
  | (.ok header, r) =>
    let length := BigEndian.decode header
    if length < 2 then ⟨.error (.invalidLength length), r, 0⟩
    else if length > maxFrameSize ∨ length > limit.toNat then ⟨.error .tooLarge, r, 0⟩
    else
      match r.readFull length with
      | (.error e, r) => ⟨.error (.body e), r, length⟩
      | (.ok buf, r) =>
        ⟨.ok ⟨UInt16.ofNat (BigEndian.decode (buf.take 2)), buf.drop 2⟩, r, length⟩

def readFrame (r : ChunkReader UInt8) : FrameRead := readFrameLimit r (UInt32.ofNat maxFrameSize)

inductive WriteErr
  | nilFrame
  | tooLarge
  deriving DecidableEq, Repr

/-- The writes that are made. A payload that is empty is not written. -/
def writeFrame : Option Frame → Except WriteErr (List (List UInt8))
  | none => .error .nilFrame
  | some f =>
    if f.payload.length > maxPayloadSize then .error .tooLarge
    else if 2 + f.payload.length > 2 ^ 32 - 1 then .error .tooLarge
    else
      let header := BigEndian.encode 4 (2 + f.payload.length) ++ BigEndian.encode 2 f.type.toNat
      .ok (if f.payload.length > 0 then [header, f.payload] else [header])

/-- The bytes that a frame puts on the wire. -/
def encoding (f : Frame) : List UInt8 :=
  match writeFrame (some f) with
  | .ok writes => writes.flatten
  | .error _ => []

/-- Read frames until there is an error, and at most as many as given. -/
def readStream : ℕ → ChunkReader UInt8 → List Frame × Option FrameErr
  | 0, _ => ([], none)
  | n + 1, r =>
    match readFrame r with
    | ⟨.error e, _, _⟩ => ([], some e)
    | ⟨.ok f, r, _⟩ =>
      let (fs, e) := readStream n r
      (f :: fs, e)

/-! ### Writing -/

variable {f : Frame}

/-- The frames that are accepted are those with a payload that fits. -/
theorem writeFrame_isOk :
    (writeFrame (some f)).isOk = true ↔ f.payload.length ≤ maxPayloadSize := by
  have hsz : maxPayloadSize = 1048574 := rfl
  rw [writeFrame]
  split
  · rename_i hlg
    simp [Except.isOk, Except.toBool, hlg]
  rename_i hft
  rw [if_neg (by omega)]
  simp only [Except.isOk, Except.toBool, true_iff]
  omega

theorem encoding_eq (h : f.payload.length ≤ maxPayloadSize) :
    encoding f = BigEndian.encode 4 (2 + f.payload.length) ++
      (BigEndian.encode 2 f.type.toNat ++ f.payload) := by
  have hsz : maxPayloadSize = 1048574 := rfl
  rw [encoding, writeFrame, if_neg (by omega), if_neg (by omega)]
  dsimp only
  split
  · simp
  · rename_i hemp
    have hn : f.payload = [] := eq_nil_of_length_eq_zero (by omega)
    simp [hn]

/-! ### Reading -/

/-- The length that is declared in front of a frame. -/
def declared (data : List UInt8) : ℕ := BigEndian.decode (data.take 4)

section Read

variable {r : ChunkReader UInt8} (limit : UInt32)

theorem readFull_ok {n : ℕ} (h : n ≤ r.data.length) :
    ∃ r', r.readFull n = (.ok (r.data.take n), r') ∧ r'.data = r.data.drop n :=
  ⟨(r.readFull n).2, Prod.ext ((readFull_result n r).trans (if_pos h)) rfl, readFull_data n r⟩

theorem readFull_short {n : ℕ} (h : r.data.length < n) :
    ∃ e r', r.readFull n = (.error e, r') ∧ (r.data = [] → e = .eof) ∧ r'.data = [] := by
  have hres := readFull_result n r
  rw [if_neg (Nat.not_le.mpr h)] at hres
  have hdt : (r.readFull n).2.data = [] := by
    rw [readFull_data, drop_of_length_le (Nat.le_of_lt h)]
  by_cases hemp : r.data.isEmpty
  · rw [if_pos hemp] at hres
    exact ⟨.eof, (r.readFull n).2, Prod.ext hres rfl, fun _ => rfl, hdt⟩
  · rw [if_neg hemp] at hres
    refine ⟨.unexpectedEOF, (r.readFull n).2, Prod.ext hres rfl, fun hn => ?_, hdt⟩
    exact absurd (isEmpty_iff.mpr hn) hemp

/-- There is no length to be read. -/
theorem readFrameLimit_short (h : r.data.length < 4) :
    ∃ e, (readFrameLimit r limit).result = .error (.lengthPrefix e) ∧ (r.data = [] → e = .eof) := by
  obtain ⟨e, r', heq, hemp, -⟩ := readFull_short h
  exact ⟨e, by rw [readFrameLimit, heq], hemp⟩

/-- A length that is out of bounds is all that is read. -/
theorem readFrameLimit_refused (h : 4 ≤ r.data.length)
    (hl : declared r.data < 2 ∨ maxFrameSize < declared r.data ∨ limit.toNat < declared r.data) :
    ((readFrameLimit r limit).result = .error (.invalidLength (declared r.data)) ∨
      (readFrameLimit r limit).result = .error .tooLarge) ∧
      (readFrameLimit r limit).reader.data = r.data.drop 4 ∧
      (readFrameLimit r limit).allocated = 0 := by
  obtain ⟨r', heq, hdt⟩ := readFull_ok h
  rw [readFrameLimit, heq]
  dsimp only
  rw [← declared]
  by_cases hsh : declared r.data < 2
  · rw [if_pos hsh]
    exact ⟨.inl rfl, hdt, rfl⟩
  · rw [if_neg hsh, if_pos (hl.resolve_left hsh)]
    exact ⟨.inr rfl, hdt, rfl⟩

/-- A length that is in bounds is allocated, and the body is read if it is there. -/
theorem readFrameLimit_body (h : 4 ≤ r.data.length) (hty : 2 ≤ declared r.data)
    (hm : declared r.data ≤ maxFrameSize) (hlim : declared r.data ≤ limit.toNat) :
    (4 + declared r.data ≤ r.data.length ∧ (readFrameLimit r limit).result = .ok
        ⟨UInt16.ofNat (BigEndian.decode ((r.data.drop 4).take 2)),
          ((r.data.drop 4).take (declared r.data)).drop 2⟩ ∧
      (readFrameLimit r limit).reader.data = r.data.drop (4 + declared r.data)) ∨
    (r.data.length < 4 + declared r.data ∧
      ∃ e, (readFrameLimit r limit).result = .error (.body e)) := by
  obtain ⟨r', heq, hdt⟩ := readFull_ok h
  have hbds : ¬ (maxFrameSize < declared r.data ∨ limit.toNat < declared r.data) := by omega
  have hl : r'.data.length = r.data.length - 4 := by rw [hdt, length_drop]
  rw [readFrameLimit, heq]
  dsimp only
  rw [← declared, if_neg (Nat.not_lt.mpr hty), if_neg hbds]
  by_cases hbd : 4 + declared r.data ≤ r.data.length
  · left
    have hen : declared r.data ≤ r'.data.length := by omega
    obtain ⟨r'', heq', hdt'⟩ := readFull_ok hen
    rw [heq']
    dsimp only
    rw [hdt', hdt, take_take, Nat.min_eq_left hty, drop_drop]
    exact ⟨hbd, rfl, rfl⟩
  · right
    have hsh : r'.data.length < declared r.data := by omega
    obtain ⟨e, r'', heq', -, -⟩ := readFull_short hsh
    rw [heq']
    exact ⟨by omega, e, rfl⟩

/-- What a frame that is read says about the stream. -/
theorem bounds_of_readFrameLimit (h : (readFrameLimit r limit).result = .ok f) :
    4 ≤ r.data.length ∧ 2 ≤ declared r.data ∧ declared r.data ≤ maxFrameSize ∧
      declared r.data ≤ limit.toNat := by
  have hfr : 4 ≤ r.data.length := by
    by_contra hsh
    obtain ⟨e, he, -⟩ := readFrameLimit_short limit (Nat.lt_of_not_le hsh)
    exact absurd (h.symm.trans he) (by simp)
  refine ⟨hfr, ?_⟩
  by_contra hout
  have hl : declared r.data < 2 ∨ maxFrameSize < declared r.data ∨
      limit.toNat < declared r.data := by omega
  obtain ⟨he | he, -⟩ := readFrameLimit_refused limit hfr hl
  · exact absurd (h.symm.trans he) (by simp)
  · exact absurd (h.symm.trans he) (by simp)

/-- What was read is what would be written. -/
theorem encoding_of_readFrameLimit (h : (readFrameLimit r limit).result = .ok f) :
    (writeFrame (some f)).isOk = true ∧
      r.data = encoding f ++ (readFrameLimit r limit).reader.data := by
  obtain ⟨hfr, hty, hm, hlim⟩ := bounds_of_readFrameLimit limit h
  have hsz : maxPayloadSize = maxFrameSize - 2 := rfl
  rcases readFrameLimit_body limit hfr hty hm hlim with ⟨hbd, hres, hdt⟩ | ⟨-, e, he⟩
  · obtain rfl := Except.ok.inj (h.symm.trans hres)
    have hl : (((r.data.drop 4).take (declared r.data)).drop 2).length = declared r.data - 2 := by
      rw [length_drop, length_take, length_drop]
      omega
    have hft : (((r.data.drop 4).take (declared r.data)).drop 2).length ≤ maxPayloadSize := by
      omega
    refine ⟨writeFrame_isOk.mpr hft, ?_⟩
    -- Each part of the encoding is the part of the stream that it was read from.
    have hpr : BigEndian.encode 4 (declared r.data) = r.data.take 4 := by
      exact encode_decode_of_length (by rw [length_take]; omega)
    have htwo : ((r.data.drop 4).take 2).length = 2 := by
      rw [length_take, length_drop]
      omega
    have hnum : BigEndian.decode ((r.data.drop 4).take 2) < 2 ^ 16 := by
      have hlt := decode_lt ((r.data.drop 4).take 2)
      rw [htwo] at hlt
      omega
    have htyp : BigEndian.encode 2 (UInt16.ofNat (BigEndian.decode ((r.data.drop 4).take 2))).toNat
        = (r.data.drop 4).take 2 := by
      rw [UInt16.toNat_ofNat', Nat.mod_eq_of_lt hnum]
      exact encode_decode_of_length htwo
    have hbod : (r.data.drop 4).take 2 ++ ((r.data.drop 4).take (declared r.data)).drop 2 =
        (r.data.drop 4).take (declared r.data) := by
      have hcut : (r.data.drop 4).take 2 = ((r.data.drop 4).take (declared r.data)).take 2 := by
        rw [take_take, Nat.min_eq_left hty]
      rw [hcut, take_append_drop]
    rw [encoding_eq hft, hdt, hl, Nat.add_sub_cancel' hty, hpr, htyp, hbod,
      append_assoc, ← drop_drop, take_append_drop, take_append_drop]
  · exact absurd (h.symm.trans he) (by simp)

/-- What was written is read. -/
theorem readFrameLimit_encoding {rest : List UInt8}
    (hf : f.payload.length ≤ maxPayloadSize) (hlim : 2 + f.payload.length ≤ limit.toNat)
    (hr : r.data = encoding f ++ rest) :
    (readFrameLimit r limit).result = .ok f ∧ (readFrameLimit r limit).reader.data = rest := by
  have hm : maxFrameSize = 1048576 := rfl
  have hsz : maxPayloadSize = 1048574 := rfl
  rw [encoding_eq hf, append_assoc, append_assoc] at hr
  have hhd : r.data.take 4 = BigEndian.encode 4 (2 + f.payload.length) := by
    rw [hr, take_left' (length_encode 4 _)]
  have hbd : r.data.drop 4 = BigEndian.encode 2 f.type.toNat ++ (f.payload ++ rest) := by
    rw [hr, drop_left' (length_encode 4 _)]
  have hdcl : declared r.data = 2 + f.payload.length := by
    rw [declared, hhd, decode_encode_of_lt (by omega)]
  have hl : r.data.length = 4 + (2 + (f.payload.length + rest.length)) := by
    rw [hr]
    simp [length_encode]
  have hfr : 4 ≤ r.data.length := by omega
  rcases readFrameLimit_body limit hfr (by omega) (by omega) (by omega) with
    ⟨-, hres, hdt⟩ | ⟨hsh, -⟩
  · rw [hdcl] at hres hdt
    refine ⟨hres.trans ?_, ?_⟩
    · have hty : (r.data.drop 4).take 2 = BigEndian.encode 2 f.type.toNat := by
        rw [hbd, take_left' (length_encode 2 _)]
      have hpay : ((r.data.drop 4).take (2 + f.payload.length)).drop 2 = f.payload := by
        rw [drop_take, hbd, drop_left' (length_encode 2 _), Nat.add_sub_cancel_left, take_left]
      rw [hty, hpay, decode_encode_of_lt f.type.toNat_lt, UInt16.ofNat_toNat]
    · rw [hdt, ← drop_drop, hbd, ← drop_drop, drop_left' (length_encode 2 _), drop_left]
  · omega

end Read

/-! ### Streams -/

theorem readStream_encodings {frames : List Frame}
    (h : ∀ f ∈ frames, (writeFrame (some f)).isOk = true) {r : ChunkReader UInt8}
    (hr : r.data = frames.flatMap encoding) (k : ℕ) :
    readStream (frames.length + 1 + k) r = (frames, some (.lengthPrefix .eof)) := by
  induction frames generalizing r with
  | nil =>
    have hn : r.data = [] := hr
    obtain ⟨e, he, heof⟩ := readFrameLimit_short (UInt32.ofNat maxFrameSize) (r := r)
      (by rw [hn]; decide)
    obtain rfl := heof hn
    rw [length_nil, Nat.zero_add, Nat.add_comm, readStream]
    cases hrd : readFrame r with
    | mk =>
      rw [← readFrame, hrd] at he
      dsimp only at he
      rw [he]
  | cons f fs ih =>
    have hf := writeFrame_isOk.mp (h f mem_cons_self)
    have hsz : maxPayloadSize = 1048574 := rfl
    have hlim : 2 + f.payload.length ≤ (UInt32.ofNat maxFrameSize).toNat := by
      have hm : (UInt32.ofNat maxFrameSize).toNat = 1048576 := rfl
      omega
    obtain ⟨hres, hdt⟩ := readFrameLimit_encoding (UInt32.ofNat maxFrameSize) hf hlim
      (hr.trans flatMap_cons)
    have hcnt : (f :: fs).length + 1 + k = fs.length + 1 + k + 1 := by
      rw [length_cons]
      omega
    rw [hcnt, readStream]
    cases hrd : readFrame r with
    | mk =>
      rw [← readFrame, hrd] at hres hdt
      dsimp only at hres hdt
      rw [hres]
      dsimp only
      rw [ih (fun g hg => h g (mem_cons_of_mem _ hg)) hdt]

/-- **Frames survive the wire.** Frames that are accepted for writing are read back in order from
their bytes, however the reader cuts them, and then the stream ends cleanly. A frame that is read is
what its bytes are the encoding of, and they are all there. A length out of bounds is refused before
anything after it is read or allocated, and a body that is cut short is an error. -/
theorem frame_stream_round_trip : (∀ (frames : List Frame) (chunks : List Chunk) (k : ℕ),
      (∀ f ∈ frames, (writeFrame (some f)).isOk = true) →
        readStream (frames.length + 1 + k) ⟨frames.flatMap encoding, chunks⟩ =
          (frames, some (.lengthPrefix .eof))) ∧
    (∀ (data : List UInt8) (chunks : List Chunk) (limit : UInt32) (f : Frame),
      (readFrameLimit ⟨data, chunks⟩ limit).result = .ok f → (writeFrame (some f)).isOk = true ∧
          data = encoding f ++ (readFrameLimit ⟨data, chunks⟩ limit).reader.data) ∧
    (∀ (data : List UInt8) (chunks : List Chunk) (limit : UInt32), 4 ≤ data.length →
      (declared data < 2 ∨ maxFrameSize < declared data ∨ limit.toNat < declared data) →
        ((readFrameLimit ⟨data, chunks⟩ limit).result = .error (.invalidLength (declared data)) ∨
          (readFrameLimit ⟨data, chunks⟩ limit).result = .error .tooLarge) ∧
        (readFrameLimit ⟨data, chunks⟩ limit).reader.data = data.drop 4 ∧
        (readFrameLimit ⟨data, chunks⟩ limit).allocated = 0) ∧
    (∀ (data : List UInt8) (chunks : List Chunk) (limit : UInt32),
      (data.length < 4 ∨ data.length < 4 + declared data) →
        ∃ e, (readFrameLimit ⟨data, chunks⟩ limit).result = .error e) := by
  refine ⟨fun frames chunks k h => readStream_encodings h rfl k,
    fun data chunks limit f h => encoding_of_readFrameLimit limit h,
    fun data chunks limit hfr hl => readFrameLimit_refused limit hfr hl,
    fun data chunks limit hsh => ?_⟩
  cases hrd : (readFrameLimit ⟨data, chunks⟩ limit).result with
  | error e => exact ⟨e, rfl⟩
  | ok =>
    exfalso
    obtain ⟨hfr, hty, hm, hlim⟩ := bounds_of_readFrameLimit limit hrd
    rcases readFrameLimit_body limit hfr hty hm hlim with ⟨hbd, -⟩ | ⟨-, e, he⟩
    · have hlg : 4 ≤ data.length ∧ 4 + declared data ≤ data.length := ⟨hfr, hbd⟩
      omega
    · exact absurd (hrd.symm.trans he) (by simp)

/-- Two frames, read in pieces of one, none and three bytes, and a length that is too short. -/
theorem frame_stream_round_trip_two : readStream 3 ⟨[⟨7, [1, 2]⟩, ⟨8, []⟩].flatMap encoding,
      [⟨1, false⟩, ⟨0, false⟩, ⟨3, true⟩, ⟨3, true⟩]⟩ =
        ([⟨7, [1, 2]⟩, ⟨8, []⟩], some (.lengthPrefix .eof)) ∧
    (readFrameLimit ⟨[0, 0, 0, 1, 5], []⟩ 9).reader.data = [5] :=
  ⟨frame_stream_round_trip.1 [⟨7, [1, 2]⟩, ⟨8, []⟩] _ 0 (by decide),
    (frame_stream_round_trip.2.2.1 [0, 0, 0, 1, 5] [] 9 (by decide) (by decide)).2.1⟩

end Noxa.Wire

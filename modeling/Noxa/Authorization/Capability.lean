import Mathlib.Data.List.Basic

/-!
# Capabilities

The named privileges of the role authorization model and their catalogue
(`internal/authorization/capabilities.go`): for each capability whether it can be decided inside
a channel, and which other capabilities it requires.

A capability travels as a string. The strings of the catalogue are the constructors below, and
`unlisted` is any other string; the catalogue does not know those. The editor texts of the
catalogue (its group and its two display names) are left out, since no decision reads them.

## Main results

* `Capability.rank_lt_of_mem_requires` — the requirements are well founded
* `Capability.rank_lt_four` — and no chain of them is longer than four
-/

namespace Noxa.Authorization

/-- A named privilege in the role authorization model. -/
inductive Capability
  | administrator
  | viewChannel
  | readHistory
  | sendMessages
  | mentionEveryone
  | manageMessages
  | bypassSlowmode
  | connect
  | speak
  | shareCamera
  | shareScreen
  | whisper
  | prioritySpeaker
  | uploadFiles
  | downloadFiles
  | manageFiles
  | moveMembers
  | muteMembers
  | deafenMembers
  | disconnectMembers
  | kickMembers
  | banMembers
  | manageChannels
  | manageChannelAccess
  | inviteOthers
  | createTemporaryChannels
  | bypassChannelPassword
  | manageRoles
  | manageServer
  | manageEmoji
  | manageChatFilters
  | viewAuditLog
  | viewConnectionInfo
  | viewRemoteAddresses
  | recordChannel
  | uploadAvatar
  | pokeMembers
  /-- A string that is not in the catalogue. -/
  | unlisted (key : String)
  deriving DecidableEq, Repr

namespace Capability

/-- What validation and evaluation read about a capability. -/
structure CapabilityInfo where
  /-- The capability described. -/
  key : Capability
  /-- Whether the capability is decided inside a channel. -/
  channel : Bool
  /-- The capabilities it has no effect without. -/
  requires : List Capability
  deriving DecidableEq, Repr

/-- The catalogue, in editor display order. -/
def capabilityCatalog : List CapabilityInfo :=
  [⟨administrator, false, []⟩, ⟨viewChannel, true, []⟩, ⟨readHistory, true, [viewChannel]⟩,
   ⟨sendMessages, true, [viewChannel]⟩,
   ⟨mentionEveryone, true, [sendMessages]⟩,
   ⟨manageMessages, true, [viewChannel]⟩,
   ⟨bypassSlowmode, true, [sendMessages]⟩,
   ⟨connect, true, [viewChannel]⟩,
   ⟨speak, true, [connect]⟩,
   ⟨shareCamera, true, [connect]⟩,
   ⟨shareScreen, true, [connect]⟩,
   ⟨whisper, true, [speak]⟩,
   ⟨prioritySpeaker, true, [speak]⟩,
   ⟨uploadFiles, true, [viewChannel]⟩,
   ⟨downloadFiles, true, [viewChannel]⟩,
   ⟨manageFiles, true, [viewChannel]⟩,
   ⟨moveMembers, true, [viewChannel]⟩,
   ⟨muteMembers, true, [viewChannel]⟩,
   ⟨deafenMembers, true, [viewChannel]⟩,
   ⟨disconnectMembers, true, [viewChannel]⟩,
   ⟨kickMembers, false, []⟩,
   ⟨banMembers, false, []⟩,
   ⟨manageChannels, true, [viewChannel]⟩,
   ⟨inviteOthers, true, [viewChannel]⟩,
   ⟨manageChannelAccess, true, [viewChannel]⟩,
   ⟨createTemporaryChannels, true, [viewChannel]⟩,
   ⟨bypassChannelPassword, true, [viewChannel]⟩,
   ⟨manageRoles, false, []⟩,
   ⟨manageServer, false, []⟩,
   ⟨manageEmoji, false, []⟩,
   ⟨manageChatFilters, false, []⟩,
   ⟨viewAuditLog, false, []⟩,
   ⟨viewConnectionInfo, false, []⟩,
   ⟨viewRemoteAddresses, false, []⟩,
   ⟨recordChannel, true, [connect]⟩,
   ⟨uploadAvatar, false, []⟩,
   ⟨pokeMembers, false, []⟩]

/-- Look a capability up in the catalogue. -/
def capabilityInfo (key : Capability) : Option CapabilityInfo :=
  capabilityCatalog.find? (·.key = key)

/-- The capabilities `k` requires; an unlisted one requires nothing. -/
def requires (k : Capability) : List Capability :=
  ((capabilityInfo k).map (·.requires)).getD []

variable {k : Capability} {info : CapabilityInfo}

theorem requires_of_capabilityInfo (h : capabilityInfo k = some info) :
    k.requires = info.requires := by
  simp [requires, h]

theorem key_of_capabilityInfo (h : capabilityInfo k = some info) : info.key = k := by
  simpa using List.find?_some h

/-- The length of the longest requirement chain below a capability. -/
def rank : Capability → ℕ
  | readHistory | sendMessages | manageMessages | connect | uploadFiles | downloadFiles
  | manageFiles | moveMembers | muteMembers | deafenMembers | disconnectMembers
  | manageChannels | inviteOthers | manageChannelAccess | createTemporaryChannels
  | bypassChannelPassword => 1
  | mentionEveryone | bypassSlowmode | speak | shareCamera | shareScreen | recordChannel => 2
  | whisper | prioritySpeaker => 3
  | _ => 0

theorem rank_lt_four (k : Capability) : k.rank < 4 := by
  cases k <;> simp [rank]

/-- Every requirement has a smaller rank, checked over the whole catalogue. -/
theorem rank_lt_of_mem_requires {r : Capability} (hr : r ∈ k.requires) : r.rank < k.rank := by
  have hcat : ∀ info ∈ capabilityCatalog, ∀ r ∈ info.requires, r.rank < info.key.rank := by
    decide
  cases hk : capabilityInfo k with
  | none => simp [requires, hk] at hr
  | some info =>
    rw [requires_of_capabilityInfo hk] at hr
    rw [← key_of_capabilityInfo hk]
    exact hcat info (List.mem_of_find?_eq_some hk) r hr

end Capability

end Noxa.Authorization

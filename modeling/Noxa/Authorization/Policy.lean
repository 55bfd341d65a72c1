import Mathlib.Algebra.Group.Int.Defs
import Mathlib.Algebra.GroupWithZero.Nat
import Noxa.Authorization.Capability
import Noxa.Lib.Base64

/-!
# Role policies

The committed authorization snapshot (`internal/authorization/roles.go`) and the checks of its
leaves: role names, colours and icons (`role_icons.go`).

Identifiers are `int64` values in the source and integers here; nothing computes with them. The
revision is the one number that is advanced, and `int64` is the wrap-around it is advanced with.
Texts are Lean strings, so they are valid UTF-8 by type and the source's test for that has no
counterpart. Icons are PNG images; decoding one belongs to an image library, which enters as the
class `PngDecoder`.

## Main definitions

* `RolePolicy` — roles, member assignments and channel overrides at one revision
* `validateRoleIcon` — the checks on an icon
-/

namespace Noxa.Authorization

/-- Wrap an integer into the range of `int64`. -/
def int64 (x : Int) : Int := Int.bmod x (2 ^ 64)

theorem int64_of_small {x : Int} (h0 : 0 ≤ x) (hx : x < 2 ^ 63) : int64 x = x := by
  refine Int.bmod_eq_of_le_mul_two ?_ ?_
  · omega
  · omega

/-! ### The snapshot -/

/-- A role grants server-wide capabilities; unset never negates another role. -/
structure Role where
  id : Int
  name : String
  position : Int
  color : String := ""
  icon : String := ""
  iconImage : Option String := none
  hoist : Bool := false
  mentionable : Bool := false
  deletionProtected : Bool := false
  permissions : List Capability
  deriving DecidableEq, Repr

/-- The roles assigned to one registered user, beside `@everyone`. -/
structure RoleMember where
  userID : Int
  roleIDs : List Int
  deriving DecidableEq, Repr

/-- The effect of an override. Any text other than the two known ones is refused. -/
inductive OverrideEffect
  | allow
  | deny
  | unlisted (text : String)
  deriving DecidableEq, Repr

/-- A channel exception for one role or one user. Absence represents inheriting. -/
structure RoleOverride where
  roleID : Int := 0
  userID : Int := 0
  capability : Capability
  effect : OverrideEffect
  deriving DecidableEq, Repr

/-- The access policy of one channel. -/
structure ChannelPolicy where
  systemKind : String := ""
  channelID : Int
  parentID : Int
  synced : Bool
  overrides : List RoleOverride
  deriving DecidableEq, Repr

/-- The zero value a map gives for a channel it does not have. -/
def ChannelPolicy.zero : ChannelPolicy := ⟨"", 0, 0, false, []⟩

/-- A consistent committed authorization snapshot. User zero is the anonymous guest. -/
structure RolePolicy where
  revision : Int
  ownerID : Int
  everyoneID : Int
  defaultMemberRoleID : Int := 0
  roles : List Role
  members : List RoleMember
  channels : List ChannelPolicy
  deriving DecidableEq, Repr

/-! ### Texts and icons -/

/-- A hexadecimal digit of either case. -/
def isHexDigit (c : Char) : Bool :=
  ('0' ≤ c ∧ c ≤ '9') ∨ ('a' ≤ c ∧ c ≤ 'f') ∨ ('A' ≤ c ∧ c ≤ 'F')

/-- The pattern `^#[0-9a-fA-F]{6}$`. -/
def matchesRoleColor (color : String) : Bool :=
  match color.toList with
  | '#' :: digits => digits.length = 6 ∧ digits.all isHexDigit
  | _ => false

/-- The image library: the dimensions in a PNG header, and whether the whole image decodes. -/
class PngDecoder where
  /-- Width and height, when the header can be read. -/
  decodeConfig : List UInt8 → Option (Int × Int)
  /-- Whether the image data decodes. -/
  decode : List UInt8 → Bool

/-- A decoder that knows no image, enough for policies without icons. -/
@[reducible]
def PngDecoder.none : PngDecoder := ⟨fun _ => Option.none, fun _ => false⟩

/-- The four complaints about an icon. -/
inductive IconError
  | notSmallPNG
  | encoding
  | dimensions
  | corrupt
  deriving DecidableEq, Repr

def maxRoleIconBytes : ℕ := 8 * 1024

def maxRoleIconDimension : Int := 32

/-- Bound on the icons of all roles together, as they stand in a snapshot. -/
def maxRoleIconImagesEncoded : ℕ := 128 * 1024

def roleIconPrefix : String := "data:image/png;base64,"

/-- The icon text; an unset icon reads as empty. -/
def roleIconImage (value : Option String) : String := value.getD ""

/-- Length of the base64 text of `n` bytes. -/
def encodedLen (n : ℕ) : ℕ := (n + 2) / 3 * 4

/-- Check one icon: size, the data URL, canonical base64, dimensions and image data. -/
def validateRoleIcon [PngDecoder] (value : Option String) : Except IconError Unit :=
  let raw := roleIconImage value
  if raw = "" then .ok ()
  else if raw.utf8ByteSize > roleIconPrefix.utf8ByteSize + encodedLen maxRoleIconBytes ∨
      ¬ roleIconPrefix.toList.isPrefixOf raw.toList then .error .notSmallPNG
  else
    let encoded := raw.toList.drop roleIconPrefix.length
    match Base64.decode encoded with
    | none => .error .encoding
    | some data =>
      if data.length > maxRoleIconBytes ∨ Base64.encode data ≠ encoded then .error .encoding
      else
        match PngDecoder.decodeConfig data with
        | none => .error .dimensions
        | some (width, height) =>
          if width < 1 ∨ height < 1 ∨ width > maxRoleIconDimension ∨
              height > maxRoleIconDimension then .error .dimensions
          else if PngDecoder.decode data then .ok ()
          else .error .corrupt

/-! ### A small policy -/

/-- A server with an owner, a moderator, a member and an administrator, and three channels of
which the second follows the first (the fixture of `roles_test.go`). -/
def roleFixture : RolePolicy where
  revision := 1
  ownerID := 1
  everyoneID := 10
  roles :=
    [{ id := 10, name := "@everyone", position := 0,
       permissions := [.viewChannel, .connect, .speak] },
     { id := 20, name := "Member", position := 1, permissions := [.sendMessages] },
     { id := 30, name := "Moderator", position := 2, permissions := [.manageRoles, .kickMembers] },
     { id := 40, name := "Admin", position := 3, permissions := [.administrator] }]
  members := [⟨2, [20, 30]⟩, ⟨3, [20]⟩, ⟨4, [40]⟩]
  channels :=
    [{ channelID := 100, parentID := 0, synced := false, overrides :=
        [{ roleID := 10, capability := .viewChannel, effect := .deny },
         { roleID := 20, capability := .viewChannel, effect := .deny },
         { roleID := 30, capability := .viewChannel, effect := .allow }] },
     { channelID := 101, parentID := 100, synced := true, overrides := [] },
     { channelID := 102, parentID := 100, synced := false, overrides := [] }]

end Noxa.Authorization

import Mathlib.Data.List.Sort
import Mathlib.Data.String.Basic

/-!
# The recipients of a publication

The client's view of its channel: the roster as the server last sent it, and the devices whose
users the client lets hear its own publications (`media-keys.js`, `inChannel` and `recipientsOf`).

## Main definitions

* `Entry` — one session of the roster
* `recipientsOf` — the devices of the others in the channel, each once, in order
* `recipientIDs` — their identities, which also stand for the recorded key of a recipient list
-/

namespace Noxa.Media

/-- A device: the principal it belongs to and its Olm device. -/
structure DeviceID where
  principal : String
  device : String
  deriving DecidableEq, Repr

/-- A session of the roster. `channelID` is absent unless the field is an integer number, and an
absent text field is empty. -/
structure Entry where
  channelID : Option Int
  clientID : String
  uniqueID : String
  mediaDevice : String
  nickname : String
  invisible : Bool
  deriving DecidableEq, Repr

/-- The local session. -/
structure Self where
  channelID : Int
  clientID : String
  id : DeviceID
  deriving DecidableEq, Repr

structure Recipient where
  id : DeviceID
  clientID : String
  nickname : String
  deriving DecidableEq, Repr

def inChannel (c : Entry) (channelID : Int) : Bool :=
  c.channelID == some channelID

/-- The identifiers the client accepts: 1 to 128 printable characters, no blanks. -/
def validID (s : String) : Bool :=
  s.length ≥ 1 && s.length ≤ 128 && s.toList.all fun c => 0x21 ≤ c.toNat && c.toNat ≤ 0x7e

/-- `Map.set` on the devices seen so far: a device keeps its place and takes the newer values. -/
def remember (seen : List Recipient) (r : Recipient) : List Recipient :=
  if seen.any (·.id = r.id) then seen.map fun q => if q.id = r.id then r else q else seen ++ [r]

/-- The text recipients are sorted by. -/
def Recipient.order (r : Recipient) : String :=
  r.id.principal ++ "\n" ++ r.id.device

/-- Whether a session of the roster gets the keys of `self`'s publications. -/
def isListener (self : Self) (c : Entry) : Bool :=
  inChannel c self.channelID && !c.invisible && c.mediaDevice != "" && c.uniqueID != "" &&
    c.clientID != "" && c.clientID != self.clientID && c.mediaDevice != self.id.device &&
    validID c.mediaDevice && validID c.uniqueID

def recipientsOf (roster : List Entry) (self : Self) : List Recipient :=
  let seen := roster.foldl (fun seen c =>
    if isListener self c then remember seen ⟨⟨c.uniqueID, c.mediaDevice⟩, c.clientID, c.nickname⟩
    else seen) []
  seen.insertionSort fun a b => a.order ≤ b.order

/-- The identities of a recipient list. The source also joins them to one text, its recorded key;
an accepted identifier has no line break, so two lists have the same text when they have the same
identities. -/
def recipientIDs (recipients : List Recipient) : List DeviceID :=
  recipients.map Recipient.id

/-- Whether the roster shows the local session as invisible. -/
def isInvisible (roster : List Entry) (self : Self) : Bool :=
  match roster.find? (·.clientID = self.clientID) with
  | some c => c.invisible
  | none => false

end Noxa.Media

import Ikigai.Capability
import Ikigai.Contract
import Ikigai.HandleCounts
import Ikigai.Representation
import Ikigai.Request

/-!
# The content store

Bodies by content id, held while a handle for them lives and bounded in bytes. Each hold was
taken for the host or for one principal, and content is read by root and by whoever acts as a
principal that a live handle was taken for. Putting content that is held is one more handle
on the same entry, at the size its first hold stated.
-/

namespace Ikigai

namespace ContentStore

/-- The digest of some bytes, as their name. -/
abbrev ContentId := ContractDigest

/-- Who a hold was taken for: nobody a capability can name, or one principal. -/
inductive Holder where
  | root
  | principal (name : Text)
deriving DecidableEq, Repr

section Holders

variable [IriSyntax]

def Holder.ofCapability (capability : Capability) : Holder :=
  match capability.principal with
  | some name => .principal name
  | none => .root

/-- Whether a capability that is not root may read what a hold keeps. -/
def Holder.admits (capability : Capability) : Holder → Bool
  | .root => false
  | .principal name => capability.actsAs name

end Holders

structure Entry where
  body : Body
  size : Nat
  holders : HandleCounts Holder

structure State where
  entries : KeyedMap ContentId Entry := ∅
  held : Nat := 0

/-- A hold on content. -/
structure ContentHandle where
  id : ContentId
  holder : Holder
deriving DecidableEq

/-- A body that can be read again, as its producer states it. -/
structure Replay where
  object : Nat
  validator : Option ContentId
  lenHint : Option UInt64

/-- What a put wants held. -/
structure Wanted where
  id : ContentId
  size : UInt64
  body : Body

def overStore (held most : Nat) (id : ContentId) (size : Nat) : Error :=
  .overBudget ("the content store holds ".toList ++ Nat.toDigits 10 held ++ " of ".toList ++
    Nat.toDigits 10 most ++ " bytes, and ".toList ++ id.text ++ " needs ".toList ++
    Nat.toDigits 10 size ++ " more".toList)

/-- One more handle on what is held, or a new entry within the bound. -/
def State.hold (maxBytes : UInt64) (state : State) (holder : Holder) (wanted : Wanted) :
    State × Except Error ContentHandle :=
  match state.entries.lookup wanted.id with
  | some entry =>
    ({ state with
        entries := state.entries.insert wanted.id
          { entry with holders := entry.holders.hold holder } },
      .ok ⟨wanted.id, holder⟩)
  | none =>
    let held := saturatingAdd state.held wanted.size.toNat
    if maxBytes.toNat < held then
      (state, .error (overStore state.held maxBytes.toNat wanted.id wanted.size.toNat))
    else
      ({ held := held
         entries := state.entries.insert wanted.id
           ⟨wanted.body, wanted.size.toNat, HandleCounts.hold ∅ holder⟩ },
        .ok ⟨wanted.id, holder⟩)

/-- Bytes are put in under their digest. -/
def wantedBytes [ContentHash] (bytes : List UInt8) : Wanted :=
  ⟨⟨ContentHash.digest bytes⟩, UInt64.ofNat bytes.length, .bytes bytes⟩

/-- A replay is put in under its validator and counted by its length, or refused. -/
def wantedReplay (replay : Replay) : Except Error Wanted :=
  match replay.validator with
  | none => .error (.invalidArgument "content".toList
      "a replay with no validator has no content id to be stored under".toList)
  | some id =>
    match replay.lenHint with
    | none => .error (.overBudget
        "a replay of unknown length cannot be counted against the store's bound".toList)
    | some size => .ok ⟨id, size, .replay replay.object (some size.toNat)⟩

/-- What is refused outright changes nothing. -/
def State.holdWanted (maxBytes : UInt64) (state : State) (holder : Holder) :
    Except Error Wanted → State × Except Error ContentHandle
  | .error refusal => (state, .error refusal)
  | .ok wanted => state.hold maxBytes holder wanted

def State.putHeld [ContentHash] (maxBytes : UInt64) (state : State) (holder : Holder)
    (bytes : List UInt8) : State × Except Error ContentHandle :=
  state.hold maxBytes holder (wantedBytes bytes)

def State.putReplayHeld (maxBytes : UInt64) (state : State) (holder : Holder) (replay : Replay) :
    State × Except Error ContentHandle :=
  state.holdWanted maxBytes holder (wantedReplay replay)

/-- For the host. -/
def State.put [ContentHash] (maxBytes : UInt64) (state : State) (bytes : List UInt8) :
    State × Except Error ContentHandle :=
  state.putHeld maxBytes .root bytes

/-- On behalf of a caller. -/
def State.putFor [ContentHash] [IriSyntax] (maxBytes : UInt64) (state : State)
    (capability : Capability) (bytes : List UInt8) : State × Except Error ContentHandle :=
  state.putHeld maxBytes (.ofCapability capability) bytes

def State.putReplay (maxBytes : UInt64) (state : State) (replay : Replay) :
    State × Except Error ContentHandle :=
  state.putReplayHeld maxBytes .root replay

def State.putReplayFor [IriSyntax] (maxBytes : UInt64) (state : State) (capability : Capability)
    (replay : Replay) : State × Except Error ContentHandle :=
  state.putReplayHeld maxBytes (.ofCapability capability) replay

/-- A clone is one more handle of the same holder. -/
def State.cloneHandle (state : State) (handle : ContentHandle) : State :=
  match state.entries.lookup handle.id with
  | some entry =>
    { state with
      entries := state.entries.insert handle.id
        { entry with holders := entry.holders.hold handle.holder } }
  | none => state

/-- The last handle dropped releases the content. -/
def State.dropHandle (state : State) (handle : ContentHandle) : State :=
  match state.entries.lookup handle.id with
  | some entry =>
    let holders := entry.holders.release handle.holder
    if holders.entries.isEmpty then
      { entries := state.entries.erase handle.id, held := state.held - entry.size }
    else
      { state with
        entries := state.entries.insert handle.id { entry with holders := holders } }
  | none => state

/-- The body under an id, whoever holds it. -/
def State.get (state : State) (id : ContentId) : Option Body :=
  (state.entries.lookup id).bind fun entry => entry.body.share

/-- The body under an id, when a capability may read it. -/
def State.getFor [IriSyntax] (state : State) (id : ContentId) (capability : Capability) :
    Option Body :=
  (state.entries.lookup id).bind fun entry =>
    if capability.isRoot || entry.holders.entries.any fun holder => holder.1.admits capability then
      entry.body.share
    else none

end ContentStore

end Ikigai

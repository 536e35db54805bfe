import Ikigai.FloorMemo

/-!
# The probe memo

The declared defaults the issue path last prefilled each name with, per verb and chain,
and the canonical a space reported for it: what lets the cache-status probe key a request
as it would be served without resolving the name. A name is kept as the probe asks it.
-/

namespace Ikigai

def probeMemoBound : Nat := floorMemoBound

/-- How many contracts are kept for one name. -/
def probeMemoPerName : Nat := 8

/-- What a name was prefilled with for a verb in the chain of this fingerprint. -/
structure ProbeEntry where
  verb : Verb
  scope : UInt64
  declared : Option Defaults
  canonical : Option Iri
  keep : Keep
deriving DecidableEq

def ProbeEntry.is (entry : ProbeEntry) (verb : Verb) (scope : UInt64) : Bool :=
  decide (entry.verb = verb) && entry.scope == scope

/-- Contracts by name, a name's oldest first. -/
abbrev ProbeMemo := KeyedMap Text (List ProbeEntry)

namespace ProbeMemo

/-- What is held of a name for a verb in a chain. -/
def held (memo : ProbeMemo) (target : Text) (verb : Verb) (scope : UInt64) : Option ProbeEntry :=
  (memo.lookup target).bind fun entries => entries.find? fun entry => entry.is verb scope

/-- Drop what is held of a name for a verb in a chain, and the name when nothing is left. -/
def drop (memo : ProbeMemo) (target : Text) (verb : Verb) (scope : UInt64) : ProbeMemo :=
  match memo.lookup target with
  | none => memo
  | some entries =>
    let rest := entries.filter fun entry => !entry.is verb scope
    if rest.isEmpty then memo.erase target else memo.insert target rest

/-- At the bound, drop the expired contracts, then as many names as it takes, in the map's
own order. -/
def sweep (memo : ProbeMemo) (now : Option Time) : ProbeMemo :=
  let living : ProbeMemo :=
    KeyedMap.retain
      (KeyedMap.mapValues memo fun entries => entries.filter fun entry => entry.keep.freshAt now)
      fun _ entries => !entries.isEmpty
  KeyedMap.drop living (living.length - floorMemoLow)

/-- Put a contract in place of the one held for its verb and chain, or last; past the
bound for one name the oldest goes. -/
def place (entries : List ProbeEntry) (entry : ProbeEntry) : List ProbeEntry :=
  if entries.any fun held => held.is entry.verb entry.scope then
    entries.modify (entries.findIdx fun held => held.is entry.verb entry.scope) fun _ => entry
  else
    (if probeMemoPerName ≤ entries.length then entries.drop 1 else entries) ++ [entry]

/-- Record what the issue path prefilled a name with. -/
def record (memo : ProbeMemo) (target : Text) (entry : ProbeEntry) (now : Option Time) :
    ProbeMemo :=
  if entry.keep = .never then
    if (memo.held target entry.verb entry.scope).isNone then memo
    else memo.drop target entry.verb entry.scope
  else if memo.held target entry.verb entry.scope = some entry then memo
  else
    let room :=
      if target ∉ memo ∧ probeMemoBound ≤ memo.length then memo.sweep now else memo
    room.insert target (place ((room.lookup target).getD []) entry)

/-- What the memo knows of a name, while its contract may be kept. -/
def lookup (memo : ProbeMemo) (target : Text) (verb : Verb) (scope : UInt64)
    (now : Option Time) : Option ProbeEntry :=
  (memo.held target verb scope).filter fun entry => entry.keep.freshAt now

end ProbeMemo

end Ikigai

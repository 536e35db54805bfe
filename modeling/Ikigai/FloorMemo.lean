import Ikigai.Floor
import Ikigai.KeyedMap

/-!
# The floor memo

The floor read from an endpoint's description, kept for the address of the endpoint's
allocation. An admission looks the address up, describes the endpoint when it finds
nothing fresh, and writes what it read; the lock is held for the lookup and for the
write, never while the endpoint describes itself. The runs below interleave those steps
with each other, with clears, and with endpoints being allocated and released: an address
is given out again only when no strong reference holds its allocation and no weak one of
the memo reserves it. The clears so far and the descriptions given so far are kept beside
the state so that properties can speak of them; no step reads them.
-/

namespace Ikigai

/-- How long a contract may be kept. -/
inductive Keep where
  | untilRebind
  | «until» (deadline : Time)
  | never
deriving DecidableEq, Repr

namespace Keep

/-- `Keep::of`. -/
def of (caching : ContractCaching) (now : Option Time) : Keep :=
  match caching.expiryAt now with
  | .never => .untilRebind
  | .«at» deadline => .«until» deadline
  | .always => .never

/-- Whether a contract kept this way may still be used. -/
def freshAt (keep : Keep) (now : Option Time) : Bool :=
  match keep with
  | .untilRebind => true
  | .«until» deadline => now.any (· < deadline)
  | .never => false

end Keep

/-- What the issue path takes from a floor for one request. -/
structure Admission where
  lacking : Option Text
  conceal : Bool
  defaults : Defaults
  bindingDefaults : Defaults
  declared : Option Defaults
  keep : Keep
  readers : Readers
  references : Option References
deriving DecidableEq

/-- A request for admission to an endpoint's allocation. -/
structure Asked where
  endpoint : Nat
  request : Request
  bindings : List (Text × Text)
  capability : Capability
  now : Option Time
deriving DecidableEq

/-- The admission a floor gives. -/
def admission [IriSyntax] (asked : Asked) (floor : Floor) (keep : Keep) : Admission where
  lacking := floor.unsatisfied asked.request.verb asked.capability
  conceal := floor.conceals asked.request.verb asked.capability
  defaults := (floor.defaultsFor asked.request.verb).filter fun filled =>
    !asked.request.args.any fun argument => argument.1 = filled.1
  bindingDefaults := (floor.bindingDefaultsFor asked.request.verb).filter fun filled =>
    !asked.bindings.any fun binding => binding.1 = filled.1
  declared := Floor.entryForVerb floor.defaults asked.request.verb
  keep := keep
  readers := Floor.readersFor floor.bodyReaders asked.request.verb
  references := floor.references asked.request.verb

def floorMemoBound : Nat := 4096

def floorMemoLow : Nat := floorMemoBound - floorMemoBound / 4

/-- A memoized floor, with the allocation whose address it reserves. -/
structure FloorEntry where
  endpoint : Nat
  floor : Floor
  «until» : Option Time
deriving DecidableEq

def FloorEntry.freshAt (entry : FloorEntry) (now : Option Time) : Bool :=
  match entry.«until» with
  | none => true
  | some deadline => now.any (· < deadline)

def FloorEntry.keep (entry : FloorEntry) : Keep := entry.«until».elim .untilRebind .«until»

theorem FloorEntry.fresh_keep (entry : FloorEntry) (now : Option Time) :
    entry.keep.freshAt now = entry.freshAt now := by
  cases held : entry.«until» <;> simp only [keep, freshAt, held] <;> rfl

/-- Floors by the address of the endpoint's allocation. -/
abbrev FloorMemo := KeyedMap Nat FloorEntry

namespace FloorMemo

/-- At the bound, drop the entries of endpoints that are gone, then as many of the rest
as it takes, in the map's own order. -/
def sweep (memo : FloorMemo) (alive : Nat → Bool) : FloorMemo :=
  if floorMemoBound ≤ memo.length then
    let living := KeyedMap.retain memo fun _ entry => alive entry.endpoint
    KeyedMap.drop living (living.length - floorMemoLow)
  else memo

/-- What an admission that described its endpoint does under the write lock. -/
def write (memo : FloorMemo) (alive : Nat → Bool) (address endpoint : Nat) (floor : Floor)
    (keep : Keep) (stale : Bool) : FloorMemo :=
  match keep with
  | .never => if stale then memo.erase address else memo
  | .untilRebind => (memo.sweep alive).insert address ⟨endpoint, floor, none⟩
  | .«until» deadline => (memo.sweep alive).insert address ⟨endpoint, floor, some deadline⟩

theorem lookup_of_sweep (memo : FloorMemo) (alive : Nat → Bool) (address : Nat)
    (entry : FloorEntry) (held : (memo.sweep alive).lookup address = some entry) :
    memo.lookup address = some entry := by
  unfold sweep at held
  split at held
  · have living := KeyedMap.lookup_of_drop _ _ address entry held
    rw [KeyedMap.lookup_retain] at living
    exact (Option.filter_eq_some_iff.mp living).1
  · exact held

/-- What is held after a write was held before it, or is what was written. -/
theorem lookup_of_write (memo : FloorMemo) (alive : Nat → Bool) (address endpoint : Nat)
    (floor : Floor) (keep : Keep) (stale : Bool) (key : Nat) (entry : FloorEntry)
    (held : (memo.write alive address endpoint floor keep stale).lookup key = some entry) :
    memo.lookup key = some entry ∨
      (key = address ∧ keep ≠ .never ∧ entry.endpoint = endpoint ∧ entry.floor = floor ∧
        entry.keep = keep) := by
  have inserted : ∀ deadline : Option Time, keep = deadline.elim .untilRebind .«until» →
      ((memo.sweep alive).insert address ⟨endpoint, floor, deadline⟩).lookup key = some entry →
        memo.lookup key = some entry ∨ (key = address ∧ keep ≠ .never ∧
          entry.endpoint = endpoint ∧ entry.floor = floor ∧ entry.keep = keep) := by
    rintro deadline rfl held
    rw [KeyedMap.lookup_insert_eq] at held
    split at held
    · rename_i here
      cases held
      exact .inr ⟨here, by cases deadline <;> nofun, rfl, rfl, rfl⟩
    · exact .inl (memo.lookup_of_sweep alive key entry held)
  cases keep with
  | never =>
    simp only [write] at held
    split at held
    · rw [KeyedMap.lookup_erase_eq] at held
      split at held
      · cases held
      · exact .inl held
    · exact .inl held
  | untilRebind => exact inserted none rfl held
  | «until» deadline => exact inserted (some deadline) rfl held

theorem lookup_of_written (memo : FloorMemo) (alive : Nat → Bool) (address endpoint : Nat)
    (floor : Floor) (keep : Keep) (stale : Bool) (kept : keep ≠ .never) :
    ∃ entry, (memo.write alive address endpoint floor keep stale).lookup address = some entry ∧
      entry.floor = floor ∧ entry.keep = keep := by
  cases keep with
  | never => exact absurd rfl kept
  | untilRebind => exact ⟨⟨endpoint, floor, none⟩, AList.lookup_insert _, rfl, rfl⟩
  | «until» deadline => exact ⟨⟨endpoint, floor, some deadline⟩, AList.lookup_insert _, rfl, rfl⟩

theorem length_insert_le (memo : FloorMemo) (address : Nat) (entry : FloorEntry) :
    KeyedMap.length (memo.insert address entry) ≤ KeyedMap.length memo + 1 := by
  rw [KeyedMap.length, AList.entries_insert, List.length_cons]
  exact Nat.succ_le_succ (List.kerase_sublist address memo.entries).length_le

/-- A sweep leaves room for one more. -/
theorem length_sweep_lt (memo : FloorMemo) (alive : Nat → Bool) :
    KeyedMap.length (memo.sweep alive) < floorMemoBound := by
  unfold sweep
  split
  · simp only [KeyedMap.length, KeyedMap.drop, List.length_drop]
    have low : floorMemoLow < floorMemoBound := by decide
    omega
  · omega

/-- The memo stays within its bound. -/
theorem length_write_le (memo : FloorMemo) (alive : Nat → Bool) (address endpoint : Nat)
    (floor : Floor) (keep : Keep) (stale : Bool) (bounded : memo.length ≤ floorMemoBound) :
    (memo.write alive address endpoint floor keep stale).length ≤ floorMemoBound := by
  have inserted : ∀ entry, KeyedMap.length ((memo.sweep alive).insert address entry) ≤
      floorMemoBound := fun entry =>
    (length_insert_le (memo.sweep alive) address entry).trans (memo.length_sweep_lt alive)
  cases keep with
  | never =>
    simp only [write]
    split
    · exact (List.kerase_sublist address memo.entries).length_le.trans bounded
    · exact bounded
  | untilRebind => exact inserted _
  | «until» deadline => exact inserted _

end FloorMemo

end Ikigai

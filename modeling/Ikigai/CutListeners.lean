import Ikigai.IssuePath
import Ikigai.NoStaleServe
import Ikigai.SmallestNamed

/-!
# Cut listeners

A host is told which threads were cut, in a bounded queue of each listener's own that it drains
when it likes. A cut that finds a queue full is counted there and not queued. The registry
holds its listeners weakly: a listener dropped is swept at the next registration, or at the
next cut that notices.
-/

namespace Ikigai

/-- The capability that registering takes. -/
def capListen : Text := "urn:cap:kernel:listen".toList

/-- How many events a queue holds when its spec does not say. -/
def listenCapacity : Nat := 256

/-- How many invalidated targets one event names. -/
def invalidatedNamed : Nat := 64

/-- Which cuts a listener wants, and how many it holds: at least one. -/
structure ListenSpec where
  exactly : OrderedSet Text := .empty
  prefixes : List Text := []
  capacity : Nat := listenCapacity
  positive : 0 < capacity := by decide

namespace ListenSpec

/-- Also the thread named exactly so. -/
def named (spec : ListenSpec) (thread : Text) : ListenSpec :=
  { spec with exactly := spec.exactly.insert thread }

theorem holding_positive (events : Nat) : 0 < max events 1 :=
  Nat.lt_of_lt_of_le Nat.one_pos (Nat.le_max_right _ _)

/-- Hold at most so many events. -/
def holding (spec : ListenSpec) (events : Nat) : ListenSpec :=
  { spec with
    capacity := max events 1
    positive := holding_positive events }

def «matches» (spec : ListenSpec) (thread : Text) : Bool :=
  decide (thread ∈ spec.exactly) || spec.prefixes.any fun start => thread.startsWith start

end ListenSpec

/-- One cut, as a listener hears it. -/
structure CutEvent where
  thread : Thread
  sequence : Nat
  invalidated : List Text
  invalidatedMore : Nat
deriving DecidableEq, Repr

/-- What was queued since the last drain, and how many cuts were not. -/
structure CutBatch where
  events : List CutEvent := []
  dropped : Nat := 0
deriving DecidableEq, Repr

/-- Whose cuts a listener hears. -/
inductive Hearing where
  | everything
  | ownReads (fingerprint : UInt64)
deriving DecidableEq, Repr

/-- Whom to wake. -/
abbrev Waker := Nat

structure CutQueue where
  events : List CutEvent := []
  dropped : Nat := 0
  waker : Option Waker := none

/-- What a registration and the registry share, while the registration lives. -/
structure CutListener where
  spec : ListenSpec
  hearing : Hearing
  queue : CutQueue := {}
  alive : Bool := true

/-- The smallest distinct targets, in order, and how many more entries there were. -/
def nameTheFirst (targets : List Text) : List Text × Nat :=
  let naming := Naming.visitAll invalidatedNamed targets
  (naming.kept.items, naming.more)

/-- Whether a cut with these dependents is heard, and which targets it invalidated. -/
def Hearing.heard (hearing : Hearing) (dependents : List Dependent) : Bool × List Text :=
  match hearing with
  | .everything => (true, (dependents.filter Dependent.live).map Dependent.target)
  | .ownReads fingerprint =>
    let mine := dependents.filter fun dependent => dependent.capability == fingerprint
    (!mine.isEmpty, (mine.filter Dependent.live).map Dependent.target)

/-- The root hears every cut; another authority hears one whose dependents have some of its own. -/
theorem Hearing.heard_iff (hearing : Hearing) (dependents : List Dependent) :
    (hearing.heard dependents).1 = true ↔
      hearing = .everything ∨
        ∃ dependent ∈ dependents, hearing = .ownReads dependent.capability := by
  cases hearing with
  | everything => exact iff_of_true rfl (.inl rfl)
  | ownReads fingerprint =>
    simp only [heard, Bool.not_eq_true', List.isEmpty_eq_false_iff, ne_eq, List.filter_eq_nil_iff,
      beq_iff_eq, not_forall, not_not, reduceCtorEq, false_or, ownReads.injEq, exists_prop]
    exact exists_congr fun dependent => and_congr_right fun _ => eq_comm

namespace CutListener

/-- The event a cut is to a listener that wants it and may hear it. -/
def event (listener : CutListener) (thread : Thread) (sequence : Nat)
    (dependents : List Dependent) : Option CutEvent :=
  if listener.spec.matches thread then
    let heard := listener.hearing.heard dependents
    if heard.1 then
      let named := nameTheFirst heard.2
      some ⟨thread, sequence, named.1, named.2⟩
    else none
  else none

/-- A cut is an event to a listener exactly when it wants the thread and may hear the cut. -/
theorem event_iff (listener : CutListener) (thread : Thread) (sequence : Nat)
    (dependents : List Dependent) :
    (listener.event thread sequence dependents).isSome = true ↔
      listener.spec.matches thread = true ∧
        (listener.hearing = .everything ∨
          ∃ dependent ∈ dependents, listener.hearing = .ownReads dependent.capability) := by
  rw [← Hearing.heard_iff, event]
  split
  · rename_i wanted
    dsimp only
    split
    · rename_i heard
      exact iff_of_true rfl ⟨wanted, heard⟩
    · rename_i unheard
      exact iff_of_false Bool.false_ne_true fun heard => unheard heard.2
  · rename_i unwanted
    exact iff_of_false Bool.false_ne_true fun wanted => unwanted wanted.1

/-- Queue a cut, or count it where the queue is full; and hand back whom to wake. -/
def hear (listener : CutListener) (thread : Thread) (sequence : Nat)
    (dependents : List Dependent) : CutListener × Option Waker :=
  if listener.spec.matches thread then
    let heard := listener.hearing.heard dependents
    if heard.1 then
      let queue :=
        if listener.spec.capacity ≤ listener.queue.events.length then
          { listener.queue with dropped := listener.queue.dropped + 1 }
        else
          let named := nameTheFirst heard.2
          { listener.queue with
            events := listener.queue.events ++ [⟨thread, sequence, named.1, named.2⟩] }
      ({ listener with queue := { queue with waker := none } }, queue.waker)
    else (listener, none)
  else (listener, none)

/-- What is queued and counted. -/
def batch (listener : CutListener) : CutBatch := ⟨listener.queue.events, listener.queue.dropped⟩

/-- Take everything, and leave the queue empty. -/
def drain (listener : CutListener) : CutListener × CutBatch :=
  ({ listener with queue := { listener.queue with events := [], dropped := 0 } }, listener.batch)

/-- Take what there is, or park. -/
def poll (listener : CutListener) (waker : Waker) : CutListener × Option CutBatch :=
  if listener.queue.events.isEmpty && listener.queue.dropped == 0 then
    ({ listener with queue := { listener.queue with waker := some waker } }, none)
  else ({ listener with queue := {} }, some listener.batch)

end CutListener

/-- Every registration there was, by number, and the registry's weak list of them with its
length. -/
structure Listeners where
  shared : List CutListener := []
  list : List Nat := []
  count : Nat := 0

namespace Listeners

/-- The listener of a number, while its registration lives. -/
def upgrade (listeners : Listeners) (number : Nat) : Option CutListener :=
  listeners.shared[number]?.filter CutListener.alive

/-- Forget the dead. -/
def sweep (listeners : Listeners) : Listeners :=
  let list := listeners.list.filter fun number => (listeners.upgrade number).isSome
  { listeners with list := list, count := list.length }

def register (listeners : Listeners) (spec : ListenSpec) (hearing : Hearing) : Listeners :=
  let list := listeners.sweep.list ++ [listeners.shared.length]
  { shared := listeners.shared ++ [{ spec := spec, hearing := hearing }]
    list := list
    count := list.length }

/-- Whether any live listener wants a cut, and the registry, swept where one was dead. -/
def interested (listeners : Listeners) (thread : Thread) : Listeners × Bool :=
  if listeners.count = 0 then (listeners, false)
  else
    let matched := listeners.list.any fun number =>
      (listeners.upgrade number).any fun listener => listener.spec.matches thread
    let dead := listeners.list.any fun number => (listeners.upgrade number).isNone
    (if dead then listeners.sweep else listeners, matched)

/-- Change one listener. -/
def update (listeners : Listeners) (number : Nat) (listener : CutListener) : Listeners :=
  { listeners with shared := listeners.shared.set number listener }

/-- Tell one listener of a cut. -/
def tell (thread : Thread) (sequence : Nat) (dependents : List Dependent)
    (told : Listeners × List Waker) (number : Nat) : Listeners × List Waker :=
  match told.1.upgrade number with
  | some listener =>
    let heard := listener.hear thread sequence dependents
    (told.1.update number heard.1, told.2 ++ heard.2.toList)
  | none => told

/-- Tell every live listener, and hand back whom to wake. -/
def deliver (listeners : Listeners) (thread : Thread) (sequence : Nat)
    (dependents : List Dependent) : Listeners × List Waker :=
  listeners.list.foldl (tell thread sequence dependents) (listeners, [])

/-- The registration dropped. -/
def forget (listeners : Listeners) (number : Nat) : Listeners :=
  match listeners.upgrade number with
  | some listener => listeners.update number { listener with alive := false }
  | none => listeners

end Listeners

/-- The cache and the registry. -/
structure ListeningKernel (π : Type) where
  cache : ReprCache π
  listeners : Listeners := {}

namespace ListeningKernel

variable {π : Type}

/-- Cut a thread, and tell who listens, under the number of the cut; and whom to wake after. -/
def cut (kernel : ListeningKernel π) (thread : Thread) : ListeningKernel π × List Waker :=
  let asked := kernel.listeners.interested thread
  if asked.2 then
    let cut := kernel.cache.cutWith thread
    let told := asked.1.deliver thread cut.2.1 cut.2.2
    (⟨cut.1, told.1⟩, told.2)
  else (⟨(kernel.cache.cut thread).publish, asked.1⟩, [])

/-- Register a listener under a capability. -/
def listen [IriSyntax] [RequestHash] (kernel : ListeningKernel π) (spec : ListenSpec)
    (capability : Capability) : Except Error (ListeningKernel π × Nat) :=
  if capability.allows capListen then
    let hearing : Hearing :=
      if capability.isRoot then .everything else .ownReads (RequestHash.capabilityKey capability)
    .ok ({ kernel with listeners := kernel.listeners.register spec hearing },
      kernel.listeners.shared.length)
  else
    .error (.denied ("capability does not grant \x60".toList ++ capListen ++ "\x60".toList))

end ListeningKernel

end Ikigai

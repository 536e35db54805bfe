import Ikigai.FloorMemo
import Ikigai.Transitions

/-!
# Runs of the floor memo

Any number of admissions, each a lookup, a description taken outside the lock and a
write, interleaved with one another, with clears, and with endpoints coming and going.
A description taken before a clear may be written after it, and is then served to
admissions that began after the clear. Where no write comes that late, none ever is.
-/

namespace Ikigai

/-- An allocation: its address, and whether a strong reference is left. -/
structure Allocation where
  address : Nat
  strong : Bool
deriving DecidableEq

/-- A description an endpoint gave: to an admission reading this clock, after this many
clears. -/
structure Taken where
  endpoint : Nat
  description : Description
  now : Option Time
  clears : Nat
deriving DecidableEq

/-- How long this description may be kept. -/
def Taken.keep (taken : Taken) : Keep := Keep.of taken.description.contractCaching taken.now

/-- Where an admission stands once its lookup found nothing fresh. -/
inductive Phase where
  | describing (stale : Bool)
  | described (taken : Taken) (stale : Bool)
deriving DecidableEq

/-- An admission under way, with the clears that had returned when it began. -/
structure Flight where
  asked : Asked
  began : Nat
  phase : Phase
deriving DecidableEq

structure FloorState where
  memo : FloorMemo
  heap : KeyedMap Nat Allocation
  flights : KeyedMap Nat Flight
  clears : Nat
  taken : List Taken

namespace FloorState

def initial : FloorState := ⟨∅, ∅, ∅, 0, []⟩

/-- `Weak::strong_count` above zero. -/
def alive (state : FloorState) (endpoint : Nat) : Bool :=
  (state.heap.lookup endpoint).any Allocation.strong

/-- An allocation keeps its address: it is referred to, or the memo reserves it. -/
def Holds (state : FloorState) (endpoint : Nat) : Prop :=
  state.alive endpoint = true ∨
    ∃ key entry, state.memo.lookup key = some entry ∧ entry.endpoint = endpoint

end FloorState

/-- How an admission ended: what it asked, when it began, whether the memo answered it. -/
structure Answered where
  asked : Asked
  began : Nat
  hit : Bool
  admission : Admission
deriving DecidableEq

inductive FloorEvent where
  | allocate (endpoint address : Nat)
  | release (endpoint : Nat)
  | lookup (flight : Nat) (asked : Asked)
  | describe (flight : Nat) (description : Description)
  | write (flight : Nat)
  | clear
deriving DecidableEq

/-- One step, with the answer it gives if it ends an admission. The map is swept in any
order. -/
inductive FloorStep [IriSyntax] : FloorState → FloorEvent → FloorState → Option Answered → Prop where
  | allocate (state : FloorState) (endpoint address : Nat)
      (fresh : state.heap.lookup endpoint = none)
      (free : ∀ held allocation, state.heap.lookup held = some allocation → state.Holds held →
        allocation.address ≠ address) :
      FloorStep state (.allocate endpoint address)
        { state with heap := state.heap.insert endpoint ⟨address, true⟩ } none
  | release (state : FloorState) (endpoint : Nat) (allocation : Allocation)
      (held : state.heap.lookup endpoint = some allocation)
      (unused : ∀ id flight, state.flights.lookup id = some flight →
        flight.asked.endpoint ≠ endpoint) :
      FloorStep state (.release endpoint)
        { state with heap := state.heap.insert endpoint { allocation with strong := false } } none
  | hit (state : FloorState) (id : Nat) (asked : Asked) (address : Nat) (entry : FloorEntry)
      (fresh : state.flights.lookup id = none)
      (bound : state.heap.lookup asked.endpoint = some ⟨address, true⟩)
      (found : state.memo.lookup address = some entry)
      (current : entry.freshAt asked.now = true) :
      FloorStep state (.lookup id asked) state
        (some ⟨asked, state.clears, true, admission asked entry.floor entry.keep⟩)
  | stale (state : FloorState) (id : Nat) (asked : Asked) (address : Nat) (entry : FloorEntry)
      (fresh : state.flights.lookup id = none)
      (bound : state.heap.lookup asked.endpoint = some ⟨address, true⟩)
      (found : state.memo.lookup address = some entry)
      (lapsed : entry.freshAt asked.now = false) :
      FloorStep state (.lookup id asked)
        { state with flights := state.flights.insert id ⟨asked, state.clears, .describing true⟩ }
        none
  | absent (state : FloorState) (id : Nat) (asked : Asked) (address : Nat)
      (fresh : state.flights.lookup id = none)
      (bound : state.heap.lookup asked.endpoint = some ⟨address, true⟩)
      (unknown : state.memo.lookup address = none) :
      FloorStep state (.lookup id asked)
        { state with flights := state.flights.insert id ⟨asked, state.clears, .describing false⟩ }
        none
  | describe (state : FloorState) (id : Nat) (asked : Asked) (began : Nat) (stale : Bool)
      (description : Description)
      (flying : state.flights.lookup id = some ⟨asked, began, .describing stale⟩) :
      FloorStep state (.describe id description)
        { state with
          taken := ⟨asked.endpoint, description, asked.now, state.clears⟩ :: state.taken
          flights := state.flights.insert id
            ⟨asked, began,
              .described ⟨asked.endpoint, description, asked.now, state.clears⟩ stale⟩ }
        none
  | write (state : FloorState) (id : Nat) (asked : Asked) (began : Nat) (taken : Taken)
      (stale : Bool) (address : Nat) (order : FloorMemo)
      (flying : state.flights.lookup id = some ⟨asked, began, .described taken stale⟩)
      (bound : state.heap.lookup asked.endpoint = some ⟨address, true⟩)
      (shuffled : order.entries.Perm state.memo.entries) :
      FloorStep state (.write id)
        { state with
          memo := order.write state.alive address asked.endpoint (Floor.of taken.description)
            taken.keep stale
          flights := state.flights.erase id }
        (some ⟨asked, began, false, admission asked (Floor.of taken.description) taken.keep⟩)
  | clear (state : FloorState) :
      FloorStep state .clear { state with memo := ∅, clears := state.clears + 1 } none

/-- A write that is not late: what it keeps was described after the last clear. -/
def Timely (state : FloorState) : FloorEvent → Prop
  | .write id => ∀ asked began taken stale,
      state.flights.lookup id = some ⟨asked, began, .described taken stale⟩ →
        taken.keep = .never ∨ taken.clears = state.clears
  | _ => True

/-- Whoever is admitted is alive, an entry's key is its endpoint's address, and two
allocations that keep one address are one. -/
structure Reserved (state : FloorState) : Prop where
  flight : ∀ id flight, state.flights.lookup id = some flight →
    state.alive flight.asked.endpoint = true
  entry : ∀ key entry, state.memo.lookup key = some entry →
    ∃ strong, state.heap.lookup entry.endpoint = some ⟨key, strong⟩
  distinct : ∀ first second left right, state.heap.lookup first = some left →
    state.heap.lookup second = some right → left.address = right.address →
      state.Holds first → state.Holds second → first = second

/-- An endpoint is alive as long as its allocation has a strong handle. -/
theorem alive_of_lookup {state : FloorState} {endpoint : Nat} {allocation : Allocation}
    (held : state.heap.lookup endpoint = some allocation) :
    state.alive endpoint = allocation.strong := by
  rw [FloorState.alive, held]
  rfl

/-- Of two endpoints only the one that changes does. -/
theorem alive_insert (state : FloorState) (endpoint asked : Nat) (allocation : Allocation) :
    FloorState.alive { state with heap := state.heap.insert endpoint allocation } asked =
      if asked = endpoint then allocation.strong else state.alive asked := by
  simp only [FloorState.alive, KeyedMap.lookup_insert_eq]
  split <;> rfl

/-- A flight that comes or goes on a live endpoint disturbs no reservation. -/
theorem Reserved.of_flights {before after : FloorState} (reserved : Reserved before)
    (heap : after.heap = before.heap) (memo : after.memo = before.memo)
    (flights : ∀ id flight, after.flights.lookup id = some flight →
      before.alive flight.asked.endpoint = true) : Reserved after where
  flight id flight flying := by
    rw [FloorState.alive, heap]
    exact flights id flight flying
  entry key entry found := by
    rw [memo] at found
    rw [heap]
    exact reserved.entry key entry found
  distinct first second left right held held' same holds holds' := by
    rw [heap] at held held'
    simp only [FloorState.Holds, FloorState.alive, heap, memo] at holds holds'
    exact reserved.distinct first second left right held held' same holds holds'

/-- Nothing is reserved at first. -/
theorem reserved_initial : Reserved FloorState.initial where
  flight _ _ flying := by cases flying
  entry _ _ found := by cases found
  distinct _ _ _ _ held := by cases held

/-- An address is taken only where nothing holds it, so it stays reserved for one endpoint. -/
theorem Reserved.allocate {state : FloorState} {endpoint address : Nat}
    (reserved : Reserved state) (fresh : state.heap.lookup endpoint = none)
    (free : ∀ held allocation, state.heap.lookup held = some allocation → state.Holds held →
      allocation.address ≠ address) :
    Reserved { state with heap := state.heap.insert endpoint ⟨address, true⟩ } := by
  have other : ∀ asked, asked ≠ endpoint →
      (FloorState.Holds { state with heap := state.heap.insert endpoint ⟨address, true⟩ } asked ↔
        state.Holds asked) := by
    intro asked apart
    rw [FloorState.Holds, alive_insert, if_neg apart, FloorState.Holds]
  constructor
  · intro id flight flying
    have living := reserved.flight id flight flying
    rw [alive_insert]
    split
    · rfl
    · exact living
  · intro key entry found
    obtain ⟨strong, held⟩ := reserved.entry key entry found
    refine ⟨strong, ?_⟩
    rw [KeyedMap.lookup_insert_eq, if_neg, held]
    rintro same
    rw [same, fresh] at held
    cases held
  · intro first second left right held held' same holds holds'
    rw [KeyedMap.lookup_insert_eq] at held held'
    by_cases here : first = endpoint <;> by_cases there : second = endpoint
    · rw [here, there]
    · rw [if_pos here, Option.some.injEq] at held
      rw [if_neg there] at held'
      subst held
      exact absurd same.symm (free second right held' ((other second there).mp holds'))
    · rw [if_pos there, Option.some.injEq] at held'
      rw [if_neg here] at held
      subst held'
      exact absurd same (free first left held ((other first here).mp holds))
    · rw [if_neg here] at held
      rw [if_neg there] at held'
      exact reserved.distinct first second left right held held' same
        ((other first here).mp holds) ((other second there).mp holds')

/-- It is given back only when no flight is under way to it. -/
theorem Reserved.release {state : FloorState} {endpoint : Nat} {allocation : Allocation}
    (reserved : Reserved state) (held : state.heap.lookup endpoint = some allocation)
    (unused : ∀ id flight, state.flights.lookup id = some flight →
      flight.asked.endpoint ≠ endpoint) :
    Reserved
      { state with heap := state.heap.insert endpoint { allocation with strong := false } } := by
  have fewer : ∀ asked, FloorState.Holds
      { state with heap := state.heap.insert endpoint { allocation with strong := false } } asked →
        state.Holds asked := by
    rintro asked (living | kept)
    · rw [alive_insert] at living
      split at living
      · cases living
      · exact .inl living
    · exact .inr kept
  have address : ∀ asked after,
      (state.heap.insert endpoint { allocation with strong := false }).lookup asked = some after →
        ∃ before, state.heap.lookup asked = some before ∧ before.address = after.address := by
    intro asked after found
    rw [KeyedMap.lookup_insert_eq] at found
    split at found
    · rename_i here
      cases found
      exact ⟨allocation, here ▸ held, rfl⟩
    · exact ⟨after, found, rfl⟩
  constructor
  · intro id flight flying
    rw [alive_insert, if_neg (unused id flight flying)]
    exact reserved.flight id flight flying
  · intro key entry found
    obtain ⟨strong, there⟩ := reserved.entry key entry found
    rw [KeyedMap.lookup_insert_eq]
    split
    · rename_i here
      rw [here, held, Option.some.injEq] at there
      subst there
      exact ⟨false, rfl⟩
    · exact ⟨strong, there⟩
  · intro first second left right found found' same holds holds'
    obtain ⟨before, there, kept⟩ := address first left found
    obtain ⟨before', there', kept'⟩ := address second right found'
    exact reserved.distinct first second before before' there there'
      (kept.trans (same.trans kept'.symm)) (fewer first holds) (fewer second holds')

/-- Writing an order keeps the addresses reserved: the one written is alive and was asked for. -/
theorem Reserved.write {state : FloorState} {address endpoint : Nat} {order : FloorMemo}
    {flights : KeyedMap Nat Flight} (reserved : Reserved state)
    (bound : state.heap.lookup endpoint = some ⟨address, true⟩)
    (shuffled : order.entries.Perm state.memo.entries) (floor : Floor) (keep : Keep) (stale : Bool)
    (fewer : ∀ id flight, flights.lookup id = some flight →
      state.flights.lookup id = some flight) :
    Reserved { state with
      memo := order.write state.alive address endpoint floor keep stale
      flights := flights } := by
  have entries : ∀ key entry,
      (order.write state.alive address endpoint floor keep stale).lookup key = some entry →
        state.memo.lookup key = some entry ∨ (key = address ∧ entry.endpoint = endpoint) := by
    intro key entry found
    rcases order.lookup_of_write _ _ _ _ _ _ key entry found with there | ⟨here, -, same, -⟩
    · exact .inl (AList.perm_lookup shuffled ▸ there)
    · exact .inr ⟨here, same⟩
  have holds_before : ∀ asked, FloorState.Holds
      { state with
        memo := order.write state.alive address endpoint floor keep stale
        flights := flights } asked → state.Holds asked := by
    rintro asked (living | ⟨key, entry, found, rfl⟩)
    · exact .inl living
    · rcases entries key entry found with there | ⟨-, same⟩
      · exact .inr ⟨key, entry, there, rfl⟩
      · exact .inl (by rw [same, alive_of_lookup bound])
  constructor
  · intro id flight flying
    exact reserved.flight id flight (fewer id flight flying)
  · intro key entry found
    rcases entries key entry found with there | ⟨rfl, same⟩
    · exact reserved.entry key entry there
    · exact ⟨true, same ▸ bound⟩
  · intro first second left right held held' same holds holds'
    exact reserved.distinct first second left right held held' same
      (holds_before first holds) (holds_before second holds')

/-- Clearing the memo frees none that is in use. -/
theorem Reserved.clear {state : FloorState} (reserved : Reserved state) :
    Reserved { state with memo := ∅, clears := state.clears + 1 } where
  flight := reserved.flight
  entry _ _ found := by cases found
  distinct first second left right held held' same holds holds' := by
    have living : ∀ asked, FloorState.Holds
        { state with memo := ∅, clears := state.clears + 1 } asked → state.Holds asked := by
      rintro asked (living | ⟨_, _, found, _⟩)
      · exact .inl living
      · cases found
    exact reserved.distinct first second left right held held' same (living first holds)
      (living second holds')

/-- A flight that starts, or goes on, on a live endpoint. -/
theorem Reserved.flying {before after : FloorState} (reserved : Reserved before) (id : Nat)
    (flight : Flight) (heap : after.heap = before.heap) (memo : after.memo = before.memo)
    (flights : after.flights = before.flights.insert id flight)
    (living : before.alive flight.asked.endpoint = true) : Reserved after := by
  refine reserved.of_flights heap memo ?_
  intro asked other found
  rw [flights, KeyedMap.lookup_insert_eq] at found
  split at found
  · cases found
    exact living
  · exact reserved.flight asked other found

/-- An entry found at an endpoint's address is of that endpoint. -/
theorem Reserved.entry_of {state : FloorState} (reserved : Reserved state) {endpoint address : Nat}
    {entry : FloorEntry} (bound : state.heap.lookup endpoint = some ⟨address, true⟩)
    (found : state.memo.lookup address = some entry) : entry.endpoint = endpoint := by
  obtain ⟨strong, held⟩ := reserved.entry address entry found
  exact reserved.distinct entry.endpoint endpoint _ _ held bound rfl
    (.inr ⟨address, entry, found, rfl⟩) (.inl (alive_of_lookup bound))

/-- The floor and the bound of some description of this endpoint, taken after so many
clears. -/
def Attested (state : FloorState) (since endpoint : Nat) (floor : Floor) (keep : Keep) : Prop :=
  ∃ taken ∈ state.taken, taken.endpoint = endpoint ∧ since ≤ taken.clears ∧
    Floor.of taken.description = floor ∧ taken.keep = keep

/-- What was attested stays so: descriptions taken are never untaken. -/
theorem Attested.mono {before after : FloorState} {since since' endpoint : Nat} {floor : Floor}
    {keep : Keep} (attested : Attested before since endpoint floor keep)
    (kept : ∀ taken ∈ before.taken, taken ∈ after.taken) (earlier : since' ≤ since) :
    Attested after since' endpoint floor keep := by
  obtain ⟨taken, member, same, late, read⟩ := attested
  exact ⟨taken, kept taken member, same, earlier.trans late, read⟩

/-- Every entry holds what its endpoint said after so many clears. -/
def Sourced (state : FloorState) (since : Nat) : Prop :=
  ∀ key entry, state.memo.lookup key = some entry →
    Attested state since entry.endpoint entry.floor entry.keep

/-- An admission that has described its endpoint did so after it began. -/
def Underway (state : FloorState) : Prop :=
  ∀ id asked began taken stale,
    state.flights.lookup id = some ⟨asked, began, .described taken stale⟩ →
      taken ∈ state.taken ∧ taken.endpoint = asked.endpoint ∧ began ≤ taken.clears

/-- An admission still describing began no later than now. -/
def Begun (state : FloorState) : Prop :=
  ∀ id flight, state.flights.lookup id = some flight → flight.began ≤ state.clears

/-- What holds in every run, whatever is written when. -/
structure Kept (state : FloorState) : Prop where
  reserved : Reserved state
  begun : Begun state
  underway : Underway state
  sourced : Sourced state 0
  bounded : KeyedMap.length state.memo ≤ floorMemoBound

/-- Everything is kept at first. -/
theorem kept_initial : Kept FloorState.initial where
  reserved := reserved_initial
  begun _ _ found := by cases found
  underway _ _ _ _ _ found := by cases found
  sourced _ _ found := by cases found
  bounded := by decide

section Runs

variable [IriSyntax]

/-- Every step keeps the reservations. -/
theorem reserved_step {before after : FloorState} {event : FloorEvent} {answer : Option Answered}
    (reserved : Reserved before) (step : FloorStep before event after answer) :
    Reserved after := by
  cases step with
  | allocate endpoint address fresh free => exact reserved.allocate fresh free
  | release endpoint allocation held unused => exact reserved.release held unused
  | hit id asked address entry fresh bound found current => exact reserved
  | stale id asked address entry fresh bound found lapsed =>
    exact reserved.flying id _ rfl rfl rfl (alive_of_lookup bound)
  | absent id asked address fresh bound unknown =>
    exact reserved.flying id _ rfl rfl rfl (alive_of_lookup bound)
  | describe id asked began stale description flying =>
    have living := reserved.flight id _ flying
    exact reserved.flying id _ rfl rfl rfl living
  | write id asked began taken stale address order flying bound shuffled =>
    refine reserved.write bound shuffled _ _ stale ?_
    intro other flight found
    rw [KeyedMap.lookup_erase_eq] at found
    split at found
    · cases found
    · exact found
  | clear => exact reserved.clear

/-- A step begins flights at the present, never before. -/
theorem begun_step {before after : FloorState} {event : FloorEvent} {answer : Option Answered}
    (begun : Begun before) (step : FloorStep before event after answer) : Begun after := by
  have started : ∀ id flight, flight.began ≤ before.clears → ∀ other flying,
      (before.flights.insert id flight).lookup other = some flying →
        flying.began ≤ before.clears := by
    intro id flight early other flying found
    rw [KeyedMap.lookup_insert_eq] at found
    split at found
    · cases found
      exact early
    · exact begun other flying found
  cases step with
  | allocate | release | hit => exact begun
  | stale id asked => exact started id _ le_rfl
  | absent id asked => exact started id _ le_rfl
  | describe id asked began stale description flying =>
    have early := begun id _ flying
    exact started id _ early
  | write id =>
    intro other flight found
    rw [KeyedMap.lookup_erase_eq] at found
    split at found
    · cases found
    · exact begun other flight found
  | clear => exact fun id flight found => (begun id flight found).trans (Nat.le_succ _)

/-- A step leaves what is under way under way, or ends it. -/
theorem underway_step {before after : FloorState} {event : FloorEvent}
    {answer : Option Answered} (begun : Begun before) (underway : Underway before)
    (step : FloorStep before event after answer) : Underway after := by
  have started : ∀ id asked began stale other asked' began' taken stale',
      (before.flights.insert id ⟨asked, began, .describing stale⟩).lookup other =
          some ⟨asked', began', .described taken stale'⟩ →
        taken ∈ before.taken ∧ taken.endpoint = asked'.endpoint ∧ began' ≤ taken.clears := by
    intro id asked began stale other asked' began' taken stale' found
    rw [KeyedMap.lookup_insert_eq] at found
    split at found
    · cases found
    · exact underway other asked' began' taken stale' found
  cases step with
  | allocate | release | hit | clear => exact underway
  | stale id asked => exact started id _ _ _
  | absent id asked => exact started id _ _ _
  | describe id asked began stale description flying =>
    intro other asked' began' taken stale' found
    simp only [KeyedMap.lookup_insert_eq] at found
    split at found
    · cases found
      exact ⟨List.mem_cons_self, rfl, begun id _ flying⟩
    · obtain ⟨member, same, late⟩ := underway other asked' began' taken stale' found
      exact ⟨List.mem_cons_of_mem _ member, same, late⟩
  | write id =>
    intro other asked' began' taken stale' found
    rw [KeyedMap.lookup_erase_eq] at found
    split at found
    · cases found
    · exact underway other asked' began' taken stale' found

/-- A step keeps the memo attested as of any moment, unless it writes what was described
before that moment. -/
theorem sourced_step {before after : FloorState} {event : FloorEvent}
    {answer : Option Answered} {since : Nat} (underway : Underway before)
    (sourced : Sourced before since) (step : FloorStep before event after answer)
    (late : ∀ id asked began taken stale, event = .write id →
      before.flights.lookup id = some ⟨asked, began, .described taken stale⟩ →
        taken.keep = .never ∨ since ≤ taken.clears) : Sourced after since := by
  cases step with
  | allocate | release | hit | stale | absent => exact sourced
  | describe =>
    exact fun key entry found =>
      (sourced key entry found).mono (fun _ => List.mem_cons_of_mem _) le_rfl
  | write id asked began taken stale address order flying bound shuffled =>
    intro key entry found
    rcases order.lookup_of_write _ _ _ _ _ _ key entry found with there | ⟨-, kept, same⟩
    · exact sourced key entry (AList.perm_lookup shuffled ▸ there)
    · obtain ⟨described, here, -⟩ := underway id asked began taken stale flying
      have after := (late id asked began taken stale rfl flying).resolve_left kept
      exact ⟨taken, described, here.trans same.1.symm, after, same.2.1.symm, same.2.2.symm⟩
  | clear => exact fun key entry found => by cases found

/-- Each step keeps all of it. -/
theorem kept_step {before after : FloorState} {event : FloorEvent} {answer : Option Answered}
    (kept : Kept before) (step : FloorStep before event after answer) : Kept after where
  reserved := reserved_step kept.reserved step
  begun := begun_step kept.begun step
  underway := underway_step kept.begun kept.underway step
  sourced := sourced_step kept.underway kept.sourced step fun _ _ _ _ _ _ _ => .inr (Nat.zero_le _)
  bounded := by
    cases step with
    | allocate | release | hit | stale | absent | describe => exact kept.bounded
    | write id asked began taken stale address order flying bound shuffled =>
      refine order.length_write_le _ _ _ _ _ _ ?_
      exact (List.Perm.length_eq shuffled).trans_le kept.bounded
    | clear => exact Nat.zero_le _

/-- A state some run reaches, each of whose steps the condition allows. -/
def FloorReached (allows : FloorState → FloorEvent → Prop) : FloorState → Prop :=
  Relation.ReflTransGen
    (fun before after => ∃ event answer, allows before event ∧ FloorStep before event after answer)
    FloorState.initial

/-- So does every run. -/
theorem kept_reached {allows : FloorState → FloorEvent → Prop} {state : FloorState}
    (reached : FloorReached allows state) : Kept state := by
  refine Transitions.kept_by_run _ Kept ?_ FloorState.initial state reached kept_initial
  rintro before after kept ⟨event, answer, -, step⟩
  exact kept_step kept step

/-- In a run with no late write the memo holds nothing described before the last clear. -/
theorem sourced_reached {state : FloorState} (reached : FloorReached Timely state) :
    Kept state ∧ Sourced state state.clears := by
  refine Transitions.kept_by_run _ (fun state => Kept state ∧ Sourced state state.clears) ?_
    FloorState.initial state reached ⟨kept_initial, fun _ _ found => by cases found⟩
  rintro before after ⟨kept, sourced⟩ ⟨event, answer, timely, step⟩
  refine ⟨kept_step kept step, ?_⟩
  have same : Sourced after before.clears := by
    refine sourced_step kept.underway sourced step ?_
    rintro id asked began taken stale rfl flying
    exact (timely asked began taken stale flying).imp_right ge_of_eq
  cases step with
  | clear => exact fun key entry found => by cases found
  | allocate | release | hit | stale | absent | describe | write => exact same

/-- The answer is what some description of the endpoint asked about gives, taken after so
many clears. -/
def AnsweredSince (state : FloorState) (since : Nat) (answered : Answered) : Prop :=
  ∃ floor keep, Attested state since answered.asked.endpoint floor keep ∧
    answered.admission = admission answered.asked floor keep

/-- A hit is for the very allocation asked about, within the bound its contract states. -/
def HitsHome (state : FloorState) (answered : Answered) : Prop :=
  answered.hit = true → ∃ taken ∈ state.taken, taken.endpoint = answered.asked.endpoint ∧
    taken.keep.freshAt answered.asked.now = true ∧
      answered.admission = admission answered.asked (Floor.of taken.description) taken.keep

/-- An admission is answered from a description taken after it began, if the memo holds
nothing described before that. -/
theorem answered_since {before after : FloorState} {event : FloorEvent} {answered : Answered}
    (kept : Kept before) (sourced : Sourced before before.clears)
    (step : FloorStep before event after (some answered)) :
    AnsweredSince after answered.began answered := by
  cases step with
  | hit id asked address entry fresh bound found current =>
    refine ⟨entry.floor, entry.keep, ?_, rfl⟩
    rw [← kept.reserved.entry_of bound found]
    exact sourced address entry found
  | write id asked began taken stale address order flying bound shuffled =>
    obtain ⟨described, same, late⟩ := kept.underway id asked began taken stale flying
    exact ⟨_, _, ⟨taken, described, same, late, rfl, rfl⟩, rfl⟩

/-- A hit is answered for the endpoint that was asked, and is what that one attested. -/
theorem hits_home {before after : FloorState} {event : FloorEvent} {answered : Answered}
    (kept : Kept before) (step : FloorStep before event after (some answered)) :
    HitsHome after answered := by
  cases step with
  | hit id asked address entry fresh bound found current =>
    intro _
    obtain ⟨taken, described, same, -, floor, keep⟩ := kept.sourced address entry found
    refine ⟨taken, described, same.trans (kept.reserved.entry_of bound found), ?_, ?_⟩
    · rw [keep, entry.fresh_keep, current]
    · rw [floor, keep]
  | write => nofun

/-- What was described before a clear and written after it is what the next admission is
answered from, for as long as the contract's bound allows. -/
theorem late_write_is_served {before after : FloorState} {id next : Nat} {asked asked' : Asked}
    {began : Nat} {taken : Taken} {stale : Bool} {answer : Option Answered}
    (flying : before.flights.lookup id = some ⟨asked, began, .described taken stale⟩)
    (step : FloorStep before (.write id) after answer) (kept : taken.keep ≠ .never)
    (same : asked'.endpoint = asked.endpoint) (idle : after.flights.lookup next = none)
    (fresh : taken.keep.freshAt asked'.now = true) :
    FloorStep after (.lookup next asked') after (some ⟨asked', after.clears, true,
      admission asked' (Floor.of taken.description) taken.keep⟩) := by
  cases step with
  | write id asked began taken stale address order flying' bound shuffled =>
    rw [flying, Option.some.injEq] at flying'
    cases flying'
    obtain ⟨entry, found, floor, keep⟩ := order.lookup_of_written before.alive address
      asked.endpoint (Floor.of taken.description) taken.keep stale kept
    have given : admission asked' (Floor.of taken.description) taken.keep =
        admission asked' entry.floor entry.keep := by rw [floor, keep]
    rw [given]
    refine .hit _ next asked' address entry idle ?_ found ?_
    · rw [same]
      exact bound
    · rw [← entry.fresh_keep, keep]
      exact fresh

/-- The floor memo, in every run: it stays within its bound, and a hit is for the
allocation asked about and within the bound its contract states. In a run with no late
write, an admission is never answered from a description taken before a clear that had
returned when it began. -/
theorem floor_memo_keeps_up (state : FloorState) :
    (FloorReached (fun _ _ => True) state →
      KeyedMap.length state.memo ≤ floorMemoBound ∧ ∀ event after answered,
        FloorStep state event after (some answered) → HitsHome after answered) ∧
    (FloorReached Timely state → ∀ event after answered,
      FloorStep state event after (some answered) → AnsweredSince after answered.began answered) := by
  constructor
  · intro reached
    have kept := kept_reached reached
    exact ⟨kept.bounded, fun event after answered step => hits_home kept step⟩
  · intro reached event after answered step
    obtain ⟨kept, sourced⟩ := sourced_reached reached
    exact answered_since kept sourced step

end Runs

/-!
An admission describes an endpoint, the bindings are cut, and only then does the
admission write what it read; the next one is admitted on it.
-/

namespace LateWriteExample

local instance anyIri : IriSyntax := ⟨fun _ => true, fun _ => []⟩

def asked : Asked :=
  ⟨7, Request.new .source "urn:doc:a".toList, [], .scoped OrderedSet.empty, none⟩

def described : Taken := ⟨7, { id := "doc".toList, verbs := [.source] }, none, 0⟩

def bound : FloorState :=
  { FloorState.initial with heap := FloorState.initial.heap.insert 7 ⟨64, true⟩ }

def looked : FloorState :=
  { bound with flights := bound.flights.insert 0 ⟨asked, 0, .describing false⟩ }

def read : FloorState :=
  { looked with
    taken := [described]
    flights := looked.flights.insert 0 ⟨asked, 0, .described described false⟩ }

def cleared : FloorState := { read with memo := ∅, clears := 1 }

def written : FloorState :=
  { cleared with
    memo := cleared.memo.write cleared.alive 64 7 (Floor.of described.description) described.keep false
    flights := cleared.flights.erase 0 }

def admitted : Answered :=
  ⟨asked, 1, true, admission asked (Floor.of described.description) described.keep⟩

/-- An endpoint is bound. -/
theorem bind_step : FloorStep FloorState.initial (.allocate 7 64) bound none :=
  .allocate _ 7 64 rfl fun _ _ held => by cases held

/-- A lookup misses it. -/
theorem look_step : FloorStep bound (.lookup 0 asked) looked none :=
  .absent _ 0 asked 64 rfl (AList.lookup_insert _) rfl

/-- Its description is taken. -/
theorem read_step : FloorStep looked (.describe 0 described.description) read none :=
  .describe _ 0 asked 0 false described.description (AList.lookup_insert _)

/-- Any run that allows these three steps has the description in flight. -/
theorem reached_read {allows : FloorState → FloorEvent → Prop}
    (binds : allows FloorState.initial (.allocate 7 64)) (looks : allows bound (.lookup 0 asked))
    (reads : allows looked (.describe 0 described.description)) : FloorReached allows read :=
  ((Relation.ReflTransGen.refl.tail ⟨_, _, binds, bind_step⟩).tail ⟨_, _, looks, look_step⟩).tail
    ⟨_, _, reads, read_step⟩

/-- The late write lands all the same. -/
theorem reached_written : FloorReached (fun _ _ => True) written := by
  have cut : FloorStep read .clear cleared none := .clear _
  have late : FloorStep cleared (.write 0) written _ :=
    .write _ 0 asked 0 described false 64 cleared.memo (AList.lookup_insert _)
      (AList.lookup_insert _) (List.Perm.refl _)
  exact ((reached_read trivial trivial trivial).tail ⟨_, _, trivial, cut⟩).tail ⟨_, _, trivial, late⟩

/-- The second admission began after the clear and is answered from a description taken
before it. -/
theorem late_write_serves_old : ¬∀ state, FloorReached (fun _ _ => True) state →
    ∀ event after answered, FloorStep state event after (some answered) →
      AnsweredSince after answered.began answered := by
  intro current
  have served : FloorStep written (.lookup 1 asked) written (some admitted) :=
    .hit _ 1 asked 64 ⟨7, Floor.of described.description, none⟩ rfl (AList.lookup_insert _) rfl rfl
  obtain ⟨floor, keep, ⟨taken, member, -, late, -⟩, -⟩ := current written reached_written _ _ _ served
  rw [List.mem_singleton.mp member] at late
  exact absurd late (by decide)

/-- Written before the clear, the same description answers its own admission. -/
theorem timely_write_keeps_up : ∃ after answered,
    FloorStep read (.write 0) after (some answered) ∧
      AnsweredSince after answered.began answered :=
  ⟨_, _, .write _ 0 asked 0 described false 64 read.memo (AList.lookup_insert _)
    (AList.lookup_insert _) (List.Perm.refl _),
    (floor_memo_keeps_up read).2 (reached_read trivial trivial trivial) _ _ _
      (.write _ 0 asked 0 described false 64 read.memo (AList.lookup_insert _)
        (AList.lookup_insert _) (List.Perm.refl _))⟩

end LateWriteExample

end Ikigai

import Mathlib.Data.Set.BooleanAlgebra
import Mathlib.Data.Set.Disjoint
import Mathlib.Order.CompletePartialOrder
import DlmmIndexer.Library.Schedule

/-!
# Footprints

A store is observed through cells.  An operation is local to a footprint when its
answer and what it writes depend on the cells it reads only, and it leaves all cells
but those it writes as they were.  Operations whose footprints do not meet commute:
performed in either order they answer the same and leave stores that nobody can tell
apart.  `Replays` performs the events of a log again, and an operation that meets the
footprint of no event in a log moves across it (`Replays.swap`).
-/

namespace Atomic

variable {Op : Type → Type} {σ ε : Type}

/-- How a store is observed, cell by cell, and the stores worth observing. -/
structure Observation (σ : Type) where
  Cell : Type
  Value : Cell → Type
  read : σ → (cell : Cell) → Value cell
  good : σ → Prop

/-- The cells that an operation reads, and those that it writes. -/
structure Footprint (κ : Type) where
  reads : Set κ
  writes : Set κ

namespace Footprint

variable {κ : Type}

/-- Neither footprint writes what the other one reads or writes. -/
structure Apart (left right : Footprint κ) : Prop where
  writes : Disjoint left.writes right.writes
  writesReads : Disjoint left.writes right.reads
  readsWrites : Disjoint left.reads right.writes

theorem Apart.symm {left right : Footprint κ} (apart : left.Apart right) : right.Apart left :=
  ⟨apart.writes.symm, apart.readsWrites.symm, apart.writesReads.symm⟩

/-- The cells of one footprint are cells of the other. -/
structure Within (small large : Footprint κ) : Prop where
  reads : small.reads ⊆ large.reads
  writes : small.writes ⊆ large.writes

end Footprint

namespace Observation

variable (observation : Observation σ)

/-- The stores show the same in these cells. -/
def AgreeOn (cells : Set observation.Cell) (left right : σ) : Prop :=
  ∀ cell ∈ cells, observation.read left cell = observation.read right cell

/-- The stores show the same. -/
def Same (left right : σ) : Prop := ∀ cell, observation.read left cell = observation.read right cell

/-- The operation keeps good stores good, changes no other cell than those it writes, and
does the same on stores that agree on what it reads. -/
def Local (database : Database Op σ ε) (footprint : Footprint observation.Cell) {ρ : Type}
    (operation : Op ρ) : Prop :=
  ∀ store answer after, observation.good store →
    database.apply operation store = (.ok answer, after) →
      observation.good after ∧ observation.AgreeOn footprint.writesᶜ store after ∧
      ∀ other, observation.good other → observation.AgreeOn footprint.reads store other →
        ∃ after', database.apply operation other = (.ok answer, after') ∧
          observation.AgreeOn footprint.writes after after'

variable {observation} {database : Database Op σ ε}

theorem AgreeOn.symm {cells : Set observation.Cell} {left right : σ}
    (agree : observation.AgreeOn cells left right) : observation.AgreeOn cells right left :=
  fun cell member => (agree cell member).symm

theorem AgreeOn.mono {small large : Set observation.Cell} {left right : σ}
    (subset : small ⊆ large) (agree : observation.AgreeOn large left right) :
    observation.AgreeOn small left right :=
  fun cell member => agree cell (subset member)

theorem Same.agreeOn {left right : σ} (same : observation.Same left right)
    (cells : Set observation.Cell) : observation.AgreeOn cells left right :=
  fun cell _ => same cell

theorem Same.refl (store : σ) : observation.Same store store := fun _ => rfl

theorem Same.trans {first second third : σ} (earlier : observation.Same first second)
    (later : observation.Same second third) : observation.Same first third :=
  fun cell => (earlier cell).trans (later cell)

/-- An operation that is local to a footprint is local to larger ones, whose further
writes it reads. -/
theorem Local.mono {small large : Footprint observation.Cell} (within : small.Within large)
    (closed : large.writes ⊆ large.reads) {ρ : Type} {operation : Op ρ}
    (isLocal : observation.Local database small operation) :
    observation.Local database large operation := by
  intro store answer after good applied
  obtain ⟨goodAfter, frame, again⟩ := isLocal store answer after good applied
  refine ⟨goodAfter, frame.mono fun _ outside inside => outside (within.writes inside), ?_⟩
  intro other goodOther agree
  obtain ⟨after', applied', wrote⟩ := again other goodOther (agree.mono within.reads)
  obtain ⟨-, frame', -⟩ := isLocal other answer after' goodOther applied'
  refine ⟨after', applied', fun cell member => ?_⟩
  by_cases here : cell ∈ small.writes
  · exact wrote cell here
  · rw [← frame cell here, ← frame' cell here]
    exact agree cell (closed member)

/-- Stores that nobody can tell apart stay so. -/
theorem Local.same {footprint : Footprint observation.Cell} {ρ : Type} {operation : Op ρ}
    (isLocal : observation.Local database footprint operation) {store other after : σ} {answer : ρ}
    (good : observation.good store) (goodOther : observation.good other)
    (same : observation.Same store other)
    (applied : database.apply operation store = (.ok answer, after)) :
    ∃ after', database.apply operation other = (.ok answer, after') ∧
      observation.Same after after' := by
  obtain ⟨-, frame, again⟩ := isLocal store answer after good applied
  obtain ⟨after', applied', wrote⟩ := again other goodOther (same.agreeOn _)
  obtain ⟨-, frame', -⟩ := isLocal other answer after' goodOther applied'
  refine ⟨after', applied', fun cell => ?_⟩
  by_cases here : cell ∈ footprint.writes
  · exact wrote cell here
  · rw [← frame cell here, ← frame' cell here, same]

/-- Operations with footprints apart commute. -/
theorem Local.swap {first second : Footprint observation.Cell} (apart : first.Apart second)
    {ρ ρ' : Type} {earlier : Op ρ} {later : Op ρ'}
    (localEarlier : observation.Local database first earlier)
    (localLater : observation.Local database second later)
    {store middle after : σ} {answer : ρ} {reply : ρ'} (good : observation.good store)
    (appliedEarlier : database.apply earlier store = (.ok answer, middle))
    (appliedLater : database.apply later middle = (.ok reply, after)) :
    ∃ middle' after', database.apply later store = (.ok reply, middle') ∧
      database.apply earlier middle' = (.ok answer, after') ∧ observation.Same after after' := by
  obtain ⟨goodMiddle, frame, again⟩ := localEarlier store answer middle good appliedEarlier
  obtain ⟨-, frameLater, againLater⟩ := localLater middle reply after goodMiddle appliedLater
  -- the later operation reads nothing that the earlier one wrote
  obtain ⟨middle', applied', wrote'⟩ := againLater store good
    (frame.mono fun _ read written => Set.disjoint_left.mp apart.writesReads written read).symm
  obtain ⟨goodMiddle', frame', -⟩ := localLater store reply middle' good applied'
  obtain ⟨after', applied'', wrote''⟩ := again middle' goodMiddle'
    (frame'.mono fun _ read written => Set.disjoint_left.mp apart.readsWrites read written)
  obtain ⟨-, frame'', -⟩ := localEarlier middle' answer after' goodMiddle' applied''
  refine ⟨middle', after', applied', applied'', fun cell => ?_⟩
  by_cases inFirst : cell ∈ first.writes
  · have outside : cell ∉ second.writes := Set.disjoint_left.mp apart.writes inFirst
    rw [← frameLater cell outside, wrote'' cell inFirst]
  · rw [← frame'' cell inFirst]
    by_cases inSecond : cell ∈ second.writes
    · exact wrote' cell inSecond
    · rw [← frameLater cell inSecond, ← frame' cell inSecond, frame cell inFirst]

end Observation

/-! ## Logs performed again -/

/-- The events of the log, performed one after another from a store, answer as they did. -/
inductive Replays (database : Database Op σ ε) : σ → List (Event Op) → σ → Prop where
  | nil (store : σ) : Replays database store [] store
  | cons {store middle after : σ} {event : Event Op} {rest : List (Event Op)}
      (applied : database.apply event.operation store = (.ok event.answer, middle))
      (later : Replays database middle rest after) : Replays database store (event :: rest) after

namespace Replays

variable {database : Database Op σ ε} {observation : Observation σ}
variable {store middle after : σ} {log more : List (Event Op)}

theorem append (first : Replays database store log middle)
    (second : Replays database middle more after) : Replays database store (log ++ more) after := by
  induction first with
  | nil => exact second
  | cons applied _ ih => exact .cons applied (ih second)

theorem split (replays : Replays database store (log ++ more) after) :
    ∃ middle, Replays database store log middle ∧ Replays database middle more after := by
  induction log generalizing store with
  | nil => exact ⟨store, .nil store, replays⟩
  | cons event rest ih =>
      cases replays with
      | cons applied later =>
          obtain ⟨middle, first, second⟩ := ih later
          exact ⟨middle, .cons applied first, second⟩

theorem good (replays : Replays database store log after)
    (areLocal : ∀ event ∈ log, ∃ footprint, observation.Local database footprint event.operation)
    (holds : observation.good store) : observation.good after := by
  induction replays with
  | nil => exact holds
  | cons applied _ ih =>
      obtain ⟨⟨footprint, here⟩, later⟩ := List.forall_mem_cons.mp areLocal
      exact ih later (here _ _ _ holds applied).1

/-- A log replays alike on stores that nobody can tell apart. -/
theorem same {other : σ} (replays : Replays database store log after)
    (areLocal : ∀ event ∈ log, ∃ footprint, observation.Local database footprint event.operation)
    (holds : observation.good store) (holdsOther : observation.good other)
    (alike : observation.Same store other) :
    ∃ after', Replays database other log after' ∧ observation.Same after after' := by
  induction replays generalizing other with
  | nil => exact ⟨other, .nil other, alike⟩
  | cons applied _ ih =>
      obtain ⟨⟨footprint, here⟩, later⟩ := List.forall_mem_cons.mp areLocal
      obtain ⟨middle', applied', alike'⟩ := here.same holds holdsOther alike applied
      obtain ⟨after', replays', same⟩ :=
        ih later (here _ _ _ holds applied).1 (here _ _ _ holdsOther applied').1 alike'
      exact ⟨after', .cons applied' replays', same⟩

/-- An operation that meets no footprint of the log may be performed before it. -/
theorem swap {footprint : Footprint observation.Cell} {ρ : Type} {operation : Op ρ} {answer : ρ}
    (replays : Replays database store log middle)
    (areLocal : ∀ event ∈ log, ∃ other : Footprint observation.Cell,
      observation.Local database other event.operation ∧ other.Apart footprint)
    (isLocal : observation.Local database footprint operation) (holds : observation.good store)
    (applied : database.apply operation middle = (.ok answer, after)) :
    ∃ middle' after', database.apply operation store = (.ok answer, middle') ∧
      Replays database middle' log after' ∧ observation.Same after after' := by
  induction replays with
  | nil => exact ⟨after, after, applied, .nil after, .refl after⟩
  | cons first _ ih =>
      obtain ⟨⟨other, here, apart⟩, later⟩ := List.forall_mem_cons.mp areLocal
      obtain ⟨next, last, appliedNext, rest, alike⟩ := ih later (here _ _ _ holds first).1 applied
      obtain ⟨middle', next', applied', first', alike'⟩ :=
        Observation.Local.swap apart here isLocal holds first appliedNext
      have goodNext := (isLocal _ _ _ (here _ _ _ holds first).1 appliedNext).1
      have goodNext' := (here _ _ _ (isLocal _ _ _ holds applied').1 first').1
      obtain ⟨last', rest', same⟩ := rest.same (fun event member =>
        let ⟨other, isLocal, _⟩ := later event member
        ⟨other, isLocal⟩) goodNext goodNext' alike'
      exact ⟨middle', last', applied', .cons first' rest', alike.trans same⟩

/-- Logs whose footprints do not meet may be performed in either order. -/
theorem exchange {first second : Footprint observation.Cell} (apart : first.Apart second)
    (localLog : ∀ event ∈ log, observation.Local database first event.operation)
    (localMore : ∀ event ∈ more, observation.Local database second event.operation)
    (holds : observation.good store) (earlier : Replays database store log middle)
    (later : Replays database middle more after) :
    ∃ middle' after', Replays database store more middle' ∧ Replays database middle' log after' ∧
      observation.Same after after' := by
  induction more generalizing store middle after with
  | nil =>
      cases later
      exact ⟨store, middle, .nil store, earlier, .refl middle⟩
  | cons event rest ih =>
      cases later with
      | cons applied later =>
          obtain ⟨here, localRest⟩ := List.forall_mem_cons.mp localMore
          have goodMiddle := earlier.good (fun event member => ⟨first, localLog event member⟩) holds
          obtain ⟨store', middle', applied', earlier', alike⟩ := earlier.swap
            (fun event member => ⟨first, localLog event member, apart⟩) here holds applied
          have goodStore' := (here _ _ _ holds applied').1
          have goodMiddle' :=
            earlier'.good (fun event member => ⟨first, localLog event member⟩) goodStore'
          obtain ⟨after', later', same⟩ := later.same
            (fun event member => ⟨second, localRest event member⟩)
            (here _ _ _ goodMiddle applied).1 goodMiddle' alike
          obtain ⟨middle'', after'', moved, rest', same'⟩ := ih localRest goodStore' earlier' later'
          exact ⟨middle'', after'', .cons applied' moved, rest', same.trans same'⟩

/-- The logs of parties whose footprints do not meet may be performed in any order. -/
theorem perm {κ : Type*} {parties order : List κ} {logOf : κ → List (Event Op)}
    {footprintOf : κ → Footprint observation.Cell} (reordered : parties.Perm order)
    (apart : parties.Pairwise fun left right => (footprintOf left).Apart (footprintOf right))
    (areLocal : ∀ party ∈ parties, ∀ event ∈ logOf party,
      observation.Local database (footprintOf party) event.operation)
    (holds : observation.good store)
    (replays : Replays database store (parties.flatMap logOf) after) :
    ∃ after', Replays database store (order.flatMap logOf) after' ∧
      observation.Same after after' := by
  induction reordered generalizing store after with
  | nil => exact ⟨after, replays, .refl after⟩
  | cons party _ ih =>
      obtain ⟨here, others⟩ := List.forall_mem_cons.mp areLocal
      rw [List.flatMap_cons] at replays
      obtain ⟨middle, first, second⟩ := replays.split
      have goodMiddle := first.good (fun event member => ⟨_, here event member⟩) holds
      obtain ⟨after', second', same⟩ := ih apart.tail others goodMiddle second
      exact ⟨after', first.append second', same⟩
  | swap left right rest =>
      obtain ⟨localRight, others⟩ := List.forall_mem_cons.mp areLocal
      obtain ⟨localLeft, others⟩ := List.forall_mem_cons.mp others
      rw [List.flatMap_cons, List.flatMap_cons] at replays
      obtain ⟨first, logRight, replays⟩ := replays.split
      obtain ⟨second, logLeft, later⟩ := replays.split
      have met := (List.pairwise_cons.mp apart).1 left List.mem_cons_self
      obtain ⟨first', second', logLeft', logRight', same⟩ :=
        exchange met localRight localLeft holds logRight logLeft
      have goodFirst := logRight.good (fun event member => ⟨_, localRight event member⟩) holds
      have goodSecond := logLeft.good (fun event member => ⟨_, localLeft event member⟩) goodFirst
      have goodFirst' := logLeft'.good (fun event member => ⟨_, localLeft event member⟩) holds
      have goodSecond' :=
        logRight'.good (fun event member => ⟨_, localRight event member⟩) goodFirst'
      obtain ⟨after', later', same'⟩ := later.same (fun event member =>
        let ⟨party, listed, logged⟩ := List.mem_flatMap.mp member
        ⟨_, others party listed event logged⟩) goodSecond goodSecond' same
      exact ⟨after', logLeft'.append (logRight'.append later'), same'⟩
  | trans earlier later ih ih' =>
      obtain ⟨after', replays', same⟩ := ih apart areLocal holds replays
      have apart' := (earlier.pairwise_iff fun met => met.symm).mp apart
      obtain ⟨after'', replays'', same'⟩ := ih' apart'
        (fun party listed => areLocal party (earlier.mem_iff.mpr listed)) holds replays'
      exact ⟨after'', replays'', same.trans same'⟩

end Replays

end Atomic

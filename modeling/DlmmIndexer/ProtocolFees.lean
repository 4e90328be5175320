import DlmmIndexer.Library.NumberText
import DlmmIndexer.Reserves

/-!
# Protocol fees of pairs

A pair row is to keep the sums of the protocol fees that composition fees events carry.
The fees of an event are objects, so adding them to the number that the row stands for
puts their digits after the digits of that number.
-/

namespace DlmmIndexer

open Documents JavaScript Atomic

namespace Side

def ofFees : Side → Pair → String
  | .X => Pair.protocolFeesX
  | .Y => Pair.protocolFeesY

def ofEvent : Side → CompositionFees.CompositionFeesEventDecoded → ℕ
  | .X => CompositionFees.CompositionFeesEventDecoded.protocolFeesX
  | .Y => CompositionFees.CompositionFeesEventDecoded.protocolFeesY

end Side

namespace CompositionFees

/-- The creation of a pair and the composition fees events of it, in chain order. -/
structure FeeHistory where
  initialization : ParsedInstructionMessage
  pair : InitializePair.InitializePairDecoded
  events : List (ParsedInstructionMessage × CompositionFeesEventDecoded)
  own : ∀ event ∈ events, event.2.pair = pair.pair
  /-- The sums of the fees stay below 2^53. -/
  small : ∀ side : Side, (events.map fun event => side.ofEvent event.2).sum < 2 ^ 53

namespace FeeHistory

variable (history : FeeHistory)

def initJob : Job := ⟨history.initialization, .initializePair history.pair⟩

def eventJob (event : ParsedInstructionMessage × CompositionFeesEventDecoded) : Job :=
  ⟨event.1, .compositionFees event.2⟩

def eventJobs : List Job := history.events.map eventJob

/-- The fees of the events on one side. -/
def fees (side : Side) : List ℕ := history.events.map fun event => side.ofEvent event.2

/-- The events have ids of their own, none was processed before, and the pair is not there. -/
structure Fresh (start : Store) : Prop where
  distinct : (history.eventJobs.filterMap Job.instructionId).Nodup
  unrecorded : Unrecorded history.eventJobs start
  absent : (start .pair).findOne history.pair.pair = none

/-- The row of the pair stands for the sums of the fees. -/
def AddsUp (store : Store) : Prop :=
  ∃ row, (store .pair).findOne history.pair.pair = some row ∧
    parseFloat row.protocolFeesX = some (.finite (history.fees .X).sum) ∧
    parseFloat row.protocolFeesY = some (.finite (history.fees .Y).sum)

end FeeHistory

/-! ## Fees one after another -/

theorem append_zero {protocolFees : ℕ} (small : protocolFees < 2 ^ 53) :
    (Number.finite 0).append protocolFees = .finite protocolFees := by
  have zero : Number.unsignedText 0 = decimal (0 : ℕ) := Number.unsignedText_of_lt (by decide)
  have parsed := Number.parseFloat_unsignedText_append 0 protocolFees
  rw [zero, parseUnsigned_decimal_append, Nat.mul_zero, Nat.zero_add,
    Number.ofInt_of_lt (by rwa [Int.natAbs_natCast])] at parsed
  change (parseFloat (Number.unsignedText 0 ++ decimal protocolFees)).getD .nan = _
  rw [zero, parsed, Option.getD_some]

/-- Fees that exceed a sum exceed it after the next event as well. -/
theorem exceeds_append {fees : Number} {sum protocolFees : ℕ} (exceeds : fees.AtLeast (sum + 1))
    (small : sum + protocolFees < 2 ^ 53) :
    (fees.append protocolFees).AtLeast (sum + protocolFees + 1) :=
  (Number.atLeast_append exceeds protocolFees).mono (le_min (by omega) small)

theorem exceeds_foldl_append {fees : Number} {sum : ℕ} {later : List ℕ}
    (exceeds : fees.AtLeast (sum + 1)) (small : sum + later.sum < 2 ^ 53) :
    (later.foldl Number.append fees).AtLeast (sum + later.sum + 1) := by
  induction later generalizing fees sum with
  | nil => exact exceeds
  | cons protocolFees later ih =>
      rw [List.sum_cons] at small ⊢
      rw [List.foldl_cons, ← Nat.add_assoc]
      exact ih (exceeds_append exceeds (by omega)) (by omega)

/-- The fees stand for their sum exactly when all but the last are zero. -/
theorem foldl_append_eq_iff {fees : List ℕ} (small : fees.sum < 2 ^ 53) :
    fees.foldl Number.append (.finite 0) = .finite fees.sum ↔ ∀ fee ∈ fees.dropLast, fee = 0 := by
  induction fees with
  | nil => simp
  | cons fee later ih =>
      rw [List.sum_cons] at small
      rw [List.foldl_cons, append_zero (by omega), List.sum_cons]
      cases later with
      | nil => simp
      | cons next later =>
          rw [List.dropLast_cons_of_ne_nil (List.cons_ne_nil _ _), List.forall_mem_cons]
          by_cases zero : fee = 0
          · subst zero
            rw [Nat.zero_add] at small ⊢
            exact (ih small).trans ⟨fun all => ⟨rfl, all⟩, And.right⟩
          · refine iff_of_false ?_ fun all => zero all.1
            -- From here on the fees exceed the sum.
            rw [List.sum_cons] at small ⊢
            have first : ((Number.finite fee).append next).AtLeast (fee + next + 1) :=
              (@Number.atLeast_append (.finite fee) fee le_rfl next).mono
                (le_min (by omega) (by omega))
            rw [List.foldl_cons, ← Nat.add_assoc]
            exact (exceeds_foldl_append first (by omega)).ne_finite (Nat.lt_succ_self _)

/-! ## The row of a pair -/

/-- The row has fees on both sides that stand for the given numbers. -/
def StandsFor (row : Pair) (fees : Side → Number) : Prop :=
  ∀ side : Side, side.ofFees row ≠ "" ∧ parseFloat (side.ofFees row) = some (fees side)

/-- The text that an event stores, and what it stands for. -/
theorem of_addProtocolFees {fees : String} {number : Number} {protocolFees : ℕ} {newFees : Value}
    (nonempty : fees ≠ "") (read : parseFloat fees = some number)
    (added : addProtocolFees fees protocolFees = .ok newFees) :
    newFees.toString ≠ "" ∧ parseFloat newFees.toString = some (number.append protocolFees) := by
  rw [addProtocolFees, if_neg nonempty, readFloat_eq_ok.mpr read] at added
  cases added
  refine ⟨fun empty => ?_, Number.parseFloat_append number protocolFees⟩
  have lists : (number.toString ++ decimal protocolFees).toList = [] :=
    congrArg String.toList empty
  rw [String.toList_append, toList_decimal_natCast] at lists
  exact Nat.toDigits_ne_nil (List.append_eq_nil_iff.mp lists).2

/-- An event adds its fees on both sides. -/
theorem StandsFor.recordFees {message : ParsedInstructionMessage}
    {decoded : CompositionFeesEventDecoded} {store after : Store} {row : Pair}
    {fees : Side → Number} (found : (store .pair).findOne decoded.pair = some row)
    (standsFor : StandsFor row fees)
    (completes : mongo.Completes (recordFees message decoded) store () after) :
    ∃ row', (after .pair).findOne decoded.pair = some row' ∧
      StandsFor row' fun side => (fees side).append (side.ofEvent decoded) := by
  obtain ⟨pair, newX, newY, found', addedX, addedY, pairs⟩ := of_completes_recordFees completes
  cases found.symm.trans found'
  have settledX := of_addProtocolFees (standsFor .X).1 (standsFor .X).2 addedX
  have settledY := of_addProtocolFees (standsFor .Y).1 (standsFor .Y).2 addedY
  refine ⟨_, by rw [pairs, Collection.findOne_updateOne_self, found]; rfl, fun side => ?_⟩
  cases side with
  | X => exact settledX
  | Y => exact settledY

/-- A pair that was not there is created without fees. -/
theorem standsFor_of_initialized {rpc : MintRpc} {decoded : InitializePair.InitializePairDecoded}
    {store after : Store} (absent : (store .pair).findOne decoded.pair = none)
    (completes : mongo.Completes (InitializePair.processInitializePair rpc decoded) store ()
      after) :
    ∃ row, (after .pair).findOne decoded.pair = some row ∧
      StandsFor row fun _ => .finite 0 := by
  rcases InitializePair.of_completes_processInitializePair completes with
    ⟨held, -⟩ | ⟨config, mintX, mintY, rows, created, same⟩
  · rw [Collection.holds_eq_false.mpr absent] at held
    cases held
  · refine ⟨_, same ▸ Collection.findOne_create_self created, fun side => ?_⟩
    have nonempty : "0" ≠ "" := by decide
    have zero : parseFloat "0" = some (.finite 0) := by decide
    cases side <;> exact ⟨nonempty, zero⟩

/-- The fees of a job on one side. -/
def jobFees (side : Side) (job : Job) : ℕ :=
  match job.payload with
  | .compositionFees decoded => side.ofEvent decoded
  | _ => 0

/-- After its creation and the events, the row of a pair stands for the fees one after
another. -/
theorem standsFor_of_run {rpc : Rpc} {history : FeeHistory} {start middle after : Store}
    (fresh : history.Fresh start)
    (created : mongo.Completes (history.initJob.process rpc) start () middle)
    (ran : Sequence mongo (Job.process rpc) (fun _ _ => True) middle history.eventJobs after) :
    ∃ row, (after .pair).findOne history.pair.pair = some row ∧
      StandsFor row fun side => (history.fees side).foldl Number.append (.finite 0) := by
  have recorded : middle .instruction = start .instruction :=
    InitializePair.processInitializePair_within.completes (by decide) created
  have unrecorded : Unrecorded history.eventJobs middle := fun job member id identified => by
    rw [recorded]
    exact fresh.unrecorded job member id identified
  have ended := unrecorded.invariant fresh.distinct ran
    (fun done store => ∃ row, (store .pair).findOne history.pair.pair = some row ∧
      StandsFor row fun side => (done.map (jobFees side)).foldl Number.append (.finite 0))
    (standsFor_of_initialized fresh.absent created) (by
      rintro done job rest store middle after split - others worked ⟨row, found, standsFor⟩
      have member : job ∈ history.eventJobs := by simp [split]
      obtain ⟨event, here, rfl⟩ := List.mem_map.mp member
      rw [← history.own event here, ← others .pair (by decide)] at found
      simp only [List.map_append, List.foldl_append]
      exact history.own event here ▸ standsFor.recordFees found worked)
  obtain ⟨row, found, standsFor⟩ := ended
  refine ⟨row, found, fun side => ?_⟩
  have listed : history.eventJobs.map (jobFees side) = history.fees side := List.map_map
  simpa only [listed] using standsFor side

/-! ## A pair with two events -/

/-- The sample pair and two events with a fee of 100 and one of 50 in its token X. -/
def sampleHistory : FeeHistory where
  initialization := pairJob.message
  pair := ⟨8388608, "book", "mintX", "mintY", "config", "badge", "pair"⟩
  events := [(⟨7, "sig", 0, true, .at 1⟩, ⟨"pair", 8388608, 200, 0, 100, 0⟩),
    (⟨8, "sig", 0, true, .at 1⟩, ⟨"pair", 8388608, 100, 0, 50, 0⟩)]
  own := by decide
  small side := by cases side <;> decide

/-- The store with the config of the sample pair. -/
def configStore : Store := storeAfter silentRpc .empty [configJob]

theorem sampleHistory_fresh : sampleHistory.Fresh configStore :=
  ⟨by decide, fun _ _ _ _ => rfl, rfl⟩

theorem sampleHistory_ran :
    Sequence mongo (Job.process silentRpc) (fun _ _ => True) pairStore sampleHistory.eventJobs
      (storeAfter silentRpc pairStore sampleHistory.eventJobs) :=
  .cons trivial (Database.completes_of_run (by decide +kernel))
    (.cons trivial (Database.completes_of_run (by decide +kernel)) (.nil _))

/-- After the creation of a pair and its composition fees events, each run to normal
completion, the row stands for the sums of the fees exactly when no event but the last
carries any. -/
theorem protocol_fees_add_up_iff {rpc : Rpc} {history : FeeHistory} {start middle after : Store}
    (fresh : history.Fresh start)
    (created : mongo.Completes (history.initJob.process rpc) start () middle)
    (ran : Sequence mongo (Job.process rpc) (fun _ _ => True) middle history.eventJobs after) :
    history.AddsUp after ↔
      ∀ event ∈ history.events.dropLast, event.2.protocolFeesX = 0 ∧ event.2.protocolFeesY = 0 := by
  obtain ⟨row, found, standsFor⟩ := standsFor_of_run fresh created ran
  have exact_iff (side : Side) :
      parseFloat (side.ofFees row) = some (.finite (history.fees side).sum) ↔
        ∀ event ∈ history.events.dropLast, side.ofEvent event.2 = 0 := by
    rw [(standsFor side).2, Option.some_inj]
    refine (foldl_append_eq_iff (history.small side)).trans ?_
    rw [← List.map_dropLast, List.forall_mem_map]
  have sums : history.AddsUp after ↔
      parseFloat row.protocolFeesX = some (.finite (history.fees .X).sum) ∧
      parseFloat row.protocolFeesY = some (.finite (history.fees .Y).sum) := by
    constructor
    · rintro ⟨row', found', sums⟩
      cases found.symm.trans found'
      exact sums
    · exact fun sums => ⟨row, found, sums⟩
  rw [sums]
  refine (and_congr (exact_iff .X) (exact_iff .Y)).trans ?_
  exact ⟨fun both event member => ⟨both.1 event member, both.2 event member⟩,
    fun both => ⟨fun event member => (both event member).1,
      fun event member => (both event member).2⟩⟩

theorem protocol_fees_add_up_iff_sample :
    ¬sampleHistory.AddsUp (storeAfter silentRpc pairStore sampleHistory.eventJobs) :=
  fun addsUp => absurd
    ((protocol_fees_add_up_iff sampleHistory_fresh completes_pairJob sampleHistory_ran).mp addsUp _
      List.mem_cons_self).1 (by decide)

/-- Fees of 100 and 50 are stored as 10050. -/
theorem protocol_fees_concatenated :
    (sampleHistory.Fresh configStore ∧
      mongo.Completes (sampleHistory.initJob.process silentRpc) configStore () pairStore ∧
      Sequence mongo (Job.process silentRpc) (fun _ _ => True) pairStore sampleHistory.eventJobs
        (storeAfter silentRpc pairStore sampleHistory.eventJobs)) ∧
    ((storeAfter silentRpc pairStore sampleHistory.eventJobs .pair).findOne "pair").map
      (·.protocolFeesX) = some "10050" ∧
    ¬sampleHistory.AddsUp (storeAfter silentRpc pairStore sampleHistory.eventJobs) := by
  have stored : ((storeAfter silentRpc pairStore sampleHistory.eventJobs .pair).findOne
      "pair").map (·.protocolFeesX) = some "10050" := by decide +kernel
  refine ⟨⟨sampleHistory_fresh, completes_pairJob, sampleHistory_ran⟩, stored, ?_⟩
  rintro ⟨row, found, addsUp, -⟩
  rw [show (storeAfter silentRpc pairStore sampleHistory.eventJobs .pair).findOne "pair" = some row
    from found, Option.map_some, Option.some_inj] at stored
  rw [stored] at addsUp
  exact absurd addsUp (by decide)

end CompositionFees

end DlmmIndexer

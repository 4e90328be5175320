import DlmmIndexer.Worker

/-!
# The place in the row of an instruction

Eight processors hand the place of their message to the `Instruction` collection.  Seven
pass it on as it is.  The composition fees processor rebuilds the inner index with `||` and
`isInner` from its truth value, so the first inner instruction is recorded as top-level.
-/

namespace DlmmIndexer

open Documents JavaScript Atomic Text

/-- Inner instructions have an inner index and top-level ones have none. -/
def ParsedInstructionMessage.WellFormed (message : ParsedInstructionMessage) : Prop :=
  message.isInner = true ↔ ∃ index, message.innerInstructionIndex = .at index

/-- The row has the place of the message. -/
structure Placed (message : ParsedInstructionMessage) (row : Instruction) : Prop where
  index : row.index = message.instructionIndex
  isInner : row.isInner = message.isInner
  inner : ∀ index, message.innerInstructionIndex = .at index →
    row.innerIndex = some (index : ℤ) ∧ EndsIn row.id (decimal index)
  topLevel : message.isInner = false → row.innerIndex = none ∨ row.innerIndex = some (-1)
  star : EndsIn row.id "*" ↔ message.isInner = false

/-! ## Inner indexes and their texts -/

namespace InnerIndex

variable {innerIndex other : InnerIndex}

theorem text_eq_star_iff : innerIndex.text = "*" ↔ ∀ index, innerIndex ≠ .at index := by
  cases innerIndex with
  | undefined => exact iff_of_true rfl nofun
  | null => exact iff_of_true rfl nofun
  | «at» index => exact iff_of_false (text_at_ne_star index) fun none => none index rfl

theorem text_eq_decimal_iff {index : ℕ} :
    innerIndex.text = decimal index ↔ innerIndex = .at index := by
  cases innerIndex with
  | undefined => exact iff_of_false (text_at_ne_star index).symm nofun
  | null => exact iff_of_false (text_at_ne_star index).symm nofun
  | «at» index' =>
      constructor
      · intro same
        exact congrArg InnerIndex.at (by exact_mod_cast decimal_injective same)
      · exact congrArg text

theorem text_orNull (nonzero : innerIndex ≠ .at 0) : innerIndex.orNull.text = innerIndex.text := by
  cases innerIndex with
  | undefined => rfl
  | null => rfl
  | «at» index =>
      cases index with
      | zero => exact absurd rfl nonzero
      | succ index => rfl

end InnerIndex

/-! ## Rows -/

section

variable {message : ParsedInstructionMessage} {params : CheckAndInsertInstructionParams}

theorem endsIn_instructionId_iff {part : String} (free : '-' ∉ part.toList) :
    EndsIn (generateInstructionId params) part ↔ params.innerInstructionIndex.text = part :=
  endsIn_joined_iff (InnerIndex.not_mem_text _) free

theorem ParsedInstructionMessage.WellFormed.topLevel_iff (wellFormed : message.WellFormed) :
    message.isInner = false ↔ ∀ index, message.innerInstructionIndex ≠ .at index := by
  rw [← Bool.not_eq_true, ← not_exists]
  exact not_congr wellFormed

/-- Parameters with the place of the message record it, absent inner indexes being alike. -/
theorem placed_instructionData (wellFormed : message.WellFormed)
    (index : params.instructionIndex = message.instructionIndex)
    (isInner : params.isInner = message.isInner)
    (text : params.innerInstructionIndex.text = message.innerInstructionIndex.text) :
    Placed message (instructionData params) where
  index := index
  isInner := isInner
  inner index here := by
    have printed : params.innerInstructionIndex.text = decimal index := by rw [text, here]; rfl
    refine ⟨?_, (endsIn_instructionId_iff (not_mem_decimal index)).mpr printed⟩
    rw [instructionData, InnerIndex.text_eq_decimal_iff.mp printed]
    rfl
  topLevel outer := by
    have absent := text.trans (InnerIndex.text_eq_star_iff.mpr (wellFormed.topLevel_iff.mp outer))
    rw [instructionData]
    cases inner : params.innerInstructionIndex with
    | undefined => exact .inr rfl
    | null => exact .inl rfl
    | «at» index => exact absurd inner (InnerIndex.text_eq_star_iff.mp absent index)
  star := by
    rw [wellFormed.topLevel_iff, ← InnerIndex.text_eq_star_iff, ← text]
    exact endsIn_instructionId_iff (by decide)

/-- The composition fees processor records the place unless the inner index is zero. -/
theorem placed_compositionFees_iff (wellFormed : message.WellFormed) :
    Placed message (instructionData (CompositionFees.params message)) ↔
      message.innerInstructionIndex ≠ .at 0 := by
  constructor
  · intro placed zero
    have recorded : message.innerInstructionIndex.orNull.stored = some (0 : ℤ) :=
      (placed.inner 0 zero).1
    rw [zero] at recorded
    cases recorded
  · intro nonzero
    refine placed_instructionData wellFormed rfl ?_ (InnerIndex.text_orNull nonzero)
    change message.innerInstructionIndex.truthy = message.isInner
    refine Bool.eq_iff_iff.mpr (Iff.trans ?_ wellFormed.symm)
    cases inner : message.innerInstructionIndex with
    | undefined => exact iff_of_false Bool.false_ne_true nofun
    | null => exact iff_of_false Bool.false_ne_true nofun
    | «at» index =>
        cases index with
        | zero => exact absurd inner nonzero
        | succ index => exact iff_of_true rfl ⟨_, rfl⟩

/-- Of a job that deduplicates, only that processor does not pass on its message. -/
theorem Job.params_eq {job : Job} (deduplicates : job.params = some params) :
    (params.processorName ≠ .CompositionFeesProcessor ∧
      params = job.message.params params.processorName) ∨
    (params.processorName = .CompositionFeesProcessor ∧
      params = CompositionFees.params job.message) := by
  rcases job with ⟨message, payload⟩
  cases payload with
  | rejected | ignored | initializePair | initializeBinStepConfig | initializeBinArray =>
      cases deduplicates
  | compositionFees =>
      cases deduplicates
      exact .inr ⟨rfl, rfl⟩
  | _ =>
      cases deduplicates
      exact .inl ⟨nofun, rfl⟩

/-- A job that is processed to normal completion for the first time inserts one row. -/
theorem Job.created_of_completes {rpc : Rpc} {job : Job} {store after : Store}
    (deduplicates : job.params = some params)
    (fresh : (store .instruction).holds (generateInstructionId params) = false)
    (completes : mongo.Completes (job.process rpc) store () after) :
    (store .instruction).create (instructionData params) = some (after .instruction) := by
  rcases job.completes_process completes with
    ⟨id, identified, held, -⟩ | ⟨params', rows, deduplicates', created, worked⟩ | ⟨plain, -⟩
  · rw [instructionId, deduplicates, Option.map_some, Option.some_inj] at identified
    rw [identified, held] at fresh
    cases fresh
  · obtain rfl := Option.some.inj (deduplicates.symm.trans deduplicates')
    rw [Job.instruction_of_work worked, Store.put_same]
    exact created
  · rw [plain] at deduplicates
    cases deduplicates

end

/-! ## The first inner instruction -/

/-- A composition fees event that is the first inner instruction. -/
def feesJob : Job where
  message := ⟨7, "sig", 0, true, .at 0⟩
  payload := .compositionFees ⟨"pair", 8388608, 200, 0, 100, 0⟩

theorem wellFormed_badgeJob : badgeJob.message.WellFormed := iff_of_true rfl ⟨1, rfl⟩

theorem wellFormed_feesJob : feesJob.message.WellFormed := iff_of_true rfl ⟨0, rfl⟩

theorem completes_feesJob : mongo.Completes (feesJob.process silentRpc) pairStore ()
    (storeAfter silentRpc pairStore [feesJob]) :=
  Database.completes_of_run (by decide +kernel)

/-- A job that is processed to normal completion for the first time inserts one row.  The row
records the place of the message exactly when the job is no composition fees event with inner
index zero. -/
theorem place_recorded_iff {rpc : Rpc} {job : Job} {params : CheckAndInsertInstructionParams}
    {store after : Store} (deduplicates : job.params = some params)
    (wellFormed : job.message.WellFormed)
    (fresh : (store .instruction).holds (generateInstructionId params) = false)
    (completes : mongo.Completes (job.process rpc) store () after) :
    ∃ row, (store .instruction).create row = some (after .instruction) ∧
      (Placed job.message row ↔ ¬(params.processorName = .CompositionFeesProcessor ∧
        job.message.innerInstructionIndex = .at 0)) := by
  refine ⟨instructionData params, job.created_of_completes deduplicates fresh completes, ?_⟩
  rcases Job.params_eq deduplicates with ⟨other, same⟩ | ⟨fees, same⟩
  · rw [same]
    exact iff_of_true (placed_instructionData wellFormed rfl rfl rfl) fun both => other both.1
  · rw [and_iff_right fees, same]
    exact placed_compositionFees_iff wellFormed

theorem place_recorded_iff_sample : ∃ row,
    (Store.empty .instruction).create row =
      some (storeAfter silentRpc .empty [badgeJob] .instruction) ∧ Placed badgeJob.message row := by
  obtain ⟨row, created, placed⟩ := @place_recorded_iff silentRpc badgeJob _ .empty
    (storeAfter silentRpc .empty [badgeJob]) rfl wellFormed_badgeJob rfl rfl
  exact ⟨row, created, placed.mpr fun both => nomatch both.1⟩

/-- The row of the first inner instruction is that of a top-level one. -/
theorem first_inner_recorded_as_top_level :
    feesJob.message.WellFormed ∧
    (pairStore .instruction).holds
      (generateInstructionId (CompositionFees.params feesJob.message)) = false ∧
    mongo.Completes (feesJob.process silentRpc) pairStore ()
      (storeAfter silentRpc pairStore [feesJob]) ∧
    ∃ row, (pairStore .instruction).create row =
        some (storeAfter silentRpc pairStore [feesJob] .instruction) ∧
      ¬Placed feesJob.message row := by
  refine ⟨wellFormed_feesJob, rfl, completes_feesJob,
    instructionData (CompositionFees.params feesJob.message),
    feesJob.created_of_completes rfl rfl completes_feesJob, fun placed => ?_⟩
  exact (placed_compositionFees_iff wellFormed_feesJob).mp placed rfl

end DlmmIndexer

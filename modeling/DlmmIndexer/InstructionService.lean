import DlmmIndexer.Database

/-!
# Deduplication of instructions

Eight processors record every instruction they take up in the `Instruction`
collection, under an id made from the instruction's place on the chain, and skip
an instruction whose id is already there.
-/

namespace DlmmIndexer

open Documents JavaScript Atomic Text

/-- The processors that deduplicate. -/
inductive ProcessorName where
  | CreatePositionProcessor
  | ClosePositionProcessor
  | IncreasePositionProcessor
  | DecreasePositionProcessor
  | SwapProcessor
  | QuoteAssetProcessor
  | CompositionFeesProcessor
  | UpdatePairStaticFeeParametersProcessor
  deriving DecidableEq, Repr

def ProcessorName.text : ProcessorName → String
  | .CreatePositionProcessor => "CreatePositionProcessor"
  | .ClosePositionProcessor => "ClosePositionProcessor"
  | .IncreasePositionProcessor => "IncreasePositionProcessor"
  | .DecreasePositionProcessor => "DecreasePositionProcessor"
  | .SwapProcessor => "SwapProcessor"
  | .QuoteAssetProcessor => "QuoteAssetProcessor"
  | .CompositionFeesProcessor => "CompositionFeesProcessor"
  | .UpdatePairStaticFeeParametersProcessor => "UpdatePairStaticFeeParametersProcessor"

/-- `toLowerCase` on ASCII texts. -/
def toLowerCase (text : String) : String := String.ofList (text.toList.map Char.toLower)

theorem toList_toLowerCase (text : String) :
    (toLowerCase text).toList = text.toList.map Char.toLower := String.toList_ofList

namespace ProcessorName

def all : List ProcessorName :=
  [.CreatePositionProcessor, .ClosePositionProcessor, .IncreasePositionProcessor,
    .DecreasePositionProcessor, .SwapProcessor, .QuoteAssetProcessor, .CompositionFeesProcessor,
    .UpdatePairStaticFeeParametersProcessor]

theorem mem_all (processorName : ProcessorName) : processorName ∈ all := by
  cases processorName <;> decide

theorem not_mem_text (processorName : ProcessorName) :
    '-' ∉ (toLowerCase processorName.text).toList := by
  rw [toList_toLowerCase]
  cases processorName <;> decide

/-- Lower case keeps the names apart. -/
theorem toLowerCase_text_injective :
    Function.Injective fun processorName : ProcessorName => toLowerCase processorName.text := by
  have distinct :
      (all.map fun processorName => processorName.text.toList.map Char.toLower).Nodup := by decide
  intro first second same
  have lists := congrArg String.toList same
  rw [toList_toLowerCase, toList_toLowerCase] at lists
  exact List.inj_on_of_nodup_map distinct (mem_all first) (mem_all second) lists

end ProcessorName

/-- The place of an instruction on the chain, as every queue message carries it. -/
structure ParsedInstructionMessage where
  blockNumber : ℕ
  signature : String
  instructionIndex : ℕ
  isInner : Bool
  innerInstructionIndex : InnerIndex
  deriving DecidableEq, Repr

structure CheckAndInsertInstructionParams where
  blockNumber : ℕ
  signature : String
  processorName : ProcessorName
  instructionIndex : ℕ
  innerInstructionIndex : InnerIndex
  isInner : Bool
  deriving DecidableEq, Repr

/-- The parameters of a processor that passes on its message as it is. -/
def ParsedInstructionMessage.params (message : ParsedInstructionMessage)
    (processorName : ProcessorName) : CheckAndInsertInstructionParams where
  blockNumber := message.blockNumber
  signature := message.signature
  processorName := processorName
  instructionIndex := message.instructionIndex
  innerInstructionIndex := message.innerInstructionIndex
  isInner := message.isInner

/-- `{blockNumber}-{signature}-{processorName}-{instructionIndex}-{innerIndex}` -/
def generateInstructionId (params : CheckAndInsertInstructionParams) : String :=
  joined
    (joined
      (joined (joined (decimal params.blockNumber) params.signature)
        (toLowerCase params.processorName.text))
      (decimal params.instructionIndex))
    params.innerInstructionIndex.text

theorem InnerIndex.not_mem_text (innerIndex : InnerIndex) : '-' ∉ innerIndex.text.toList := by
  cases innerIndex with
  | undefined | null => decide
  | «at» index => exact not_mem_decimal index

theorem InnerIndex.text_at_ne_star (index : ℕ) : (InnerIndex.at index).text ≠ "*" := by
  intro same
  obtain ⟨digit, rest, shape, isDigit⟩ := toDigits_eq_cons index
  have lists := congrArg String.toList same
  rw [show (InnerIndex.at index).text = decimal index from rfl, toList_decimal_natCast, shape]
    at lists
  cases lists
  cases isDigit

/-- Equal ids are about equal places in a transaction. -/
theorem place_of_generateInstructionId {params params' : CheckAndInsertInstructionParams}
    (same : generateInstructionId params = generateInstructionId params') :
    params.instructionIndex = params'.instructionIndex ∧
      params.innerInstructionIndex.text = params'.innerInstructionIndex.text := by
  obtain ⟨outer, inner⟩ := joined_injective (InnerIndex.not_mem_text _) (InnerIndex.not_mem_text _)
    same
  exact ⟨(joined_decimal_injective outer).2, inner⟩

/-- Equal ids are about equal processors. -/
theorem processorName_of_generateInstructionId {params params' : CheckAndInsertInstructionParams}
    (same : generateInstructionId params = generateInstructionId params') :
    params.processorName = params'.processorName := by
  obtain ⟨outer, -⟩ := joined_injective (InnerIndex.not_mem_text _) (InnerIndex.not_mem_text _) same
  obtain ⟨outer, -⟩ := joined_decimal_injective outer
  exact ProcessorName.toLowerCase_text_injective
    (joined_injective (ProcessorName.not_mem_text _) (ProcessorName.not_mem_text _) outer).2

def isInstructionProcessed (instructionId : String) : Action Bool :=
  existsId .instruction instructionId

/-- The row that records an instruction. -/
def instructionData (params : CheckAndInsertInstructionParams) : Instruction where
  id := generateInstructionId params
  processorName := toLowerCase params.processorName.text
  signature := params.signature
  index := params.instructionIndex
  innerIndex := params.innerInstructionIndex.stored
  isInner := params.isInner
  blockNumber := params.blockNumber

def insertInstruction (params : CheckAndInsertInstructionParams) : Action Instruction := do
  create .instruction (instructionData params)
  pure (instructionData params)

/-- The inserted row, or nothing when the instruction was processed already. -/
def checkAndInsertInstruction (params : CheckAndInsertInstructionParams) :
    Action (Option Instruction) := do
  let isProcessed ← isInstructionProcessed (generateInstructionId params)
  if isProcessed then pure none
  else do
    let instruction ← insertInstruction params
    pure (some instruction)

/-- `checkAndInsertInstruction` followed by the early return of its callers. -/
def unlessProcessed (params : CheckAndInsertInstructionParams)
    (process : Instruction → Action Unit) : Action Unit := do
  match ← checkAndInsertInstruction params with
  | none => pure ()
  | some instruction => process instruction

/-- The rest of a deduplicating program once its row is known to be missing. -/
def afterLookup (params : CheckAndInsertInstructionParams) (work : Instruction → Action Unit) :
    Action Unit :=
  .op (.create .instruction (instructionData params)) fun _ => work (instructionData params)

/-- A deduplicating program as its first operation and the rest. -/
theorem unlessProcessed_eq (params : CheckAndInsertInstructionParams)
    (work : Instruction → Action Unit) :
    unlessProcessed params work =
      .op (.exists .instruction (generateInstructionId params)) fun found =>
        if found then .pure () else afterLookup params work := by
  change Program.op _ _ = _
  congr 1
  funext found
  cases found <;> rfl

section

variable {params : CheckAndInsertInstructionParams} {store after : Store}

/-- A row is inserted only where there is none under its id. -/
theorem unrecorded_of_create {rows : Collection Coll.instruction.id}
    (created : (store .instruction).create (instructionData params) = some rows) :
    (store .instruction).holds (generateInstructionId params) = false := by
  have fresh := Collection.fresh_of_create created
  exact Collection.holds_eq_false.mpr fresh

theorem recorded_of_create {rows : Collection Coll.instruction.id}
    (created : (store .instruction).create (instructionData params) = some rows) :
    rows.holds (generateInstructionId params) = true := by
  have stored := Collection.findOne_create_self created
  exact Collection.holds_of_findOne stored

theorem completes_checkAndInsertInstruction {answer : Option Instruction} :
    mongo.Completes (checkAndInsertInstruction params) store answer after ↔
      (answer = none ∧ (store .instruction).holds (generateInstructionId params) = true ∧
        after = store) ∨
      (answer = some (instructionData params) ∧
        ∃ rows, (store .instruction).create (instructionData params) = some rows ∧
          after = store.put .instruction rows) := by
  simp only [checkAndInsertInstruction, isInstructionProcessed, insertInstruction,
    Database.completes_bind, completes_existsId]
  constructor
  · rintro ⟨found, _, ⟨rfl, rfl⟩, rest⟩
    split at rest
    next held =>
      obtain ⟨rfl, rfl⟩ := Database.completes_return.mp rest
      exact .inl ⟨rfl, held, rfl⟩
    · simp only [Database.completes_bind, completes_create, Database.completes_return] at rest
      obtain ⟨_, _, ⟨_, _, ⟨rows, created, -, rfl⟩, rfl, rfl⟩, rfl, rfl⟩ := rest
      exact .inr ⟨rfl, rows, created, rfl⟩
  · rintro (⟨rfl, held, rfl⟩ | ⟨rfl, rows, created, rfl⟩)
    · exact ⟨_, _, ⟨rfl, rfl⟩, by rw [if_pos held, Database.completes_return]; exact ⟨rfl, rfl⟩⟩
    · refine ⟨_, _, ⟨rfl, rfl⟩, ?_⟩
      rw [unrecorded_of_create created, if_neg Bool.false_ne_true]
      simp only [Database.completes_bind, completes_create, Database.completes_return]
      exact ⟨_, _, ⟨(), _, ⟨rows, created, rfl, rfl⟩, rfl, rfl⟩, rfl, rfl⟩

/-- A deduplicating processor completes in one of two ways: the row is there and
nothing happens, or the row is inserted and the processor does its work. -/
theorem completes_unlessProcessed {process : Instruction → Action Unit} {answer : Unit} :
    mongo.Completes (unlessProcessed params process) store answer after ↔
      ((store .instruction).holds (generateInstructionId params) = true ∧ after = store) ∨
      ∃ rows, (store .instruction).create (instructionData params) = some rows ∧
        mongo.Completes (process (instructionData params)) (store.put .instruction rows) ()
          after := by
  simp only [unlessProcessed, Database.completes_bind, completes_checkAndInsertInstruction]
  constructor
  · rintro ⟨_, _, ⟨rfl, held, rfl⟩ | ⟨rfl, rows, created, rfl⟩, rest⟩
    · exact .inl ⟨held, (Database.completes_return.mp rest).2⟩
    · exact .inr ⟨rows, created, rest⟩
  · rintro (⟨held, rfl⟩ | ⟨rows, created, rest⟩)
    · exact ⟨_, _, .inl ⟨rfl, held, rfl⟩, Database.completes_return.mpr ⟨rfl, rfl⟩⟩
    · exact ⟨_, _, .inr ⟨rfl, rows, created, rfl⟩, rest⟩

/-- When the row is there the processor does nothing. -/
theorem run_unlessProcessed_of_holds {process : Instruction → Action Unit}
    (held : (store .instruction).holds (generateInstructionId params) = true) :
    mongo.Completes (unlessProcessed params process) store () store :=
  completes_unlessProcessed.mpr (.inl ⟨held, rfl⟩)

/-- An error of a deduplicating processor comes from its work, past the row. -/
theorem of_throws_unlessProcessed {process : Instruction → Action Unit} {message : String}
    (threw : mongo.Throws (unlessProcessed params process) store (.error message) after) :
    ∃ rows, (store .instruction).create (instructionData params) = some rows ∧
      mongo.Throws (process (instructionData params)) (store.put .instruction rows)
        (.error message) after := by
  rcases Database.throws_bind.mp threw with failed | ⟨_, _, checked, later⟩
  · rcases Database.throws_bind.mp failed with failed | ⟨isProcessed, _, -, failed⟩
    · exact absurd failed not_throws_existsId
    · cases isProcessed with
      | true => exact absurd failed Database.not_throws_return
      | false =>
          rcases Database.throws_bind.mp failed with failed | ⟨_, _, -, failed⟩
          · obtain ⟨_, -, failed⟩ := passed_create failed
            exact absurd failed Database.not_throws_return
          · exact absurd failed Database.not_throws_return
  · rcases completes_checkAndInsertInstruction.mp checked with
      ⟨rfl, -, rfl⟩ | ⟨rfl, rows, created, rfl⟩
    · exact absurd later Database.not_throws_return
    · exact ⟨rows, created, later⟩

theorem within_checkAndInsertInstruction :
    (checkAndInsertInstruction params).Within [.instruction] := by
  refine .bind within_existsId fun isProcessed => ?_
  split
  · exact Program.every_return _
  · exact .bind (.bind (within_create (by simp)) fun _ => Program.every_return _)
      fun _ => Program.every_return _

theorem within_unlessProcessed {colls : List Coll} {process : Instruction → Action Unit}
    (work : ∀ instruction, (process instruction).Within colls) :
    (unlessProcessed params process).Within (.instruction :: colls) := by
  refine .bind (within_checkAndInsertInstruction.mono (by simp)) fun instruction => ?_
  cases instruction with
  | none => exact Program.every_return _
  | some instruction => exact (work instruction).mono (List.subset_cons_self _ _)

/-- A deduplicating processor leaves the row of its instruction behind. -/
theorem unlessProcessed_establishes {process : Instruction → Action Unit} :
    (unlessProcessed params process).Establishes mongo fun store =>
      (store .instruction).holds (generateInstructionId params) = true := by
  intro store answer after applied
  cases applied
  cases held : (store .instruction).holds (generateInstructionId params) with
  | true => exact .inl held
  | false =>
      refine .inr fun store answer after applied => .inl ?_
      obtain ⟨rows, created, rfl⟩ := store_of_create applied
      rw [Store.put_same]
      exact recorded_of_create created

end

end DlmmIndexer

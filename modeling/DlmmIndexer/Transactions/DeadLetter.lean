import DlmmIndexer.Library.StrictSchema
import DlmmIndexer.Transactions.Processor

/-!
# Dead letters

An instruction whose routing fails becomes a job of the queue of dead letters: the message
itself with the text of the error.  `DlqProcessor` takes properties out of the job and
saves them as a `DlqEvent`.

The message has no `instructionName` and no `instructionData`, and the event is built
under names that are not those of the schema.
-/

namespace DlmmIndexer

open Documents

/-- The values of job data and of documents. -/
inductive DocumentValue where
  | null
  | boolean (value : Bool)
  | number (value : ℤ)
  | string (value : String)
  /-- `new Date(seconds * 1000)` -/
  | date (seconds : Option DocumentValue)
  | array (items : List DocumentValue)
  | object (properties : List (String × DocumentValue))

namespace DocumentValue

/-- `required` on a path that is not a text. -/
def present : DocumentValue → Bool
  | .null => false
  | _ => true

/-- `required` on a text. -/
def nonempty : DocumentValue → Bool
  | .string value => value ≠ ""
  | _ => false

end DocumentValue

/-! ## The job -/

def InnerIndex.value? : InnerIndex → Option DocumentValue
  | .undefined => none
  | .null => some .null
  | .at index => some (.number index)

def PartiallyDecodedInstruction.value (instruction : PartiallyDecodedInstruction) : DocumentValue :=
  .object [("programId", .string instruction.programId),
    ("accounts", .array (instruction.accounts.map .string)),
    ("data", .string instruction.data)]

def InstructionMessage.properties (message : InstructionMessage) : Properties DocumentValue :=
  .literal [("blockNumber", some (.number message.blockNumber)),
    ("signature", some (.string message.signature)),
    ("instruction", some message.instruction.value),
    ("instructionIndex", some (.number message.instructionIndex)),
    ("innerInstructionIndex", message.innerInstructionIndex.value?),
    ("isInner", some (.boolean message.isInner)),
    ("blockTime", some (.number message.blockTime))]

/-- `{ ...instruction, errorMessage }` -/
def QueuedJob.data (job : QueuedJob) : Properties DocumentValue :=
  job.instruction.properties.spread (.literal [("errorMessage", job.errorMessage.map .string)])

/-! ## The processor -/

/-- The paths of the schema `DlqEvent`. -/
def DlqEvent : StrictSchema DocumentValue :=
  [⟨"blockNumber", true, DocumentValue.present⟩,
   ⟨"signature", true, DocumentValue.nonempty⟩,
   ⟨"blockTime", false, DocumentValue.present⟩,
   ⟨"instructionIndex", true, DocumentValue.present⟩,
   ⟨"instructionName", true, DocumentValue.nonempty⟩,
   ⟨"instructionData", false, DocumentValue.present⟩,
   ⟨"errorMessage", false, DocumentValue.present⟩]

abbrev DlqEvents := Unindexed (Properties DocumentValue)

namespace DlqProcessor

/-- The document that is built from the data of a job. -/
def dlqEvent (instruction : Properties DocumentValue) : Properties DocumentValue :=
  .literal [("signature", instruction.get? "signature"),
    ("blockNumber", instruction.get? "blockNumber"),
    ("block_time", some (.date (instruction.get? "blockTime"))),
    ("instruction_index", instruction.get? "instructionIndex"),
    ("instruction_name", instruction.get? "instructionName"),
    ("instruction_data", instruction.get? "instructionData"),
    ("error_message", instruction.get? "errorMessage")]

def process (job : QueuedJob) (events : DlqEvents) : Except (List String) Unit × DlqEvents :=
  DlqEvent.save (dlqEvent job.data) events

end DlqProcessor

/-! ## Lost letters -/

namespace DlqProcessor

variable {services : Services} {instruction : InstructionMessage} {errorMessage : String}

/-- A row that tells which instruction failed and why. -/
structure Records (instruction : InstructionMessage) (errorMessage : String)
    (row : Properties DocumentValue) : Prop where
  signature : row.get? "signature" = some (.string instruction.signature)
  blockNumber : row.get? "blockNumber" = some (.number instruction.blockNumber)
  instructionIndex : row.get? "instructionIndex" = some (.number instruction.instructionIndex)
  instructionData : row.get? "instructionData" = some (.string instruction.instruction.data)
  errorMessage : row.get? "errorMessage" = some (.string errorMessage)

/-- The job of a dead letter completes and stores such a row. -/
def Kept (instruction : InstructionMessage) (errorMessage : String) (job : QueuedJob)
    (events : DlqEvents) : Prop :=
  (process job events).1 = .ok () ∧
    ∃ row, (process job events).2 = events.insert row ∧ Records instruction errorMessage row

/-- Two names agree with the schema; the names of the index and of the instruction do not. -/
theorem get?_dlqEvent (instruction : InstructionMessage) (errorMessage : String) :
    let document := dlqEvent (TransactionProcessor.deadLetter instruction errorMessage).data
    document.get? "signature" = some (.string instruction.signature) ∧
      document.get? "blockNumber" = some (.number instruction.blockNumber) ∧
      document.get? "instructionIndex" = none ∧ document.get? "instructionName" = none := by
  simp [dlqEvent, QueuedJob.data, TransactionProcessor.deadLetter, InstructionMessage.properties]

/-- The required paths that the document of a dead letter does not fill. -/
theorem missing_deadLetter (instruction : InstructionMessage) (errorMessage : String) :
    DlqEvent.missing
        (dlqEvent (TransactionProcessor.deadLetter instruction errorMessage).data) =
      (if instruction.signature = "" then ["signature"] else []) ++
        ["instructionIndex", "instructionName"] := by
  obtain ⟨signature, blockNumber, instructionIndex, instructionName⟩ :=
    get?_dlqEvent instruction errorMessage
  by_cases empty : instruction.signature = ""
  · simp [DlqEvent, StrictSchema.missing, signature, blockNumber, instructionIndex,
      instructionName, DocumentValue.present, DocumentValue.nonempty, empty]
  · simp [DlqEvent, StrictSchema.missing, signature, blockNumber, instructionIndex,
      instructionName, DocumentValue.present, DocumentValue.nonempty, empty]

theorem process_deadLetter (instruction : InstructionMessage) (errorMessage : String)
    (events : DlqEvents) :
    process (TransactionProcessor.deadLetter instruction errorMessage) events =
      (.error ((if instruction.signature = "" then ["signature"] else []) ++
        ["instructionIndex", "instructionName"]), events) := by
  have missing := missing_deadLetter instruction errorMessage
  have absent : "instructionName" ∈ DlqEvent.missing
      (dlqEvent (TransactionProcessor.deadLetter instruction errorMessage).data) := by
    rw [missing]
    exact List.mem_append_right _ (by decide)
  rw [process, StrictSchema.save_of_missing absent, missing]

/-- Whatever is thrown for whatever instruction, the job that is added to the queue of dead
letters fails on two required paths and stores nothing. -/
theorem dead_letter_lost {before middle : Backend}
    (threw : TransactionProcessor.tryRoute services instruction before =
      (.error errorMessage, middle))
    (accepted : services.addFailure middle.adds = none) :
    ∃ job, TransactionProcessor.processInstruction services instruction before =
        (.ok (), { middle with jobs := middle.jobs ++ [job], adds := middle.adds + 1 }) ∧
      ∀ events, ¬Kept instruction errorMessage job events ∧
        process job events =
          (.error ((if instruction.signature = "" then ["signature"] else []) ++
            ["instructionIndex", "instructionName"]), events) := by
  refine ⟨TransactionProcessor.deadLetter instruction errorMessage, ?_, fun events => ⟨?_, ?_⟩⟩
  · simp only [TransactionProcessor.processInstruction, threw, TransactionProcessor.add, accepted]
  · rintro ⟨completed, -⟩
    rw [process_deadLetter] at completed
    cases completed
  · exact process_deadLetter instruction errorMessage events

/-- An instruction whose data is not base58. -/
def sampleInstruction : InstructionMessage where
  blockNumber := 8
  signature := "signature"
  instruction := ⟨"program", [], "0"⟩
  instructionIndex := 1
  innerInstructionIndex := .at 0
  isInner := true
  blockTime := 0

def sampleServices : Services where
  programId := "program"
  decodeBase58 _ := .error "Non-base58 character"
  getParsedTransaction _ := .ok none
  addFailure _ := none
  updateFailure := none

theorem dead_letter_lost_sample :
    ∃ job, TransactionProcessor.processInstruction sampleServices sampleInstruction
        ⟨.empty, [], [], 0⟩ = (.ok (), ⟨.empty, [job], [], 1⟩) ∧
      ∀ events, ¬Kept sampleInstruction "Non-base58 character" job events ∧
        process job events = (.error ["instructionIndex", "instructionName"], events) :=
  @dead_letter_lost sampleServices sampleInstruction "Non-base58 character" ⟨.empty, [], [], 0⟩
    ⟨.empty, [], [], 0⟩ rfl rfl

/-- The only dead letter of the sample is not in the collection afterwards. -/
theorem dead_letter_not_kept :
    ¬Kept sampleInstruction "Non-base58 character"
        (TransactionProcessor.deadLetter sampleInstruction "Non-base58 character") .empty ∧
      (process (TransactionProcessor.deadLetter sampleInstruction "Non-base58 character")
        .empty).2.rows = [] := by
  rw [Kept, process_deadLetter]
  refine ⟨fun kept => ?_, rfl⟩
  cases kept.1

end DlqProcessor

end DlmmIndexer

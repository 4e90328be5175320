import DlmmIndexer.Scanner.Service
import DlmmIndexer.Transactions.Extraction
import DlmmIndexer.Transactions.Router

/-!
# The transaction processor

`TransactionProcessor` fetches a transaction, extracts the instructions of the program and
adds each to the queue of its processor.  An instruction that cannot be routed goes to the
queue of dead letters; when that fails too, so does the job, and the transaction is not
marked.

The outside world is a parameter: what base58 decodes to, what the RPC node answers, and
which calls fail.  Errors are their messages.
-/

namespace DlmmIndexer

open Documents

/-- A job of a queue.  A dead letter carries the message of its error. -/
structure QueuedJob where
  queueName : QueueName
  jobType : JobType
  instruction : InstructionMessage
  errorMessage : Option String
  deriving DecidableEq, Repr

/-- What the processor has written, and what it has asked for. -/
structure Backend where
  events : TransactionEvents
  jobs : List QueuedJob
  /-- The signatures that the RPC node was asked about. -/
  requested : List String
  /-- The number of calls of `add`, failed ones included. -/
  adds : ℕ

/-- The outside calls. -/
structure Services where
  programId : String
  decodeBase58 : String → Except String Bytes
  getParsedTransaction : String → Except String (Option ParsedTransaction)
  /-- The error of a call of `add`, by its number. -/
  addFailure : ℕ → Option String
  /-- The error of the final update. -/
  updateFailure : Option String

/-- The data of a job as the scanner queues it. -/
structure TransactionJob where
  signature : String
  blockNumber : ℕ
  deriving DecidableEq, Repr

/-- The job that `queueTransactionForProcessing` adds for a row.  The block time is left
out. -/
def TransactionEvent.transactionJob (transaction : TransactionEvent) : TransactionJob where
  signature := transaction.signature
  blockNumber := transaction.blockNumber

/-- How a job ends that completes. -/
inductive Ending where
  | notFound
  | noInstructions
  | marked
  deriving DecidableEq, Repr

namespace TransactionProcessor

variable (services : Services)

/-- `queue.add`; a failing call stores nothing. -/
def add (job : QueuedJob) (backend : Backend) : Except String Unit × Backend :=
  match services.addFailure backend.adds with
  | some message => (.error message, { backend with adds := backend.adds + 1 })
  | none => (.ok (), { backend with jobs := backend.jobs ++ [job], adds := backend.adds + 1 })

def routeToQueue (route : Route) (instruction : InstructionMessage) (backend : Backend) :
    Except String Unit × Backend :=
  match targetQueue route.queueName with
  | none => (.ok (), backend)
  | some queue => add services ⟨queue, route.jobType, instruction, none⟩ backend

/-- The dead letter of an instruction. -/
def deadLetter (instruction : InstructionMessage) (errorMessage : String) : QueuedJob :=
  ⟨.dlqProcessor, .processDlq, instruction, some errorMessage⟩

/-- The `try` block of `processInstruction`. -/
def tryRoute (instruction : InstructionMessage) (backend : Backend) :
    Except String Unit × Backend :=
  match pickRoute instruction.isInner (services.decodeBase58 instruction.instruction.data) with
  | .error message => (.error message, backend)
  | .ok none => (.ok (), backend)
  | .ok (some route) => routeToQueue services route instruction backend

def processInstruction (instruction : InstructionMessage) (backend : Backend) :
    Except String Unit × Backend :=
  match tryRoute services instruction backend with
  | (.ok (), after) => (.ok (), after)
  | (.error message, after) => add services (deadLetter instruction message) after

/-- The loop over the extracted instructions. -/
def processInstructions : List InstructionMessage → Backend → Except String Unit × Backend
  | [], backend => (.ok (), backend)
  | instruction :: rest, backend =>
      match processInstruction services instruction backend with
      | (.ok (), after) => processInstructions rest after
      | (.error message, after) => (.error message, after)

/-- The signature that `process` works on: that of its job is commented out. -/
def signature : String :=
  "54LML8qXjJXq4JRbTiGgyJ76NVURWGhZGA9Xnjgo2ucdDtNfY98rXeUPDCyfpjW7FXpv8nAR9XkirTCKjhkxG5ba"

/-- `updateOne({ signature }, { processed: true })` -/
def markProcessed (events : TransactionEvents) : TransactionEvents :=
  events.updateOne (fun event => event.signature = signature) fun event =>
    { event with processed := true }

def process (_job : TransactionJob) (backend : Backend) : Except String Ending × Backend :=
  let asked := { backend with requested := backend.requested ++ [signature] }
  match services.getParsedTransaction signature with
  | .error message => (.error message, asked)
  | .ok none => (.ok .notFound, asked)
  | .ok (some transaction) =>
      match transaction.extractLiquidityBookInstructions services.programId with
      | [] => (.ok .noInstructions, asked)
      | first :: rest =>
          match processInstructions services (first :: rest) asked with
          | (.error message, after) => (.error message, after)
          | (.ok (), after) =>
              match services.updateFailure with
              | some message => (.error message, after)
              | none => (.ok .marked, { after with events := markProcessed after.events })

end TransactionProcessor

end DlmmIndexer

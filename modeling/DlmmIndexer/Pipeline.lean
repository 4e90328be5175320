import DlmmIndexer.Duplicates
import DlmmIndexer.InstructionRow
import DlmmIndexer.Scanner.Overlap
import DlmmIndexer.Traces
import DlmmIndexer.Transactions.Decoding
import DlmmIndexer.Transactions.ExactlyOnce
import DlmmIndexer.Transactions.Settlement

/-!
# The pipeline

The scanner, the transaction processor and the workers as one system.  The scanner stores
rows for the transactions of the chain and queues a job for each.  The transaction
processor, given such a job, adds jobs for the instructions of a transaction to the queues
of their processors and marks a row.  The workers run the jobs of these queues.  All of it
overlaps, anything may fail, and every job may be taken any number of times.

The stages know of each other only through the collection of rows and the queues, so a run
of the pipeline is a run of the scanner and a run of the workers (`scanner_reaches`,
`workers_reaches`).  What joins the stages is `Linked`.
-/

namespace DlmmIndexer

open Documents Atomic Scanner

/-! ## What is sent -/

namespace World

variable (world : World)

/-- The message is about an instruction of the transaction that the processor fetches. -/
def Extracted (instruction : InstructionMessage) : Prop :=
  ∃ transaction, world.held TransactionProcessor.signature = some transaction ∧
    instruction ∈ transaction.extractLiquidityBookInstructions world.programId

/-- The jobs that the transaction processor may add. -/
inductive Sent : QueuedJob → Prop where
  | routed {instruction : InstructionMessage} {route : Route}
      (extracted : world.Extracted instruction)
      (picked : TransactionProcessor.pickRoute instruction.isInner
        (world.decodeBase58 instruction.instruction.data) = .ok (some route)) :
      Sent ⟨route.queueName, route.jobType, instruction, none⟩
  | dead {instruction : InstructionMessage} (extracted : world.Extracted instruction)
      (errorMessage : String) : Sent (TransactionProcessor.deadLetter instruction errorMessage)

/-- What the RPC node knows at some moment; it does not change its answers. -/
structure Knows (known : World) : Prop where
  programId : known.programId = world.programId
  decodeBase58 : known.decodeBase58 = world.decodeBase58
  held : ∀ requested transaction, known.held requested = some transaction →
    world.held requested = some transaction

end World

/-! ## The system -/

structure Pipeline where
  scanner : EventLoop.Loop ScannerService Task
  queued : List QueuedJob
  workers : Workers

namespace Pipeline

/-- Nothing is queued yet. -/
def started (service : ScannerService) (store : Store) : Pipeline :=
  ⟨.idle service, [], .initial store⟩

/-- What the transaction processor finds. -/
def backend (pipeline : Pipeline) : Backend :=
  ⟨pipeline.scanner.state.outside.events, pipeline.queued, [], 0⟩

/-- What it leaves behind. -/
def settled (pipeline : Pipeline) (after : Backend) : Pipeline :=
  let service := pipeline.scanner.state
  { pipeline with
    scanner := ⟨{ service with outside := { service.outside with events := after.events } },
      pipeline.scanner.awaiting⟩
    queued := after.jobs }

/-- The scanner has a turn, the chain grows, a job of the scanner is taken by the
transaction processor, a job of an instruction by its worker, or an attempt at one goes on.
An attempt of the transaction processor may end at any of its calls; as it only adds jobs
and sets a mark at its end, it is one step.  Every attempt of a worker has the answers of the RPC
to itself. -/
inductive Step (world : World) (decoding : Decoding) : Pipeline → Pipeline → Prop where
  | scan {scanner scanner' : EventLoop.Loop ScannerService Task} {queue : List QueuedJob}
      {workers : Workers} (turned : EventLoop.Step (ServiceTurn anyReply) scanner scanner') :
      Step world decoding ⟨scanner, queue, workers⟩ ⟨scanner', queue, workers⟩
  | grow {service : ScannerService} {awaiting : List Task} {queue : List QueuedJob}
      {workers : Workers} {later : History} (extended : service.outside.history.Extends later) :
      Step world decoding ⟨⟨service, awaiting⟩, queue, workers⟩
        ⟨⟨{ service with outside := { service.outside with history := later } }, awaiting⟩,
          queue, workers⟩
  | transact {pipeline : Pipeline} {known : World} (knows : world.Knows known)
      (failures : Failures) {job : TransactionJob}
      (listed : job ∈ pipeline.scanner.state.outside.jobs) :
      Step world decoding pipeline
        (pipeline.settled (TransactionProcessor.process (known.services failures) job
          pipeline.backend).2)
  | deliver {scanner : EventLoop.Loop ScannerService Task} {queue : List QueuedJob}
      {store : Store} {attempts : List Attempt} {queued : QueuedJob} (listed : queued ∈ queue)
      (alive : queued.queueName ≠ .dlqProcessor) (rpc : Rpc) :
      Step world decoding ⟨scanner, queue, ⟨store, attempts⟩⟩
        ⟨scanner, queue,
          ⟨store, attempts ++ [.launch Launch.process ⟨world.job decoding queued, rpc⟩]⟩⟩
  | work {scanner : EventLoop.Loop ScannerService Task} {queue : List QueuedJob}
      {store store' : Store} {before after : List Attempt} {attempt attempt' : Attempt}
      (moves : Moves mongo store attempt store' attempt') :
      Step world decoding ⟨scanner, queue, ⟨store, before ++ attempt :: after⟩⟩
        ⟨scanner, queue, ⟨store', before ++ attempt' :: after⟩⟩

abbrev Reaches (world : World) (decoding : Decoding) : Pipeline → Pipeline → Prop :=
  Relation.ReflTransGen (Step world decoding)

end Pipeline

/-! ## What an attempt of the transaction processor adds -/

namespace TransactionProcessor

variable {services : Services} {queued : QueuedJob} {before : Backend}

theorem handled_of_processInstruction {instruction : InstructionMessage}
    (listed : queued ∈ (processInstruction services instruction before).2.jobs) :
    queued ∈ before.jobs ∨ ∃ jobs, Handled services instruction jobs ∧ queued ∈ jobs := by
  simp only [processInstruction] at listed
  split at listed
  next middle tried =>
    rcases jobs_tryRoute tried with ⟨-, jobs, handled, added⟩ | ⟨_, threw, -⟩
    · rw [added] at listed
      exact (List.mem_append.mp listed).imp_right fun new => ⟨jobs, handled, new⟩
    · cases threw
  next message middle tried =>
    rcases jobs_tryRoute tried with ⟨done, -⟩ | ⟨_, threw, dead, kept⟩
    · cases done
    · cases threw
      rcases jobs_add (Prod.eta _).symm with ⟨-, added⟩ | ⟨_, -, same⟩
      · rw [added, kept] at listed
        exact (List.mem_append.mp listed).imp_right fun new => ⟨_, dead, new⟩
      · rw [same, kept] at listed
        exact .inl listed

theorem handled_of_processInstructions {instructions : List InstructionMessage}
    (listed : queued ∈ (processInstructions services instructions before).2.jobs) :
    queued ∈ before.jobs ∨
      ∃ instruction ∈ instructions, ∃ jobs, Handled services instruction jobs ∧ queued ∈ jobs := by
  induction instructions generalizing before with
  | nil => exact .inl listed
  | cons instruction rest ih =>
      have first (listed : queued ∈ (processInstruction services instruction before).2.jobs) :
          queued ∈ before.jobs ∨ ∃ other ∈ instruction :: rest,
            ∃ jobs, Handled services other jobs ∧ queued ∈ jobs :=
        (handled_of_processInstruction listed).imp_right fun handled =>
          ⟨instruction, List.mem_cons_self, handled⟩
      rw [processInstructions] at listed
      split at listed
      next middle done =>
        rw [done] at first
        rcases ih listed with old | ⟨other, member, handled⟩
        · exact first old
        · exact .inr ⟨other, List.mem_cons_of_mem _ member, handled⟩
      next message middle threw =>
        rw [threw] at first
        exact first listed

/-- Every job that an attempt adds is due to an instruction that it has extracted. -/
theorem handled_of_process {job : TransactionJob}
    (listed : queued ∈ (process services job before).2.jobs) :
    queued ∈ before.jobs ∨ ∃ transaction,
      services.getParsedTransaction signature = .ok (some transaction) ∧
        ∃ instruction ∈ transaction.extractLiquidityBookInstructions services.programId,
          ∃ jobs, Handled services instruction jobs ∧ queued ∈ jobs := by
  simp only [process] at listed
  split at listed
  · exact .inl listed
  · exact .inl listed
  next transaction answered =>
  split at listed
  · exact .inl listed
  next first rest extracted =>
  have looped : queued ∈ (processInstructions services (first :: rest) (asked before)).2.jobs := by
    rw [asked]
    split at listed
    next outcome => rwa [outcome]
    next outcome =>
      rw [outcome]
      split at listed <;> exact listed
  rw [← extracted] at looped
  exact (handled_of_processInstructions looped).imp_right fun handled =>
    ⟨transaction, answered, handled⟩

/-- A row is marked at the end of an attempt only. -/
theorem events_of_process (services : Services) (job : TransactionJob) (before : Backend) :
    (process services job before).2.events = before.events ∨
      (process services job before).1 = .ok .marked ∧
        (process services job before).2.events = markProcessed before.events := by
  have tried := attempt services job before
  revert tried
  rcases process services job before with ⟨outcome, after⟩
  intro tried
  cases tried with
  | unanswered | notFound | noInstructions => exact .inl rfl
  | failed _ _ adds => exact .inl adds.events
  | marked _ _ adds => exact .inr ⟨rfl, congrArg markProcessed adds.events⟩

end TransactionProcessor

/-! ## The stages by themselves -/

section Stages

variable {world : World} {decoding : Decoding}
variable {start pipeline : Pipeline}

/-- A turn of a call of the scanner sets no processed mark. -/
theorem Effect.processed {admits : Await → Reply → Prop} {outside outside' : Outside}
    {awaits : Await} {after : Option Await}
    (effect : Effect admits outside (some awaits) outside' after)
    {row : Stored TransactionEvent} (member : row ∈ outside'.events.rows)
    (processed : row.document.processed = true) :
    ∃ old ∈ outside.events.rows, old.document.processed = true ∧ SameJob old row := by
  have same (member : row ∈ outside.events.rows) : ∃ old ∈ outside.events.rows,
      old.document.processed = true ∧ SameJob old row := ⟨row, member, processed, rfl, rfl⟩
  have inserted {insertion : Insertion} {page : List ConfirmedSignatureInfo}
      (member : row ∈ (insertBatchTransactionEvent insertion page outside.events).rows) :
      ∃ old ∈ outside.events.rows, old.document.processed = true ∧ SameJob old row := by
    obtain ⟨fresh, rows, pending⟩ := rows_runScans [⟨insertion, page⟩] outside.events
    rcases List.mem_append.mp (rows ▸ member : row ∈ outside.events.rows ++ fresh) with old | new
    · exact same old
    · have unmarked := pending row new
      rw [TransactionEvent.pending, processed] at unmarked
      cases unmarked
  have assigned {ids : List ℕ}
      (member : row ∈ (outside.events.updateMany ids TransactionEvent.setQueued).rows) :
      ∃ old ∈ outside.events.rows, old.document.processed = true ∧ SameJob old row := by
    obtain ⟨old, stored, rfl⟩ := List.mem_map.mp member
    refine ⟨old, stored, ?_, (Unindexed.assignAmong_id _ _ _).symm, ?_⟩
    · rw [Unindexed.assignAmong] at processed
      split at processed <;> exact processed
    · rw [Unindexed.assignAmong]
      split <;> rfl
  cases effect with
  | quiet | fetchNewer | fetchOlder | batch | added | addFailed => exact same member
  | insertNewer | insertOlder => exact inserted member
  | marked | markFailed => exact assigned member

/-- A method up to its first `await` sets flags only. -/
theorem ScannerService.call_outside (service : ScannerService) (method : Method) :
    (service.call method).1.outside = service.outside := by
  cases method with
  | initializeScanner | scanForwards => rfl
  | processUnprocessedTransactions =>
      simp only [call, processUnprocessedTransactions]
      split
      · rw [finish_fst]
      · split
        · rw [finish_fst]
        · rfl
  | startScanning =>
      simp only [call, startScanning]
      split
      · rw [finish_fst]
      · rfl
  | runScanner enableScanner =>
      simp only [call, runScanner, startScanning]
      split
      · rfl
      · split
        · rfl
        · split
          · rw [finish_fst]
          · rfl

theorem ServiceTurn.processed {admits : Await → Reply → Prop} {service service' : ScannerService}
    {task task' : Option Task} (turned : ServiceTurn admits service task service' task')
    {row : Stored TransactionEvent} (member : row ∈ service'.outside.events.rows)
    (processed : row.document.processed = true) :
    ∃ old ∈ service.outside.events.rows, old.document.processed = true ∧ SameJob old row := by
  have effect := (ScannerTurn.own turned).effect
  cases turned with
  | call method =>
      rw [ScannerService.call_outside] at member
      exact ⟨row, member, processed, rfl, rfl⟩
  | resume => exact effect.processed member processed

namespace Pipeline

theorem scanner_settled (pipeline : Pipeline) {after : Backend}
    (attempted : after.events = pipeline.backend.events ∨
      after.events = TransactionProcessor.markProcessed pipeline.backend.events) :
    EventLoop.Reaches (ScannerTurn anyReply) pipeline.scanner
      (pipeline.settled after).scanner := by
  rcases pipeline with ⟨⟨service, awaiting⟩, queue, workers⟩
  rcases after with ⟨events, jobs, requested, adds⟩
  rcases attempted with rfl | rfl
  · exact .refl
  · exact .single (.turn [] awaiting (@ScannerTurn.process anyReply service
      TransactionProcessor.signature))

/-- The scanner of a pipeline runs as if alone, its rows being marked by others. -/
theorem scanner_reaches (reaches : Reaches world decoding start pipeline) :
    EventLoop.Reaches (ScannerTurn anyReply) start.scanner pipeline.scanner := by
  induction reaches with
  | refl => exact .refl
  | tail _ step ih =>
      cases step with
      | scan turned =>
          cases turned with
          | turn before after turned => exact .tail ih (.turn before after (.own turned))
      | @grow service awaiting queue workers later extended =>
          exact .tail ih (.turn [] awaiting (@ScannerTurn.grow anyReply service later extended))
      | transact =>
          exact ih.trans (scanner_settled _
            ((TransactionProcessor.events_of_process ..).imp_right And.right))
      | deliver | work => exact ih

/-- The workers of a pipeline run as if alone. -/
theorem workers_reaches (reaches : Reaches world decoding start pipeline) :
    Atomic.Reaches mongo Launch.process Unguarded start.workers pipeline.workers := by
  induction reaches with
  | refl => exact .refl
  | tail _ step ih =>
      cases step with
      | scan | grow | transact => exact ih
      | deliver => exact .tail ih (.launch _)
      | work moves => exact .tail ih (.move moves trivial)

end Pipeline

end Stages

/-! ## A swap from the chain to its row -/

namespace Pipeline

/-- The RPC node knows one transaction, a call of `swap`. -/
def sampleWorld : World where
  programId := "program"
  decodeBase58 data :=
    if data = "icSNZP7U1uh" then .ok SwapProcessor.instructionIdentifier
    else .error "Non-base58 character"
  held _ := some ⟨["signature"], 8, none, [.partiallyDecoded ⟨"program", [], "icSNZP7U1uh"⟩], none⟩

/-- Nothing follows the discriminator, so nothing can be decoded. -/
def sampleDecoding : Decoding where
  swap _ := none
  binSwapEvent _ := .error (.javascript .rangeError)
  createPosition _ := none
  positionCreationEvent _ := none
  increasePosition _ := none
  decreasePosition _ := none
  closePosition _ := none
  compositionFees _ := .error (.javascript .rangeError)
  initializePair _ := none
  initializeBinStepConfig _ := none
  initializeBinArray _ := none
  updatePairStaticFeeParameters _ := none
  quoteAssetBadgeInitialization _ := .error (.javascript .rangeError)
  quoteAssetBadgeUpdate _ := .error (.javascript .rangeError)

/-- The chain is this transaction, and its row is stored. -/
def sampleHistory : History where
  transactions := [⟨TransactionProcessor.signature, 8, false⟩]
  distinct := List.nodup_singleton _
  ordered := List.pairwise_singleton _ _

def sampleScanner : ScannerService :=
  .started sampleHistory (allEvents sampleHistory) ⟨true, false, true, false⟩

def sampleMessage : InstructionMessage :=
  ⟨⟨8, "signature", 0, false, .undefined⟩, ⟨"program", [], "icSNZP7U1uh"⟩, 0⟩

def sampleQueued : QueuedJob := ⟨.swapProcessor, .processSwap, sampleMessage, none⟩

/-- Whatever the job, the call of `swap` is sent and the first row is marked. -/
theorem process_sample (job : TransactionJob) (events : TransactionEvents) :
    (TransactionProcessor.process (sampleWorld.services .none) job ⟨events, [], [], 0⟩).2 =
      ⟨TransactionProcessor.markProcessed events, [sampleQueued],
        [TransactionProcessor.signature], 1⟩ := rfl

theorem marked_sample : ∃ row ∈ (TransactionProcessor.markProcessed
    (allEvents sampleHistory)).rows, row.document.processed = true := by
  decide +kernel

/-- The scanner queues its row. -/
theorem served_sample : ∃ scanner : EventLoop.Loop ScannerService Task,
    Reaches sampleWorld sampleDecoding (.started sampleScanner .empty)
        ⟨scanner, [], .initial .empty⟩ ∧
      scanner.state.outside.events = allEvents sampleHistory ∧
      ∃ job, job ∈ scanner.state.outside.jobs := by
  let rows := unprocessedTransactions sampleScanner.outside.events
  let draining := (sampleScanner.call .processUnprocessedTransactions).1
  let served : EventLoop.Loop ScannerService Task :=
    ⟨{ draining with outside := draining.outside.addBulk rows },
      [⟨.nobody, .updateMany rows⟩]⟩
  have called : EventLoop.Step (ServiceTurn anyReply) (.idle sampleScanner)
      ⟨draining, [⟨.nobody, .unprocessed⟩]⟩ :=
    .turn [] [] (@ServiceTurn.call anyReply sampleScanner .processUnprocessedTransactions)
  have fetched : EventLoop.Step (ServiceTurn anyReply) ⟨draining, [⟨.nobody, .unprocessed⟩]⟩
      ⟨draining, [⟨.nobody, .addBulk rows⟩]⟩ :=
    .turn [] [] (@ServiceTurn.resume anyReply draining ⟨.nobody, .unprocessed⟩ .done trivial)
  have added : EventLoop.Step (ServiceTurn anyReply) ⟨draining, [⟨.nobody, .addBulk rows⟩]⟩
      served :=
    .turn [] [] (@ServiceTurn.resume anyReply draining ⟨.nobody, .addBulk rows⟩ .done trivial)
  exact ⟨served, .tail (.tail (.single (.scan called)) (.scan fetched)) (.scan added), rfl,
    List.exists_mem_of_length_pos (by decide)⟩

/-- The worker looks the swap up and inserts its row. -/
theorem worked_sample (scanner : EventLoop.Loop ScannerService Task) (queue : List QueuedJob) :
    ∃ (store : Store) (attempt : Attempt),
      Reaches sampleWorld sampleDecoding
        ⟨scanner, queue, ⟨.empty,
          [.launch Launch.process (sampleWorld.job sampleDecoding sampleQueued).silent]⟩⟩
        ⟨scanner, queue, ⟨store, [attempt]⟩⟩ ∧
      attempt.Finished ∧ attempt.job.toJob = sampleWorld.job sampleDecoding sampleQueued := by
  let swap := (sampleWorld.job sampleDecoding sampleQueued).silent
  let params := sampleMessage.params .SwapProcessor
  let work (_instruction : Instruction) : Action Unit := Swap.insertSwapEvent swap.message none
  have launched : (.launch Launch.process swap : Attempt) =
      ⟨swap, .op (.exists .instruction (generateInstructionId params)) fun found =>
        if found then .pure () else afterLookup params work, []⟩ :=
    congrArg (fun program : Action Unit => (⟨swap, program, []⟩ : Attempt))
      (unlessProcessed_eq params work)
  have looked : Moves mongo .empty (.launch Launch.process swap) .empty
      ⟨swap, afterLookup params work,
        [⟨.exists .instruction (generateInstructionId params), false⟩]⟩ := by
    have missing : mongo.apply (Op.exists .instruction (generateInstructionId params)) .empty =
        (.ok false, Store.empty) := rfl
    rw [launched]
    exact .perform missing
  obtain ⟨rows, created⟩ : ∃ rows,
      (Store.empty .instruction).create (instructionData params) = some rows := ⟨_, rfl⟩
  have stored : mongo.Completes (create .instruction (instructionData params)) .empty ()
      (Store.empty.put .instruction rows) := completes_create.mpr ⟨rows, created, rfl, rfl⟩
  have inserted : Moves mongo .empty ⟨swap, afterLookup params work,
        [⟨.exists .instruction (generateInstructionId params), false⟩]⟩
      (Store.empty.put .instruction rows) ⟨swap, .pure (),
        [⟨.exists .instruction (generateInstructionId params), false⟩,
          ⟨.create .instruction (instructionData params), ()⟩]⟩ :=
    .perform (Database.completes_perform.mp stored)
  exact ⟨_, _, .tail (.single (@Step.work _ _ _ _ _ _ [] [] _ _ looked))
    (@Step.work _ _ _ _ _ _ [] [] _ _ inserted), rfl, rfl⟩

/-- The transaction processor takes the job of the row, sends the swap and marks the row, and
the worker completes the job of the swap. -/
theorem sample_reaches : ∃ pipeline : Pipeline,
    Reaches sampleWorld sampleDecoding (.started sampleScanner .empty) pipeline ∧
      pipeline.queued = [sampleQueued] ∧
      (∃ row ∈ pipeline.scanner.state.outside.events.rows, row.document.processed = true) ∧
      ∃ attempt ∈ pipeline.workers.processes, attempt.Finished ∧
        attempt.job.toJob = sampleWorld.job sampleDecoding sampleQueued := by
  obtain ⟨scanner, scanned, events, job, listed⟩ := served_sample
  let pipeline : Pipeline := ⟨scanner, [], .initial .empty⟩
  let after := (TransactionProcessor.process (sampleWorld.services .none) job
    pipeline.backend).2
  have processed : after = ⟨TransactionProcessor.markProcessed (allEvents sampleHistory),
      [sampleQueued], [TransactionProcessor.signature], 1⟩ := by
    rw [← events]
    exact process_sample job _
  have queue : (pipeline.settled after).queued = [sampleQueued] := by
    change after.jobs = [sampleQueued]
    rw [processed]
  have sent : sampleQueued ∈ (pipeline.settled after).queued :=
    queue ▸ List.mem_singleton_self _
  have marked : ∃ row ∈ (pipeline.settled after).scanner.state.outside.events.rows,
      row.document.processed = true := by
    change ∃ row ∈ after.events.rows, row.document.processed = true
    rw [processed]
    exact marked_sample
  have transacted : Step sampleWorld sampleDecoding pipeline (pipeline.settled after) :=
    .transact ⟨rfl, rfl, fun _ _ held => held⟩ .none listed
  have delivered : Step sampleWorld sampleDecoding (pipeline.settled after)
      { pipeline.settled after with workers := ⟨.empty,
        [.launch Launch.process (sampleWorld.job sampleDecoding sampleQueued).silent]⟩ } :=
    .deliver sent (by decide) silentRpc
  obtain ⟨store, attempt, worked, finished, same⟩ := worked_sample
    (pipeline.settled after).scanner (pipeline.settled after).queued
  exact ⟨_, ((scanned.tail transacted).tail delivered).trans worked, queue, marked, attempt,
    List.mem_singleton_self _, finished, same⟩

end Pipeline

/-! ## How the stages are linked -/

/-- The row is one of the job that the router and the processor of the queue have made of
the instruction. -/
def World.Explains (world : World) (decoding : Decoding)
    (instruction : InstructionMessage) (coll : Coll) (row : coll.Row) : Prop :=
  ∃ dataBuffer route target,
    world.decodeBase58 instruction.instruction.data = .ok dataBuffer ∧
    TransactionProcessor.pickRoute instruction.isInner (.ok dataBuffer) = .ok (some route) ∧
    Dispatch.Reaches route.queueName dataBuffer target ∧
    (world.payload decoding route.queueName instruction.instruction).MadeOf target ∧
    (world.job decoding ⟨route.queueName, route.jobType, instruction, none⟩).Accounts coll row

/-- The queues hold jobs of the transaction, attempts are at such jobs, and marks of rows
were there at the start or are on the signature that the processor works on. -/
structure Pipeline.Linked (world : World) (decoding : Decoding)
    (events : TransactionEvents) (pipeline : Pipeline) : Prop where
  queued : ∀ queued ∈ pipeline.queued, world.Sent queued
  taken : ∀ attempt ∈ pipeline.workers.processes, ∃ queued, world.Sent queued ∧
    queued.queueName ≠ .dlqProcessor ∧ attempt.job.toJob = world.job decoding queued
  processed : ∀ row ∈ pipeline.scanner.state.outside.events.rows, row.document.processed = true →
    (∃ old ∈ events.rows, old.document.processed = true ∧ SameJob old row) ∨
      row.document.signature = TransactionProcessor.signature

section Links

variable {world : World} {decoding : Decoding}
variable {events : TransactionEvents} {pipeline pipeline' : Pipeline}

/-- An attempt with what the RPC node knows so far sends jobs of the transaction. -/
theorem World.Knows.sent {known : World} (knows : world.Knows known) {failures : Failures}
    {job : TransactionJob} {before : Backend} {queued : QueuedJob}
    (listed : queued ∈ (TransactionProcessor.process (known.services failures) job before).2.jobs) :
    queued ∈ before.jobs ∨ world.Sent queued := by
  refine (TransactionProcessor.handled_of_process listed).imp_right ?_
  rintro ⟨transaction, answered, instruction, member, jobs, handled, listed⟩
  have held := knows.held _ _ (TransactionProcessor.held_of_answered answered)
  have extracted : world.Extracted instruction := by
    refine ⟨transaction, held, ?_⟩
    rw [← knows.programId]
    exact member
  cases handled with
  | routed picked =>
      rw [List.mem_singleton.mp listed]
      refine .routed extracted ?_
      rw [← knows.decodeBase58]
      exact picked
  | failed | undecodable =>
      rw [List.mem_singleton.mp listed]
      exact .dead extracted _
  | passed => cases listed

/-- A row that is marked after a step was marked before, or has the fixed signature and the
mark of an attempt that has come through. -/
theorem Pipeline.Step.marks (step : Step world decoding pipeline pipeline')
    {row : Stored TransactionEvent} (member : row ∈ pipeline'.scanner.state.outside.events.rows)
    (processed : row.document.processed = true) :
    (∃ old ∈ pipeline.scanner.state.outside.events.rows,
      old.document.processed = true ∧ SameJob old row) ∨
    row.document.signature = TransactionProcessor.signature ∧
      ∃ (known : World) (failures : Failures) (job : TransactionJob), world.Knows known ∧
        (TransactionProcessor.process (known.services failures) job pipeline.backend).1 =
          .ok .marked ∧
        pipeline'.queued =
          (TransactionProcessor.process (known.services failures) job pipeline.backend).2.jobs := by
  cases step with
  | scan turned =>
      cases turned with
      | turn before after turned => exact .inl (turned.processed member processed)
  | grow | deliver | work => exact .inl ⟨row, member, processed, rfl, rfl⟩
  | @transact _ known knows failures job listed =>
      have member : row ∈ (TransactionProcessor.process (known.services failures) job
        pipeline.backend).2.events.rows := member
      rcases TransactionProcessor.events_of_process (known.services failures) job
        pipeline.backend with same | ⟨through, same⟩
      · rw [same] at member
        exact .inl ⟨row, member, processed, rfl, rfl⟩
      · rw [same] at member
        rcases Unindexed.mem_assignFirst member with old | ⟨source, -, own, rfl⟩
        · exact .inl ⟨row, old, processed, rfl, rfl⟩
        · exact .inr ⟨of_decide_eq_true own, known, failures, job, knows, through, rfl⟩

namespace Pipeline.Linked

theorem started (service : ScannerService) (store : Store) :
    Linked world decoding service.outside.events (.started service store) where
  queued _ member := absurd member List.not_mem_nil
  taken _ member := absurd member List.not_mem_nil
  processed row member processed := .inl ⟨row, member, processed, rfl, rfl⟩

/-- Every step keeps the links. -/
theorem step (linked : Linked world decoding events pipeline)
    (step : Step world decoding pipeline pipeline') :
    Linked world decoding events pipeline' := by
  obtain ⟨queued, taken, processed⟩ := linked
  have marks (row : Stored TransactionEvent)
      (member : row ∈ pipeline'.scanner.state.outside.events.rows)
      (marked : row.document.processed = true) :
      (∃ old ∈ events.rows, old.document.processed = true ∧ SameJob old row) ∨
        row.document.signature = TransactionProcessor.signature := by
    rcases step.marks member marked with ⟨old, stored, markedOld, same⟩ | ⟨own, -⟩
    · rcases processed old stored markedOld with ⟨first, listed, markedFirst, sameFirst⟩ | own
      · exact .inl ⟨first, listed, markedFirst, sameFirst.trans same⟩
      · exact .inr ((congrArg TransactionJob.signature same.2).symm.trans own)
    · exact .inr own
  cases step with
  | scan | grow => exact ⟨queued, taken, marks⟩
  | transact knows failures listed =>
      exact ⟨fun job added => (knows.sent added).elim (queued job) id, taken, marks⟩
  | @deliver scanner queue store attempts job listed alive =>
      exact ⟨queued, List.forall_mem_append.mpr ⟨taken, List.forall_mem_singleton.mpr
        ⟨job, queued job listed, alive, rfl⟩⟩, marks⟩
  | work moves =>
      obtain ⟨earlier, rest⟩ := List.forall_mem_append.mp taken
      obtain ⟨here, later⟩ := List.forall_mem_cons.mp rest
      rw [← moves.job_eq] at here
      exact ⟨queued, List.forall_mem_append.mpr ⟨earlier, List.forall_mem_cons.mpr ⟨here, later⟩⟩,
        marks⟩

theorem of_reaches {service : ScannerService} {store : Store}
    (reaches : Reaches world decoding (.started service store) pipeline) :
    Linked world decoding service.outside.events pipeline := by
  induction reaches with
  | refl => exact started service store
  | tail _ step ih => exact ih.step step

end Pipeline.Linked

/-- A job with rows comes from the processor of a queue. -/
theorem Job.Accounts.queueName {job : Job} {coll : Coll} {row : coll.Row}
    (accounts : job.Accounts coll row) : ∃ queueName, job.payload.queueName? = some queueName := by
  obtain ⟨inside, -⟩ := accounts
  rcases job with ⟨message, payload⟩
  cases payload with
  | rejected | ignored =>
      cases coll <;> exact absurd inside (by rintro ⟨⟩)
  | _ => exact ⟨_, rfl⟩

/-- The rows of a job that was sent are explained by its instruction. -/
theorem World.Sent.explains {queued : QueuedJob} (sent : world.Sent queued)
    (alive : queued.queueName ≠ .dlqProcessor) {coll : Coll} {row : coll.Row}
    (accounts : (world.job decoding queued).Accounts coll row) :
    world.Extracted queued.instruction ∧ world.Explains decoding queued.instruction coll row := by
  cases sent with
  | dead => exact absurd rfl alive
  | @routed instruction route extracted picked =>
      obtain ⟨queueName, made⟩ := accounts.queueName
      obtain ⟨-, dataBuffer, target, decoded, reached, madeOf⟩ := World.payload_reached made
      rw [decoded] at picked
      exact ⟨extracted, dataBuffer, route, target, decoded, picked, reached, madeOf, accounts⟩

/-- However the scanner, the transaction processor and the workers overlap and fail, and
whatever jobs are taken several times: stored rows belong to the chain and queued
transactions to stored rows; every queued instruction is one of the transaction that the
processor fetches; every row of the other collections was there at the start, up to
assignments, or is explained by such an instruction, whose data the router and the
processor read alike; and rows are marked as processed on the one signature only. -/
theorem indexed_from_chain {history : History} {state : ScannerState} {store : Store}
    (chained : ∀ event ∈ events.documents, Chained history event)
    (reaches : Pipeline.Reaches world decoding
      (.started (.started history events state) store) pipeline) :
    Consistent events pipeline.scanner.state.outside ∧
      (∀ queued ∈ pipeline.queued, world.Extracted queued.instruction) ∧
      (∀ coll, ∀ row ∈ pipeline.workers.store coll,
        (∃ old ∈ store coll, coll.trace old = coll.trace row) ∨
          ∃ instruction, world.Extracted instruction ∧
            world.Explains decoding instruction coll row) ∧
      ∀ row ∈ pipeline.scanner.state.outside.events.rows, row.document.processed = true →
        (∃ old ∈ events.rows, old.document.processed = true ∧ SameJob old row) ∨
          row.document.signature = TransactionProcessor.signature := by
  have linked := Pipeline.Linked.of_reaches reaches
  refine ⟨consistent_of_reaches state chained (Pipeline.scanner_reaches reaches),
    fun queued member => ?_, fun coll row member => ?_, linked.processed⟩
  · cases linked.queued queued member with
    | routed extracted | dead extracted => exact extracted
  · refine (explained_of_reaches (Pipeline.workers_reaches reaches) coll row member).imp_right ?_
    rintro ⟨job, listed, accounts⟩
    obtain ⟨attempt, taken, rfl⟩ := List.mem_map.mp listed
    obtain ⟨queued, sent, alive, same⟩ := linked.taken attempt taken
    rw [same] at accounts
    exact ⟨queued.instruction, sent.explains alive accounts⟩

end Links

/-- The one row of the run is explained, and one attempt has come to its end. -/
theorem indexed_from_chain_swap : ∃ pipeline : Pipeline,
    (∀ coll, ∀ row ∈ pipeline.workers.store coll,
      (∃ old ∈ Store.empty coll, coll.trace old = coll.trace row) ∨
        ∃ instruction, Pipeline.sampleWorld.Extracted instruction ∧
          Pipeline.sampleWorld.Explains Pipeline.sampleDecoding instruction coll row) ∧
    ∃ attempt ∈ pipeline.workers.processes, attempt.Finished := by
  obtain ⟨pipeline, reaches, -, -, attempt, member, finished, -⟩ := Pipeline.sample_reaches
  exact ⟨pipeline, (indexed_from_chain (chained_allEvents _) reaches).2.2.1, attempt, member,
    finished⟩

/-! ## One attempt each -/

/-- The queue of a processor that deduplicates. -/
def ProcessorName.queueName : ProcessorName → QueueName
  | .CreatePositionProcessor => .createPositionProcessor
  | .ClosePositionProcessor => .closePositionProcessor
  | .IncreasePositionProcessor => .increasePositionProcessor
  | .DecreasePositionProcessor => .decreasePositionProcessor
  | .SwapProcessor => .swapProcessor
  | .QuoteAssetProcessor => .quoteAssetProcessor
  | .CompositionFeesProcessor => .compositionFeesProcessor
  | .UpdatePairStaticFeeParametersProcessor => .updatePairStaticFeeParametersProcessor

/-- The inner index of a message, from what an id shows of it.  Composition fees are only
in events, so there no number stands for zero. -/
def ProcessorName.innerIndex : ProcessorName → Option ℕ → InnerIndex
  | _, some index => .at index
  | .CompositionFeesProcessor, none => .at 0
  | _, none => .undefined

theorem Job.queueName_of_params {job : Job} {params : CheckAndInsertInstructionParams}
    (deduplicates : job.params = some params) :
    job.payload.queueName? = some params.processorName.queueName := by
  rcases job with ⟨message, payload⟩
  cases payload <;> cases deduplicates <;> rfl

/-- No instruction of the IDL goes to the processor of composition fees. -/
theorem TransactionProcessor.isInner_of_compositionFees {isInner : Bool} {dataBuffer : Bytes}
    {route : Route} (picked : pickRoute isInner (.ok dataBuffer) = .ok (some route))
    (fees : route.queueName = .compositionFeesProcessor) : isInner = true := by
  rcases pickRoute_eq_some.mp picked with ⟨inner, -⟩ | ⟨entry, matched, routed⟩
  · exact inner
  · have absent : InstructionNames.compositionFees ∉
        LiquidityBookIdl.instructions.rows.map IdlEntry.name := by decide +kernel
    have other : entry.name ≠ InstructionNames.compositionFees := fun same =>
      absent (same ▸ List.mem_map_of_mem matched.1)
    simp only [instructionRoute, if_neg other] at routed
    repeat' split at routed
    all_goals
      cases routed
      try cases fees

section Once

variable {world : World} {decoding : Decoding}
variable {queued queued' : QueuedJob} {params : CheckAndInsertInstructionParams}

/-- A message stands for an instruction of the transaction, or for one that was called. -/
theorem World.Extracted.inner {instruction : InstructionMessage}
    (extracted : world.Extracted instruction) :
    (instruction.isInner = false ∧ instruction.innerInstructionIndex = .undefined) ∨
      ∃ index, instruction.innerInstructionIndex = .at index := by
  obtain ⟨transaction, -, member⟩ := extracted
  rcases List.mem_append.mp member with top | inner
  · obtain ⟨i, decoded, -, -, rfl⟩ := ParsedTransaction.mem_pushAll.mp top
    exact .inl ⟨rfl, rfl⟩
  · obtain ⟨set, -, here⟩ := List.mem_flatMap.mp inner
    obtain ⟨j, decoded, -, -, rfl⟩ := ParsedTransaction.mem_pushAll.mp here
    exact .inr ⟨j, rfl⟩

/-- The queue and the place of a job that was sent can be told from its parameters. -/
theorem World.Sent.place (sent : world.Sent queued) (alive : queued.queueName ≠ .dlqProcessor)
    (deduplicates : (world.job decoding queued).params = some params) :
    queued.queueName = params.processorName.queueName ∧
      queued.instruction.key = (params.instructionIndex,
        params.processorName.innerIndex params.innerInstructionIndex.given) := by
  cases sent with
  | dead => exact absurd rfl alive
  | @routed instruction route extracted picked =>
  have made := Job.queueName_of_params deduplicates
  obtain ⟨sameQueue, dataBuffer, -, decoded, -⟩ := World.payload_reached made
  rw [decoded] at picked
  refine ⟨sameQueue.symm, ?_⟩
  rcases Job.params_eq deduplicates with ⟨other, same⟩ | ⟨fees, same⟩
  · have index : params.instructionIndex = instruction.instructionIndex := by
      rw [same]
      rfl
    have inner : params.innerInstructionIndex = instruction.innerInstructionIndex := by
      rw [same]
      rfl
    rw [index, inner]
    refine Prod.ext rfl ?_
    change instruction.innerInstructionIndex = _
    rcases extracted.inner with ⟨-, top⟩ | ⟨j, called⟩
    · rw [top]
      cases name : params.processorName <;> first | rfl | exact absurd name other
    · rw [called]
      cases params.processorName <;> rfl
  · have inner := TransactionProcessor.isInner_of_compositionFees picked
      (sameQueue.symm.trans (congrArg ProcessorName.queueName fees))
    rw [fees, same]
    refine Prod.ext rfl ?_
    change instruction.innerInstructionIndex = ProcessorName.innerIndex .CompositionFeesProcessor
      instruction.innerInstructionIndex.orNull.given
    rcases extracted.inner with ⟨top, -⟩ | ⟨j, called⟩
    · rw [top] at inner
      cases inner
    · rw [called]
      cases j <;> rfl

/-- Jobs of one id are the same job. -/
theorem World.Sent.job_eq (distinct : ∀ transaction,
      world.held TransactionProcessor.signature = some transaction → transaction.DistinctSets)
    (sent : world.Sent queued) (alive : queued.queueName ≠ .dlqProcessor)
    (sent' : world.Sent queued') (alive' : queued'.queueName ≠ .dlqProcessor)
    (same : (world.job decoding queued).instructionId = (world.job decoding queued').instructionId)
    (deduplicates : (world.job decoding queued).params = some params) :
    world.job decoding queued = world.job decoding queued' := by
  rw [Job.instructionId, deduplicates, Option.map_some] at same
  obtain ⟨params', deduplicates', same⟩ := Option.map_eq_some_iff.mp same.symm
  have components := components_of_generateInstructionId same
  simp only [CheckAndInsertInstructionParams.components, Prod.mk.injEq] at components
  obtain ⟨-, -, names, indexes, inners⟩ := components
  obtain ⟨queue, key⟩ := sent.place alive deduplicates
  obtain ⟨queue', key'⟩ := sent'.place alive' deduplicates'
  rw [names, indexes, inners, ← key] at key'
  rw [names, ← queue] at queue'
  obtain ⟨transaction, held, member⟩ : world.Extracted queued.instruction := by
    cases sent with
    | routed extracted | dead extracted => exact extracted
  obtain ⟨transaction', held', member'⟩ : world.Extracted queued'.instruction := by
    cases sent' with
    | routed extracted | dead extracted => exact extracted
  obtain rfl := Option.some.inj (held.symm.trans held')
  have messages := List.inj_on_of_nodup_map
    (ParsedTransaction.nodup_keys (distinct transaction held)) member' member key'
  rw [World.job, World.job, messages, queue']

/-- When an attempt at a deduplicated instruction has come to its end, and the id was not
stored at the start, one attempt at this very instruction has inserted it; every other
attempt with the id is at the same instruction and has written nothing.  So no instruction
is passed over on account of another, and none is worked on twice. -/
theorem one_attempt_each {service : ScannerService} {store : Store} {pipeline : Pipeline}
    (distinct : ∀ transaction,
      world.held TransactionProcessor.signature = some transaction → transaction.DistinctSets)
    (reaches : Pipeline.Reaches world decoding (.started service store) pipeline)
    {attempt : Attempt} (member : attempt ∈ pipeline.workers.processes)
    (finished : attempt.Finished) {id : String}
    (identified : attempt.job.instructionId = some id)
    (fresh : (store .instruction).holds id = false) :
    ∃ (before : List Attempt) (winner : Attempt) (after : List Attempt),
      pipeline.workers.processes = before ++ winner :: after ∧
      winner.job.toJob = attempt.job.toJob ∧ id ∈ winner.insertedIds ∧
      ∀ other ∈ before ++ after, other.job.instructionId = some id →
        other.job.toJob = attempt.job.toJob ∧ ¬other.Wrote := by
  have linked := Pipeline.Linked.of_reaches reaches
  have working := Pipeline.workers_reaches reaches
  have accounted := accounted_of_reaches working
  obtain ⟨params, deduplicates, named⟩ := Option.map_eq_some_iff.mp identified
  have ours : ∀ other ∈ pipeline.workers.processes, other.job.instructionId = some id →
      other.job.toJob = attempt.job.toJob := by
    intro other taken same
    obtain ⟨queued, sent, alive, job⟩ := linked.taken attempt member
    obtain ⟨queued', sent', alive', job'⟩ := linked.taken other taken
    rw [job] at identified deduplicates
    rw [job'] at same
    rw [job, job', sent.job_eq distinct alive sent' alive' (identified.trans same.symm)
      deduplicates]
  have held : (pipeline.workers.store .instruction).holds id = true := by
    have done := Launch.done_of_reaches working member finished
    rw [← named]
    exact done.2 .instruction _ (Job.marker_of_params deduplicates)
  obtain ⟨winner, launched, inserted⟩ := accounted.inserted_of_holds held fresh
  obtain ⟨before, after, split⟩ := List.append_of_mem launched
  have won := (accounted.staged winner launched).instructionId_of_inserted inserted
  refine ⟨before, winner, after, split, ours winner launched won, inserted,
    fun other among same => ?_⟩
  have taken : other ∈ pipeline.workers.processes := by
    rw [split]
    simp only [List.mem_append, List.mem_cons] at among ⊢
    tauto
  exact ⟨ours other taken same, (accounted.staged other taken).not_wrote same
    (accounted.alone split inserted other among)⟩

end Once

theorem one_attempt_each_swap : ∃ (pipeline : Pipeline) (before : List Attempt)
    (winner : Attempt) (after : List Attempt),
    pipeline.workers.processes = before ++ winner :: after ∧
      winner.job.toJob = Pipeline.sampleWorld.job Pipeline.sampleDecoding Pipeline.sampleQueued ∧
      winner.insertedIds ≠ [] := by
  obtain ⟨pipeline, reaches, -, -, attempt, member, finished, same⟩ := Pipeline.sample_reaches
  have distinct (transaction : ParsedTransaction)
      (held : Pipeline.sampleWorld.held TransactionProcessor.signature = some transaction) :
      transaction.DistinctSets := by
    cases held
    exact List.nodup_nil
  have identified : attempt.job.instructionId =
      some (generateInstructionId (Pipeline.sampleMessage.params .SwapProcessor)) := by
    rw [same]
    rfl
  obtain ⟨before, winner, after, split, ours, inserted, -⟩ :=
    one_attempt_each distinct reaches member finished identified rfl
  exact ⟨pipeline, before, winner, after, split, ours.trans same, List.ne_nil_of_mem inserted⟩

end DlmmIndexer

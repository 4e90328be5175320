import DlmmIndexer.Pipeline
import DlmmIndexer.Redelivery

/-!
# What a mark stands for

A row is marked as processed when the loop over the instructions of its transaction is
through.  The jobs of the instructions are in the queues then and stay there, and an attempt
that comes to its end leaves the marker of its job in the store.  So a marked row has lost
no instruction: each has no route, or is a dead letter, or has its job, and what was worked
on is recorded.
-/

namespace DlmmIndexer

open Documents Atomic Scanner

/-! ## An attempt that marks -/

namespace TransactionProcessor

variable {services : Services} {instruction : InstructionMessage}

/-- Only what base58 decodes to decides which jobs an instruction can leave behind. -/
theorem Handled.of_decodeBase58 {other : Services} {jobs : List QueuedJob}
    (same : services.decodeBase58 = other.decodeBase58)
    (handled : Handled services instruction jobs) : Handled other instruction jobs := by
  have routes : route? other instruction = route? services instruction := by
    rw [route?, route?, same]
  cases handled with
  | routed picked => exact .routed (routes.trans picked)
  | failed picked message => exact .failed (routes.trans picked) message
  | undecodable threw => exact .undecodable (routes.trans threw)
  | passed unknown => exact .passed (routes.trans unknown)

theorem Delivered.exists_handled {instructions : List InstructionMessage} {jobs : List QueuedJob}
    (delivered : Delivered services instructions jobs) (member : instruction ∈ instructions) :
    ∃ own, Handled services instruction own ∧ own ⊆ jobs := by
  induction delivered with
  | nil => cases member
  | cons handled _ ih =>
      rcases List.mem_cons.mp member with rfl | member
      · exact ⟨_, handled, List.subset_append_left _ _⟩
      · obtain ⟨own, handled, listed⟩ := ih member
        exact ⟨own, handled, List.subset_append_of_subset_right _ listed⟩

theorem Adds.jobs_subset {instructions : List InstructionMessage} {before after : Backend}
    (adds : Adds instructions before after) : before.jobs ⊆ after.jobs := by
  obtain ⟨jobs, added, -⟩ := adds.jobs
  rw [added]
  exact List.subset_append_left _ _

/-- No attempt takes a job back. -/
theorem jobs_subset_process (services : Services) (job : TransactionJob) (before : Backend) :
    before.jobs ⊆ (process services job before).2.jobs := by
  have tried := attempt services job before
  revert tried
  rcases process services job before with ⟨outcome, after⟩
  intro tried
  cases tried with
  | unanswered | notFound | noInstructions => exact List.Subset.refl _
  | failed _ _ adds | marked _ _ adds => exact adds.jobs_subset

theorem handled_of_marked {job : TransactionJob} {before : Backend}
    (marked : (process services job before).1 = .ok .marked) :
    ∃ transaction, services.getParsedTransaction signature = .ok (some transaction) ∧
      ∀ instruction ∈ transaction.extractLiquidityBookInstructions services.programId,
        ∃ own, Handled services instruction own ∧
          own ⊆ (process services job before).2.jobs := by
  obtain ⟨transaction, answered⟩ : ∃ transaction,
      services.getParsedTransaction signature = .ok (some transaction) := by
    have tried := attempt services job before
    rw [marked] at tried
    generalize (process services job before).2 = after at tried
    cases tried with
    | marked answered => exact ⟨_, answered⟩
  obtain ⟨jobs, delivered, added⟩ := of_marked answered (Prod.ext marked rfl)
  refine ⟨transaction, answered, fun instruction member => ?_⟩
  obtain ⟨own, handled, listed⟩ := delivered.exists_handled member
  refine ⟨own, handled, ?_⟩
  rw [added]
  exact List.subset_append_of_subset_right _ listed

end TransactionProcessor

/-! ## The invariant -/

/-- The transaction is known, and the queues hold what each of its instructions leaves
behind. -/
def World.Routed (world : World) (queue : List QueuedJob) : Prop :=
  ∃ transaction, world.held TransactionProcessor.signature = some transaction ∧
    ∀ instruction ∈ transaction.extractLiquidityBookInstructions world.programId,
      ∃ own, TransactionProcessor.Handled (world.services .none) instruction own ∧ own ⊆ queue

section Marks

variable {world : World} {decoding : Decoding}
variable {events : TransactionEvents} {pipeline pipeline' : Pipeline}

theorem World.Routed.mono {queue queue' : List QueuedJob} (routed : world.Routed queue)
    (subset : queue ⊆ queue') : world.Routed queue' := by
  obtain ⟨transaction, held, handled⟩ := routed
  refine ⟨transaction, held, fun instruction member => ?_⟩
  obtain ⟨own, leaves, listed⟩ := handled instruction member
  exact ⟨own, leaves, List.Subset.trans listed subset⟩

theorem World.Knows.routed {known : World} (knows : world.Knows known) {failures : Failures}
    {job : TransactionJob} {before : Backend}
    (marked : (TransactionProcessor.process (known.services failures) job before).1 =
      .ok .marked) :
    world.Routed (TransactionProcessor.process (known.services failures) job before).2.jobs := by
  obtain ⟨transaction, answered, handled⟩ := TransactionProcessor.handled_of_marked marked
  refine ⟨transaction, knows.held _ _ (TransactionProcessor.held_of_answered answered),
    fun instruction member => ?_⟩
  rw [← knows.programId] at member
  obtain ⟨own, leaves, listed⟩ := handled instruction member
  exact ⟨own, leaves.of_decodeBase58 knows.decodeBase58, listed⟩

/-- A mark was there at the start, or the transaction is routed. -/
def Pipeline.Marked (world : World) (events : TransactionEvents) (pipeline : Pipeline) : Prop :=
  ∀ row ∈ pipeline.scanner.state.outside.events.rows, row.document.processed = true →
    (∃ old ∈ events.rows, old.document.processed = true ∧ SameJob old row) ∨
      world.Routed pipeline.queued

/-- The queues only grow. -/
theorem Pipeline.Step.queued_subset (step : Step world decoding pipeline pipeline') :
    pipeline.queued ⊆ pipeline'.queued := by
  cases step with
  | scan | grow | deliver | work => exact List.Subset.refl _
  | transact =>
      exact TransactionProcessor.jobs_subset_process _ _ pipeline.backend

namespace Pipeline.Marked

/-- Every step keeps the marks accounted for. -/
theorem step (marked : Marked world events pipeline)
    (step : Step world decoding pipeline pipeline') : Marked world events pipeline' := by
  intro row member processed
  rcases step.marks member processed with
    ⟨old, stored, processedOld, same⟩ | ⟨-, known, failures, job, knows, through, queue⟩
  · rcases marked old stored processedOld with ⟨first, listed, processedFirst, sameFirst⟩ | routed
    · exact .inl ⟨first, listed, processedFirst, sameFirst.trans same⟩
    · exact .inr (routed.mono step.queued_subset)
  · rw [queue]
    exact .inr (knows.routed through)

theorem of_reaches {service : ScannerService} {store : Store}
    (reaches : Reaches world decoding (.started service store) pipeline) :
    Marked world service.outside.events pipeline := by
  induction reaches with
  | refl => exact fun row member processed => .inl ⟨row, member, processed, rfl, rfl⟩
  | tail _ step ih => exact ih.step step

end Pipeline.Marked

/-! ## Marked rows -/

/-- In every run, a row that is marked and was not at the start stands for its whole
transaction: each instruction whose data is not base58 is a dead letter, and each one with a
route is a dead letter or has its job in the queue of the route; every attempt at that job
that has come to its end was accepted, and its marker is in the store. -/
theorem marked_means_recorded {service : ScannerService} {store : Store}
    (reaches : Pipeline.Reaches world decoding (.started service store) pipeline)
    {row : Stored TransactionEvent} (member : row ∈ pipeline.scanner.state.outside.events.rows)
    (processed : row.document.processed = true)
    (unmarked : ∀ old ∈ service.outside.events.rows, SameJob old row →
      old.document.processed = false) :
    ∃ transaction, world.held row.document.signature = some transaction ∧
      ∀ instruction ∈ transaction.extractLiquidityBookInstructions world.programId,
        (∀ message, world.decodeBase58 instruction.instruction.data = .error message →
          TransactionProcessor.deadLetter instruction message ∈ pipeline.queued) ∧
        ∀ dataBuffer route, world.decodeBase58 instruction.instruction.data = .ok dataBuffer →
          TransactionProcessor.HasRoute instruction dataBuffer route →
          (∃ message, TransactionProcessor.deadLetter instruction message ∈ pipeline.queued) ∨
            ⟨route.queueName, route.jobType, instruction, none⟩ ∈ pipeline.queued ∧
            ∀ attempt ∈ pipeline.workers.processes, attempt.Finished →
              attempt.job.toJob =
                  world.job decoding ⟨route.queueName, route.jobType, instruction, none⟩ →
                attempt.job.Done pipeline.workers.store := by
  have own : row.document.signature = TransactionProcessor.signature := by
    rcases (Pipeline.Linked.of_reaches reaches).processed row member processed with
      ⟨old, stored, marked, same⟩ | own
    · cases marked.symm.trans (unmarked old stored same)
    · exact own
  obtain ⟨transaction, held, handled⟩ : world.Routed pipeline.queued := by
    rcases Pipeline.Marked.of_reaches reaches row member processed with
      ⟨old, stored, marked, same⟩ | routed
    · cases marked.symm.trans (unmarked old stored same)
    · exact routed
  rw [own]
  refine ⟨transaction, held, fun instruction extracted => ?_⟩
  obtain ⟨jobs, leaves, listed⟩ := handled instruction extracted
  refine ⟨fun message undecodable => ?_, fun dataBuffer route decoded hasRoute => ?_⟩
  · rw [leaves.eq_deadLetter (TransactionProcessor.pickRoute_eq_error.mpr undecodable)] at listed
    exact listed (List.mem_singleton_self _)
  · have picked : TransactionProcessor.route? (world.services .none) instruction =
        .ok (some route) := by
      change TransactionProcessor.pickRoute instruction.isInner
        (world.decodeBase58 instruction.instruction.data) = _
      rw [decoded]
      exact TransactionProcessor.pickRoute_eq_some.mpr hasRoute
    obtain ⟨job, single, same⟩ := leaves.eq_singleton picked
    have queued : job ∈ pipeline.queued := listed (single ▸ List.mem_singleton_self _)
    rcases same with rfl | ⟨message, rfl⟩
    · exact .inr ⟨queued, fun attempt taken finished _ =>
        Launch.done_of_reaches (Pipeline.workers_reaches reaches) taken finished⟩
    · exact .inl ⟨message, queued⟩

end Marks

/-- The row was not marked at the start; the swap has its job, and it is done. -/
theorem marked_means_recorded_swap : ∃ pipeline : Pipeline,
    (∃ row ∈ pipeline.scanner.state.outside.events.rows, row.document.processed = true) ∧
      (∀ old ∈ Pipeline.sampleScanner.outside.events.rows, old.document.processed = false) ∧
      Pipeline.sampleQueued ∈ pipeline.queued ∧
      ∃ attempt ∈ pipeline.workers.processes,
        attempt.job.toJob = Pipeline.sampleWorld.job Pipeline.sampleDecoding Pipeline.sampleQueued ∧
        attempt.job.Done pipeline.workers.store := by
  obtain ⟨pipeline, reaches, queue, ⟨row, stored, processed⟩, attempt, taken, finished, same⟩ :=
    Pipeline.sample_reaches
  have unmarked : ∀ old ∈ Pipeline.sampleScanner.outside.events.rows,
      old.document.processed = false := by
    decide +kernel
  obtain ⟨transaction, held, recorded⟩ :=
    marked_means_recorded reaches stored processed fun old member _ => unmarked old member
  cases held
  have hasRoute : TransactionProcessor.HasRoute Pipeline.sampleMessage
      SwapProcessor.instructionIdentifier ⟨.swapProcessor, .processSwap⟩ :=
    TransactionProcessor.pickRoute_eq_some.mp (by decide +kernel)
  rcases (recorded Pipeline.sampleMessage (List.mem_singleton_self _)).2 _ _ rfl hasRoute with
    ⟨message, dead⟩ | ⟨listed, done⟩
  · rw [queue] at dead
    cases List.mem_singleton.mp dead
  · exact ⟨pipeline, ⟨row, stored, processed⟩, unmarked, listed, attempt, taken, same,
      done attempt taken finished same⟩

end DlmmIndexer

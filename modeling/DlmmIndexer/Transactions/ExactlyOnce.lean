import DlmmIndexer.Transactions.Processor

/-!
# Every instruction once

The extraction loses no instruction of the program and takes none twice.  When the loop
over the extracted instructions is through, each has left the jobs that are due to it: one
in its own queue or one dead letter if it is routed, a dead letter if its data is not
base58, none otherwise.  A failing `add` ends in a dead letter or ends the loop, so the
pattern of failures does not matter.
-/

namespace DlmmIndexer

open Documents

namespace TransactionProcessor

variable {services : Services} {instruction : InstructionMessage} {backend after : Backend}

/-- The route of an instruction. -/
def route? (services : Services) (instruction : InstructionMessage) :
    Except String (Option Route) :=
  pickRoute instruction.isInner (services.decodeBase58 instruction.instruction.data)

/-- The jobs that an instruction can leave behind. -/
inductive Handled (services : Services) (instruction : InstructionMessage) :
    List QueuedJob → Prop where
  | routed {route : Route} (picked : route? services instruction = .ok (some route)) :
      Handled services instruction [⟨route.queueName, route.jobType, instruction, none⟩]
  | failed {route : Route} (picked : route? services instruction = .ok (some route))
      (message : String) : Handled services instruction [deadLetter instruction message]
  | undecodable {message : String} (threw : route? services instruction = .error message) :
      Handled services instruction [deadLetter instruction message]
  | passed (unknown : route? services instruction = .ok none) : Handled services instruction []

/-- The jobs that a list of instructions can leave behind, in their order. -/
inductive Delivered (services : Services) : List InstructionMessage → List QueuedJob → Prop where
  | nil : Delivered services [] []
  | cons {instruction : InstructionMessage} {rest : List InstructionMessage}
      {jobs later : List QueuedJob} (handled : Handled services instruction jobs)
      (delivered : Delivered services rest later) :
      Delivered services (instruction :: rest) (jobs ++ later)

/-! ## The loop -/

theorem jobs_add {job : QueuedJob} {outcome : Except String Unit}
    (added : add services job backend = (outcome, after)) :
    (outcome = .ok () ∧ after.jobs = backend.jobs ++ [job]) ∨
      (∃ message, outcome = .error message ∧ after.jobs = backend.jobs) := by
  simp only [add] at added
  split at added
  next message _ =>
    cases added
    exact .inr ⟨message, rfl, rfl⟩
  · cases added
    exact .inl ⟨rfl, rfl⟩

/-- The `try` block leaves the jobs of a handled instruction, or throws and leaves none. -/
theorem jobs_tryRoute {outcome : Except String Unit}
    (tried : tryRoute services instruction backend = (outcome, after)) :
    (outcome = .ok () ∧ ∃ jobs, Handled services instruction jobs ∧
        after.jobs = backend.jobs ++ jobs) ∨
      (∃ message, outcome = .error message ∧
        Handled services instruction [deadLetter instruction message] ∧
        after.jobs = backend.jobs) := by
  simp only [tryRoute] at tried
  split at tried
  next message threw =>
    cases tried
    exact .inr ⟨message, rfl, .undecodable threw, rfl⟩
  next unknown =>
    cases tried
    exact .inl ⟨rfl, [], .passed unknown, (List.append_nil _).symm⟩
  next route picked =>
    have decoded : ∃ dataBuffer, services.decodeBase58 instruction.instruction.data =
        .ok dataBuffer := by
      cases decoded : services.decodeBase58 instruction.instruction.data with
      | ok dataBuffer => exact ⟨dataBuffer, rfl⟩
      | error message =>
          rw [decoded, pickRoute_eq_error.mpr rfl] at picked
          cases picked
    obtain ⟨dataBuffer, decoded⟩ := decoded
    rw [routeToQueue, targetQueue_of_pickRoute (decoded ▸ picked)] at tried
    rcases jobs_add tried with ⟨done, added⟩ | ⟨message, threw, kept⟩
    · exact .inl ⟨done, _, .routed picked, added⟩
    · exact .inr ⟨message, threw, .failed picked message, kept⟩

theorem jobs_processInstruction
    (processed : processInstruction services instruction backend = (.ok (), after)) :
    ∃ jobs, Handled services instruction jobs ∧ after.jobs = backend.jobs ++ jobs := by
  simp only [processInstruction] at processed
  split at processed
  next middle tried =>
    cases processed
    rcases jobs_tryRoute tried with ⟨-, jobs, handled, added⟩ | ⟨_, threw, -⟩
    · exact ⟨jobs, handled, added⟩
    · cases threw
  next message middle tried =>
    rcases jobs_tryRoute tried with ⟨done, -⟩ | ⟨_, threw, dead, kept⟩
    · cases done
    · cases threw
      rcases jobs_add processed with ⟨-, added⟩ | ⟨_, threw, -⟩
      · exact ⟨_, dead, added.trans (congrArg (· ++ _) kept)⟩
      · cases threw

/-- A loop that is through has handled every instruction. -/
theorem delivered_processInstructions {instructions : List InstructionMessage}
    (processed : processInstructions services instructions backend = (.ok (), after)) :
    ∃ jobs, Delivered services instructions jobs ∧ after.jobs = backend.jobs ++ jobs := by
  induction instructions generalizing backend with
  | nil =>
      cases processed
      exact ⟨[], .nil, (List.append_nil _).symm⟩
  | cons instruction rest ih =>
      rw [processInstructions] at processed
      split at processed
      next middle first =>
        obtain ⟨jobs, handled, added⟩ := jobs_processInstruction first
        obtain ⟨later, delivered, addedLater⟩ := ih processed
        exact ⟨jobs ++ later, .cons handled delivered, by
          rw [addedLater, added, List.append_assoc]⟩
      · cases processed

/-! ## Jobs by instruction -/

theorem Handled.instruction_eq {jobs : List QueuedJob} (handled : Handled services instruction jobs)
    {job : QueuedJob} (member : job ∈ jobs) : job.instruction = instruction := by
  cases handled with
  | routed => rw [List.mem_singleton.mp member]
  | failed | undecodable =>
      rw [List.mem_singleton.mp member]
      rfl
  | passed => cases member

theorem Handled.map_sublist {jobs : List QueuedJob} (handled : Handled services instruction jobs) :
    (jobs.map (·.instruction)).Sublist [instruction] := by
  cases handled with
  | routed | failed | undecodable => exact .refl _
  | passed => exact List.nil_sublist _

/-- A routed instruction has one job: its own or a dead letter. -/
theorem Handled.eq_singleton {jobs : List QueuedJob} (handled : Handled services instruction jobs)
    {route : Route} (picked : route? services instruction = .ok (some route)) :
    ∃ job, jobs = [job] ∧ (job = ⟨route.queueName, route.jobType, instruction, none⟩ ∨
      ∃ message, job = deadLetter instruction message) := by
  cases handled with
  | routed picked' =>
      cases picked.symm.trans picked'
      exact ⟨_, rfl, .inl rfl⟩
  | failed _ message => exact ⟨_, rfl, .inr ⟨message, rfl⟩⟩
  | undecodable threw => cases picked.symm.trans threw
  | passed unknown => cases picked.symm.trans unknown

theorem Handled.eq_deadLetter {jobs : List QueuedJob} (handled : Handled services instruction jobs)
    {message : String} (threw : route? services instruction = .error message) :
    jobs = [deadLetter instruction message] := by
  cases handled with
  | routed picked | failed picked => cases threw.symm.trans picked
  | undecodable threw' =>
      cases threw.symm.trans threw'
      rfl
  | passed unknown => cases threw.symm.trans unknown

theorem Handled.eq_nil {jobs : List QueuedJob} (handled : Handled services instruction jobs)
    (unknown : route? services instruction = .ok none) : jobs = [] := by
  cases handled with
  | routed picked | failed picked => cases unknown.symm.trans picked
  | undecodable threw => cases unknown.symm.trans threw
  | passed => rfl

/-- The jobs come in the order of their instructions. -/
theorem Delivered.map_sublist {instructions : List InstructionMessage} {jobs : List QueuedJob}
    (delivered : Delivered services instructions jobs) :
    (jobs.map (·.instruction)).Sublist instructions := by
  induction delivered with
  | nil => exact .slnil
  | cons handled _ ih =>
      rw [List.map_append]
      exact handled.map_sublist.append ih

/-- Each instruction has the jobs of its own. -/
theorem Delivered.filter_eq {instructions : List InstructionMessage} {jobs : List QueuedJob}
    (delivered : Delivered services instructions jobs) (distinct : instructions.Nodup)
    (member : instruction ∈ instructions) :
    Handled services instruction (jobs.filter fun job => job.instruction = instruction) := by
  induction delivered with
  | nil => cases member
  | @cons head rest own later handled delivered ih =>
      obtain ⟨fresh, distinct⟩ := List.nodup_cons.mp distinct
      rw [List.filter_append]
      rcases List.mem_cons.mp member with rfl | member
      · have none : later.filter (fun job => job.instruction = instruction) = [] := by
          refine List.filter_eq_nil_iff.mpr fun job listed same => fresh ?_
          rw [← of_decide_eq_true same]
          exact delivered.map_sublist.subset (List.mem_map_of_mem listed)
        have all : own.filter (fun job => job.instruction = instruction) = own :=
          List.filter_eq_self.mpr fun job listed =>
            decide_eq_true (handled.instruction_eq listed)
        rw [none, all, List.append_nil]
        exact handled
      · have none : own.filter (fun job => job.instruction = instruction) = [] := by
          refine List.filter_eq_nil_iff.mpr fun job listed same => fresh ?_
          rw [← handled.instruction_eq listed, of_decide_eq_true same]
          exact member
        rw [none, List.nil_append]
        exact ih distinct member

/-! ## Transactions -/

/-- The data is that of an instruction, or in an inner instruction of an event, whose name
has a route. -/
def HasRoute (instruction : InstructionMessage) (dataBuffer : Bytes) (route : Route) : Prop :=
  (instruction.isInner = true ∧ HandledEvent dataBuffer route) ∨
    HandledInstruction dataBuffer route

/-- Every instruction has the jobs that are due to it, and the jobs are in the order of
their instructions, across all queues and hence in each. -/
structure RoutedOnce (services : Services) (instructions : List InstructionMessage)
    (jobs : List QueuedJob) : Prop where
  handled : ∀ instruction ∈ instructions, ∀ dataBuffer route,
    services.decodeBase58 instruction.instruction.data = .ok dataBuffer →
      HasRoute instruction dataBuffer route →
        ∃ job, jobs.filter (fun job => job.instruction = instruction) = [job] ∧
          (job = ⟨route.queueName, route.jobType, instruction, none⟩ ∨
            ∃ message, job = deadLetter instruction message)
  undecodable : ∀ instruction ∈ instructions, ∀ message,
    services.decodeBase58 instruction.instruction.data = .error message →
      jobs.filter (fun job => job.instruction = instruction) = [deadLetter instruction message]
  others : ∀ instruction ∈ instructions, ∀ dataBuffer,
    services.decodeBase58 instruction.instruction.data = .ok dataBuffer →
      (∀ route, ¬HasRoute instruction dataBuffer route) →
        jobs.filter (fun job => job.instruction = instruction) = []
  ordered : (jobs.map (·.instruction)).Sublist instructions

theorem Delivered.routedOnce {instructions : List InstructionMessage} {jobs : List QueuedJob}
    (delivered : Delivered services instructions jobs) (distinct : instructions.Nodup) :
    RoutedOnce services instructions jobs where
  handled instruction member dataBuffer route decoded hasRoute := by
    have picked : route? services instruction = .ok (some route) := by
      rw [route?, decoded]
      exact pickRoute_eq_some.mpr hasRoute
    exact (delivered.filter_eq distinct member).eq_singleton picked
  undecodable instruction member message decoded :=
    (delivered.filter_eq distinct member).eq_deadLetter (pickRoute_eq_error.mpr decoded)
  others instruction member dataBuffer decoded noRoute := by
    have unknown : route? services instruction = .ok none := by
      cases picked : route? services instruction with
      | error message => cases decoded.symm.trans (pickRoute_eq_error.mp picked)
      | ok found =>
          cases found with
          | none => rfl
          | some route =>
              rw [route?, decoded] at picked
              exact absurd (pickRoute_eq_some.mp picked) (noRoute route)
    exact (delivered.filter_eq distinct member).eq_nil unknown
  ordered := delivered.map_sublist

/-- The processed mark comes after the whole loop. -/
theorem of_marked {job : TransactionJob} {transaction : ParsedTransaction}
    (answered : services.getParsedTransaction signature = .ok (some transaction))
    (processed : process services job backend = (.ok .marked, after)) :
    ∃ jobs, Delivered services
        (transaction.extractLiquidityBookInstructions services.programId) jobs ∧
      after.jobs = backend.jobs ++ jobs := by
  simp only [process, answered] at processed
  split at processed
  · cases processed
  next first rest extracted =>
    rw [extracted]
    split at processed
    · cases processed
    next middle looped =>
      split at processed
      · cases processed
      · cases processed
        obtain ⟨jobs, delivered, added⟩ := delivered_processInstructions looped
        exact ⟨jobs, delivered, added⟩

/-- The extraction yields the unparsed instructions of the program, each once, under
different keys that point back to their places; and whatever calls of `add` fail, a
transaction that is marked as processed has had each of them routed exactly once. -/
theorem routed_exactly_once {transaction : ParsedTransaction}
    (distinct : transaction.DistinctSets) (programId : String) :
    (((transaction.extractLiquidityBookInstructions programId).map
          InstructionMessage.key).Nodup ∧
      ∀ message, message ∈ transaction.extractLiquidityBookInstructions programId ↔
        ∃ instructionIndex innerInstructionIndex decoded,
          transaction.at? instructionIndex innerInstructionIndex =
            some (.partiallyDecoded decoded) ∧
          decoded.programId = programId ∧
          message = transaction.message instructionIndex innerInstructionIndex
            (innerInstructionIndex != .undefined) decoded) ∧
    ∀ services job backend after, services.programId = programId →
      services.getParsedTransaction signature = .ok (some transaction) →
      process services job backend = (.ok .marked, after) →
        ∃ jobs, after.jobs = backend.jobs ++ jobs ∧
          RoutedOnce services (transaction.extractLiquidityBookInstructions programId) jobs := by
  have keys : ((transaction.extractLiquidityBookInstructions programId).map
      InstructionMessage.key).Nodup := ParsedTransaction.nodup_keys distinct
  refine ⟨⟨keys, fun message => ParsedTransaction.mem_extractLiquidityBookInstructions distinct⟩,
    ?_⟩
  rintro services job backend after rfl answered processed
  obtain ⟨jobs, delivered, added⟩ := of_marked answered processed
  exact ⟨jobs, added, delivered.routedOnce keys.of_map⟩

/-- A swap that made one inner event and one call with undecodable data. -/
def sampleTransaction : ParsedTransaction where
  signatures := [signature]
  slot := 8
  blockTime := none
  instructions := [.parsed "11111111111111111111111111111111",
    .partiallyDecoded ⟨"program", [], "icSNZP7U1uh"⟩]
  innerInstructions := some
    [⟨1, [.partiallyDecoded ⟨"program", [], "VBuTFX8Ey5wkDmFWoTLQsZ"⟩,
      .partiallyDecoded ⟨"program", [], "0"⟩]⟩]

/-- The first `add` fails. -/
def sampleServices : Services where
  programId := "program"
  decodeBase58 data :=
    if data = "icSNZP7U1uh" then .ok [248, 198, 158, 145, 225, 117, 135, 200]
    else if data = "VBuTFX8Ey5wkDmFWoTLQsZ" then
      .ok (eventIdentifier ++ [55, 42, 192, 194, 230, 243, 9, 72])
    else .error "Non-base58 character"
  getParsedTransaction _ := .ok (some sampleTransaction)
  addFailure number := if number = 0 then some "Connection is closed." else none
  updateFailure := none

theorem routed_exactly_once_sample :
    (((sampleTransaction.extractLiquidityBookInstructions "program").map
      InstructionMessage.key) = [(1, .undefined), (1, .at 0), (1, .at 1)]) ∧
    ∃ after, process sampleServices ⟨signature, 8⟩ ⟨.empty, [], [], 0⟩ = (.ok .marked, after) ∧
      RoutedOnce sampleServices
        (sampleTransaction.extractLiquidityBookInstructions "program") after.jobs := by
  have marked : (process sampleServices ⟨signature, 8⟩ ⟨.empty, [], [], 0⟩).1 = .ok .marked := by
    decide +kernel
  obtain ⟨jobs, added, once⟩ := (@routed_exactly_once sampleTransaction
    (by unfold ParsedTransaction.DistinctSets; decide) "program").2 sampleServices ⟨signature, 8⟩
      ⟨.empty, [], [], 0⟩ _ rfl rfl (Prod.ext marked rfl)
  rw [List.nil_append] at added
  exact ⟨by decide +kernel, _, Prod.ext marked rfl, added ▸ once⟩

end TransactionProcessor

end DlmmIndexer

import DlmmIndexer.Transactions.Processor

/-!
# Jobs and their transactions

A job is queued for a row and should settle it: fetch the transaction of the row, route
its instructions and mark the row.  The processor works on a fixed signature instead of
that of its job, and leaves a transaction without instructions of the program unmarked.
What is shown here is when this does no harm.
-/

namespace DlmmIndexer

open Documents

/-- What the world holds, failures apart. -/
structure World where
  programId : String
  decodeBase58 : String → Except String Bytes
  /-- The transaction that the RPC node knows under a signature. -/
  held : String → Option ParsedTransaction

/-- The outside calls that fail in an attempt. -/
structure Failures where
  rpcFailure : Option String
  addFailure : ℕ → Option String
  updateFailure : Option String

def Failures.none : Failures := ⟨Option.none, fun _ => Option.none, Option.none⟩

def World.services (world : World) (failures : Failures) : Services where
  programId := world.programId
  decodeBase58 := world.decodeBase58
  getParsedTransaction requested :=
    match failures.rpcFailure with
    | some message => .error message
    | none => .ok (world.held requested)
  addFailure := failures.addFailure
  updateFailure := failures.updateFailure

namespace TransactionProcessor

variable {services : Services} {instruction : InstructionMessage}
  {instructions : List InstructionMessage} {job : TransactionJob} {before after : Backend}

/-! ## Attempts -/

/-- What the routing of instructions may do: add jobs for them. -/
structure Adds (instructions : List InstructionMessage) (before after : Backend) : Prop where
  events : after.events = before.events
  requested : after.requested = before.requested
  jobs : ∃ jobs, after.jobs = before.jobs ++ jobs ∧ ∀ job ∈ jobs, job.instruction ∈ instructions

namespace Adds

theorem refl : Adds instructions before before :=
  ⟨rfl, rfl, [], (List.append_nil _).symm, fun _ member => absurd member List.not_mem_nil⟩

theorem trans {middle : Backend} (first : Adds instructions before middle)
    (second : Adds instructions middle after) : Adds instructions before after := by
  obtain ⟨events, requested, jobs, added, own⟩ := first
  obtain ⟨events', requested', jobs', added', own'⟩ := second
  refine ⟨events'.trans events, requested'.trans requested, jobs ++ jobs', ?_, ?_⟩
  · rw [added', added, List.append_assoc]
  · intro job member
    exact (List.mem_append.mp member).elim (own job) (own' job)

theorem mono {more : List InstructionMessage} (adds : Adds instructions before after)
    (subset : instructions ⊆ more) : Adds more before after := by
  obtain ⟨events, requested, jobs, added, own⟩ := adds
  exact ⟨events, requested, jobs, added, fun job member => subset (own job member)⟩

end Adds

theorem adds_add (queued : QueuedJob) (before : Backend) :
    Adds [queued.instruction] before (add services queued before).2 := by
  unfold add
  split
  · exact ⟨rfl, rfl, [], (List.append_nil _).symm, fun _ member => absurd member List.not_mem_nil⟩
  · refine ⟨rfl, rfl, [queued], rfl, fun job member => ?_⟩
    rw [List.mem_singleton.mp member]
    exact List.mem_singleton_self _

theorem adds_tryRoute (instruction : InstructionMessage) (before : Backend) :
    Adds [instruction] before (tryRoute services instruction before).2 := by
  unfold tryRoute
  split
  · exact .refl
  · exact .refl
  next route _ =>
    unfold routeToQueue
    split
    · exact .refl
    next queue _ => exact adds_add ⟨queue, _, instruction, none⟩ before

theorem adds_processInstruction (instruction : InstructionMessage) (before : Backend) :
    Adds [instruction] before (processInstruction services instruction before).2 := by
  have tried : Adds [instruction] before (tryRoute services instruction before).2 :=
    adds_tryRoute instruction before
  unfold processInstruction
  split
  next middle routed => rwa [routed] at tried
  next message middle threw =>
    rw [threw] at tried
    exact tried.trans (adds_add (deadLetter instruction message) middle)

theorem adds_processInstructions (instructions : List InstructionMessage) (before : Backend) :
    Adds instructions before (processInstructions services instructions before).2 := by
  induction instructions generalizing before with
  | nil => exact .refl
  | cons instruction rest ih =>
      have first : Adds [instruction] before (processInstruction services instruction before).2 :=
        adds_processInstruction instruction before
      have head : [instruction] ⊆ instruction :: rest :=
        List.cons_subset_cons _ (List.nil_subset _)
      rw [processInstructions]
      split
      next middle done =>
        rw [done] at first
        exact (first.mono head).trans ((ih middle).mono (List.subset_cons_self _ _))
      next message middle threw =>
        rw [threw] at first
        exact first.mono head

/-- The state after the request. -/
def asked (before : Backend) : Backend :=
  { before with requested := before.requested ++ [signature] }

/-- How an attempt ends. -/
inductive Attempt (services : Services) (before : Backend) :
    Except String Ending → Backend → Prop where
  | unanswered {message : String}
      (threw : services.getParsedTransaction signature = .error message) :
      Attempt services before (.error message) (asked before)
  | notFound (unknown : services.getParsedTransaction signature = .ok none) :
      Attempt services before (.ok .notFound) (asked before)
  | noInstructions {transaction : ParsedTransaction}
      (answered : services.getParsedTransaction signature = .ok (some transaction))
      (none : transaction.extractLiquidityBookInstructions services.programId = []) :
      Attempt services before (.ok .noInstructions) (asked before)
  | failed {transaction : ParsedTransaction} {message : String} {after : Backend}
      (answered : services.getParsedTransaction signature = .ok (some transaction))
      (some : transaction.extractLiquidityBookInstructions services.programId ≠ [])
      (adds : Adds (transaction.extractLiquidityBookInstructions services.programId)
        (asked before) after) :
      Attempt services before (.error message) after
  | marked {transaction : ParsedTransaction} {after : Backend}
      (answered : services.getParsedTransaction signature = .ok (some transaction))
      (some : transaction.extractLiquidityBookInstructions services.programId ≠ [])
      (adds : Adds (transaction.extractLiquidityBookInstructions services.programId)
        (asked before) after) :
      Attempt services before (.ok .marked) { after with events := markProcessed after.events }

theorem attempt (services : Services) (job : TransactionJob) (before : Backend) :
    Attempt services before (process services job before).1 (process services job before).2 := by
  unfold process
  split
  next message threw => exact .unanswered threw
  next unknown => exact .notFound unknown
  next transaction answered =>
    have adds : Adds (transaction.extractLiquidityBookInstructions services.programId)
        (asked before) (processInstructions services
          (transaction.extractLiquidityBookInstructions services.programId) (asked before)).2 :=
      adds_processInstructions _ _
    split
    next none => exact .noInstructions answered none
    next first rest extracted =>
      have some : transaction.extractLiquidityBookInstructions services.programId ≠ [] := by
        rw [extracted]
        exact List.cons_ne_nil _ _
      simp only [← extracted]
      rw [asked] at adds
      generalize processInstructions services _ _ = looped at adds ⊢
      obtain ⟨outcome, after⟩ := looped
      cases outcome with
      | error message => exact .failed answered some adds
      | ok done =>
          dsimp only
          split
          · exact .failed answered some adds
          · exact .marked answered some adds

/-! ## Attempts without failures -/

variable {world : World}

theorem held_of_answered {failures : Failures} {requested : String}
    {answer : Option ParsedTransaction}
    (answered : (world.services failures).getParsedTransaction requested = .ok answer) :
    world.held requested = answer := by
  simp only [World.services] at answered
  split at answered
  · cases answered
  · exact Except.ok.inj answered

theorem processInstruction_of_none (instruction : InstructionMessage) (before : Backend) :
    (processInstruction (world.services .none) instruction before).1 = .ok () := by
  unfold processInstruction
  split <;> rfl

theorem processInstructions_of_none (instructions : List InstructionMessage) (before : Backend) :
    (processInstructions (world.services .none) instructions before).1 = .ok () := by
  induction instructions generalizing before with
  | nil => rfl
  | cons instruction rest ih =>
      have first : (processInstruction (world.services .none) instruction before).1 = .ok () :=
        processInstruction_of_none instruction before
      rw [processInstructions]
      split
      next middle _ => exact ih middle
      next message middle threw =>
        rw [threw] at first
        cases first

/-- An attempt without failures completes. -/
theorem process_of_none (job : TransactionJob) (before : Backend) :
    ∃ ending, (process (world.services .none) job before).1 = .ok ending := by
  unfold process
  split
  next message threw => cases threw
  · exact ⟨_, rfl⟩
  · split
    · exact ⟨_, rfl⟩
    next first rest _ =>
      have through : (processInstructions (world.services .none) (first :: rest)
          (asked before)).1 = .ok () := processInstructions_of_none _ _
      rw [asked] at through
      dsimp only
      split
      next message after threw =>
        rw [threw] at through
        cases through
      · exact ⟨_, rfl⟩

/-! ## Rows -/

/-- Whether the row with an `_id` is marked as processed. -/
def processed? (events : TransactionEvents) (id : ℕ) : Option Bool :=
  (events.get? id).map (·.processed)

theorem processed?_of_mem {events : TransactionEvents} {row : Stored TransactionEvent}
    (stored : row ∈ events.rows) : processed? events row._id = some row.document.processed := by
  rw [processed?, Unindexed.get?_of_mem stored, Option.map_some]

/-- The mark is set on the first row with the fixed signature. -/
theorem processed?_markProcessed {events : TransactionEvents} {first : Stored TransactionEvent}
    (found : events.first? (fun event => event.signature = signature) = some first) (id : ℕ) :
    processed? (markProcessed events) id =
      if first._id = id then some true else processed? events id := by
  rw [processed?, markProcessed, Unindexed.get?_updateOne found]
  split
  · rfl
  · rfl

/-- What the job of a row owes, whatever fails. -/
structure Settles (world : World) (row : Stored TransactionEvent) (before : Backend)
    (outcome : Except String Ending) (after : Backend) : Prop where
  fetched : after.requested = before.requested ++ [row.document.signature]
  routed : ∃ jobs, after.jobs = before.jobs ++ jobs ∧ ∀ job ∈ jobs, ∃ transaction,
    world.held row.document.signature = some transaction ∧
      job.instruction ∈ transaction.extractLiquidityBookInstructions world.programId
  marked : ∀ ending, outcome = .ok ending → world.held row.document.signature ≠ none →
    processed? after.events row._id = some true
  others : ∀ id, id ≠ row._id → processed? after.events id = processed? before.events id

/-- The row is one that the processor settles: it has the fixed signature, its transaction
has instructions of the program, and no row before it has the signature.  Rows that are
marked already need no mark. -/
structure Settleable (world : World) (row : Stored TransactionEvent) (events : TransactionEvents) :
    Prop where
  own : row.document.signature = signature
  noInstructions : ∀ transaction, world.held signature = some transaction →
    transaction.extractLiquidityBookInstructions world.programId = [] →
      row.document.processed = true
  first : ∀ transaction, world.held signature = some transaction →
    transaction.extractLiquidityBookInstructions world.programId ≠ [] →
      ∀ first, events.first? (fun event => event.signature = signature) = some first →
        first._id = row._id ∨ (first.document.processed = true ∧ row.document.processed = true)

variable {row : Stored TransactionEvent}

theorem exists_first (stored : row ∈ before.events.rows)
    (own : row.document.signature = signature) :
    ∃ first ∈ before.events.rows,
      before.events.first? (fun event => event.signature = signature) = some first := by
  cases found : before.events.first? fun event => event.signature = signature with
  | none => exact absurd (decide_eq_true own) (List.find?_eq_none.mp found row stored)
  | some first => exact ⟨first, List.mem_of_find?_eq_some found, rfl⟩

/-- An attempt at the job of such a row settles it. -/
theorem Settleable.settles {failures : Failures} {outcome : Except String Ending}
    (settleable : Settleable world row before.events) (stored : row ∈ before.events.rows)
    (attempt : Attempt (world.services failures) before outcome after) :
    Settles world row before outcome after := by
  obtain ⟨own, noInstructions, first⟩ := settleable
  have noJobs : ∃ jobs, (asked before).jobs = before.jobs ++ jobs ∧ ∀ job ∈ jobs, ∃ transaction,
      world.held row.document.signature = some transaction ∧
        job.instruction ∈ transaction.extractLiquidityBookInstructions world.programId :=
    ⟨[], (List.append_nil _).symm, fun _ member => absurd member List.not_mem_nil⟩
  have someJobs {transaction : ParsedTransaction} {added : Backend}
      (answered : (world.services failures).getParsedTransaction signature =
        .ok (some transaction))
      (adds : Adds (transaction.extractLiquidityBookInstructions world.programId)
        (asked before) added) :
      ∃ jobs, added.jobs = before.jobs ++ jobs ∧ ∀ job ∈ jobs, ∃ transaction,
        world.held row.document.signature = some transaction ∧
          job.instruction ∈ transaction.extractLiquidityBookInstructions world.programId := by
    obtain ⟨jobs, appended, extracted⟩ := adds.jobs
    exact ⟨jobs, appended, fun job member =>
      ⟨transaction, own ▸ held_of_answered answered, extracted job member⟩⟩
  have fetched : (asked before).requested = before.requested ++ [row.document.signature] := by
    rw [own, asked]
  cases attempt with
  | unanswered threw =>
      exact ⟨fetched, noJobs, fun _ completed => (by cases completed), fun _ _ => rfl⟩
  | notFound unknown =>
      have absent : world.held signature = none := held_of_answered unknown
      exact ⟨fetched, noJobs, fun _ _ known => absurd absent (own ▸ known), fun _ _ => rfl⟩
  | @noInstructions transaction answered none =>
      refine ⟨fetched, noJobs, fun _ _ _ => ?_, fun _ _ => rfl⟩
      rw [← noInstructions transaction (held_of_answered answered) none]
      exact processed?_of_mem stored
  | failed answered _ adds =>
      refine ⟨adds.requested.trans fetched, someJobs answered adds,
        fun _ completed => (by cases completed), fun _ _ => ?_⟩
      rw [adds.events, asked]
  | @marked transaction middle answered some adds =>
      obtain ⟨head, headStored, found⟩ := exists_first stored own
      have events : middle.events = before.events := adds.events
      have done := first transaction (held_of_answered answered) some head found
      have jobs := someJobs answered adds
      refine ⟨adds.requested.trans fetched, jobs, fun _ _ _ => ?_, fun id other => ?_⟩
      · simp only [events, processed?_markProcessed found]
        rcases done with same | ⟨-, processed⟩
        · rw [if_pos same]
        · rw [processed?_of_mem stored, processed, ite_self]
      · simp only [events, processed?_markProcessed found]
        rcases done with same | ⟨processed, -⟩
        · rw [if_neg fun here => other (here.symm.trans same)]
        · split
          next here => rw [← here, processed?_of_mem headStored, processed]
          · rfl

/-- Only such a row is settled by an attempt without failures. -/
theorem settleable_of_settles {outcome : Except String Ending} {ending : Ending}
    (stored : row ∈ before.events.rows)
    (attempt : Attempt (world.services .none) before outcome after)
    (completed : outcome = .ok ending) (settles : Settles world row before outcome after) :
    Settleable world row before.events := by
  have requested : after.requested = before.requested ++ [signature] := by
    cases attempt with
    | unanswered | notFound | noInstructions => rfl
    | failed _ _ adds | marked _ _ adds => exact adds.requested
  have own : row.document.signature = signature := by
    have same := settles.fetched.symm.trans requested
    exact List.singleton_injective (List.append_cancel_left same)
  have marked (known : world.held signature ≠ none) :
      processed? after.events row._id = some true :=
    settles.marked ending completed (own ▸ known)
  cases attempt with
  | unanswered | failed => cases completed
  | notFound unknown =>
      have absent : world.held signature = none := held_of_answered unknown
      refine ⟨own, fun transaction held => ?_, fun transaction held => ?_⟩
      · rw [absent] at held
        cases held
      · rw [absent] at held
        cases held
  | @noInstructions transaction answered none =>
      have held : world.held signature = some transaction := held_of_answered answered
      refine ⟨own, fun _ _ _ => ?_, fun other held' some => ?_⟩
      · have now := marked (held ▸ Option.some_ne_none _)
        exact Option.some.inj ((processed?_of_mem stored).symm.trans now)
      · cases held.symm.trans held'
        exact absurd none some
  | @marked transaction middle answered some adds =>
      have held : world.held signature = .some transaction := held_of_answered answered
      have events : middle.events = before.events := adds.events
      have now := marked (held ▸ Option.some_ne_none _)
      refine ⟨own, fun other held' none => ?_, fun _ _ _ head found => ?_⟩
      · cases held.symm.trans held'
        exact absurd none some
      · by_cases same : head._id = row._id
        · exact .inl same
        · have headStored := List.mem_of_find?_eq_some found
          have kept := settles.others head._id same
          simp only [events, processed?_markProcessed found, if_pos] at kept
          simp only [events, processed?_markProcessed found, if_neg same] at now
          rw [processed?_of_mem headStored] at kept
          rw [processed?_of_mem stored] at now
          exact .inr ⟨(Option.some.inj kept).symm, Option.some.inj now⟩

/-- The job of a stored row settles it, whatever calls fail, exactly when the row has the
fixed signature, its transaction is unknown or has instructions of the program, and the
row is the first one of the signature; where the mark is there already, it need not be set. -/
theorem settles_iff (world : World) (stored : row ∈ before.events.rows) :
    (∀ failures, Settles world row before
      (process (world.services failures) row.document.transactionJob before).1
      (process (world.services failures) row.document.transactionJob before).2) ↔
      Settleable world row before.events := by
  constructor
  · intro settles
    obtain ⟨ending, completed⟩ :
        ∃ ending, (process (world.services .none) row.document.transactionJob before).1 =
          .ok ending := process_of_none _ _
    exact settleable_of_settles stored (attempt _ _ _) completed (settles .none)
  · intro settleable failures
    exact settleable.settles stored (attempt _ _ _)

/-- The first queued row has the fixed signature, the second another one.  The RPC node
knows both transactions, each of which has instructions of the program. -/
def sampleWorld : World where
  programId := "program"
  decodeBase58 data :=
    if data = "icSNZP7U1uh" then .ok [248, 198, 158, 145, 225, 117, 135, 200]
    else .error "Non-base58 character"
  held requested :=
    some ⟨[requested], 8, none, [.partiallyDecoded ⟨"program", [], "icSNZP7U1uh"⟩], none⟩

def sampleEvents : TransactionEvents :=
  Unindexed.empty.insertMany [⟨8, signature, false, true⟩, ⟨9, "other", false, true⟩]

theorem settles_iff_sample :
    (process (sampleWorld.services .none) ⟨signature, 8⟩ ⟨sampleEvents, [], [], 0⟩).1 =
        .ok .marked ∧
      ∀ failures, Settles sampleWorld ⟨0, ⟨8, signature, false, true⟩⟩ ⟨sampleEvents, [], [], 0⟩
        (process (sampleWorld.services failures) ⟨signature, 8⟩ ⟨sampleEvents, [], [], 0⟩).1
        (process (sampleWorld.services failures) ⟨signature, 8⟩ ⟨sampleEvents, [], [], 0⟩).2 := by
  refine ⟨by decide +kernel, (@settles_iff ⟨sampleEvents, [], [], 0⟩
    ⟨0, ⟨8, signature, false, true⟩⟩ sampleWorld List.mem_cons_self).mpr
      ⟨rfl, fun transaction held none => ?_, fun _ _ _ first found => ?_⟩⟩
  · cases held
    cases none
  · cases found
    exact .inl rfl

/-- The job of the second row completes and leaves its row queued and unprocessed: it has
fetched and marked the first one. -/
theorem other_signature_not_settled :
    let run := process (sampleWorld.services .none) ⟨"other", 9⟩ ⟨sampleEvents, [], [], 0⟩
    run.1 = .ok .marked ∧ run.2.requested = [signature] ∧
      run.2.events.get? 1 = some ⟨9, "other", false, true⟩ ∧
      processed? run.2.events 0 = some true ∧
      ¬Settles sampleWorld ⟨1, ⟨9, "other", false, true⟩⟩ ⟨sampleEvents, [], [], 0⟩ run.1
        run.2 := by
  refine ⟨by decide +kernel, by decide +kernel, by decide +kernel, by decide +kernel, ?_⟩
  intro settles
  have unmarked := settles.marked .marked (by decide +kernel) (by decide)
  revert unmarked
  decide +kernel

end TransactionProcessor

end DlmmIndexer

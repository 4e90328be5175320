import DlmmIndexer.Scanner.Tasks
import DlmmIndexer.Scanner.Forward

/-!
# Overlapping calls of the scanner

Calls of the scanner's methods overlap in any order.  Its two flags are locks: at most one
call drains the backlog, and at most one comes from `runScanner`.  Rows are never removed
or changed but for marks that are set, they belong to the chain, and a row is marked as
queued only when the queue has its job.  As long as the queue and its marks do not fail,
no row gets a second job.

A turn changes what lies outside the process in few ways (`Effect`), and everything here is
read off them.
-/

namespace DlmmIndexer

open Documents EventLoop Scanner

/-! ## What turns do -/

namespace Await

/-- The call holds `isProcessingQueue`. -/
def drains : Await → Bool
  | .unprocessed | .addBulk _ | .updateMany _ | .drained => true
  | _ => false

/-- The call has rows in hand, whose jobs or marks it is about to write. -/
def carries : Await → Bool
  | .addBulk _ | .updateMany _ => true
  | _ => false

/-- The call has nothing in hand that it is about to write. -/
def plain : Await → Bool
  | .insertNewer _ | .insertOlder _ _ => false
  | awaits => !awaits.carries

theorem carries_of_idle {awaits : Await} (idle : awaits.drains = false) :
    awaits.carries = false := by
  cases awaits with
  | addBulk | updateMany => cases idle
  | _ => rfl

end Await

namespace Task

def drains (task : Task) : Bool := task.awaits.drains

/-- The call comes from `runScanner`. -/
def runs (task : Task) : Bool := task.caller = .runScanner

end Task

/-- What a turn does outside, by where the call stands before and after. -/
inductive Effect (admits : Await → Reply → Prop) (outside : Outside) :
    Option Await → Outside → Option Await → Prop where
  | quiet {before after : Option Await} (free : before.any Await.carries = false)
      (plain : after.all Await.plain = true) : Effect admits outside before outside after
  | fetchNewer {untilSignature : String} {page : List ConfirmedSignatureInfo}
      (onChain : page ⊆ outside.history.transactions) :
      Effect admits outside (some (.newer untilSignature)) outside (some (.insertNewer page))
  | fetchOlder {beforeSignature : Option String} {oldest : ConfirmedSignatureInfo}
      {page : List ConfirmedSignatureInfo}
      (onChain : oldest :: page ⊆ outside.history.transactions) :
      Effect admits outside (some (.older beforeSignature)) outside
        (some (.insertOlder oldest page))
  | insertNewer {page : List ConfirmedSignatureInfo} (insertion : Insertion) :
      Effect admits outside (some (.insertNewer page)) (outside.insert insertion page)
        (some .scanned)
  | insertOlder {oldest : ConfirmedSignatureInfo} {page : List ConfirmedSignatureInfo}
      (insertion : Insertion) :
      Effect admits outside (some (.insertOlder oldest page))
        (outside.insert insertion (oldest :: page)) (some (.loop (some oldest.signature)))
  | batch : Effect admits outside (some .unprocessed) outside
      (some (.addBulk (unprocessedTransactions outside.events)))
  | added {transactions : List (Stored TransactionEvent)} :
      Effect admits outside (some (.addBulk transactions)) (outside.addBulk transactions)
        (some (.updateMany transactions))
  | addFailed {transactions : List (Stored TransactionEvent)}
      {stored : TransactionEvent → Bool} {worked : Stored TransactionEvent → Bool}
      (admitted : admits (.addBulk transactions) (.failed stored worked)) :
      Effect admits outside (some (.addBulk transactions))
        (outside.addBulk (transactions.filter worked)) (some .unprocessed)
  | marked {transactions : List (Stored TransactionEvent)} :
      Effect admits outside (some (.updateMany transactions)) (outside.markQueued transactions)
        (some .unprocessed)
  | markFailed {transactions : List (Stored TransactionEvent)}
      {stored : TransactionEvent → Bool} {worked : Stored TransactionEvent → Bool}
      (admitted : admits (.updateMany transactions) (.failed stored worked)) :
      Effect admits outside (some (.updateMany transactions))
        (outside.markQueued (transactions.filter worked)) (some .unprocessed)
  | grow {later : History} (extended : outside.history.Extends later) :
      Effect admits outside none { outside with history := later } none
  | process (signature : String) :
      Effect admits outside none (outside.markProcessed signature) none

namespace ScannerService

variable {admits : Await → Reply → Prop} {service : ScannerService} {task : Task}

/-- How a call of `processUnprocessedTransactions` begins. -/
inductive Begun (service : ScannerService) (caller : Caller) :
    ScannerService × Option Task → Prop where
  | skipped : Begun service caller (service.finish caller)
  | drains (free : service.state.isProcessingQueue = false) :
      Begun service caller
        ({ service with state := { service.state with isProcessingQueue := true } },
          some ⟨caller, .unprocessed⟩)

/-- What a resumed call does: an operation takes place, or it looks at flags. -/
inductive Resumed (admits : Await → Reply → Prop) (service : ScannerService) (task : Task) :
    ScannerService × Option Task → Prop where
  | on {outside : Outside} {awaits : Await} (same : awaits.drains = task.awaits.drains)
      (effect : Effect admits service.outside (some task.awaits) outside (some awaits)) :
      Resumed admits service task ({ service with outside }, some ⟨task.caller, awaits⟩)
  | begun {result : ScannerService × Option Task} (idle : task.awaits.drains = false)
      (begun : service.Begun task.caller result) : Resumed admits service task result
  | released (draining : task.awaits = .drained) :
      Resumed admits service task (service.release task.caller)
  | completed (idle : task.awaits.drains = false) :
      Resumed admits service task (service.completeBackwardScan task.caller)
  | left (idle : task.awaits.drains = false) :
      Resumed admits service task (service.leave task.caller)

theorem begun (service : ScannerService) (caller : Caller) :
    Begun service caller (service.processUnprocessedTransactions caller) := by
  rw [processUnprocessedTransactions]
  split
  · exact .skipped
  · split
    · exact .skipped
    next free => exact .drains (Bool.eq_false_iff.mpr free)

theorem begun_scanned (service : ScannerService) (caller : Caller) :
    Begun service caller (service.scanned caller) := by
  cases caller with
  | nobody => exact .skipped
  | startScanning | runScanner =>
      rw [scanned]
      split
      · exact begun service _
      · exact .skipped

theorem signatures_subset {history : History} {limit : ℕ} {before untilSignature : Option String} :
    (history.getSignaturesForAddress limit before untilSignature).reverse ⊆
      history.transactions := by
  intro tx member
  rw [List.mem_reverse, History.getSignaturesForAddress] at member
  exact List.take_subset _ _ (List.drop_subset _ _
    (List.mem_reverse.mp (List.take_subset _ _ member)))

theorem resumed (service : ScannerService) {task : Task} {reply : Reply}
    (admitted : admits task.awaits reply) :
    Resumed admits service task (service.resume reply task) := by
  rcases task with ⟨caller, awaits⟩
  have quiet {next : Await} (plain : next.plain = true) (idle : awaits.carries = false)
      (same : next.drains = awaits.drains) :
      Resumed admits service ⟨caller, awaits⟩ (service, some ⟨caller, next⟩) :=
    .on same (.quiet idle plain)
  cases awaits with
  | newest =>
      cases reply with
      | failed stored worked => exact quiet rfl rfl rfl
      | done =>
          simp only [resume]
          split <;> exact quiet rfl rfl rfl
  | newer untilSignature =>
      cases reply with
      | failed stored worked => exact quiet rfl rfl rfl
      | done =>
          simp only [resume]
          split
          · exact .on rfl (.fetchNewer signatures_subset)
          · exact quiet rfl rfl rfl
  | insertNewer page => exact .on rfl (.insertNewer _)
  | scanned => exact .begun rfl (begun_scanned service caller)
  | unprocessed =>
      cases reply with
      | failed stored worked => exact quiet rfl rfl rfl
      | done =>
          simp only [resume]
          split
          · exact quiet rfl rfl rfl
          · next first rest found => exact .on rfl (found ▸ .batch)
  | addBulk transactions =>
      cases reply with
      | failed stored worked => exact .on rfl (.addFailed admitted)
      | done => exact .on rfl .added
  | updateMany transactions =>
      cases reply with
      | failed stored worked => exact .on rfl (.markFailed admitted)
      | done => exact .on rfl .marked
  | drained => exact .released rfl
  | oldest =>
      cases reply with
      | failed stored worked => exact .begun rfl .skipped
      | done =>
          simp only [resume]
          split <;> exact quiet rfl rfl rfl
  | genesis oldestSignature =>
      cases reply with
      | failed stored worked => exact quiet rfl rfl rfl
      | done =>
          simp only [resume]
          split <;> exact quiet rfl rfl rfl
  | cursor =>
      cases reply with
      | failed stored worked => exact .begun rfl .skipped
      | done => exact quiet rfl rfl rfl
  | older beforeSignature =>
      cases reply with
      | failed stored worked => exact quiet rfl rfl rfl
      | done =>
          simp only [resume]
          split
          · exact quiet rfl rfl rfl
          · next oldest page found =>
            exact .on rfl (.fetchOlder (found ▸ signatures_subset))
  | insertOlder oldest page => exact .on rfl (.insertOlder _)
  | loop beforeSignature =>
      simp only [resume, backwardLoop]
      split
      · exact .begun rfl .skipped
      · exact quiet rfl rfl rfl
  | reached => exact .completed rfl
  | returned => exact .left rfl

/-! ## The two locks -/

section Locks

variable {caller : Caller}

@[simp] theorem finish_fst : (service.finish caller).1 = service := by cases caller <;> rfl

theorem finish_plain : ((service.finish caller).2.map Task.awaits).all Await.plain = true := by
  cases caller <;> rfl

theorem finish_drains : (service.finish caller).2.any Task.drains = false := by
  cases caller <;> rfl

/-- The caller goes on exactly when it is `runScanner`. -/
theorem finish_runs :
    (service.finish caller).2.any Task.runs = decide (caller = .runScanner) := by
  cases caller <;> rfl

@[simp] theorem leave_outside : (service.leave caller).1.outside = service.outside := by
  cases caller <;> rfl

@[simp] theorem leave_snd : (service.leave caller).2 = none := by cases caller <;> rfl

end Locks

end ScannerService

namespace ScannerTurn

variable {admits : Await → Reply → Prop} {service service' : ScannerService}
variable {task task' : Option Task}

/-- `isProcessingQueue` is taken where a drain begins and given back where it ends. -/
theorem moves_drain (turn : ScannerTurn admits service task service' task') :
    LockMove (·.state.isProcessingQueue) Task.drains service task service' task' := by
  have ended {caller : Caller} {task : Option Task} {later : ScannerService}
      (same : later.state.isProcessingQueue = service.state.isProcessingQueue)
      (idle : task.any Task.drains = false) :
      LockMove (fun service : ScannerService => service.state.isProcessingQueue) Task.drains
        service task (later.finish caller).1 (later.finish caller).2 :=
    .kept (by simpa using same) (ScannerService.finish_drains.trans idle.symm)
  have begins {caller : Caller} {task : Option Task} {result : ScannerService × Option Task}
      (begun : service.Begun caller result) (idle : task.any Task.drains = false) :
      LockMove (fun service : ScannerService => service.state.isProcessingQueue) Task.drains
        service task result.1 result.2 := by
    cases begun with
    | skipped => exact ended rfl idle
    | drains free => exact .taken free rfl idle rfl
  cases turn with
  | grow | process => exact .kept rfl rfl
  | own turned =>
  cases turned with
  | call method =>
      cases method with
      | initializeScanner | scanForwards => exact .kept rfl rfl
      | processUnprocessedTransactions => exact begins (service.begun _) rfl
      | startScanning =>
          simp only [ScannerService.call, ScannerService.startScanning]
          split
          · exact ended rfl rfl
          · exact .kept rfl rfl
      | runScanner enableScanner =>
          simp only [ScannerService.call, ScannerService.runScanner, ScannerService.startScanning]
          split
          · exact .kept rfl rfl
          · split
            · exact .kept rfl rfl
            · split
              · exact ended rfl rfl
              · exact .kept rfl rfl
  | @resume _ task reply admitted =>
      have resumed := service.resumed admitted
      generalize service.resume reply task = result at resumed ⊢
      cases resumed with
      | on same effect => exact .kept rfl same
      | begun idle begun => exact begins begun idle
      | released draining =>
          have held : task.drains = true := by
            rw [Task.drains, draining]
            rfl
          refine .given ?_ held ScannerService.finish_drains
          rw [ScannerService.release, ScannerService.finish_fst]
      | completed idle => exact ended rfl idle
      | left idle =>
          refine .kept ?_ ?_
          · cases task.caller <;> rfl
          · rw [ScannerService.leave_snd]
            exact idle.symm

/-- `isRunning` is taken where `runScanner` begins and given back where it ends. -/
theorem moves_run (turn : ScannerTurn admits service task service' task') :
    LockMove (·.state.isRunning) Task.runs service task service' task' := by
  have passes {caller : Caller} {awaits : Await} {later : ScannerService}
      (same : later.state.isRunning = service.state.isRunning) :
      LockMove (fun service : ScannerService => service.state.isRunning) Task.runs service
        (some ⟨caller, awaits⟩) (later.finish caller).1 (later.finish caller).2 :=
    .kept (by simpa using same) ScannerService.finish_runs
  cases turn with
  | grow | process => exact .kept rfl rfl
  | own turned =>
  cases turned with
  | call method =>
      cases method with
      | initializeScanner | scanForwards => exact .kept rfl rfl
      | processUnprocessedTransactions =>
          simp only [ScannerService.call]
          have begun := service.begun .nobody
          generalize service.processUnprocessedTransactions .nobody = result at begun ⊢
          cases begun <;> exact .kept rfl rfl
      | startScanning =>
          simp only [ScannerService.call, ScannerService.startScanning]
          split <;> exact .kept rfl rfl
      | runScanner enableScanner =>
          simp only [ScannerService.call, ScannerService.runScanner, ScannerService.startScanning]
          split
          · exact .kept rfl rfl
          · split
            · exact .kept rfl rfl
            next free => split <;> exact .taken (Bool.eq_false_iff.mpr free) rfl rfl rfl
  | @resume _ task reply admitted =>
      have resumed := service.resumed admitted
      rcases task with ⟨caller, awaits⟩
      generalize service.resume reply ⟨caller, awaits⟩ = result at resumed ⊢
      cases resumed with
      | on same effect => exact .kept rfl rfl
      | begun idle begun =>
          cases begun with
          | skipped => exact passes rfl
          | drains free => exact .kept rfl rfl
      | released draining => exact passes rfl
      | completed idle => exact passes rfl
      | left idle =>
          cases caller with
          | nobody | startScanning => exact .kept rfl rfl
          | runScanner => exact .given rfl rfl rfl

end ScannerTurn

/-- `isProcessingQueue` -/
def drainLock (admits : Await → Reply → Prop) : Lock (ScannerTurn admits) where
  held service := service.state.isProcessingQueue
  holds := Task.drains
  moves := ScannerTurn.moves_drain

/-- `isRunning` -/
def runLock (admits : Await → Reply → Prop) : Lock (ScannerTurn admits) where
  held service := service.state.isRunning
  holds := Task.runs
  moves := ScannerTurn.moves_run

/-! ### A scan and a drain -/

/-- The rows of two transactions, before anything runs. -/
def sampleService : ScannerService :=
  .started (.sample monotone_id 2) (allEvents (.sample monotone_id 2)) ⟨true, false, true, false⟩

/-- `runScanner` is called and stands at its cursor, a drain begins next to it and queues
both rows, and then stands before it marks them. -/
theorem overlapped : ∃ loop, Reaches (ScannerTurn queueWorks) (.idle sampleService) loop ∧
    loop.awaiting.map Task.runs = [true, false] ∧ loop.awaiting.map Task.drains = [false, true] ∧
      loop.state.outside.jobs.length = 2 := by
  let scan : Task := ⟨.runScanner, .newest⟩
  let rows := unprocessedTransactions (allEvents (.sample monotone_id 2))
  let running := (sampleService.call (.runScanner true)).1
  let draining := (running.call .processUnprocessedTransactions).1
  have called : Step (ScannerTurn queueWorks) (.idle sampleService) ⟨running, [scan]⟩ :=
    .turn [] [] (ScannerTurn.own (ServiceTurn.call (.runScanner true)))
  have drains : Step (ScannerTurn queueWorks) ⟨running, [scan]⟩
      ⟨draining, [scan, ⟨.nobody, .unprocessed⟩]⟩ :=
    .turn [scan] [] (ScannerTurn.own (ServiceTurn.call .processUnprocessedTransactions))
  have fetched : draining.resume .done ⟨.nobody, .unprocessed⟩ =
      (draining, some ⟨.nobody, .addBulk rows⟩) := rfl
  have resumed : ScannerTurn queueWorks draining (some ⟨.nobody, .unprocessed⟩)
      (draining.resume .done ⟨.nobody, .unprocessed⟩).1
      (draining.resume .done ⟨.nobody, .unprocessed⟩).2 := .own (.resume trivial)
  rw [fetched] at resumed
  have fetch : Step (ScannerTurn queueWorks) ⟨draining, [scan, ⟨.nobody, .unprocessed⟩]⟩
      ⟨draining, [scan, ⟨.nobody, .addBulk rows⟩]⟩ := .turn [scan] [] resumed
  have queued : Step (ScannerTurn queueWorks) ⟨draining, [scan, ⟨.nobody, .addBulk rows⟩]⟩
      ⟨{ draining with outside := draining.outside.addBulk rows },
        [scan, ⟨.nobody, .updateMany rows⟩]⟩ :=
    .turn [scan] [] (ScannerTurn.own (@ServiceTurn.resume _ _ _ .done rfl))
  refine ⟨_, .tail (.tail (.tail (.single called) drains) fetch) queued, rfl, rfl, ?_⟩
  decide

theorem overlapped_any : ∃ loop, Reaches (ScannerTurn anyReply) (.idle sampleService) loop ∧
    loop.awaiting.map Task.runs = [true, false] ∧ loop.awaiting.map Task.drains = [false, true] ∧
      loop.state.outside.jobs.length = 2 := by
  obtain ⟨loop, reaches, rest⟩ := overlapped
  refine ⟨loop, reaches.of_turns fun service task service' task' turned => ?_, rest⟩
  cases turned with
  | own turned =>
      cases turned with
      | call method => exact .own (.call method)
      | resume admitted => exact .own (.resume trivial)
  | grow extended => exact .grow extended
  | process signature => exact .process signature

/-! ### At most one call -/

/-- However the calls of the scanner overlap and fail, at most one of them drains the
backlog and at most one comes from `runScanner`, and the flags tell whether one does. -/
theorem one_call_each {service : ScannerService} {loop : Loop ScannerService Task}
    (reaches : Reaches (ScannerTurn anyReply) (.idle service) loop)
    (drained : service.state.isProcessingQueue = false)
    (stopped : service.state.isRunning = false) :
    loop.awaiting.countP Task.drains = (if loop.state.state.isProcessingQueue then 1 else 0) ∧
      loop.awaiting.countP Task.runs = (if loop.state.state.isRunning then 1 else 0) := by
  have free : (drainLock anyReply).Counts (.idle service) :=
    (if_neg (by simp [drainLock, Loop.idle, drained])).symm
  have free' : (runLock anyReply).Counts (.idle service) :=
    (if_neg (by simp [runLock, Loop.idle, stopped])).symm
  exact ⟨Lock.counts reaches free, Lock.counts reaches free'⟩

/-- Next to a call of `runScanner`, one drain: both flags are set. -/
theorem one_call_each_overlapped : ∃ loop : Loop ScannerService Task,
    (loop.awaiting.countP Task.drains = (if loop.state.state.isProcessingQueue then 1 else 0) ∧
      loop.awaiting.countP Task.runs = (if loop.state.state.isRunning then 1 else 0)) ∧
    loop.awaiting.map Task.runs = [true, false] := by
  obtain ⟨loop, reaches, runs, -⟩ := overlapped_any
  exact ⟨loop, one_call_each reaches rfl rfl, runs⟩

/-! ## What is never undone -/

/-- What a row keeps. -/
def frozenRow (row : Stored TransactionEvent) : ℕ × TransactionJob :=
  (row._id, row.document.transactionJob)

/-- Rows were added behind the old ones, and marks were set. -/
structure Later (before after : TransactionEvents) : Prop where
  rows : before.rows.map frozenRow <+: after.rows.map frozenRow
  marks : ∀ row ∈ before.rows, ∀ later ∈ after.rows, later._id = row._id →
    (row.document.queued = true → later.document.queued = true) ∧
      (row.document.processed = true → later.document.processed = true)

namespace Later

variable {before middle after events : TransactionEvents}

theorem refl (events : TransactionEvents) : Later events events where
  rows := List.prefix_refl _
  marks row member later member' same := by
    rw [Unindexed.row_eq_of_id member' member same]
    exact ⟨id, id⟩

theorem exists_mem (later : Later before after) {row : Stored TransactionEvent}
    (member : row ∈ before.rows) : ∃ now ∈ after.rows, frozenRow now = frozenRow row :=
  List.mem_map.mp (later.rows.subset (List.mem_map_of_mem member))

theorem trans (first : Later before middle) (second : Later middle after) :
    Later before after where
  rows := first.rows.trans second.rows
  marks row member now member' same := by
    obtain ⟨between, memberBetween, frozen⟩ := first.exists_mem member
    have sameId : between._id = row._id := congrArg Prod.fst frozen
    have early := first.marks row member between memberBetween sameId
    have late := second.marks between memberBetween now member' (same.trans sameId.symm)
    exact ⟨late.1 ∘ early.1, late.2 ∘ early.2⟩

theorem insertBatch (insertion : Insertion) (signatures : List ConfirmedSignatureInfo) :
    Later events (insertBatchTransactionEvent insertion signatures events) := by
  obtain ⟨inserted, rows, -⟩ := rows_runScans [⟨insertion, signatures⟩] events
  have rows : (insertBatchTransactionEvent insertion signatures events).rows =
      events.rows ++ inserted := rows
  refine ⟨?_, fun row member later member' same => ?_⟩
  · rw [rows, List.map_append]
    exact List.prefix_append _ _
  · have stays : row ∈ (insertBatchTransactionEvent insertion signatures events).rows :=
      rows ▸ List.mem_append_left inserted member
    rw [Unindexed.row_eq_of_id member' stays same]
    exact ⟨id, id⟩

/-- An update that keeps the frozen part of all rows, and of each row its marks. -/
theorem of_assigned (rows : after.rows.map frozenRow = before.rows.map frozenRow)
    (assigned : ∀ later ∈ after.rows, ∃ row ∈ before.rows, row._id = later._id ∧
      (row.document.queued = true → later.document.queued = true) ∧
      (row.document.processed = true → later.document.processed = true)) :
    Later before after where
  rows := rows ▸ List.prefix_refl _
  marks row member later member' same := by
    obtain ⟨source, memberSource, sameId, kept⟩ := assigned later member'
    rw [Unindexed.row_eq_of_id member memberSource (same.symm.trans sameId.symm)]
    exact kept

theorem markQueued (ids : List ℕ) :
    Later events (events.updateMany ids TransactionEvent.setQueued) := by
  refine of_assigned ?_ fun later member => ?_
  · change (events.rows.map _).map frozenRow = _
    rw [List.map_map]
    refine List.map_congr_left fun row _ => ?_
    simp only [Function.comp_apply, Unindexed.assignAmong]
    split <;> rfl
  · obtain ⟨row, stored, rfl⟩ := List.mem_map.mp member
    refine ⟨row, stored, (Unindexed.assignAmong_id _ _ _).symm, ?_⟩
    rw [Unindexed.assignAmong]
    split
    · exact ⟨fun _ => rfl, id⟩
    · exact ⟨id, id⟩

theorem markProcessed (filter : TransactionEvent → Bool) :
    Later events (events.updateOne filter fun event => { event with processed := true }) := by
  refine of_assigned (Unindexed.map_assignFirst (fun _ => rfl) _) fun later member => ?_
  rcases Unindexed.mem_assignFirst member with old | ⟨row, stored, -, rfl⟩
  · exact ⟨later, old, rfl, id, id⟩
  · exact ⟨row, stored, rfl, id, fun _ => rfl⟩

end Later

/-! ## Rows, jobs and the chain -/

/-- The transaction of the row is on the chain and succeeded. -/
def Chained (history : History) (event : TransactionEvent) : Prop :=
  ∃ tx ∈ history.transactions, tx.err = false ∧
    tx.transactionEvent.transactionJob = event.transactionJob

/-- The collection has the row, whatever its marks. -/
def Known (events : TransactionEvents) (row : Stored TransactionEvent) : Prop :=
  ∃ stored ∈ events.rows, SameJob row stored

/-- The pages in hand are from the chain, and the rows in hand from the collection. -/
def Await.Sound (outside : Outside) : Await → Prop
  | .insertNewer page => page ⊆ outside.history.transactions
  | .insertOlder first page => first :: page ⊆ outside.history.transactions
  | .addBulk transactions => ∀ row ∈ transactions, Known outside.events row
  | .updateMany transactions => transactions ⊆ outside.served
  | _ => True

/-- The queue holds the jobs of the served rows, which the collection has, and the rows
marked as queued were so at the start or have a job. -/
structure Served (start : TransactionEvents) (outside : Outside) : Prop where
  jobs : outside.jobs = outside.served.map (·.document.transactionJob)
  known : ∀ row ∈ outside.served, Known outside.events row
  accounted : ∀ row ∈ outside.events.rows, row.document.queued = true →
    Accounted start outside.served row

/-- The rows are of the chain. -/
def Outside.OfChain (outside : Outside) : Prop :=
  ∀ event ∈ outside.events.documents, Chained outside.history event

/-- The queue holds the jobs of the served rows, which the collection has; the rows are of
the chain, and those marked as queued were so at the start or have a job. -/
structure Consistent (start : TransactionEvents) (outside : Outside) : Prop
    extends Served start outside where
  chained : outside.OfChain

/-- Nothing outside is taken back. -/
structure Outside.Grows (before after : Outside) : Prop where
  history : before.history.Extends after.history
  events : Later before.events after.events
  served : before.served <+: after.served

theorem Known.later {before after : TransactionEvents} {row : Stored TransactionEvent}
    (known : Known before row) (later : Later before after) : Known after row := by
  obtain ⟨stored, member, same, job⟩ := known
  obtain ⟨now, member', frozen⟩ := later.exists_mem member
  exact ⟨now, member', same.trans (congrArg Prod.fst frozen).symm,
    job.trans (congrArg Prod.snd frozen).symm⟩

theorem Await.Sound.grows {before after : Outside} {awaits : Await} (sound : awaits.Sound before)
    (grows : before.Grows after) : awaits.Sound after := by
  cases awaits with
  | insertNewer | insertOlder => exact List.Subset.trans sound grows.history.subset
  | addBulk transactions => exact fun row member => (sound row member).later grows.events
  | updateMany transactions => exact List.Subset.trans sound grows.served.subset
  | _ => trivial

namespace Effect

variable {admits : Await → Reply → Prop} {outside outside' : Outside}
variable {before after : Option Await} {start : TransactionEvents}

theorem grows (effect : Effect admits outside before outside' after) :
    outside.Grows outside' := by
  have same : outside.history.Extends outside.history := List.prefix_refl _
  have kept : outside.served <+: outside.served := List.prefix_refl _
  cases effect with
  | quiet | fetchNewer | fetchOlder | batch => exact ⟨same, .refl _, kept⟩
  | insertNewer | insertOlder => exact ⟨same, .insertBatch _ _, kept⟩
  | added | addFailed => exact ⟨same, .refl _, List.prefix_append _ _⟩
  | marked | markFailed => exact ⟨same, .markQueued _, kept⟩
  | grow extended => exact ⟨extended, .refl _, kept⟩
  | process signature => exact ⟨same, .markProcessed _, kept⟩

/-- What a call has in hand after a turn is sound. -/
theorem sound (effect : Effect admits outside before outside' after)
    (sound : ∀ awaits ∈ before, awaits.Sound outside) :
    ∀ awaits ∈ after, awaits.Sound outside' := by
  have plainly {awaits : Await} (plain : awaits.plain = true) : awaits.Sound outside' := by
    cases awaits with
    | insertNewer | insertOlder | addBulk | updateMany => cases plain
    | _ => trivial
  have plainlyAll (plain : after.all Await.plain = true) :
      ∀ awaits ∈ after, awaits.Sound outside' := by
    intro awaits member
    rw [Option.mem_def.mp member] at plain
    exact plainly plain
  cases effect with
  | quiet free plain => exact plainlyAll plain
  | insertNewer | insertOlder | addFailed | marked | markFailed => exact plainlyAll rfl
  | grow | process => exact plainlyAll rfl
  | fetchNewer onChain | fetchOlder onChain =>
      rintro _ ⟨⟩
      exact onChain
  | batch =>
      rintro _ ⟨⟩ row member
      exact ⟨row, stored_unprocessed row member, rfl, rfl⟩
  | added =>
      rintro _ ⟨⟩
      exact List.subset_append_right _ _

end Effect

theorem Scanner.Accounted.of_sameJob {start : TransactionEvents}
    {served : List (Stored TransactionEvent)} {row later : Stored TransactionEvent}
    (accounted : Accounted start served row) (same : SameJob row later) :
    Accounted start served later := by
  rcases accounted with ⟨old, member, queued, first⟩ | ⟨other, member, first⟩
  · exact .inl ⟨old, member, queued, first.trans same⟩
  · exact .inr ⟨other, member, first.trans same⟩

theorem Scanner.Accounted.of_served {start : TransactionEvents}
    {served more : List (Stored TransactionEvent)} {row : Stored TransactionEvent}
    (accounted : Accounted start served row) (grown : served ⊆ more) :
    Accounted start more row :=
  accounted.imp_right fun ⟨other, member, same⟩ => ⟨other, grown member, same⟩

theorem Chained.extend {history later : History} {event : TransactionEvent}
    (chained : Chained history event) (extended : history.Extends later) :
    Chained later event := by
  obtain ⟨tx, member, success, same⟩ := chained
  exact ⟨tx, extended.subset member, success, same⟩

namespace Outside.OfChain

variable {outside : Outside}

theorem insert (chained : outside.OfChain) (insertion : Insertion)
    {page : List ConfirmedSignatureInfo} (onChain : page ⊆ outside.history.transactions) :
    (outside.insert insertion page).OfChain := by
  intro event member
  change event ∈ (insertBatchTransactionEvent insertion page outside.events).documents at member
  rw [documents_insertBatch, List.mem_append, List.mem_filter, mem_successEvents] at member
  rcases member with old | ⟨⟨tx, fetched, success, rfl⟩, -⟩
  · exact chained event old
  · exact ⟨tx, onChain fetched, success, rfl⟩

theorem markQueued (chained : outside.OfChain) (transactions : List (Stored TransactionEvent)) :
    (outside.markQueued transactions).OfChain := by
  intro event member
  obtain ⟨row, assigned, rfl⟩ := List.mem_map.mp member
  obtain ⟨old, stored, rfl⟩ := List.mem_map.mp assigned
  obtain ⟨tx, onChain, success, same⟩ := chained old.document (List.mem_map_of_mem stored)
  refine ⟨tx, onChain, success, same.trans ?_⟩
  rw [Unindexed.assignAmong]
  split <;> rfl

theorem markProcessed (chained : outside.OfChain) (signature : String) :
    (outside.markProcessed signature).OfChain := by
  intro event member
  obtain ⟨row, assigned, rfl⟩ := List.mem_map.mp member
  rcases Unindexed.mem_assignFirst assigned with old | ⟨source, stored, -, rfl⟩
  · exact chained row.document (List.mem_map_of_mem old)
  · exact chained source.document (List.mem_map_of_mem stored)

/-- Every turn keeps the rows of the chain. -/
theorem effect {admits : Await → Reply → Prop} {outside' : Outside} {before after : Option Await}
    (chained : outside.OfChain) (effect : Effect admits outside before outside' after)
    (sound : ∀ awaits ∈ before, awaits.Sound outside) : outside'.OfChain := by
  cases effect with
  | quiet | fetchNewer | fetchOlder | batch | added | addFailed => exact chained
  | insertNewer insertion | insertOlder insertion => exact chained.insert insertion (sound _ rfl)
  | marked | markFailed => exact chained.markQueued _
  | grow extended => exact fun event member => (chained event member).extend extended
  | process signature => exact chained.markProcessed signature

end Outside.OfChain

namespace Served

variable {start : TransactionEvents} {outside : Outside}

theorem insert (served : Served start outside) (insertion : Insertion)
    (page : List ConfirmedSignatureInfo) : Served start (outside.insert insertion page) where
  jobs := served.jobs
  known row listed := (served.known row listed).later (.insertBatch _ _)
  accounted row member queued := by
    have stored : row ∈ (runScans [⟨insertion, page⟩] outside.events).rows := member
    exact served.accounted row (mem_of_queued stored queued) queued

theorem addBulk (served : Served start outside) {transactions : List (Stored TransactionEvent)}
    (known : ∀ row ∈ transactions, Known outside.events row) :
    Served start (outside.addBulk transactions) where
  jobs := by
    change outside.jobs ++ _ = (outside.served ++ transactions).map _
    rw [served.jobs, List.map_append]
  known := List.forall_mem_append.mpr ⟨served.known, known⟩
  accounted row member queued :=
    (served.accounted row member queued).of_served (List.subset_append_left _ _)

theorem markQueued (served : Served start outside)
    {transactions : List (Stored TransactionEvent)} (among : transactions ⊆ outside.served) :
    Served start (outside.markQueued transactions) where
  jobs := served.jobs
  known row member := (served.known row member).later (.markQueued _)
  accounted row member queued := by
    obtain ⟨old, stored, rfl⟩ := List.mem_map.mp member
    by_cases marked : old._id ∈ transactions.map (·._id)
    · rw [Unindexed.assignAmong_of_mem _ marked]
      obtain ⟨transaction, listed, same⟩ := List.mem_map.mp marked
      obtain ⟨other, storedOther, sameOther⟩ := served.known transaction (among listed)
      have here := Unindexed.row_eq_of_id storedOther stored (sameOther.1.symm.trans same)
      exact .inr ⟨transaction, among listed, same, here ▸ sameOther.2⟩
    · rw [Unindexed.assignAmong_of_not_mem _ marked] at queued ⊢
      exact served.accounted old stored queued

theorem markProcessed (served : Served start outside) (signature : String) :
    Served start (outside.markProcessed signature) where
  jobs := served.jobs
  known row member := (served.known row member).later (.markProcessed _)
  accounted row member queued := by
    rcases Unindexed.mem_assignFirst member with old | ⟨source, stored, -, rfl⟩
    · exact served.accounted row old queued
    · exact (served.accounted source stored queued).of_sameJob ⟨rfl, rfl⟩

/-- Every turn keeps it. -/
theorem effect {admits : Await → Reply → Prop} {outside' : Outside} {before after : Option Await}
    (served : Served start outside) (effect : Effect admits outside before outside' after)
    (sound : ∀ awaits ∈ before, awaits.Sound outside) : Served start outside' := by
  cases effect with
  | quiet | fetchNewer | fetchOlder | batch => exact served
  | insertNewer insertion | insertOlder insertion => exact served.insert insertion _
  | added => exact served.addBulk (sound _ rfl)
  | addFailed =>
      exact served.addBulk fun row member => sound _ rfl row (List.mem_filter.mp member).1
  | marked => exact served.markQueued (sound _ rfl)
  | markFailed =>
      exact served.markQueued fun row member => sound _ rfl (List.mem_filter.mp member).1
  | grow => exact ⟨served.jobs, served.known, served.accounted⟩
  | process signature => exact served.markProcessed signature

end Served

namespace ScannerTurn

variable {admits : Await → Reply → Prop} {service service' : ScannerService}
variable {task task' : Option Task}

/-- Every turn has one of the effects. -/
theorem effect (turn : ScannerTurn admits service task service' task') :
    Effect admits service.outside (task.map Task.awaits) service'.outside
      (task'.map Task.awaits) := by
  have ends {before : Option Await} {caller : Caller} {later : ScannerService}
      (same : later.outside = service.outside) (free : before.any Await.carries = false) :
      Effect admits service.outside before (later.finish caller).1.outside
        ((later.finish caller).2.map Task.awaits) := by
    rw [ScannerService.finish_fst, same]
    exact .quiet free ScannerService.finish_plain
  have begins {before : Option Await} {caller : Caller} {result : ScannerService × Option Task}
      (begun : service.Begun caller result) (free : before.any Await.carries = false) :
      Effect admits service.outside before result.1.outside (result.2.map Task.awaits) := by
    cases begun with
    | skipped => exact ends rfl free
    | drains => exact .quiet free rfl
  cases turn with
  | grow extended => exact .grow extended
  | process signature => exact .process signature
  | own turned =>
  cases turned with
  | call method =>
      cases method with
      | initializeScanner | scanForwards => exact .quiet rfl rfl
      | processUnprocessedTransactions => exact begins (service.begun _) rfl
      | startScanning =>
          simp only [ScannerService.call, ScannerService.startScanning]
          split
          · exact ends rfl rfl
          · exact .quiet rfl rfl
      | runScanner enableScanner =>
          simp only [ScannerService.call, ScannerService.runScanner, ScannerService.startScanning]
          split
          · exact .quiet rfl rfl
          · split
            · exact .quiet rfl rfl
            · split
              · exact ends rfl rfl
              · exact .quiet rfl rfl
  | @resume _ task reply admitted =>
      have resumed := service.resumed admitted
      generalize service.resume reply task = result at resumed ⊢
      cases resumed with
      | on same effect => exact effect
      | begun idle begun => exact begins begun (Await.carries_of_idle idle)
      | released draining => exact ends rfl (by rw [Option.map_some, draining]; rfl)
      | completed idle => exact ends rfl (Await.carries_of_idle idle)
      | left idle =>
          rw [ScannerService.leave_outside, ScannerService.leave_snd]
          exact .quiet (Await.carries_of_idle idle) rfl

end ScannerTurn

section Runs

variable {admits : Await → Reply → Prop} {start : TransactionEvents}
variable {loop later : Loop ScannerService Task}

/-- What runs keep of the world outside. -/
def Keeps (start : TransactionEvents) (loop : Loop ScannerService Task) : Prop :=
  Served start loop.state.outside ∧
    ∀ task ∈ loop.awaiting, task.awaits.Sound loop.state.outside

/-- What the call that takes its turn has in hand is sound. -/
theorem Keeps.inHand {service : ScannerService} {task : Option Task} {before after : List Task}
    (keeps : Keeps start ⟨service, before ++ task.toList ++ after⟩) :
    ∀ awaits ∈ task.map Task.awaits, awaits.Sound service.outside := by
  intro awaits member
  obtain ⟨first, same, rfl⟩ := Option.map_eq_some_iff.mp (Option.mem_def.mp member)
  exact (forall_mem_awaiting.mp keeps.2).2 first same

theorem Keeps.turn {service service' : ScannerService} {task task' : Option Task}
    {before after : List Task}
    (keeps : Keeps start ⟨service, before ++ task.toList ++ after⟩)
    (turn : ScannerTurn admits service task service' task') :
    Keeps start ⟨service', before ++ task'.toList ++ after⟩ := by
  have hand := keeps.inHand
  obtain ⟨served, sound⟩ := keeps
  refine ⟨served.effect turn.effect hand, forall_mem_awaiting.mpr
    ⟨fun other member => ((forall_mem_awaiting.mp sound).1 other member).grows turn.effect.grows,
      fun next same => ?_⟩⟩
  exact turn.effect.sound hand next.awaits (Option.mem_map_of_mem _ same)

theorem Keeps.reaches (keeps : Keeps start loop)
    (reaches : Reaches (ScannerTurn admits) loop later) : Keeps start later :=
  reaches.invariant (Keeps start) keeps fun _ _ _ _ _ _ turned kept => kept.turn turned

theorem later_of_reaches (reaches : Reaches (ScannerTurn admits) loop later) :
    Later loop.state.outside.events later.state.outside.events :=
  reaches.invariant (fun now => Later loop.state.outside.events now.state.outside.events)
    (.refl _) fun _ _ _ _ _ _ turned kept => kept.trans turned.effect.grows.events

theorem keeps_started (history : History) (events : TransactionEvents) (state : ScannerState) :
    Keeps events (.idle (.started history events state)) :=
  ⟨⟨rfl, nofun, fun row member queued => .inl ⟨row, member, queued, rfl, rfl⟩⟩, nofun⟩

theorem consistent_of_reaches {history : History} {events : TransactionEvents}
    (state : ScannerState) (chained : ∀ event ∈ events.documents, Chained history event)
    (reaches : Reaches (ScannerTurn admits) (.idle (.started history events state)) loop) :
    Consistent events loop.state.outside := by
  have kept : Keeps events loop ∧ loop.state.outside.OfChain := by
    refine reaches.invariant (fun now => Keeps events now ∧ now.state.outside.OfChain)
      ⟨keeps_started history events state, chained⟩ ?_
    rintro service task service' task' before after turned ⟨keeps, ofChain⟩
    exact ⟨keeps.turn turned, ofChain.effect turned.effect keeps.inHand⟩
  exact ⟨kept.1.1, kept.2⟩

/-- However the calls of the scanner overlap and fail, while the chain grows and jobs are
processed: no row is removed or moved, its `_id`, signature and block never change, and its
marks are never taken back; every row belongs to a successful transaction of the chain; the
jobs of the queue were made of rows; and a row that is marked as queued, and was not at the
start, has a job. -/
theorem scanner_keeps_rows {history : History} {events : TransactionEvents} (state : ScannerState)
    (chained : ∀ event ∈ events.documents, Chained history event)
    (reaches : Reaches (ScannerTurn anyReply) (.idle (.started history events state)) loop)
    (further : Reaches (ScannerTurn anyReply) loop later) :
    Later loop.state.outside.events later.state.outside.events ∧
      Consistent events loop.state.outside :=
  ⟨later_of_reaches further, consistent_of_reaches state chained reaches⟩

theorem chained_allEvents (history : History) :
    ∀ event ∈ (allEvents history).documents, Chained history event := by
  intro event member
  rw [documents_allEvents, mem_successEvents] at member
  obtain ⟨tx, onChain, success, rfl⟩ := member
  exact ⟨tx, onChain, success, rfl⟩

/-- Two jobs, of rows that have no mark yet. -/
theorem scanner_keeps_rows_overlapped : ∃ loop : Loop ScannerService Task,
    (Later sampleService.outside.events loop.state.outside.events ∧
      Consistent (allEvents (.sample monotone_id 2)) loop.state.outside) ∧
    loop.state.outside.jobs.length = 2 := by
  obtain ⟨loop, reaches, -, -, jobs⟩ := overlapped_any
  have kept := scanner_keeps_rows _ (chained_allEvents _) .refl reaches
  exact ⟨loop, ⟨kept.1, (scanner_keeps_rows _ (chained_allEvents _) reaches .refl).2⟩, jobs⟩

end Runs

/-! ## One job a row -/

/-- The rows that a call is about to mark. -/
def Marking (awaiting : List Task) (id : ℕ) : Prop :=
  ∃ task ∈ awaiting, ∃ transactions, task.awaits = .updateMany transactions ∧
    id ∈ transactions.map (·._id)

/-- No row was served twice or is about to be, and every served row is marked or is about
to be. -/
structure Once (outside : Outside) (awaiting : List Task) : Prop where
  served : (outside.served.map (·._id)).Nodup
  fresh : ∀ task ∈ awaiting, ∀ transactions, task.awaits = .addBulk transactions →
    ((outside.served ++ transactions).map (·._id)).Nodup
  marked : ∀ row ∈ outside.events.rows, row._id ∈ outside.served.map (·._id) →
    row.document.queued = true ∨ Marking awaiting row._id

section Once

variable {outside outside' : Outside} {before after : List Task} {task' : Option Task}

/-- Where no other call has rows in hand, only this one marks. -/
theorem Marking.of_alone {caller : Caller} {awaits : Await} {id : ℕ}
    (marking : Marking (before ++ (some (⟨caller, awaits⟩ : Task)).toList ++ after) id)
    (alone : ∀ other ∈ before ++ after, other.awaits.carries = false) :
    ∃ transactions, awaits = .updateMany transactions ∧ id ∈ transactions.map (·._id) := by
  obtain ⟨task, member, transactions, stands, here⟩ := marking
  have others (member : task ∈ before ++ after) : False := by
    have carried := alone task member
    rw [stands] at carried
    cases carried
  simp only [List.mem_append, Option.mem_toList, Option.some_inj] at member others
  rcases member with (first | rfl) | second
  · exact (others (.inl first)).elim
  · exact ⟨transactions, stands, here⟩
  · exact (others (.inr second)).elim

/-- A served row is there under its `_id`, and a mark that it has stays. -/
theorem Once.marked_later {start : TransactionEvents} {awaiting more : List Task}
    (once : Once outside awaiting) (served : Served start outside)
    (later : Later outside.events outside'.events)
    (kept : ∀ id, Marking awaiting id → Marking more id) :
    ∀ row ∈ outside'.events.rows, row._id ∈ outside.served.map (·._id) →
      row.document.queued = true ∨ Marking more row._id := by
  intro row member among
  obtain ⟨source, listed, same⟩ := List.mem_map.mp among
  obtain ⟨stored, memberStored, sameStored⟩ := served.known source listed
  have sameId : row._id = stored._id := same.symm.trans sameStored.1
  rcases once.marked stored memberStored (by rw [← sameId]; exact among) with queued | marking
  · exact .inl ((later.marks stored memberStored row member sameId).1 queued)
  · exact .inr (sameId ▸ kept _ marking)

/-- A turn of a call without rows in hand, which leaves it without rows in hand. -/
theorem Once.of_free {start : TransactionEvents} {task : Option Task}
    (once : Once outside (before ++ task.toList ++ after)) (served : Served start outside)
    (kept : outside'.served = outside.served) (later : Later outside.events outside'.events)
    (free : ∀ now ∈ task, now.awaits.carries = false)
    (free' : ∀ now ∈ task', now.awaits.carries = false) :
    Once outside' (before ++ task'.toList ++ after) := by
  have others {now : Task} (member : now ∈ before ++ after) (old : Option Task) :
      now ∈ before ++ old.toList ++ after := by
    rcases List.mem_append.mp member with first | second
    · exact List.mem_append_left _ (List.mem_append_left _ first)
    · exact List.mem_append_right _ second
  refine ⟨kept ▸ once.served, forall_mem_awaiting.mpr ⟨fun now member transactions stands => ?_,
    fun now same transactions stands => ?_⟩, ?_⟩
  · rw [kept]
    exact once.fresh now (others member task) transactions stands
  · have carried := free' now same
    rw [stands] at carried
    cases carried
  · rw [kept]
    refine once.marked_later served later fun id marking => ?_
    obtain ⟨now, member, transactions, stands, here⟩ := marking
    have elsewhere : now ∈ before ++ after := by
      simp only [List.mem_append, Option.mem_toList] at member ⊢
      rcases member with (first | same) | second
      · exact .inl first
      · have carried := free now same
        rw [stands] at carried
        cases carried
      · exact .inr second
    exact ⟨now, others elsewhere task', transactions, stands, here⟩

/-- A turn of the only call that drains: no other call has rows in hand. -/
theorem Once.of_alone {caller : Caller} {awaits' : Await}
    (alone : ∀ other ∈ before ++ after, other.awaits.carries = false)
    (served : (outside'.served.map (·._id)).Nodup)
    (fresh : ∀ transactions, awaits' = .addBulk transactions →
      ((outside'.served ++ transactions).map (·._id)).Nodup)
    (marked : ∀ row ∈ outside'.events.rows, row._id ∈ outside'.served.map (·._id) →
      row.document.queued = true ∨
        ∃ transactions, awaits' = .updateMany transactions ∧ row._id ∈ transactions.map (·._id)) :
    Once outside' (before ++ (some (⟨caller, awaits'⟩ : Task)).toList ++ after) := by
  refine ⟨served, forall_mem_awaiting.mpr ⟨fun other member transactions stands => ?_, ?_⟩,
    fun row member among => ?_⟩
  · have carried := alone other member
    rw [stands] at carried
    cases carried
  · rintro _ ⟨⟩ transactions stands
    exact fresh transactions stands
  · refine (marked row member among).imp_right fun ⟨transactions, stands, here⟩ => ?_
    exact ⟨⟨caller, awaits'⟩, by simp, transactions, stands, here⟩

/-- A turn in which the queue and its marks work. -/
theorem Once.turn {start : TransactionEvents} {service service' : ScannerService}
    {task : Option Task} (once : Once service.outside (before ++ task.toList ++ after))
    (keeps : Keeps start ⟨service, before ++ task.toList ++ after⟩)
    (counts : (drainLock queueWorks).Counts ⟨service, before ++ task.toList ++ after⟩)
    (turn : ScannerTurn queueWorks service task service' task') :
    Once service'.outside (before ++ task'.toList ++ after) := by
  obtain ⟨served, -⟩ := keeps
  have effect := turn.effect
  have later := effect.grows.events
  have standing {task : Option Task} {awaits : Await}
      (same : task.map Task.awaits = some awaits) : ∃ caller, task = some ⟨caller, awaits⟩ := by
    obtain ⟨⟨caller, _⟩, rfl, rfl⟩ := Option.map_eq_some_iff.mp same
    exact ⟨caller, rfl⟩
  have free {task : Option Task} (none : (task.map Task.awaits).any Await.carries = false) :
      ∀ now ∈ task, now.awaits.carries = false := by
    rintro now ⟨⟩
    exact none
  have alone {caller : Caller} {awaits : Await} (here : task = some ⟨caller, awaits⟩)
      (drains : awaits.drains = true) :
      ∀ other ∈ before ++ after, other.awaits.carries = false := by
    subst here
    exact fun other member => Await.carries_of_idle (Lock.alone counts drains other member)
  generalize stands : task.map Task.awaits = awaits at effect
  generalize stands' : task'.map Task.awaits = awaits' at effect
  generalize service'.outside = outside' at effect later ⊢
  have plainly (plain : awaits'.all Await.plain = true) :
      ∀ now ∈ task', now.awaits.carries = false := by
    rintro now ⟨⟩
    rw [← stands', Option.map_some, Option.all_some] at plain
    cases stood : now.awaits <;> rw [stood] at plain <;> first | rfl | cases plain
  cases effect with
  | quiet free' plain =>
      exact once.of_free served rfl later (free (stands ▸ free')) (plainly plain)
  | fetchNewer | fetchOlder =>
      exact once.of_free served rfl later (free (by rw [stands]; rfl))
        (free (by rw [stands']; rfl))
  | insertNewer | insertOlder | grow | process =>
      exact once.of_free served rfl later (free (by rw [stands]; rfl)) (plainly rfl)
  | batch =>
      obtain ⟨caller, rfl⟩ := standing stands
      obtain ⟨caller', rfl⟩ := standing stands'
      have alone := alone rfl rfl
      have marked (row : Stored TransactionEvent) (member : row ∈ service.outside.events.rows)
          (among : row._id ∈ service.outside.served.map (·._id)) :
          row.document.queued = true := by
        refine (once.marked row member among).resolve_right fun marking => ?_
        obtain ⟨_, ⟨⟩, -⟩ := marking.of_alone alone
      refine .of_alone alone once.served (fun transactions same => ?_)
        fun row member among => .inl (marked row member among)
      cases same
      rw [List.map_append]
      refine List.nodup_append.mpr ⟨once.served,
        (nodup_ids_pendingRows _).sublist ((List.take_sublist _ _).map _), ?_⟩
      rintro id among _ fetched rfl
      obtain ⟨row, listed, rfl⟩ := List.mem_map.mp fetched
      obtain ⟨stored, pending⟩ := mem_pendingRows.mp (List.mem_of_mem_take listed)
      rw [TransactionEvent.pending, marked row stored among, Bool.not_true, Bool.and_false]
        at pending
      cases pending
  | @added transactions =>
      obtain ⟨caller, rfl⟩ := standing stands
      obtain ⟨caller', rfl⟩ := standing stands'
      have alone := alone rfl rfl
      refine .of_alone alone (once.fresh ⟨caller, .addBulk transactions⟩ (by simp) _ rfl)
        (by rintro _ ⟨⟩) fun row member among => ?_
      change row._id ∈ (service.outside.served ++ transactions).map (·._id) at among
      rw [List.map_append, List.mem_append] at among
      refine among.imp (fun old => ?_) fun new => ⟨transactions, rfl, new⟩
      refine (once.marked row member old).resolve_right fun marking => ?_
      obtain ⟨_, ⟨⟩, -⟩ := marking.of_alone alone
  | addFailed admitted | markFailed admitted => cases admitted
  | @marked transactions =>
      obtain ⟨caller, rfl⟩ := standing stands
      obtain ⟨caller', rfl⟩ := standing stands'
      have alone := alone rfl rfl
      refine .of_alone alone once.served (by rintro _ ⟨⟩) fun row member among => .inl ?_
      obtain ⟨old, stored, rfl⟩ := List.mem_map.mp member
      by_cases here : old._id ∈ transactions.map (·._id)
      · rw [Unindexed.assignAmong_of_mem _ here]
        rfl
      · rw [Unindexed.assignAmong_of_not_mem _ here] at among ⊢
        refine (once.marked old stored among).resolve_right fun marking => ?_
        obtain ⟨_, ⟨⟩, listed⟩ := marking.of_alone alone
        exact here listed

end Once

/-- However the calls of the scanner overlap, while the chain grows and jobs are processed:
as long as the calls of the queue and the marks that follow them do not fail, whatever else
fails, no row is ever given a second job, and every row with a job is marked as soon as no
call drains the backlog. -/
theorem one_job_each {history : History} {events : TransactionEvents} {state : ScannerState}
    {loop : Loop ScannerService Task}
    (drained : state.isProcessingQueue = false)
    (reaches : Reaches (ScannerTurn queueWorks) (.idle (.started history events state)) loop) :
    loop.state.outside.jobs = loop.state.outside.served.map (·.document.transactionJob) ∧
      (loop.state.outside.served.map (·._id)).Nodup ∧
      (loop.state.state.isProcessingQueue = false → ∀ row ∈ loop.state.outside.events.rows,
        row._id ∈ loop.state.outside.served.map (·._id) → row.document.queued = true) := by
  have free : (drainLock queueWorks).Counts (.idle (.started history events state)) :=
    (if_neg (by simp [drainLock, Loop.idle, ScannerService.started, drained])).symm
  have first : Once (ScannerService.started history events state).outside [] :=
    ⟨List.nodup_nil, nofun, fun _ _ among => absurd among List.not_mem_nil⟩
  have kept : ((drainLock queueWorks).Counts loop ∧ Keeps events loop) ∧
      Once loop.state.outside loop.awaiting := by
    refine reaches.invariant (fun now => ((drainLock queueWorks).Counts now ∧ Keeps events now) ∧
      Once now.state.outside now.awaiting) ⟨⟨free, keeps_started _ _ _⟩, first⟩ ?_
    rintro service task service' task' before after turned ⟨⟨counts, keeps⟩, once⟩
    exact ⟨⟨Lock.counts (.single (.turn before after turned)) counts, keeps.turn turned⟩,
      once.turn keeps counts turned⟩
  obtain ⟨⟨counts, keeps⟩, once⟩ := kept
  refine ⟨keeps.1.jobs, once.served, fun released row member among => ?_⟩
  refine (once.marked row member among).resolve_right ?_
  rintro ⟨task, awaiting, transactions, stands, -⟩
  have idle : task.awaits.drains = false := Lock.none_holds counts released task awaiting
  rw [stands] at idle
  cases idle

theorem one_job_each_overlapped : ∃ loop : Loop ScannerService Task,
    (loop.state.outside.jobs = loop.state.outside.served.map (·.document.transactionJob) ∧
      (loop.state.outside.served.map (·._id)).Nodup ∧
      (loop.state.state.isProcessingQueue = false → ∀ row ∈ loop.state.outside.events.rows,
        row._id ∈ loop.state.outside.served.map (·._id) → row.document.queued = true)) ∧
    loop.state.outside.jobs.length = 2 := by
  obtain ⟨loop, reaches, -, -, jobs⟩ := overlapped
  exact ⟨loop, one_job_each rfl reaches, jobs⟩

end DlmmIndexer

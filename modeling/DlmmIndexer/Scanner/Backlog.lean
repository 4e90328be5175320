import DlmmIndexer.Scanner.Service
import DlmmIndexer.Transactions.Processor
import Mathlib.Data.List.GetD
import Mathlib.Data.List.Perm.Subperm

/-!
# Draining the backlog

`processUnprocessedTransactions` queues the rows that are neither processed nor queued,
in batches of a hundred.  Its loop has no cursor: a batch is the first page of a query
whose filter the mark of `queueTransactionForProcessing` makes false.

A turn of the loop gets the scans that ran since the one before and how its outside calls
end.  An error of the queue or of the update is caught in `queueTransactionForProcessing`
and the loop continues; an error of the query leaves the loop.
-/

namespace DlmmIndexer

open Documents Machine StableSort

/-- `{ processed: false, queued: { $ne: true } }` -/
def TransactionEvent.pending (event : TransactionEvent) : Bool := !event.processed && !event.queued

/-- `{ queued: true }` -/
def TransactionEvent.setQueued (event : TransactionEvent) : TransactionEvent :=
  { event with queued := true }

@[simp] theorem TransactionEvent.pending_setQueued (event : TransactionEvent) :
    event.setQueued.pending = false := Bool.and_false _

@[simp] theorem TransactionEvent.setQueued_setQueued (event : TransactionEvent) :
    event.setQueued.setQueued = event.setQueued := rfl

@[simp] theorem TransactionEvent.transactionJob_setQueued (event : TransactionEvent) :
    event.setQueued.transactionJob = event.transactionJob := rfl

@[simp] theorem ConfirmedSignatureInfo.pending_transactionEvent (tx : ConfirmedSignatureInfo) :
    tx.transactionEvent.pending = true := rfl

namespace Scanner

/-- The key of `sort({ blockNumber: 1, _id: 1 })`. -/
def position (row : Stored TransactionEvent) : ℕ ×ₗ ℕ := toLex (row.document.blockNumber, row._id)

/-! ## The loop -/

/-- A scan: the page it inserts, and how the insertion ends. -/
structure Scan where
  insertion : Insertion
  signatures : List ConfirmedSignatureInfo

def runScans (scans : List Scan) (events : TransactionEvents) : TransactionEvents :=
  scans.foldl
    (fun events scan => insertBatchTransactionEvent scan.insertion scan.signatures events) events

/-- How the two calls of `queueTransactionForProcessing` end.  A failing call may have done
any part of its work. -/
inductive Queueing where
  | done
  | addFailed (kept : Stored TransactionEvent → Bool)
  | updateFailed (kept : Stored TransactionEvent → Bool)

/-- What happens around one turn of the loop. -/
structure Turn where
  /-- The scans since the last query. -/
  scans : List Scan
  /-- `none` when the query throws. -/
  queueing : Option Queueing

/-- The flags of the service, the collection and the queue. -/
structure Backlog where
  events : TransactionEvents
  isBackwardScanComplete : Bool
  isProcessingQueue : Bool
  jobs : List TransactionJob
  /-- For every call of `addBulk`, the rows whose jobs it has added. -/
  batches : List (List (Stored TransactionEvent))

/-- The rows with a job. -/
def Backlog.served (backlog : Backlog) : List (Stored TransactionEvent) := backlog.batches.flatten

/-- `addBulk`, as far as it stores the jobs. -/
def Backlog.addBulk (transactions : List (Stored TransactionEvent)) (backlog : Backlog) : Backlog :=
  { backlog with
    jobs := backlog.jobs ++ transactions.map (·.document.transactionJob)
    batches := backlog.batches ++ [transactions] }

/-- The marks of `updateMany`. -/
def Backlog.markQueued (transactions : List (Stored TransactionEvent)) (backlog : Backlog) :
    Backlog :=
  { backlog with
    events := backlog.events.updateMany (transactions.map (·._id)) TransactionEvent.setQueued }

theorem Backlog.served_addBulk (transactions : List (Stored TransactionEvent))
    (backlog : Backlog) : (backlog.addBulk transactions).served = backlog.served ++ transactions :=
  List.flatten_concat

@[simp] theorem Backlog.served_markQueued (transactions : List (Stored TransactionEvent))
    (backlog : Backlog) : (backlog.markQueued transactions).served = backlog.served := rfl

def batchSize : ℕ := 100

def unprocessedTransactions (events : TransactionEvents) : List (Stored TransactionEvent) :=
  ((events.find TransactionEvent.pending).sort (·.blockNumber)).take batchSize

def queueTransactionForProcessing (queueing : Queueing)
    (transactions : List (Stored TransactionEvent)) (backlog : Backlog) : Backlog :=
  match queueing with
  | .addFailed kept => backlog.addBulk (transactions.filter kept)
  | .updateFailed kept => (backlog.addBulk transactions).markQueued (transactions.filter kept)
  | .done => (backlog.addBulk transactions).markQueued transactions

/-- The scans that run between two queries. -/
def Backlog.scan (scans : List Scan) (backlog : Backlog) : Backlog :=
  { backlog with events := runScans scans backlog.events }

/-- One turn of the loop.  Its end is that of `isProcessingQueue`, which the `finally` block
resets. -/
def Backlog.turn (backlog : Backlog) (turn : Turn) : Backlog :=
  if !backlog.isProcessingQueue then backlog
  else
    let scanned := backlog.scan turn.scans
    match turn.queueing with
    | none => { scanned with isProcessingQueue := false }
    | some queueing =>
        match unprocessedTransactions scanned.events with
        | [] => { scanned with isProcessingQueue := false }
        | first :: rest => queueTransactionForProcessing queueing (first :: rest) scanned

def processUnprocessedTransactions (backlog : Backlog) (turns : List Turn) : Backlog :=
  if !backlog.isBackwardScanComplete then backlog
  else if backlog.isProcessingQueue then backlog
  else final Backlog.turn { backlog with isProcessingQueue := true } turns

/-- The service once the backward scan is complete, before any batch. -/
def idle (events : TransactionEvents) : Backlog := ⟨events, true, false, [], []⟩

def drain (events : TransactionEvents) (turns : List Turn) : Backlog :=
  processUnprocessedTransactions (idle events) turns

theorem drain_append (events : TransactionEvents) (turns : List Turn) (turn : Turn) :
    drain events (turns ++ [turn]) = (drain events turns).turn turn :=
  final_append ..

/-! ## Turns of the loop -/

/-- What a turn does to the backlog. -/
inductive Turned (backlog : Backlog) (turn : Turn) : Backlog → Prop where
  /-- The loop has ended before. -/
  | ended (stopped : backlog.isProcessingQueue = false) : Turned backlog turn backlog
  /-- The query throws or finds nothing. -/
  | last (running : backlog.isProcessingQueue = true)
      (drained : turn.queueing ≠ none →
        unprocessedTransactions (backlog.scan turn.scans).events = []) :
      Turned backlog turn { backlog.scan turn.scans with isProcessingQueue := false }
  /-- A batch is queued. -/
  | batch {queueing : Queueing} (running : backlog.isProcessingQueue = true)
      (answered : turn.queueing = some queueing)
      (nonempty : unprocessedTransactions (backlog.scan turn.scans).events ≠ []) :
      Turned backlog turn (queueTransactionForProcessing queueing
        (unprocessedTransactions (backlog.scan turn.scans).events) (backlog.scan turn.scans))

theorem turned (backlog : Backlog) (turn : Turn) : Turned backlog turn (backlog.turn turn) := by
  unfold Backlog.turn
  cases running : backlog.isProcessingQueue with
  | false => exact .ended running
  | true =>
      simp only [Bool.not_true, Bool.false_eq_true, if_false]
      cases answered : turn.queueing with
      | none => exact .last running fun present => absurd answered present
      | some queueing =>
          cases found : unprocessedTransactions (backlog.scan turn.scans).events with
          | nil => exact .last running fun _ => found
          | cons first rest =>
              have nonempty : unprocessedTransactions (backlog.scan turn.scans).events ≠ [] := by
                rw [found]
                exact List.cons_ne_nil first rest
              simp only [← found]
              exact .batch running answered nonempty

/-! ## What scans insert -/

theorem insertBatch_eq_insertMany (insertion : Insertion)
    (signatures : List ConfirmedSignatureInfo) (events : TransactionEvents) :
    insertBatchTransactionEvent insertion signatures events =
      events.insertMany ((successEvents signatures).filter insertion.keeps) := by
  cases insertion with
  | done =>
      simp only [Insertion.keeps, List.filter_true]
      rfl
  | failed kept => rfl

theorem runScans_append (first second : List Scan) (events : TransactionEvents) :
    runScans (first ++ second) events = runScans second (runScans first events) :=
  List.foldl_append

/-- Scans add rows at the end, all of them pending. -/
theorem rows_runScans (scans : List Scan) (events : TransactionEvents) :
    ∃ inserted, (runScans scans events).rows = events.rows ++ inserted ∧
      ∀ row ∈ inserted, row.document.pending = true := by
  induction scans generalizing events with
  | nil => exact ⟨[], (List.append_nil _).symm, fun _ member => absurd member List.not_mem_nil⟩
  | cons scan rest ih =>
      obtain ⟨first, firstRows, held⟩ := Unindexed.rows_insertMany events
        ((successEvents scan.signatures).filter scan.insertion.keeps)
      rw [← insertBatch_eq_insertMany] at firstRows
      obtain ⟨later, laterRows, laterPending⟩ :=
        ih (insertBatchTransactionEvent scan.insertion scan.signatures events)
      refine ⟨first ++ later, ?_, fun row member => ?_⟩
      · rw [← List.append_assoc, ← firstRows]
        exact laterRows
      · rcases List.mem_append.mp member with old | new
        · have document : row.document ∈
              (successEvents scan.signatures).filter scan.insertion.keeps := by
            rw [← held]
            exact List.mem_map_of_mem old
          obtain ⟨tx, -, -, same⟩ := mem_successEvents.mp (List.mem_filter.mp document).1
          rw [← same]
          exact tx.pending_transactionEvent
        · exact laterPending row new

theorem runScans_updateMany {events : TransactionEvents} {ids : List ℕ}
    (stored : ∀ id ∈ ids, ∃ row ∈ events.rows, row._id = id)
    (update : TransactionEvent → TransactionEvent) (scans : List Scan) :
    runScans scans (events.updateMany ids update) =
      (runScans scans events).updateMany ids update := by
  induction scans generalizing events with
  | nil => rfl
  | cons scan rest ih =>
      have after : insertBatchTransactionEvent scan.insertion scan.signatures
            (events.updateMany ids update) =
          (insertBatchTransactionEvent scan.insertion scan.signatures events).updateMany
            ids update := by
        rw [insertBatch_eq_insertMany, insertBatch_eq_insertMany,
          Unindexed.insertMany_updateMany stored]
      have storedAfter : ∀ id ∈ ids, ∃ row ∈
          (insertBatchTransactionEvent scan.insertion scan.signatures events).rows,
          row._id = id := by
        intro id member
        obtain ⟨row, rowMember, same⟩ := stored id member
        obtain ⟨inserted, rows, -⟩ := rows_runScans [scan] events
        exact ⟨row, rows ▸ List.mem_append_left inserted rowMember, same⟩
      change runScans rest (insertBatchTransactionEvent _ _ (events.updateMany ids update)) = _
      rw [after, ih storedAfter]
      rfl

/-! ## The invariant of a run without failures -/

/-- The pending rows in the order in which they are queued. -/
def pendingRows (events : TransactionEvents) : List (Stored TransactionEvent) :=
  (events.find TransactionEvent.pending).sort (·.blockNumber)

theorem mem_pendingRows {events : TransactionEvents} {row : Stored TransactionEvent} :
    row ∈ pendingRows events ↔ row ∈ events.rows ∧ row.document.pending = true :=
  (mem_sortByKey _).trans List.mem_filter

theorem nodup_ids_pendingRows (events : TransactionEvents) :
    ((pendingRows events).map (·._id)).Nodup :=
  ((perm_sortByKey _ _).map _).nodup_iff.mpr (events.find TransactionEvent.pending).nodup_ids

def Backlog.servedIds (backlog : Backlog) : List ℕ := backlog.served.map (·._id)

/-- The backlog is the rows of `all`, of which pending ones have been served, each once. -/
structure Serving (all : TransactionEvents) (backlog : Backlog) : Prop where
  marked : backlog.events = all.updateMany backlog.servedIds TransactionEvent.setQueued
  pending : ∀ row ∈ backlog.served, row ∈ pendingRows all
  once : backlog.servedIds.Nodup
  ordered : ∀ batch ∈ backlog.batches, Ascending position batch

/-- The rows that a query without a limit would find. -/
def unserved (all : TransactionEvents) (backlog : Backlog) : List (Stored TransactionEvent) :=
  (pendingRows all).filter fun row => row._id ∉ backlog.servedIds

section

variable {all : TransactionEvents} {backlog : Backlog}

namespace Serving

theorem stored (serving : Serving all backlog) :
    ∀ id ∈ backlog.servedIds, ∃ row ∈ all.rows, row._id = id := by
  intro id member
  obtain ⟨row, served, same⟩ := List.mem_map.mp member
  exact ⟨row, (mem_pendingRows.mp (serving.pending row served)).1, same⟩

theorem scan (serving : Serving all backlog) (scans : List Scan) :
    Serving (runScans scans all) (backlog.scan scans) where
  marked := by
    have after := runScans_updateMany serving.stored TransactionEvent.setQueued scans
    rw [← serving.marked] at after
    exact after
  pending row served := by
    obtain ⟨inserted, rows, -⟩ := rows_runScans scans all
    obtain ⟨member, pending⟩ := mem_pendingRows.mp (serving.pending row served)
    exact mem_pendingRows.mpr ⟨rows ▸ List.mem_append_left inserted member, pending⟩
  once := serving.once
  ordered := serving.ordered

/-- The query finds the first rows that have not been served. -/
theorem query (serving : Serving all backlog) :
    unprocessedTransactions backlog.events = (unserved all backlog).take batchSize := by
  have sorted : (backlog.events.find TransactionEvent.pending).sort (·.blockNumber) =
      unserved all backlog := by
    rw [Unindexed.sort, serving.marked,
      Unindexed.rows_find_updateMany TransactionEvent.pending_setQueued, sortByKey_filter]
    rfl
  rw [unprocessedTransactions, sorted]

theorem unprocessed_sublist (serving : Serving all backlog) :
    (unprocessedTransactions backlog.events).Sublist (unserved all backlog) :=
  serving.query ▸ List.take_sublist _ _

theorem queue (serving : Serving all backlog) :
    Serving all
      (queueTransactionForProcessing .done (unprocessedTransactions backlog.events) backlog) := by
  have sublist := serving.unprocessed_sublist
  have served : (queueTransactionForProcessing .done (unprocessedTransactions backlog.events)
      backlog).served = backlog.served ++ unprocessedTransactions backlog.events :=
    backlog.served_addBulk _
  refine ⟨?_, ?_, ?_, ?_⟩
  · rw [Backlog.servedIds, served, List.map_append,
      ← Unindexed.updateMany_updateMany TransactionEvent.setQueued_setQueued]
    change Unindexed.updateMany backlog.events _ _ = _
    rw [← Backlog.servedIds, ← serving.marked]
  · intro row member
    rw [served, List.mem_append] at member
    rcases member with old | new
    · exact serving.pending row old
    · exact (List.mem_filter.mp (sublist.subset new)).1
  · rw [Backlog.servedIds, served, List.map_append]
    refine List.nodup_append.mpr ⟨serving.once, ?_, ?_⟩
    · exact (nodup_ids_pendingRows all).sublist ((sublist.trans List.filter_sublist).map _)
    · intro id old other new same
      obtain ⟨row, member, rfl⟩ := List.mem_map.mp new
      have fresh := (List.mem_filter.mp (sublist.subset member)).2
      rw [decide_eq_true_iff] at fresh
      exact fresh (same ▸ old)
  · intro batch member
    rcases List.mem_append.mp member with old | new
    · exact serving.ordered batch old
    · rw [List.mem_singleton.mp new]
      exact (ascending_sortByKey _ _).sublist (sublist.trans List.filter_sublist)

/-- No more rows are served than there are pending ones. -/
theorem length_served_le (serving : Serving all backlog) :
    backlog.served.length ≤ (pendingRows all).length :=
  (List.Nodup.subperm (List.Nodup.of_map _ serving.once) serving.pending).length_le

/-- The `_id` tells whether a row has been served. -/
theorem mem_servedIds_iff (serving : Serving all backlog) {row : Stored TransactionEvent}
    (member : row ∈ all.rows) : row._id ∈ backlog.servedIds ↔ row ∈ backlog.served := by
  refine ⟨fun found => ?_, List.mem_map_of_mem⟩
  obtain ⟨other, served, same⟩ := List.mem_map.mp found
  have otherMember := (mem_pendingRows.mp (serving.pending other served)).1
  rw [← Unindexed.row_eq_of_id otherMember member same]
  exact served

/-- What has been served once nothing is left. -/
theorem mem_served_iff (serving : Serving all backlog) (drained : unserved all backlog = [])
    {row : Stored TransactionEvent} : row ∈ backlog.served ↔ row ∈ pendingRows all := by
  refine ⟨serving.pending row, fun member => ?_⟩
  have gone := List.filter_eq_nil_iff.mp drained row member
  rwa [decide_eq_true_iff, not_not,
    serving.mem_servedIds_iff (mem_pendingRows.mp member).1] at gone

/-- The rows of the collection: the served ones are marked, the others unchanged. -/
theorem rows (serving : Serving all backlog) :
    backlog.events.rows = all.rows.map fun row =>
      if row ∈ backlog.served then { row with document := row.document.setQueued } else row := by
  rw [serving.marked]
  refine List.map_congr_left fun row member => ?_
  have ids := serving.mem_servedIds_iff member
  by_cases served : row ∈ backlog.served
  · rw [Unindexed.assignAmong_of_mem _ (ids.mpr served), if_pos served]
  · rw [Unindexed.assignAmong_of_not_mem _ (mt ids.mp served), if_neg served]

end Serving

/-- What is left of the pending rows when those served come first. -/
theorem unserved_of_append {rest : List (Stored TransactionEvent)}
    (split : pendingRows all = backlog.served ++ rest) : unserved all backlog = rest := by
  have distinct := nodup_ids_pendingRows all
  rw [split, List.map_append, List.nodup_append] at distinct
  rw [unserved, split, List.filter_append, List.filter_eq_nil_iff.mpr, List.nil_append,
    List.filter_eq_self.mpr]
  · intro row member
    rw [decide_eq_true_iff]
    exact fun found => distinct.2.2 row._id found row._id (List.mem_map_of_mem member) rfl
  · intro row member
    rw [decide_eq_true_iff, not_not]
    exact List.mem_map_of_mem member

end

/-! ## Runs without failures -/

/-- The turns up to a number of queries, when `scans` holds the scans before each query and
there are none after the end of the list. -/
def failureFreeTurns (scans : List (List Scan)) (queries : ℕ) : List Turn :=
  (List.range queries).map fun turn => ⟨scans.getD turn [], some .done⟩

/-- The scans of these turns. -/
def scansBefore (scans : List (List Scan)) (queries : ℕ) : List Scan :=
  (List.range queries).flatMap fun turn => scans.getD turn []

theorem scansBefore_succ (scans : List (List Scan)) (queries : ℕ) :
    scansBefore scans (queries + 1) = scansBefore scans queries ++ scans.getD queries [] := by
  rw [scansBefore, List.range_succ, List.flatMap_append, List.flatMap_singleton]
  rfl

theorem scansBefore_of_le (scans : List (List Scan)) {queries : ℕ}
    (past : scans.length ≤ queries) :
    scansBefore scans queries = scansBefore scans scans.length := by
  induction queries, past using Nat.le_induction with
  | base => rfl
  | succ queries past ih =>
      rw [scansBefore_succ, ih, List.getD_eq_default _ _ past, List.append_nil]

section

variable (events : TransactionEvents) (scans : List (List Scan))

/-- The backlog after a number of queries. -/
def afterQueries (queries : ℕ) : Backlog := drain events (failureFreeTurns scans queries)

/-- The collection as the scans before these queries alone would make it. -/
def scannedBefore (queries : ℕ) : TransactionEvents := runScans (scansBefore scans queries) events

variable {events scans} {queries : ℕ}

theorem afterQueries_succ :
    afterQueries events scans (queries + 1) =
      (afterQueries events scans queries).turn ⟨scans.getD queries [], some .done⟩ := by
  rw [afterQueries, failureFreeTurns, List.range_succ, List.map_append, List.map_singleton,
    drain_append]
  rfl

theorem scannedBefore_succ :
    scannedBefore events scans (queries + 1) =
      runScans (scans.getD queries []) (scannedBefore events scans queries) := by
  rw [scannedBefore, scansBefore_succ, runScans_append]
  rfl

/-- Scans take no row back. -/
theorem scannedBefore_eq_of_succ (unchanged : scannedBefore events scans (queries + 1) = events) :
    scannedBefore events scans queries = events := by
  rw [scannedBefore_succ] at unchanged
  obtain ⟨later, laterRows, -⟩ := rows_runScans (scans.getD queries [])
    (scannedBefore events scans queries)
  obtain ⟨first, firstRows, -⟩ := rows_runScans (scansBefore scans queries) events
  rw [unchanged] at laterRows
  change (scannedBefore events scans queries).rows = _ at firstRows
  rw [firstRows, List.append_assoc, List.self_eq_append_right] at laterRows
  rw [(List.append_eq_nil_iff.mp laterRows).1, List.append_nil] at firstRows
  exact Unindexed.ext firstRows

theorem isProcessingQueue_queue (queueing : Queueing)
    (transactions : List (Stored TransactionEvent)) (backlog : Backlog) :
    (queueTransactionForProcessing queueing transactions backlog).isProcessingQueue =
      backlog.isProcessingQueue := by
  cases queueing <;> rfl

/-- A turn that leaves the loop running queued a batch. -/
theorem batch_of_running
    (running : (afterQueries events scans (queries + 1)).isProcessingQueue = true) :
    (afterQueries events scans queries).isProcessingQueue = true ∧
      let scanned := (afterQueries events scans queries).scan (scans.getD queries [])
      unprocessedTransactions scanned.events ≠ [] ∧
        afterQueries events scans (queries + 1) =
          queueTransactionForProcessing .done (unprocessedTransactions scanned.events)
            scanned := by
  rw [afterQueries_succ] at running ⊢
  have step := turned (afterQueries events scans queries) ⟨scans.getD queries [], some .done⟩
  generalize (afterQueries events scans queries).turn _ = after at step running ⊢
  cases step with
  | ended stopped =>
      rw [stopped] at running
      cases running
  | last running' drained => cases running
  | batch running' answered nonempty =>
      cases answered
      exact ⟨running', nonempty, rfl⟩

/-- A turn that ends the loop found nothing. -/
theorem drained_of_stopped
    (running : (afterQueries events scans queries).isProcessingQueue = true)
    (stopped : (afterQueries events scans (queries + 1)).isProcessingQueue = false) :
    let scanned := (afterQueries events scans queries).scan (scans.getD queries [])
    unprocessedTransactions scanned.events = [] ∧
      afterQueries events scans (queries + 1) = { scanned with isProcessingQueue := false } := by
  rw [afterQueries_succ] at stopped ⊢
  have step := turned (afterQueries events scans queries) ⟨scans.getD queries [], some .done⟩
  generalize (afterQueries events scans queries).turn _ = after at step stopped ⊢
  cases step with
  | ended stopped' =>
      rw [running] at stopped'
      cases stopped'
  | last running' drained => exact ⟨drained (Option.some_ne_none _), rfl⟩
  | batch running' answered nonempty =>
      rw [isProcessingQueue_queue] at stopped
      cases running'.symm.trans stopped

/-- A run whose loop still goes on. -/
theorem serving_of_running
    (running : (afterQueries events scans queries).isProcessingQueue = true) :
    Serving (scannedBefore events scans queries) (afterQueries events scans queries) ∧
      queries ≤ (afterQueries events scans queries).served.length := by
  induction queries with
  | zero =>
      refine ⟨⟨(Unindexed.updateMany_nil _ _).symm, ?_, List.nodup_nil, ?_⟩, Nat.zero_le _⟩
      · exact fun _ member => absurd member List.not_mem_nil
      · exact fun _ member => absurd member List.not_mem_nil
  | succ queries ih =>
      obtain ⟨before, nonempty, after⟩ := batch_of_running running
      obtain ⟨serving, count⟩ := ih before
      rw [scannedBefore_succ, after]
      refine ⟨(serving.scan _).queue, ?_⟩
      have more := List.length_pos_of_ne_nil nonempty
      rw [queueTransactionForProcessing, Backlog.served_markQueued, Backlog.served_addBulk,
        List.length_append]
      exact Nat.add_le_add count more

/-- When nothing is inserted, the pending rows are served in their order. -/
theorem inOrder_of_running
    (running : (afterQueries events scans queries).isProcessingQueue = true)
    (unchanged : scannedBefore events scans queries = events) :
    (afterQueries events scans queries).served <+: pendingRows events := by
  induction queries with
  | zero => exact List.nil_prefix
  | succ queries ih =>
      obtain ⟨before, -, after⟩ := batch_of_running running
      obtain ⟨rest, split⟩ := ih before (scannedBefore_eq_of_succ unchanged)
      have serving := ((serving_of_running before).1.scan (scans.getD queries []))
      rw [← scannedBefore_succ, unchanged] at serving
      have left : unserved events
          ((afterQueries events scans queries).scan (scans.getD queries [])) = rest :=
        unserved_of_append split.symm
      rw [after, serving.query, left]
      rw [queueTransactionForProcessing, Backlog.served_markQueued, Backlog.served_addBulk, ← split]
      exact (List.prefix_append_right_inj _).mpr (List.take_prefix _ _)

/-- When the loop has ended, nothing is left. -/
theorem served_of_stopped
    (running : (afterQueries events scans queries).isProcessingQueue = true)
    (stopped : (afterQueries events scans (queries + 1)).isProcessingQueue = false) :
    Serving (scannedBefore events scans (queries + 1)) (afterQueries events scans (queries + 1)) ∧
      unserved (scannedBefore events scans (queries + 1))
        (afterQueries events scans (queries + 1)) = [] ∧
      (scannedBefore events scans (queries + 1) = events →
        (afterQueries events scans (queries + 1)).served = pendingRows events) := by
  obtain ⟨empty, after⟩ := drained_of_stopped running stopped
  have serving := (serving_of_running running).1.scan (scans.getD queries [])
  rw [← scannedBefore_succ] at serving
  have nothing : unserved (scannedBefore events scans (queries + 1))
      ((afterQueries events scans queries).scan (scans.getD queries [])) = [] := by
    rw [serving.query, List.take_eq_nil_iff] at empty
    exact empty.resolve_left (by decide)
  rw [after]
  refine ⟨⟨serving.marked, serving.pending, serving.once, serving.ordered⟩, nothing, ?_⟩
  intro unchanged
  obtain ⟨rest, split⟩ := inOrder_of_running running (scannedBefore_eq_of_succ unchanged)
  have left : unserved events
      ((afterQueries events scans queries).scan (scans.getD queries [])) = rest :=
    unserved_of_append split.symm
  rw [unchanged, left] at nothing
  rw [← split, nothing, List.append_nil]
  rfl

/-- The loop ends. -/
theorem exists_stopped (events : TransactionEvents) (scans : List (List Scan)) :
    ∃ queries, (afterQueries events scans queries).isProcessingQueue = false := by
  by_contra forever
  have running (queries : ℕ) : (afterQueries events scans queries).isProcessingQueue = true :=
    (Bool.eq_false_or_eq_true _).resolve_right fun stopped => forever ⟨queries, stopped⟩
  let all := scannedBefore events scans scans.length
  obtain ⟨serving, count⟩ :=
    serving_of_running (running (scans.length + (pendingRows all).length + 1))
  have settled :
      scannedBefore events scans (scans.length + (pendingRows all).length + 1) = all := by
    rw [scannedBefore, scansBefore_of_le scans (by omega)]
    rfl
  have bound := serving.length_served_le
  rw [settled] at bound
  omega

end

/-! ## Marks and jobs -/

/-- Rows with one `_id` and one job. -/
def SameJob (row other : Stored TransactionEvent) : Prop :=
  row._id = other._id ∧ row.document.transactionJob = other.document.transactionJob

theorem SameJob.trans {first second third : Stored TransactionEvent} (same : SameJob first second)
    (later : SameJob second third) : SameJob first third :=
  ⟨same.1.trans later.1, same.2.trans later.2⟩

/-- The row was marked as queued before, or a job for it has been added. -/
def Accounted (before : TransactionEvents) (served : List (Stored TransactionEvent))
    (row : Stored TransactionEvent) : Prop :=
  (∃ old ∈ before.rows, old.document.queued = true ∧ SameJob old row) ∨
    ∃ other ∈ served, SameJob other row

/-- An update of rows with a job marks no others. -/
theorem accounted_updateMany {events : TransactionEvents}
    {transactions : List (Stored TransactionEvent)}
    (stored : ∀ row ∈ transactions, row ∈ events.rows) (kept : Stored TransactionEvent → Bool)
    {row : Stored TransactionEvent}
    (member : row ∈ (events.updateMany ((transactions.filter kept).map (·._id))
      TransactionEvent.setQueued).rows)
    (queued : row.document.queued = true) : Accounted events transactions row := by
  obtain ⟨old, oldMember, rfl⟩ := List.mem_map.mp member
  by_cases found : old._id ∈ (transactions.filter kept).map (·._id)
  · obtain ⟨transaction, selected, same⟩ := List.mem_map.mp found
    have here := (List.mem_filter.mp selected).1
    have equal := Unindexed.row_eq_of_id (stored transaction here) oldMember same
    rw [Unindexed.assignAmong_of_mem _ found]
    exact .inr ⟨transaction, here, same, by rw [equal, TransactionEvent.transactionJob_setQueued]⟩
  · rw [Unindexed.assignAmong_of_not_mem _ found] at queued ⊢
    exact .inl ⟨old, oldMember, queued, rfl, rfl⟩

/-- A row that scans insert is not queued. -/
theorem mem_of_queued {events : TransactionEvents} {scans : List Scan}
    {row : Stored TransactionEvent} (member : row ∈ (runScans scans events).rows)
    (queued : row.document.queued = true) : row ∈ events.rows := by
  obtain ⟨inserted, rows, pending⟩ := rows_runScans scans events
  rw [rows, List.mem_append] at member
  refine member.resolve_right fun new => ?_
  have fresh := pending row new
  rw [TransactionEvent.pending, queued, Bool.not_true, Bool.and_false] at fresh
  cases fresh

theorem stored_unprocessed {events : TransactionEvents} :
    ∀ row ∈ unprocessedTransactions events, row ∈ events.rows :=
  fun _ member => (mem_pendingRows.mp (List.mem_of_mem_take member)).1

theorem Accounted.of_runScans {events : TransactionEvents} {scans : List Scan}
    {transactions served : List (Stored TransactionEvent)} {row : Stored TransactionEvent}
    (accounted : Accounted (runScans scans events) transactions row)
    (added : transactions ⊆ served) : Accounted events served row := by
  rcases accounted with ⟨old, member, queued, same⟩ | ⟨other, member, same⟩
  · exact .inl ⟨old, mem_of_queued member queued, queued, same⟩
  · exact .inr ⟨other, added member, same⟩

/-- A queued row of a turn was queued before it or has a job after it. -/
theorem accounted_turn (backlog : Backlog) (turn : Turn) {row : Stored TransactionEvent}
    (member : row ∈ (backlog.turn turn).events.rows) (queued : row.document.queued = true) :
    Accounted backlog.events (backlog.turn turn).served row := by
  have step := turned backlog turn
  generalize backlog.turn turn = after at step member ⊢
  cases step with
  | ended stopped => exact .inl ⟨row, member, queued, rfl, rfl⟩
  | last running drained => exact .inl ⟨row, mem_of_queued member queued, queued, rfl, rfl⟩
  | @batch queueing running answered nonempty =>
      have added (transactions : List (Stored TransactionEvent)) :
          transactions ⊆ ((backlog.scan turn.scans).addBulk transactions).served := by
        rw [Backlog.served_addBulk]
        exact List.subset_append_right _ _
      cases queueing with
      | addFailed kept => exact .inl ⟨row, mem_of_queued member queued, queued, rfl, rfl⟩
      | updateFailed kept =>
          exact (accounted_updateMany stored_unprocessed kept member queued).of_runScans (added _)
      | done =>
          refine (accounted_updateMany stored_unprocessed (fun _ => true) ?_ queued).of_runScans
            (added _)
          rw [List.filter_true]
          exact member

/-- A turn takes no job back. -/
theorem served_subset_turn (backlog : Backlog) (turn : Turn) :
    backlog.served ⊆ (backlog.turn turn).served := by
  have added (transactions : List (Stored TransactionEvent)) :
      backlog.served ⊆ ((backlog.scan turn.scans).addBulk transactions).served := by
    rw [Backlog.served_addBulk]
    exact List.subset_append_left _ _
  have step := turned backlog turn
  generalize backlog.turn turn = after at step ⊢
  cases step with
  | ended stopped => exact List.Subset.refl _
  | last running drained => exact List.Subset.refl _
  | @batch queueing running answered nonempty => cases queueing <;> exact added _

/-- The same over a run from any state. -/
theorem accounted_run (turns : List Turn) (backlog : Backlog) {row : Stored TransactionEvent}
    (member : row ∈ (final Backlog.turn backlog turns).events.rows)
    (queued : row.document.queued = true) :
    Accounted backlog.events (final Backlog.turn backlog turns).served row := by
  induction turns using List.reverseRecOn generalizing row with
  | nil => exact .inl ⟨row, member, queued, rfl, rfl⟩
  | append_singleton turns turn ih =>
      rw [final_append, final_cons, final_nil] at member ⊢
      have kept := served_subset_turn (final Backlog.turn backlog turns) turn
      rcases accounted_turn _ turn member queued with
        ⟨old, oldMember, oldQueued, same⟩ | ⟨other, served, same⟩
      · rcases ih oldMember oldQueued with
          ⟨first, firstMember, firstQueued, also⟩ | ⟨other, served, also⟩
        · exact .inl ⟨first, firstMember, firstQueued, also.trans same⟩
        · exact .inr ⟨other, kept served, also.trans same⟩
      · exact .inr ⟨other, served, same⟩

/-- The queue holds the jobs of the served rows. -/
theorem jobs_turn {backlog : Backlog} (turn : Turn)
    (jobs : backlog.jobs = backlog.served.map (·.document.transactionJob)) :
    (backlog.turn turn).jobs = (backlog.turn turn).served.map (·.document.transactionJob) := by
  have added (transactions : List (Stored TransactionEvent)) :
      ((backlog.scan turn.scans).addBulk transactions).jobs =
        ((backlog.scan turn.scans).addBulk transactions).served.map
          (·.document.transactionJob) := by
    rw [Backlog.served_addBulk, List.map_append]
    exact congrArg (· ++ _) jobs
  have step := turned backlog turn
  generalize backlog.turn turn = after at step ⊢
  cases step with
  | ended stopped => exact jobs
  | last running drained => exact jobs
  | @batch queueing running answered nonempty => cases queueing <;> exact added _

theorem jobs_run (turns : List Turn) {backlog : Backlog}
    (jobs : backlog.jobs = backlog.served.map (·.document.transactionJob)) :
    (final Backlog.turn backlog turns).jobs =
      (final Backlog.turn backlog turns).served.map (·.document.transactionJob) := by
  induction turns generalizing backlog with
  | nil => exact jobs
  | cons turn rest ih => exact ih (jobs_turn turn jobs)

/-! ## Ordered and exactly once -/

/-- Without failures the loop ends.  The rows with a job are then those pending at the start
and those inserted before the last query, once each, and they are the ones that have been
marked.  Every batch is in the order of block number and `_id`, and so is the whole sequence
when nothing was inserted.  With or without failures the jobs of the queue are those of the
served rows, and every row that has been marked is one of them. -/
theorem backlog_drained_once :
    (∀ (events : TransactionEvents) (scans : List (List Scan)), ∃ queries : ℕ,
      let drained := drain events (failureFreeTurns scans queries)
      let all := runScans (scansBefore scans queries) events
      (∀ fewer < queries, (drain events (failureFreeTurns scans fewer)).isProcessingQueue = true) ∧
        drained.isProcessingQueue = false ∧
        (drained.served.map (·._id)).Nodup ∧
        (∀ row, row ∈ drained.served ↔
          row ∈ all.rows ∧ (row ∈ events.rows → row.document.pending = true)) ∧
        (drained.events.rows = all.rows.map fun row =>
          if row ∈ drained.served then { row with document := row.document.setQueued } else row) ∧
        (∀ batch ∈ drained.batches, Ascending position batch) ∧
        (all = events →
          drained.served = (events.find TransactionEvent.pending).sort (·.blockNumber))) ∧
      ∀ (events : TransactionEvents) (turns : List Turn),
        (drain events turns).jobs =
            (drain events turns).served.map (·.document.transactionJob) ∧
          ∀ row ∈ (drain events turns).events.rows, row.document.queued = true →
            Accounted events (drain events turns).served row := by
  refine ⟨fun events scans => ?_, fun events turns => ⟨jobs_run turns rfl, ?_⟩⟩
  · obtain ⟨queries, stopped, least⟩ :
        ∃ queries, (afterQueries events scans queries).isProcessingQueue = false ∧
          ∀ fewer < queries, (afterQueries events scans fewer).isProcessingQueue = true := by
      refine ⟨Nat.find (exists_stopped events scans), Nat.find_spec (exists_stopped events scans),
        fun fewer below => ?_⟩
      exact (Bool.eq_false_or_eq_true _).resolve_right
        (Nat.find_min (exists_stopped events scans) below)
    cases queries with
    | zero => cases stopped
    | succ queries =>
        obtain ⟨serving, nothing, order⟩ :=
          served_of_stopped (least queries (Nat.lt_succ_self queries)) stopped
        obtain ⟨inserted, rows, fresh⟩ := rows_runScans (scansBefore scans (queries + 1)) events
        refine ⟨queries + 1, least, stopped, serving.once, fun row => ?_, serving.rows,
          serving.ordered, order⟩
        refine (serving.mem_served_iff nothing).trans (mem_pendingRows.trans ?_)
        refine and_congr_right fun member => ⟨fun pending _ => pending, fun pending => ?_⟩
        change row ∈ (runScans (scansBefore scans (queries + 1)) events).rows at member
        rw [rows, List.mem_append] at member
        exact member.elim pending (fresh row)
  · exact fun row member queued => accounted_run turns _ member queued

-- A scan between the first batch and the second query: its row is served last although
-- its block is the oldest.
example :
    (drain (Unindexed.empty.insertMany [⟨8, "b", false, false⟩, ⟨7, "a", false, false⟩])
      [⟨[], some .done⟩, ⟨[⟨.done, [⟨"c", 6, false⟩]⟩], some .done⟩, ⟨[], some .done⟩]).jobs =
      [⟨"a", 7⟩, ⟨"b", 8⟩, ⟨"c", 6⟩] := by decide

end Scanner

end DlmmIndexer

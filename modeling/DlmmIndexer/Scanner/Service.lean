import DlmmIndexer.Library.Machine
import DlmmIndexer.Library.Unindexed
import DlmmIndexer.Scanner.Chain

/-!
# The scanner

`ScannerService` copies the signatures of the program's successful transactions into
the `TransactionEvent` collection.  The backward scan walks from a cursor to the genesis
in pages, the forward scan fetches what is newer than the newest row.  The cursors are
read from the collection, sorted by block number and `_id`.

The backward scan is a machine: every turn of its loop gets the outcome of its two
outside calls.  The error of a failed insertion is caught where it occurs, so the loop
continues as after a successful one.
-/

namespace DlmmIndexer

open Documents Machine Paging StableSort

/-- The schema declares no unique index.  The block time is left out. -/
structure TransactionEvent where
  blockNumber : ℕ
  signature : String
  processed : Bool
  queued : Bool
  deriving DecidableEq, Repr

/-- The row of a transaction. -/
def ConfirmedSignatureInfo.transactionEvent (tx : ConfirmedSignatureInfo) : TransactionEvent where
  blockNumber := tx.slot
  signature := tx.signature
  processed := false
  queued := false

@[simp] theorem ConfirmedSignatureInfo.transactionEvent_signature (tx : ConfirmedSignatureInfo) :
    tx.transactionEvent.signature = tx.signature := rfl

@[simp] theorem ConfirmedSignatureInfo.transactionEvent_blockNumber (tx : ConfirmedSignatureInfo) :
    tx.transactionEvent.blockNumber = tx.slot := rfl

abbrev TransactionEvents := Unindexed TransactionEvent

namespace Scanner

/-! ## Constants -/

def ScanLimits.backward : ℕ := 1000

def ScanLimits.forward : ℕ := 1000

theorem ScanLimits.backward_pos : 0 < backward := by decide

/-! ## Cursors -/

/-- The first row under `sort({ blockNumber: 1, _id: 1 })`. -/
def getOldestTransactionLocal (events : TransactionEvents) : Option String :=
  (events.sort (·.blockNumber)).head?.map (·.document.signature)

/-- The first row under `sort({ blockNumber: -1, _id: -1 })`, which is the last one under
the ascending sort. -/
def getNewestTransactionLocal (events : TransactionEvents) : Option String :=
  (events.sort (·.blockNumber)).getLast?.map (·.document.signature)

/-! ## Insertion -/

/-- How `insertMany` ends.  With `ordered: false` a failing call may have stored any part
of its batch. -/
inductive Insertion where
  | done
  | failed (kept : TransactionEvent → Bool)

/-- Both endings return normally: the error of `insertMany` is logged. -/
def insertBatchTransactionEvent (insertion : Insertion) (signatures : List ConfirmedSignatureInfo)
    (events : TransactionEvents) : TransactionEvents :=
  let transactionEvents := (signatures.filter fun sig => !sig.err).map (·.transactionEvent)
  match insertion with
  | .done => events.insertMany transactionEvents
  | .failed kept => events.insertMany (transactionEvents.filter kept)

/-! ## Backward scan -/

/-- The variables of `runBackwardScan`, and the collection. -/
structure BackwardScan where
  events : TransactionEvents
  beforeSignature : Option String
  isBackwardScanComplete : Bool

/-- What the outside calls of one turn of the loop do. -/
inductive Outcome where
  /-- `getSignaturesForAddress` throws. -/
  | unavailable
  /-- It answers, and `insertMany`, if there is anything to insert, ends so. -/
  | answered (insertion : Insertion)

/-- One turn of the loop. -/
def BackwardScan.iterate (history : History) (scan : BackwardScan) (outcome : Outcome) :
    BackwardScan :=
  if scan.isBackwardScanComplete then scan
  else
    match outcome with
    | .unavailable => scan
    | .answered insertion =>
        let signatures :=
          history.getSignaturesForAddress ScanLimits.backward scan.beforeSignature none
        match signatures.reverse with
        | [] => { scan with isBackwardScanComplete := true }
        | oldest :: newer =>
            { events := insertBatchTransactionEvent insertion (oldest :: newer) scan.events
              beforeSignature := some oldest.signature
              isBackwardScanComplete := false }

/-- The loop from the cursor of the collection, for as many turns as there are outcomes. -/
def runBackwardScan (history : History) (outcomes : List Outcome) (events : TransactionEvents) :
    BackwardScan :=
  final (BackwardScan.iterate history) ⟨events, getOldestTransactionLocal events, false⟩ outcomes

/-- Turns in which nothing fails. -/
def failureFree (turns : ℕ) : List Outcome := List.replicate turns (.answered .done)

/-! ## Initialization -/

/-- Whether the chain has nothing before the oldest row. -/
def checkGenesisReached (history : History) (events : TransactionEvents) : Bool :=
  match getOldestTransactionLocal events with
  | none => false
  | some oldestSignature =>
      (history.getSignaturesForAddress 1 (some oldestSignature) none).length == 0

/-- A start without failures.  The loop has one turn for a page and one more to see that
it is done, so the turns suffice (`failureFree_complete`). -/
def initializeScanner (history : History) (events : TransactionEvents) : TransactionEvents :=
  if checkGenesisReached history events then events
  else (runBackwardScan history (failureFree (history.transactions.length + 1)) events).events

/-! ## Forward scan -/

/-- A forward scan without failures. -/
def scanForwards (history : History) (events : TransactionEvents) : TransactionEvents :=
  match getNewestTransactionLocal events with
  | none => events
  | some untilSignature =>
      let signatures :=
        history.getSignaturesForAddress ScanLimits.forward none (some untilSignature)
      if signatures.length > 0 then
        insertBatchTransactionEvent .done signatures.reverse events
      else
        events

/-! ## Rows -/

/-- Some row has the signature. -/
def Indexed (events : TransactionEvents) (signature : String) : Prop :=
  ∃ event ∈ events.documents, event.signature = signature

instance (events : TransactionEvents) (signature : String) : Decidable (Indexed events signature) :=
  inferInstanceAs (Decidable (∃ event ∈ events.documents, event.signature = signature))

/-- The part of a batch that is stored. -/
def Insertion.keeps : Insertion → TransactionEvent → Bool
  | .done => fun _ => true
  | .failed kept => kept

/-- The rows of the successful transactions among the given ones, in their order. -/
def successEvents (signatures : List ConfirmedSignatureInfo) : List TransactionEvent :=
  (signatures.filter fun sig => !sig.err).map (·.transactionEvent)

theorem mem_successEvents {signatures : List ConfirmedSignatureInfo} {event : TransactionEvent} :
    event ∈ successEvents signatures ↔
      ∃ tx ∈ signatures, tx.err = false ∧ tx.transactionEvent = event := by
  simp [successEvents, and_assoc]

theorem successEvents_append (first second : List ConfirmedSignatureInfo) :
    successEvents (first ++ second) = successEvents first ++ successEvents second := by
  rw [successEvents, List.filter_append, List.map_append, successEvents, successEvents]

theorem nodup_successEvents {signatures : List ConfirmedSignatureInfo}
    (distinct : (signatures.map (·.signature)).Nodup) :
    ((successEvents signatures).map (·.signature)).Nodup := by
  rw [successEvents, List.map_map]
  exact distinct.sublist (List.filter_sublist.map _)

theorem documents_insertBatch (insertion : Insertion) (signatures : List ConfirmedSignatureInfo)
    (events : TransactionEvents) :
    (insertBatchTransactionEvent insertion signatures events).documents =
      events.documents ++ (successEvents signatures).filter insertion.keeps := by
  cases insertion with
  | done =>
      simp only [Insertion.keeps, List.filter_true]
      exact Unindexed.documents_insertMany events _
  | failed kept => exact Unindexed.documents_insertMany events _

theorem documents_insertBatch_done (signatures : List ConfirmedSignatureInfo)
    (events : TransactionEvents) :
    (insertBatchTransactionEvent .done signatures events).documents =
      events.documents ++ successEvents signatures :=
  Unindexed.documents_insertMany events _

/-- A batch adds the signatures of its successful transactions that it keeps. -/
theorem indexed_insertBatch {insertion : Insertion} {signatures : List ConfirmedSignatureInfo}
    {events : TransactionEvents} {signature : String} :
    Indexed (insertBatchTransactionEvent insertion signatures events) signature ↔
      Indexed events signature ∨ ∃ tx ∈ signatures, tx.err = false ∧
        insertion.keeps tx.transactionEvent = true ∧ tx.signature = signature := by
  simp only [Indexed, documents_insertBatch, List.mem_append, List.mem_filter, mem_successEvents]
  constructor
  · rintro ⟨event, old | ⟨⟨tx, member, success, rfl⟩, kept⟩, same⟩
    · exact .inl ⟨event, old, same⟩
    · exact .inr ⟨tx, member, success, kept, same⟩
  · rintro (⟨event, old, same⟩ | ⟨tx, member, success, kept, same⟩)
    · exact ⟨event, .inl old, same⟩
    · exact ⟨tx.transactionEvent, .inr ⟨⟨tx, member, success, rfl⟩, kept⟩, same⟩

/-- The cursors depend on the stored documents only. -/
theorem getOldest_eq (events : TransactionEvents) :
    getOldestTransactionLocal events =
      (sortByKey TransactionEvent.blockNumber events.documents).head?.map (·.signature) := by
  rw [← Unindexed.documents_sort, List.head?_map, Option.map_map]
  rfl

theorem getNewest_eq (events : TransactionEvents) :
    getNewestTransactionLocal events =
      (sortByKey TransactionEvent.blockNumber events.documents).getLast?.map (·.signature) := by
  rw [← Unindexed.documents_sort, List.getLast?_map, Option.map_map]
  rfl

/-! ## Turns of the loop -/

/-- The turns of the loop, in terms of pages. -/
inductive Turns (history : History) (scan : BackwardScan) : Outcome → BackwardScan → Prop where
  /-- The loop has ended before. -/
  | ended {outcome : Outcome} (complete : scan.isBackwardScanComplete = true) :
      Turns history scan outcome scan
  /-- The RPC node did not answer. -/
  | unavailable (running : scan.isBackwardScanComplete = false) :
      Turns history scan .unavailable scan
  /-- The page is empty. -/
  | genesis {insertion : Insertion} (running : scan.isBackwardScanComplete = false)
      (empty : history.olderThan scan.beforeSignature = []) :
      Turns history scan (.answered insertion) { scan with isBackwardScanComplete := true }
  /-- A page is inserted and the cursor moves in front of it. -/
  | page {insertion : Insertion} {beforeSignature : Option String}
      (running : scan.isBackwardScanComplete = false)
      (nonempty : history.olderThan scan.beforeSignature ≠ [])
      (moved : history.olderThan beforeSignature =
        olderEntries ScanLimits.backward (history.olderThan scan.beforeSignature)) :
      Turns history scan (.answered insertion)
        { events := insertBatchTransactionEvent insertion
            (newestPage ScanLimits.backward (history.olderThan scan.beforeSignature)) scan.events
          beforeSignature := beforeSignature
          isBackwardScanComplete := false }

theorem turns (history : History) (scan : BackwardScan) (outcome : Outcome) :
    Turns history scan outcome (scan.iterate history outcome) := by
  unfold BackwardScan.iterate
  cases running : scan.isBackwardScanComplete with
  | true => exact .ended running
  | false =>
      simp only [Bool.false_eq_true, if_false]
      cases outcome with
      | unavailable => exact .unavailable running
      | answered insertion =>
          simp only [History.reverse_signatures_before]
          cases page : newestPage ScanLimits.backward (history.olderThan scan.beforeSignature) with
          | nil =>
              exact .genesis running ((newestPage_eq_nil_iff ScanLimits.backward_pos).mp page)
          | cons oldest newer =>
              have nonempty : history.olderThan scan.beforeSignature ≠ [] := by
                intro empty
                rw [empty, newestPage_nil] at page
                cases page
              simp only [← page]
              exact .page running nonempty (History.olderThan_head_newestPage page)

/-- Nothing happens after the end. -/
theorem final_of_complete {history : History} {scan : BackwardScan}
    (complete : scan.isBackwardScanComplete = true) (outcomes : List Outcome) :
    final (BackwardScan.iterate history) scan outcomes = scan := by
  induction outcomes with
  | nil => rfl
  | cons outcome rest ih =>
      have same : scan.iterate history outcome = scan := if_pos complete
      rw [final_cons, same, ih]

end Scanner

end DlmmIndexer

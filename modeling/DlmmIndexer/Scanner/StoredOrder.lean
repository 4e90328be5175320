import DlmmIndexer.Scanner.Service

/-!
# The order of the rows after a backward scan

The scan stores the pages of the history, newest page first, each in chain order.  Rows
are sorted by slot and then by insertion, so the order inside a slot is that of the
chain exactly when the successful transactions of the slot stand on one page.
-/

namespace DlmmIndexer

open Documents Machine Paging StableSort

namespace Scanner

variable {history : History}

/-! ## Scans without failures -/

/-- A scan without failures completes after one turn for a page and one more. -/
theorem failureFree_complete {scan : BackwardScan} {turnCount : ℕ}
    (enough : (history.olderThan scan.beforeSignature).length < turnCount) :
    (final (BackwardScan.iterate history) scan (failureFree turnCount)).isBackwardScanComplete
      = true := by
  induction turnCount generalizing scan with
  | zero => exact absurd enough (Nat.not_lt_zero _)
  | succ count ih =>
      have turn := turns history scan (.answered .done)
      rw [failureFree, List.replicate_succ, final_cons]
      generalize scan.iterate history (.answered .done) = next at turn ⊢
      cases turn with
      | ended ended => rwa [final_of_complete ended]
      | genesis => rw [final_of_complete rfl]
      | page _ nonempty moved =>
          have shorter := length_olderEntries_lt ScanLimits.backward_pos nonempty
          refine ih ?_
          rw [moved]
          omega

/-- A scan without failures stores the pages before its cursor. -/
theorem documents_failureFree {scan : BackwardScan} (running : scan.isBackwardScanComplete = false)
    {turnCount : ℕ}
    (complete : (final (BackwardScan.iterate history) scan
      (failureFree turnCount)).isBackwardScanComplete = true) :
    (final (BackwardScan.iterate history) scan (failureFree turnCount)).events.documents =
      scan.events.documents ++ successEvents
        (pages ScanLimits.backward (history.olderThan scan.beforeSignature)).flatten := by
  induction turnCount generalizing scan with
  | zero =>
      rw [failureFree, List.replicate_zero, final_nil, running] at complete
      cases complete
  | succ count ih =>
      have turn := turns history scan (.answered .done)
      rw [failureFree, List.replicate_succ, final_cons] at complete ⊢
      generalize scan.iterate history (.answered .done) = next at turn complete ⊢
      cases turn with
      | ended ended =>
          rw [running] at ended
          cases ended
      | genesis _ empty =>
          rw [final_of_complete rfl, empty, pages_nil]
          exact (List.append_nil _).symm
      | page _ nonempty moved =>
          refine (ih rfl complete).trans ?_
          rw [moved, pages_of_ne_nil ScanLimits.backward_pos nonempty, List.flatten_cons,
            successEvents_append, ← List.append_assoc]
          rw [documents_insertBatch_done]

/-! ## Slots and pages -/

/-- The successful transactions of the slot stand on one page of the history. -/
def SlotWhole (history : History) (slot : ℕ) : Prop :=
  ∀ page ∈ pages ScanLimits.backward history.transactions,
    ∀ tx ∈ page, tx.err = false → tx.slot = slot →
      ∀ other ∈ history.transactions, other.err = false → other.slot = slot → other ∈ page

/-- The rows that a scan from the newest transaction stores. -/
def scannedEvents (history : History) : List TransactionEvent :=
  successEvents (pages ScanLimits.backward history.transactions).flatten

/-- The successful transactions of one slot. -/
def inSlot (slot : ℕ) (tx : ConfirmedSignatureInfo) : Bool := !tx.err && tx.slot = slot

theorem successEvents_filter_slot (signatures : List ConfirmedSignatureInfo) (slot : ℕ) :
    (successEvents signatures).filter (fun event => event.blockNumber = slot) =
      (signatures.filter (inSlot slot)).map (·.transactionEvent) := by
  rw [successEvents, List.filter_map, List.filter_filter]
  refine congrArg (List.map _) (List.filter_congr fun tx _ => ?_)
  exact Bool.and_comm (tx.slot = slot) (!tx.err)

/-- The row of a successful transaction determines it. -/
theorem map_transactionEvent_inj {slot : ℕ} {left right : List ConfirmedSignatureInfo} :
    (left.filter (inSlot slot)).map (·.transactionEvent) =
        (right.filter (inSlot slot)).map (·.transactionEvent) ↔
      left.filter (inSlot slot) = right.filter (inSlot slot) := by
  have back : ∀ list : List ConfirmedSignatureInfo,
      ((list.filter (inSlot slot)).map (·.transactionEvent)).map
        (fun event => ConfirmedSignatureInfo.mk event.signature event.blockNumber false) =
          list.filter (inSlot slot) := by
    intro list
    rw [List.map_map]
    conv_rhs => rw [← List.map_id (list.filter (inSlot slot))]
    refine List.map_congr_left fun tx member => ?_
    obtain ⟨success, -⟩ := Bool.and_eq_true_iff.mp (List.mem_filter.mp member).2
    rw [Bool.not_eq_true'] at success
    simp [ConfirmedSignatureInfo.transactionEvent, ← success]
  constructor
  · intro same
    rw [← back left, same, back right]
  · exact congrArg _

/-- A slot has its rows in chain order exactly when it stands on one page. -/
theorem slotWhole_iff {slot : ℕ} :
    SlotWhole history slot ↔
      (scannedEvents history).filter (fun event => event.blockNumber = slot) =
        (successEvents history.transactions).filter fun event => event.blockNumber = slot := by
  have inOrder : history.transactions.filter (inSlot slot) =
      ((pages ScanLimits.backward history.transactions).map
        (List.filter (inSlot slot))).reverse.flatten := by
    rw [← List.map_reverse, ← List.filter_flatten, flatten_reverse_pages ScanLimits.backward_pos]
  have distinct : ((pages ScanLimits.backward history.transactions).map
      (List.filter (inSlot slot))).flatten.Nodup := by
    rw [← nodup_flatten_reverse, ← inOrder]
    exact history.nodup.filter _
  rw [scannedEvents, successEvents_filter_slot, successEvents_filter_slot,
    map_transactionEvent_inj, inOrder, List.filter_flatten, flatten_eq_flatten_reverse_iff distinct]
  simp only [List.forall_mem_map, List.mem_filter, ← List.filter_flatten,
    mem_flatten_pages ScanLimits.backward_pos, inSlot, Bool.and_eq_true, Bool.not_eq_true',
    decide_eq_true_eq]
  constructor
  · rintro whole page member tx ⟨inPage, success, here⟩ other ⟨inHistory, success', here'⟩
    exact ⟨whole page member tx inPage success here other inHistory success' here', success', here'⟩
  · intro whole page member tx inPage success here other inHistory success' here'
    exact (whole page member tx ⟨inPage, success, here⟩ other ⟨inHistory, success', here'⟩).1

/-- A history of one page cuts no slot. -/
theorem slotWhole_of_short (short : history.transactions.length ≤ ScanLimits.backward) (slot : ℕ) :
    SlotWhole history slot := by
  intro page member tx onPage _ _ other inHistory _ _
  have nonempty : history.transactions ≠ [] := List.ne_nil_of_mem inHistory
  rw [pages_of_short ScanLimits.backward_pos nonempty short, List.mem_singleton] at member
  rwa [member]

theorem ascending_successEvents (history : History) :
    Ascending TransactionEvent.blockNumber (successEvents history.transactions) :=
  List.pairwise_map.mpr (history.ordered.sublist List.filter_sublist)

/-- Sorting the rows of a scan gives the order of the chain exactly when no slot is cut
by the end of a page. -/
theorem sortByKey_scannedEvents_iff :
    sortByKey TransactionEvent.blockNumber (scannedEvents history) =
        successEvents history.transactions ↔
      ∀ slot, SlotWhole history slot := by
  rw [sortByKey_eq_iff, and_iff_right (ascending_successEvents history)]
  exact forall_congr' fun slot => eq_comm.trans slotWhole_iff.symm

/-! ## The scan from the empty collection -/

theorem documents_runBackwardScan {turnCount : ℕ}
    (complete :
      (runBackwardScan history (failureFree turnCount) .empty).isBackwardScanComplete = true) :
    (runBackwardScan history (failureFree turnCount) .empty).events.documents =
      scannedEvents history := by
  have stored := documents_failureFree rfl complete
  rwa [History.olderThan, show getOldestTransactionLocal .empty = none from rfl, History.upTo,
    List.take_length] at stored

theorem runBackwardScan_complete {turnCount : ℕ}
    (enough : history.transactions.length < turnCount) :
    (runBackwardScan history (failureFree turnCount) .empty).isBackwardScanComplete = true := by
  refine failureFree_complete ?_
  rwa [History.olderThan, show getOldestTransactionLocal .empty = none from rfl, History.upTo,
    List.take_length]

/-- After a scan without failures from the empty collection, the sorted rows are those of
the successful transactions in chain order, and the oldest row is that of the oldest
one, exactly when no slot is cut by the end of a page. -/
theorem stored_in_chain_order_iff {turnCount : ℕ}
    (complete :
      (runBackwardScan history (failureFree turnCount) .empty).isBackwardScanComplete = true) :
    (((runBackwardScan history (failureFree turnCount) .empty).events.sort
          (·.blockNumber)).map (·.document) = successEvents history.transactions ∧
        getOldestTransactionLocal (runBackwardScan history (failureFree turnCount) .empty).events =
          history.successful.head?.map (·.signature)) ↔
      ∀ slot, SlotWhole history slot := by
  rw [Unindexed.documents_sort, getOldest_eq, documents_runBackwardScan complete,
    ← sortByKey_scannedEvents_iff, and_iff_left_iff_imp]
  intro sorted
  rw [sorted, successEvents, List.head?_map, Option.map_map]
  rfl

theorem stored_in_chain_order_iff_sample :
    (((runBackwardScan (.sample monotone_id 2) (failureFree 2) .empty).events.sort
          (·.blockNumber)).map (·.document) =
          successEvents (History.sample monotone_id 2).transactions ∧
        getOldestTransactionLocal
            (runBackwardScan (.sample monotone_id 2) (failureFree 2) .empty).events =
          (History.sample monotone_id 2).successful.head?.map (·.signature)) ↔
      ∀ slot, SlotWhole (.sample monotone_id 2) slot :=
  stored_in_chain_order_iff (by decide)

/-- A history of 1001 successful transactions in slot 7. -/
abbrev crowdedSlot : History := .sample (@monotone_const _ _ _ _ 7) 1001

/-- The oldest transaction of the crowded slot is on a page of its own. -/
theorem crowdedSlot_cut : ¬SlotWhole crowdedSlot 7 := by
  intro whole
  have first : History.sampleTransaction (fun _ => 7) 0 ∈ crowdedSlot.transactions :=
    History.mem_sample.mpr ⟨0, by decide, rfl⟩
  have page : newestPage ScanLimits.backward crowdedSlot.transactions ∈
      pages ScanLimits.backward crowdedSlot.transactions := by
    rw [pages_of_ne_nil ScanLimits.backward_pos (List.ne_nil_of_mem first)]
    exact List.mem_cons_self
  have entries : newestPage ScanLimits.backward crowdedSlot.transactions =
      (newestPage ScanLimits.backward (List.range 1001)).map
        (History.sampleTransaction fun _ => 7) := by
    rw [crowdedSlot, History.sample, newestPage_map]
  have last : 1000 ∈ newestPage ScanLimits.backward (List.range 1001) := by decide +kernel
  have cut : 0 ∉ newestPage ScanLimits.backward (List.range 1001) := by decide +kernel
  have lastOnPage : History.sampleTransaction (fun _ => 7) 1000 ∈
      newestPage ScanLimits.backward crowdedSlot.transactions := by
    rw [entries]
    exact List.mem_map.mpr ⟨1000, last, rfl⟩
  have onPage := whole _ page _ lastOnPage rfl rfl _ first rfl rfl
  rw [entries] at onPage
  obtain ⟨index, member, same⟩ := List.mem_map.mp onPage
  rw [History.sampleSignature_injective (congrArg (·.signature) same)] at member
  exact cut member

/-- The rows of one slot with 1001 transactions are not sorted into chain order. -/
theorem stored_out_of_order :
    (runBackwardScan crowdedSlot (failureFree 1002)
        .empty).isBackwardScanComplete = true ∧
      ((runBackwardScan crowdedSlot (failureFree 1002)
        .empty).events.sort (·.blockNumber)).map (·.document) ≠
        successEvents crowdedSlot.transactions := by
  have complete := runBackwardScan_complete
    (show crowdedSlot.transactions.length < 1002 from
      (History.length_sample _ _).trans_lt (by decide))
  refine ⟨complete, fun sorted => ?_⟩
  rw [Unindexed.documents_sort, documents_runBackwardScan complete] at sorted
  exact crowdedSlot_cut (sortByKey_scannedEvents_iff.mp sorted 7)

end Scanner

end DlmmIndexer

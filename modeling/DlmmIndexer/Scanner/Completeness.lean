import Mathlib.Data.Nat.Nth
import DlmmIndexer.Scanner.StoredOrder

/-!
# The backward scan against an unreliable node

Any RPC call may fail, as long as only finitely many do; insertions work.  A failed call
leaves the loop where it was, an answered one moves the cursor over a page or ends the
scan.  So the scan ends after as many answers as there are pages, and one, whatever fails
between them, and then every successful transaction has one row.
-/

namespace DlmmIndexer

open Documents Machine Paging

namespace Scanner

variable {history : History} {scan scan' : BackwardScan} {answers : ℕ → Bool} {turnCount : ℕ}

/-- A turn whose RPC call is answered or not, and whose insertion works. -/
def outcomeOf (answered : Bool) : Outcome := if answered then .answered .done else .unavailable

/-- The outcomes of the first turns, from which of all RPC calls are answered. -/
def firstOutcomes (answers : ℕ → Bool) (turnCount : ℕ) : List Outcome :=
  (List.range turnCount).map fun turn => outcomeOf (answers turn)

/-- The scan from the empty collection after some turns. -/
def scanAfter (history : History) (answers : ℕ → Bool) (turnCount : ℕ) : BackwardScan :=
  runBackwardScan history (firstOutcomes answers turnCount) .empty

theorem scanAfter_succ (history : History) (answers : ℕ → Bool) (turnCount : ℕ) :
    scanAfter history answers (turnCount + 1) =
      (scanAfter history answers turnCount).iterate history (outcomeOf (answers turnCount)) := by
  rw [scanAfter, firstOutcomes, List.range_succ, List.map_append, runBackwardScan, final_append]
  rfl

/-- Every successful transaction has one row with its slot, unprocessed and not queued; no
failed transaction has a row, and there are no other rows. -/
structure AllIndexed (history : History) (events : TransactionEvents) : Prop where
  rows : ∀ tx ∈ history.transactions,
    events.documents.filter (fun event => event.signature = tx.signature) =
      if tx.err then []
      else
        [{ blockNumber := tx.slot
           signature := tx.signature
           processed := false
           queued := false }]
  known : ∀ event ∈ events.documents, ∃ tx ∈ history.transactions, tx.signature = event.signature

/-- The rows of one signature among those of the successful transactions. -/
theorem successEvents_filter_signature {tx : ConfirmedSignatureInfo}
    (member : tx ∈ history.transactions) :
    (successEvents history.transactions).filter (fun event => event.signature = tx.signature) =
      if tx.err then [] else [tx.transactionEvent] := by
  have same (other : ConfirmedSignatureInfo) (inHistory : other ∈ history.transactions) :
      other.signature = tx.signature ↔ other = tx :=
    ⟨History.eq_of_signature_eq inHistory member, congrArg _⟩
  rw [successEvents, List.filter_map, List.filter_filter]
  cases failed : tx.err with
  | true =>
      rw [if_pos rfl, List.map_eq_nil_iff, List.filter_eq_nil_iff]
      intro other inHistory accepted
      simp only [Function.comp_apply, ConfirmedSignatureInfo.transactionEvent_signature,
        Bool.and_eq_true, decide_eq_true_eq, Bool.not_eq_true', same other inHistory] at accepted
      obtain ⟨rfl, success⟩ := accepted
      exact Bool.false_ne_true (success.symm.trans failed)
  | false =>
      have alone : (history.transactions.filter fun other =>
          ((fun event => decide (event.signature = tx.signature)) ∘
            ConfirmedSignatureInfo.transactionEvent) other && !other.err) =
          history.transactions.filter fun other => other = tx := by
        refine List.filter_congr fun other inHistory => ?_
        rw [Bool.eq_iff_iff]
        simp only [Function.comp_apply, ConfirmedSignatureInfo.transactionEvent_signature,
          Bool.and_eq_true, decide_eq_true_eq, Bool.not_eq_true', same other inHistory]
        exact and_iff_left_of_imp fun here => here ▸ failed
      rw [if_neg Bool.false_ne_true, alone, List.filter_eq,
        List.count_eq_one_of_mem history.nodup member]
      rfl

theorem allIndexed_of_perm {events : TransactionEvents}
    (stored : events.documents.Perm (successEvents history.transactions)) :
    AllIndexed history events where
  rows tx member := by
    have found := stored.filter fun event => event.signature = tx.signature
    rw [successEvents_filter_signature member] at found
    cases failed : tx.err with
    | true => simpa [failed] using found
    | false =>
        rw [failed, if_neg Bool.false_ne_true] at found
        exact List.perm_singleton.mp found
  known event member := by
    obtain ⟨tx, inHistory, -, rfl⟩ := mem_successEvents.mp (stored.mem_iff.mp member)
    exact ⟨tx, inHistory, rfl⟩

/-! ## Turns -/

/-- The transactions from the cursor on. -/
def scanned (history : History) (scan : BackwardScan) : List ConfirmedSignatureInfo :=
  history.transactions.drop (history.olderThan scan.beforeSignature).length

/-- What holds after every turn: the rows are those of the transactions from the cursor on,
nothing is before the cursor of a complete scan, and a scan that goes on has had no more
answers than it has passed transactions. -/
structure Progressing (history : History) (answerCount : ℕ) (scan : BackwardScan) : Prop where
  stored : scan.events.documents.Perm (successEvents (scanned history scan))
  complete : scan.isBackwardScanComplete = true → history.olderThan scan.beforeSignature = []
  paced : scan.isBackwardScanComplete = false →
    (history.olderThan scan.beforeSignature).length + answerCount ≤ history.transactions.length

theorem olderThan_append_scanned (history : History) (scan : BackwardScan) :
    history.olderThan scan.beforeSignature ++ scanned history scan = history.transactions :=
  List.prefix_iff_eq_append.mp (List.take_prefix _ _)

/-- A page moves from before the cursor to behind it. -/
theorem scanned_of_moved
    (moved : history.olderThan scan'.beforeSignature =
      olderEntries ScanLimits.backward (history.olderThan scan.beforeSignature)) :
    scanned history scan' =
      newestPage ScanLimits.backward (history.olderThan scan.beforeSignature) ++
        scanned history scan := by
  have after := olderThan_append_scanned history scan'
  have before := olderThan_append_scanned history scan
  rw [← olderEntries_append_newestPage ScanLimits.backward (history.olderThan scan.beforeSignature),
    List.append_assoc, ← after, moved] at before
  exact (List.append_cancel_left before).symm

theorem progressing_start (history : History) :
    Progressing history 0 ⟨.empty, none, false⟩ where
  stored := by
    rw [scanned, History.olderThan, History.upTo, List.take_length, List.drop_length]
    exact .refl _
  complete := nofun
  paced _ := by rw [History.olderThan, History.upTo, List.take_length, Nat.add_zero]

theorem Progressing.turn {answered : Bool} {answerCount : ℕ}
    (progress : Progressing history answerCount scan)
    (turn : Turns history scan (outcomeOf answered) scan') :
    Progressing history (answerCount + if answered then 1 else 0) scan' := by
  generalize same : outcomeOf answered = outcome at turn
  cases turn with
  | ended complete =>
      exact ⟨progress.stored, progress.complete, fun running =>
        absurd (running.symm.trans complete) Bool.false_ne_true⟩
  | unavailable running =>
      cases answered with
      | true => cases same
      | false => exact progress
  | genesis _ empty => exact ⟨progress.stored, fun _ => empty, nofun⟩
  | @page insertion beforeSignature _ nonempty moved =>
      cases answered with
      | false => cases same
      | true =>
          cases same
          refine ⟨?_, nofun, fun _ => ?_⟩
          · rw [documents_insertBatch_done, scanned_of_moved moved, successEvents_append]
            exact (progress.stored.append_right _).trans List.perm_append_comm
          · -- one more answer, and the page had a transaction
            have shorter := length_olderEntries_lt ScanLimits.backward_pos nonempty
            have paced := progress.paced ‹_›
            rw [moved, if_pos rfl]
            omega

theorem progressing_scanAfter (history : History) (answers : ℕ → Bool) (turnCount : ℕ) :
    Progressing history (Nat.count (fun turn => answers turn = true) turnCount)
      (scanAfter history answers turnCount) := by
  induction turnCount with
  | zero => exact progressing_start history
  | succ count ih =>
      rw [scanAfter_succ, Nat.count_succ]
      exact ih.turn (turns _ _ _)

/-- Every turn adds the rows of a page in chain order, or nothing. -/
theorem Turns.page_in_chain_order {answered : Bool}
    (turn : Turns history scan (outcomeOf answered) scan') :
    ∃ page, page <:+: history.transactions ∧
      scan'.events.documents = scan.events.documents ++ successEvents page := by
  generalize same : outcomeOf answered = outcome at turn
  have nothing : ∃ page, page <:+: history.transactions ∧
      scan.events.documents = scan.events.documents ++ successEvents page :=
    ⟨[], List.nil_infix, (List.append_nil _).symm⟩
  cases turn with
  | ended => exact nothing
  | unavailable => exact nothing
  | genesis => exact nothing
  | page =>
      cases answered with
      | false => cases same
      | true =>
          cases same
          have suffix : newestPage ScanLimits.backward (history.olderThan scan.beforeSignature) <:+
              history.olderThan scan.beforeSignature := by
            rw [newestPage]
            exact List.drop_suffix _ _
          have before : history.olderThan scan.beforeSignature <+: history.transactions :=
            List.take_prefix _ _
          refine ⟨newestPage ScanLimits.backward (history.olderThan scan.beforeSignature),
            suffix.isInfix.trans before.isInfix, ?_⟩
          rw [documents_insertBatch_done]

/-! ## Termination and exactness -/

/-- Once more calls have been answered than there are transactions, the scan is complete. -/
theorem complete_of_answered
    (enough : history.transactions.length <
      Nat.count (fun turn => answers turn = true) turnCount) :
    (scanAfter history answers turnCount).isBackwardScanComplete = true := by
  have progress := progressing_scanAfter history answers turnCount
  rw [← Bool.not_eq_false]
  intro running
  have paced := progress.paced running
  omega

/-- When finitely many RPC calls fail, the scan from the empty collection ends; when it
has ended, every successful transaction has its one row; and every turn adds the rows of
its page in chain order. -/
theorem backward_scan_complete (history : History) {answers : ℕ → Bool}
    (finite : {turn | answers turn = false}.Finite) :
    (∃ turnCount, (scanAfter history answers turnCount).isBackwardScanComplete = true) ∧
      (∀ turnCount, (scanAfter history answers turnCount).isBackwardScanComplete = true →
        AllIndexed history (scanAfter history answers turnCount).events) ∧
      ∀ turnCount, ∃ page, page <:+: history.transactions ∧
        (scanAfter history answers (turnCount + 1)).events.documents =
          (scanAfter history answers turnCount).events.documents ++ successEvents page := by
  refine ⟨?_, fun turnCount complete => ?_, fun turnCount => ?_⟩
  · have infinite : (Set.ofPred fun turn => answers turn = true).Infinite := by
      refine (Set.Finite.infinite_compl finite).mono fun turn answered => ?_
      exact (Bool.not_eq_false _).mp answered
    refine ⟨Nat.nth (fun turn => answers turn = true) (history.transactions.length + 1),
      complete_of_answered ?_⟩
    rw [Nat.count_nth_of_infinite infinite]
    exact Nat.lt_succ_self _
  · have progress := progressing_scanAfter history answers turnCount
    refine allIndexed_of_perm (progress.stored.trans ?_)
    rw [scanned, progress.complete complete]
    exact .refl _
  · rw [scanAfter_succ]
    exact (turns _ _ _).page_in_chain_order

/-- Two transactions, and a node that does not answer the first call. -/
theorem backward_scan_complete_sample :
    (∃ turnCount, (scanAfter (.sample monotone_id 2) (fun turn => turn != 0)
        turnCount).isBackwardScanComplete = true) ∧
      (∀ turnCount, (scanAfter (.sample monotone_id 2) (fun turn => turn != 0)
          turnCount).isBackwardScanComplete = true →
        AllIndexed (.sample monotone_id 2) (scanAfter (.sample monotone_id 2)
          (fun turn => turn != 0) turnCount).events) ∧
      ∀ turnCount, ∃ page, page <:+: (History.sample monotone_id 2).transactions ∧
        (scanAfter (.sample monotone_id 2) (fun turn => turn != 0)
            (turnCount + 1)).events.documents =
          (scanAfter (.sample monotone_id 2) (fun turn => turn != 0)
            turnCount).events.documents ++ successEvents page :=
  backward_scan_complete _ ((Set.finite_singleton 0).subset fun turn failed => by
    simpa using failed)

end Scanner

end DlmmIndexer

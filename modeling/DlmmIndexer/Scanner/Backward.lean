import DlmmIndexer.Scanner.Service

/-!
# Failures of the backward scan

A failing RPC call leaves the loop where it was, so the page is asked for again.  A
failing insertion does not: the cursor moves on as if the page had been stored.  The
scan therefore ends with everything stored exactly when each failing insertion lost
only transactions that had a row already.

A scan without failures stores the successful transactions page by page.
-/

namespace DlmmIndexer

open Documents Machine Paging

namespace Scanner

variable {history : History} {scan scan' : BackwardScan} {outcome : Outcome}

/-- The turn loses no transaction: what its insertion leaves out of the page has a row. -/
def Lossless (history : History) (scan : BackwardScan) (outcome : Outcome) : Prop :=
  scan.isBackwardScanComplete = false → ∀ insertion, outcome = .answered insertion →
    ∀ tx ∈ history.getSignaturesForAddress ScanLimits.backward scan.beforeSignature none,
      tx.err = false →
        insertion.keeps tx.transactionEvent = true ∨ Indexed scan.events tx.signature

theorem mem_signatures_before {limit : ℕ} {before : Option String} {tx : ConfirmedSignatureInfo} :
    tx ∈ history.getSignaturesForAddress limit before none ↔
      tx ∈ newestPage limit (history.olderThan before) := by
  rw [← History.reverse_signatures_before, List.mem_reverse]

/-! ## One turn -/

/-- Rows stay. -/
theorem Turns.indexed (turn : Turns history scan outcome scan') {signature : String}
    (indexed : Indexed scan.events signature) : Indexed scan'.events signature := by
  cases turn with
  | ended => exact indexed
  | unavailable => exact indexed
  | genesis => exact indexed
  | page => exact indexed_insertBatch.mpr (.inl indexed)

/-- The cursor never moves towards newer transactions. -/
theorem Turns.olderThan_subset (turn : Turns history scan outcome scan') :
    history.olderThan scan'.beforeSignature ⊆ history.olderThan scan.beforeSignature := by
  cases turn with
  | ended => exact List.Subset.refl _
  | unavailable => exact List.Subset.refl _
  | genesis => exact List.Subset.refl _
  | page _ _ moved => exact moved ▸ List.take_subset _ _

/-- A turn adds rows of transactions before its cursor only. -/
theorem Turns.of_indexed (turn : Turns history scan outcome scan') {signature : String}
    (indexed : Indexed scan'.events signature) :
    Indexed scan.events signature ∨
      ∃ tx ∈ history.olderThan scan.beforeSignature, tx.signature = signature := by
  cases turn with
  | ended => exact .inl indexed
  | unavailable => exact .inl indexed
  | genesis => exact .inl indexed
  | page =>
      rcases indexed_insertBatch.mp indexed with old | ⟨tx, member, -, -, same⟩
      · exact .inl old
      · exact .inr ⟨tx, List.drop_subset _ _ member, same⟩

/-! ## Runs -/

theorem indexed_final {outcomes : List Outcome} {signature : String}
    (indexed : Indexed scan.events signature) :
    Indexed (final (BackwardScan.iterate history) scan outcomes).events signature := by
  induction outcomes generalizing scan with
  | nil => exact indexed
  | cons outcome rest ih => exact ih ((turns history scan outcome).indexed indexed)

theorem of_indexed_final {outcomes : List Outcome} {signature : String}
    (indexed : Indexed (final (BackwardScan.iterate history) scan outcomes).events signature) :
    Indexed scan.events signature ∨
      ∃ tx ∈ history.olderThan scan.beforeSignature, tx.signature = signature := by
  induction outcomes generalizing scan with
  | nil => exact .inl indexed
  | cons outcome rest ih =>
      have turn := turns history scan outcome
      rcases ih indexed with old | ⟨tx, member, same⟩
      · exact turn.of_indexed old
      · exact .inr ⟨tx, turn.olderThan_subset member, same⟩

theorem along_of_complete (complete : scan.isBackwardScanComplete = true)
    (outcomes : List Outcome) :
    Along (BackwardScan.iterate history) (Lossless history) scan outcomes := by
  induction outcomes with
  | nil => trivial
  | cons outcome rest ih =>
      have same : scan.iterate history outcome = scan := if_pos complete
      rw [along_cons, same]
      refine ⟨fun running => ?_, ih⟩
      rw [complete] at running
      cases running

/-- A page is in the final collection exactly when its own turn loses nothing: no later
turn comes back to it. -/
theorem page_indexed_iff {insertion : Insertion} (running : scan.isBackwardScanComplete = false)
    {outcomes : List Outcome} {beforeSignature : Option String}
    (moved : history.olderThan beforeSignature =
      olderEntries ScanLimits.backward (history.olderThan scan.beforeSignature)) :
    (∀ tx ∈ newestPage ScanLimits.backward (history.olderThan scan.beforeSignature),
        tx.err = false →
          Indexed (final (BackwardScan.iterate history)
            ⟨insertBatchTransactionEvent insertion
              (newestPage ScanLimits.backward (history.olderThan scan.beforeSignature))
              scan.events, beforeSignature, false⟩ outcomes).events tx.signature) ↔
      Lossless history scan (.answered insertion) := by
  constructor
  · intro held _ insertion' same tx member success
    cases same
    rw [mem_signatures_before] at member
    have inHistory := History.olderThan_subset (List.drop_subset _ _ member)
    rcases of_indexed_final (held tx member success) with stored | ⟨other, older, same⟩
    · rcases indexed_insertBatch.mp stored with old | ⟨other, member', -, kept, same⟩
      · exact .inr old
      · have equal := History.eq_of_signature_eq
          (History.olderThan_subset (List.drop_subset _ _ member')) inHistory same
        exact .inl (equal ▸ kept)
    · -- later turns store older transactions only
      have inHistory' := History.olderThan_subset older
      rw [moved, History.eq_of_signature_eq inHistory' inHistory same] at older
      have nodup : (history.olderThan scan.beforeSignature).Nodup :=
        history.nodup.sublist (List.take_sublist _ _)
      exact absurd member (not_mem_newestPage_of_older nodup older)
  · intro lossless tx member success
    refine indexed_final (indexed_insertBatch.mpr ?_)
    rcases lossless running insertion rfl tx (mem_signatures_before.mpr member) success with
      kept | old
    · exact .inr ⟨tx, member, success, kept, rfl⟩
    · exact .inl old

/-- The scan ends with a row for every successful transaction before its cursor exactly
when no turn lost one. -/
theorem all_indexed_iff_lossless (running : scan.isBackwardScanComplete = false)
    {outcomes : List Outcome}
    (complete :
      (final (BackwardScan.iterate history) scan outcomes).isBackwardScanComplete = true) :
    (∀ tx ∈ history.olderThan scan.beforeSignature, tx.err = false →
        Indexed (final (BackwardScan.iterate history) scan outcomes).events tx.signature) ↔
      Along (BackwardScan.iterate history) (Lossless history) scan outcomes := by
  induction outcomes generalizing scan with
  | nil =>
      rw [final_nil, running] at complete
      cases complete
  | cons outcome rest ih =>
      have turn := turns history scan outcome
      rw [final_cons] at complete ⊢
      rw [along_cons]
      generalize scan.iterate history outcome = next at turn complete ⊢
      cases turn with
      | ended ended =>
          rw [running] at ended
          cases ended
      | unavailable =>
          rw [ih running complete, iff_and_self]
          exact fun _ _ insertion answered => nomatch answered
      | genesis _ empty =>
          rw [empty]
          refine iff_of_true nofun ⟨fun _ _ _ tx member => ?_, along_of_complete rfl rest⟩
          rw [mem_signatures_before, empty, newestPage_nil] at member
          cases member
      | page _ _ moved =>
          rw [← page_indexed_iff running moved, ← ih rfl complete, moved]
          constructor
          · intro held
            exact ⟨fun tx member => held tx (mem_iff_older_or_newest.mpr (.inr member)),
              fun tx member => held tx (mem_iff_older_or_newest.mpr (.inl member))⟩
          · rintro ⟨page, older⟩ tx member
            rcases mem_iff_older_or_newest.mp member with before | here
            · exact older tx before
            · exact page tx here

/-- The first RPC call and the insertion of the page after it fail, the latter having
stored the page already. -/
theorem all_indexed_iff_lossless_sample :
    (∀ tx ∈ (History.sample monotone_id 1).olderThan none, tx.err = false →
        Indexed (final (BackwardScan.iterate (.sample monotone_id 1)) ⟨.empty, none, false⟩
          [.unavailable, .answered (.failed fun _ => true), .answered .done]).events
          tx.signature) ↔
      Along (BackwardScan.iterate (.sample monotone_id 1)) (Lossless (.sample monotone_id 1))
        ⟨.empty, none, false⟩
        [.unavailable, .answered (.failed fun _ => true), .answered .done] :=
  @all_indexed_iff_lossless (.sample monotone_id 1) ⟨.empty, none, false⟩ rfl _ (by decide)

/-- The insertion of the only page fails and stores nothing; the scan completes. -/
theorem failed_page_skipped :
    (runBackwardScan (.sample monotone_id 1)
        [.answered (.failed fun _ => false), .answered .done] .empty).isBackwardScanComplete
        = true ∧
      ¬∀ tx ∈ (History.sample monotone_id 1).olderThan none, tx.err = false →
        Indexed (runBackwardScan (.sample monotone_id 1)
          [.answered (.failed fun _ => false), .answered .done] .empty).events tx.signature := by
  decide

end Scanner

end DlmmIndexer

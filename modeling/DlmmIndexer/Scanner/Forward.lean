import DlmmIndexer.Scanner.Service

/-!
# Gaps after forward scans

A forward scan asks for one page: the newest transactions after its cursor, at most
1000.  When more have arrived, the older ones among them are left out, and the next
cursor stands after them.  The collection stays without gaps exactly when this never
matters: what is left out failed or has a row, or the page itself adds no row.
-/

namespace DlmmIndexer

open Documents Machine Paging StableSort

namespace Scanner

variable {history : History} {events : TransactionEvents}

/-- Every row belongs to a transaction of the history. -/
def OnChain (history : History) (events : TransactionEvents) : Prop :=
  ∀ event ∈ events.documents, ∃ tx ∈ history.transactions, tx.signature = event.signature

/-- Every successful transaction between two rows has a row. -/
def Gapless (history : History) (events : TransactionEvents) : Prop :=
  ∀ tx ∈ history.transactions, tx.err = false →
    ∀ oldest ∈ events.documents, ∀ newest ∈ events.documents,
      history.position oldest.signature ≤ history.position tx.signature →
        history.position tx.signature ≤ history.position newest.signature →
          Indexed events tx.signature

/-- The page that a call with this cursor fetches, in chain order. -/
def forwardPage (history : History) (untilSignature : String) : List ConfirmedSignatureInfo :=
  newestPage ScanLimits.forward (history.newerThan (some untilSignature))

/-- Of the transactions newer than the cursor, no successful one is among the newest
1000, or every successful one before the newest 1000 has a row. -/
def NothingSkipped (history : History) (events : TransactionEvents) : Prop :=
  ∀ untilSignature, getNewestTransactionLocal events = some untilSignature →
    (∀ tx ∈ forwardPage history untilSignature, tx.err = true) ∨
    ∀ tx ∈ olderEntries ScanLimits.forward (history.newerThan (some untilSignature)),
      tx.err = false → Indexed events tx.signature

/-! ## One call -/

theorem forwardPage_sublist (history : History) (untilSignature : String) :
    (forwardPage history untilSignature).Sublist history.transactions :=
  (List.drop_sublist _ _).trans (List.drop_sublist _ _)

/-- The page is newer than the cursor. -/
theorem position_lt_of_mem_forwardPage {untilSignature : String} {tx : ConfirmedSignatureInfo}
    (onPage : tx ∈ forwardPage history untilSignature) :
    history.position untilSignature < history.position tx.signature :=
  (History.mem_newerThan.mp (List.drop_subset _ _ onPage)).2

/-- The cursor is the signature of a row. -/
theorem exists_newest (nonempty : events.documents ≠ []) :
    ∃ event ∈ events.documents, getNewestTransactionLocal events = some event.signature := by
  cases last : (sortByKey TransactionEvent.blockNumber events.documents).getLast? with
  | none => exact absurd (eq_nil_of_sortByKey (List.getLast?_eq_none_iff.mp last)) nonempty
  | some event =>
      refine ⟨event, (mem_sortByKey _).mp (List.mem_of_getLast? last), ?_⟩
      rw [getNewest_eq, last, Option.map_some]

/-- Without a cursor there is nothing to scan from. -/
theorem scanForwards_of_none (cursor : getNewestTransactionLocal events = none) :
    scanForwards history events = events := by
  rw [scanForwards, cursor]

/-- A call adds the rows of one page. -/
theorem documents_scanForwards {untilSignature : String}
    (cursor : getNewestTransactionLocal events = some untilSignature) :
    (scanForwards history events).documents =
      events.documents ++ successEvents (forwardPage history untilSignature) := by
  rw [scanForwards, cursor]
  simp only [History.reverse_signatures_until]
  split
  · exact documents_insertBatch_done _ _
  · next short =>
      have empty : history.getSignaturesForAddress ScanLimits.forward none (some untilSignature)
          = [] := List.length_eq_zero_iff.mp (Nat.eq_zero_of_not_pos short)
      rw [forwardPage, ← History.reverse_signatures_until, empty]
      exact (List.append_nil _).symm

theorem indexed_scanForwards {untilSignature signature : String}
    (cursor : getNewestTransactionLocal events = some untilSignature) :
    Indexed (scanForwards history events) signature ↔
      Indexed events signature ∨
        ∃ tx ∈ forwardPage history untilSignature, tx.err = false ∧ tx.signature = signature := by
  simp only [Indexed, documents_scanForwards cursor, List.mem_append, mem_successEvents]
  constructor
  · rintro ⟨event, old | ⟨tx, member, success, rfl⟩, same⟩
    · exact .inl ⟨event, old, same⟩
    · exact .inr ⟨tx, member, success, same⟩
  · rintro (⟨event, old, same⟩ | ⟨tx, member, success, same⟩)
    · exact ⟨event, .inl old, same⟩
    · exact ⟨tx.transactionEvent, .inr ⟨tx, member, success, rfl⟩, same⟩

theorem OnChain.scanForwards (onChain : OnChain history events) :
    OnChain history (scanForwards history events) := by
  cases cursor : getNewestTransactionLocal events with
  | none =>
      rwa [scanForwards_of_none cursor]
  | some untilSignature =>
      intro event member
      rw [documents_scanForwards cursor, List.mem_append, mem_successEvents] at member
      rcases member with old | ⟨tx, inPage, -, rfl⟩
      · exact onChain event old
      · exact ⟨tx, (forwardPage_sublist _ _).subset inPage, rfl⟩

/-- What the page leaves out is older than what it has. -/
theorem position_lt_of_older_of_newest {limit : ℕ} {untilSignature : Option String}
    {tx other : ConfirmedSignatureInfo}
    (older : tx ∈ olderEntries limit (history.newerThan untilSignature))
    (newest : other ∈ newestPage limit (history.newerThan untilSignature)) :
    history.position tx.signature < history.position other.signature := by
  have ordered := history.pairwise_position.sublist
    (List.drop_sublist (history.after untilSignature) history.transactions)
  rw [← History.newerThan, ← olderEntries_append_newestPage limit (history.newerThan _),
    List.pairwise_append] at ordered
  exact ordered.2.2 tx older other newest

/-- A call that leaves a gap-free collection has skipped nothing. -/
theorem nothingSkipped_of_gapless (nonempty : events.documents ≠ [])
    (gapless : Gapless history (scanForwards history events)) : NothingSkipped history events := by
  intro untilSignature cursor
  by_cases failed :
      ∀ tx ∈ forwardPage history untilSignature, tx.err = true
  · exact .inl failed
  · push Not at failed
    obtain ⟨last, inPage, success'⟩ := failed
    rw [ne_eq, Bool.not_eq_true] at success'
    refine .inr fun tx skipped success => ?_
    obtain ⟨row, member, cursor'⟩ := exists_newest nonempty
    rw [cursor] at cursor'
    cases cursor'
    have newer := History.mem_newerThan.mp (List.take_subset _ _ skipped)
    have below := position_lt_of_older_of_newest skipped inPage
    -- the skipped transaction lies between the cursor and the new row
    have indexed := gapless tx newer.1 success row
      (by rw [documents_scanForwards cursor]; exact List.mem_append_left _ member)
      last.transactionEvent
      (by
        rw [documents_scanForwards cursor]
        exact List.mem_append_right _ (mem_successEvents.mpr ⟨last, inPage, success', rfl⟩))
      newer.2.le below.le
    rcases (indexed_scanForwards cursor).mp indexed with old | ⟨other, inPage', -, same⟩
    · exact old
    · have inHistory := (forwardPage_sublist _ _).subset inPage'
      rw [History.eq_of_signature_eq inHistory newer.1 same] at inPage'
      exact absurd inPage' (not_mem_newestPage_of_older
        (history.nodup.sublist (List.drop_sublist _ _)) skipped)

/-- A call that skips nothing keeps a collection free of gaps. -/
theorem gapless_of_nothingSkipped (nonempty : events.documents ≠ [])
    (gapless : Gapless history events) (complete : NothingSkipped history events) :
    Gapless history (scanForwards history events) := by
  obtain ⟨cursorRow, cursorMember, cursor⟩ := exists_newest nonempty
  intro tx member success oldest oldestMember newest newestMember above below
  rw [documents_scanForwards cursor, List.mem_append, mem_successEvents]
    at oldestMember newestMember
  rw [indexed_scanForwards cursor]
  by_cases newer : history.position cursorRow.signature < history.position tx.signature
  · have here := History.mem_newerThan.mpr ⟨member, newer⟩
    rcases (@mem_iff_older_or_newest _ ScanLimits.forward _ _).mp here with skipped | inPage
    · rcases complete _ cursor with failed | known
      · -- no row is new
        have old : ∀ event, (∃ other ∈ forwardPage history cursorRow.signature,
            other.err = false ∧ other.transactionEvent = event) → event ∈ events.documents := by
          rintro _ ⟨other, inPage, success', rfl⟩
          rw [failed other inPage] at success'
          cases success'
        exact .inl (gapless tx member success oldest (oldestMember.elim id (old oldest)) newest
          (newestMember.elim id (old newest)) above below)
      · exact .inl (known tx skipped success)
    · exact .inr ⟨tx, inPage, success, rfl⟩
  · rcases oldestMember with old | ⟨other, inPage, -, rfl⟩
    · exact .inl (gapless tx member success oldest old cursorRow cursorMember above
        (Nat.le_of_not_lt newer))
    · exact absurd ((position_lt_of_mem_forwardPage inPage).trans_le above) newer

/-! ## Runs -/

theorem OnChain.extend {later : History} (onChain : OnChain history events)
    (extended : history.Extends later) : OnChain later events := by
  intro event member
  obtain ⟨tx, inHistory, same⟩ := onChain event member
  exact ⟨tx, extended.mem inHistory, same⟩

/-- New transactions come after all rows, so they make no gap. -/
theorem Gapless.extend {later : History} (onChain : OnChain history events)
    (gapless : Gapless history events) (extended : history.Extends later) :
    Gapless later events := by
  intro tx member success oldest oldestMember newest newestMember above below
  obtain ⟨first, firstMember, firstSame⟩ := onChain oldest oldestMember
  obtain ⟨last, lastMember, lastSame⟩ := onChain newest newestMember
  rw [← firstSame] at above
  rw [← lastSame] at below
  have known := extended.mem_of_position_le member lastMember below
  rw [extended.position_eq firstMember, extended.position_eq known] at above
  rw [extended.position_eq lastMember, extended.position_eq known] at below
  exact gapless tx known success oldest oldestMember newest newestMember (firstSame ▸ above)
    (lastSame ▸ below)

theorem nonempty_scanForwards (nonempty : events.documents ≠ []) :
    (scanForwards history events).documents ≠ [] := by
  obtain ⟨_, _, cursor⟩ := exists_newest nonempty
  rw [documents_scanForwards cursor]
  exact List.append_ne_nil_of_left_ne_nil nonempty _

/-- Forward scans leave no gap after any call exactly when no call skips anything. -/
theorem gapless_iff_nothingSkipped (nonempty : events.documents ≠ [])
    (onChain : OnChain history events) (gapless : Gapless history events) {calls : List History}
    (growing : (history :: calls).Pairwise History.Extends) :
    Along (fun events seen => scanForwards seen events)
        (fun events seen => Gapless seen (scanForwards seen events)) events calls ↔
      Along (fun events seen => scanForwards seen events)
        (fun events seen => NothingSkipped seen events) events calls := by
  induction calls generalizing history events with
  | nil => exact Iff.rfl
  | cons seen rest ih =>
      obtain ⟨extended, growing⟩ := List.pairwise_cons.mp growing
      have here := extended seen List.mem_cons_self
      have before := gapless.extend onChain here
      have onChain := onChain.extend here
      have call : Gapless seen (scanForwards seen events) ↔ NothingSkipped seen events :=
        ⟨nothingSkipped_of_gapless nonempty, gapless_of_nothingSkipped nonempty before⟩
      rw [along_cons, along_cons, call]
      exact and_congr_right fun complete =>
        ih (nonempty_scanForwards nonempty) onChain.scanForwards (call.mpr complete) growing

/-! ## Collections that hold a whole history -/

/-- The rows of a whole history. -/
def allEvents (history : History) : TransactionEvents :=
  insertBatchTransactionEvent .done history.transactions .empty

theorem documents_allEvents (history : History) :
    (allEvents history).documents = successEvents history.transactions :=
  documents_insertBatch_done _ _

theorem onChain_allEvents (history : History) : OnChain history (allEvents history) := by
  intro event member
  rw [documents_allEvents, mem_successEvents] at member
  obtain ⟨tx, inHistory, -, rfl⟩ := member
  exact ⟨tx, inHistory, rfl⟩

theorem gapless_allEvents (history : History) : Gapless history (allEvents history) := by
  intro tx member success _ _ _ _ _ _
  refine ⟨tx.transactionEvent, ?_, rfl⟩
  rw [documents_allEvents]
  exact mem_successEvents.mpr ⟨tx, member, success, rfl⟩

theorem gapless_iff_nothingSkipped_sample :
    Along (fun events seen => scanForwards seen events)
        (fun events seen => Gapless seen (scanForwards seen events))
        (allEvents (.sample monotone_id 1)) [.sample monotone_id 2, .sample monotone_id 3] ↔
      Along (fun events seen => scanForwards seen events)
        (fun events seen => NothingSkipped seen events)
        (allEvents (.sample monotone_id 1)) [.sample monotone_id 2, .sample monotone_id 3] :=
  gapless_iff_nothingSkipped (by decide) (onChain_allEvents _) (gapless_allEvents _)
    (by simp [History.sample_extends])

/-- One row, and 1001 new transactions before the next call. -/
theorem forward_scan_leaves_gap :
    ((allEvents (.sample monotone_id 1)).documents ≠ [] ∧
        OnChain (.sample monotone_id 1) (allEvents (.sample monotone_id 1)) ∧
        Gapless (.sample monotone_id 1) (allEvents (.sample monotone_id 1)) ∧
        (History.sample monotone_id 1).Extends (.sample monotone_id 1002)) ∧
      ¬Gapless (.sample monotone_id 1002)
        (scanForwards (.sample monotone_id 1002) (allEvents (.sample monotone_id 1))) := by
  have nonempty : (allEvents (.sample monotone_id 1)).documents ≠ [] := by decide
  refine ⟨⟨nonempty, onChain_allEvents _, gapless_allEvents _,
    History.sample_extends _ (by decide)⟩, fun gapless => ?_⟩
  have cursor : getNewestTransactionLocal (allEvents (.sample monotone_id 1)) =
      some (History.sampleSignature 0) := by decide
  -- transaction 1 is left out, transaction 2 is on the page
  have newer := History.newerThan_sample monotone_id (show 0 < 1002 by decide)
  have skipped : 1 ∈ olderEntries ScanLimits.forward ((List.range 1002).drop 1) := by
    decide +kernel
  have inPage : 2 ∈ newestPage ScanLimits.forward ((List.range 1002).drop 1) := by
    decide +kernel
  rcases nothingSkipped_of_gapless nonempty gapless _ cursor with failed | known
  · rw [forwardPage, newer, newestPage_map] at failed
    have failed := failed _ (List.mem_map_of_mem inPage)
    cases failed
  · rw [newer, olderEntries_map] at known
    have indexed := known _ (List.mem_map_of_mem skipped) rfl
    revert indexed
    decide

end Scanner

end DlmmIndexer

import DlmmIndexer.Scanner.Forward
import DlmmIndexer.Scanner.StoredOrder

/-!
# One row for a signature

Nothing but the cursors keeps the scanner from inserting a signature twice: the
collection has no unique index.  The cursors are exact when the oldest row in sorted
order is that of the oldest successful transaction, and the newest row stands after
all others in the chain.  The scan of an empty collection makes them exact if the end
of a page does not cut the slot of the first or of the last successful transaction;
every later scan keeps them exact.
-/

namespace DlmmIndexer

open Documents Machine Paging StableSort

namespace Scanner

/-- A run of the scanner, with the history it finds. -/
inductive Call where
  | initializeScanner (seen : History)
  | scanForwards (seen : History)

namespace Call

def seen : Call → History
  | .initializeScanner seen => seen
  | .scanForwards seen => seen

/-- The collection after the run. -/
def perform (events : TransactionEvents) : Call → TransactionEvents
  | .initializeScanner seen => Scanner.initializeScanner seen events
  | .scanForwards seen => Scanner.scanForwards seen events

end Call

/-- A start on an empty collection finds the slots of the first and of the last
successful transaction each on one page. -/
def EndSlotsWhole (events : TransactionEvents) (call : Call) : Prop :=
  ∀ seen, call = .initializeScanner seen → events.documents = [] →
    ∀ tx, seen.successful.head? = some tx ∨ seen.successful.getLast? = some tx →
      SlotWhole seen tx.slot

/-- The rows are those of successful transactions, one for each, and both cursors are
exact. -/
structure Exact (history : History) (events : TransactionEvents) : Prop where
  rows : ∀ event ∈ events.documents,
    ∃ tx ∈ history.transactions, tx.err = false ∧ tx.transactionEvent = event
  unique : (events.documents.map (·.signature)).Nodup
  oldest : events.documents ≠ [] →
    getOldestTransactionLocal events = history.successful.head?.map (·.signature)
  newest : ∀ untilSignature, getNewestTransactionLocal events = some untilSignature →
    ∀ event ∈ events.documents,
      history.position event.signature ≤ history.position untilSignature

variable {history : History} {events events' : TransactionEvents}

theorem exact_empty (history : History) : Exact history .empty where
  rows := nofun
  unique := List.nodup_nil
  oldest := fun nonempty => absurd rfl nonempty
  newest := nofun

/-- Exactness is a property of the stored documents. -/
theorem Exact.congr (exact : Exact history events) (same : events'.documents = events.documents) :
    Exact history events' where
  rows := same ▸ exact.rows
  unique := same ▸ exact.unique
  oldest := by
    rw [getOldest_eq, same, ← getOldest_eq]
    exact exact.oldest
  newest := by
    rw [getNewest_eq, same, ← getNewest_eq]
    exact exact.newest

/-! ## Successful transactions -/

theorem mem_successful {tx : ConfirmedSignatureInfo} :
    tx ∈ history.successful ↔ tx ∈ history.transactions ∧ tx.err = false := by
  simp [History.successful]

theorem pairwise_successful (history : History) :
    history.successful.Pairwise fun earlier later =>
      history.position earlier.signature < history.position later.signature :=
  history.pairwise_position.sublist List.filter_sublist

theorem position_first_le {first tx : ConfirmedSignatureInfo}
    (head : history.successful.head? = some first) (member : tx ∈ history.transactions)
    (success : tx.err = false) :
    history.position first.signature ≤ history.position tx.signature := by
  obtain ⟨rest, shape⟩ := List.head?_eq_some_iff.mp head
  have pairwise := pairwise_successful history
  have here := mem_successful.mpr ⟨member, success⟩
  rw [shape] at pairwise here
  rcases List.mem_cons.mp here with rfl | later
  · exact le_rfl
  · exact ((List.pairwise_cons.mp pairwise).1 tx later).le

theorem position_le_last {last tx : ConfirmedSignatureInfo}
    (final : history.successful.getLast? = some last) (member : tx ∈ history.transactions)
    (success : tx.err = false) :
    history.position tx.signature ≤ history.position last.signature := by
  obtain ⟨before, shape⟩ := List.getLast?_eq_some_iff.mp final
  have pairwise := pairwise_successful history
  have here := mem_successful.mpr ⟨member, success⟩
  rw [shape] at pairwise here
  rcases List.mem_append.mp here with earlier | same
  · exact ((List.pairwise_append.mp pairwise).2.2 tx earlier last List.mem_cons_self).le
  · rw [List.mem_singleton.mp same]

/-! ## Growth of the chain -/

theorem successful_extends {later : History} (extended : history.Extends later) :
    history.successful <+: later.successful :=
  List.IsPrefix.filter _ extended

/-- New transactions come after all rows. -/
theorem Exact.extend {later : History} (exact : Exact history events)
    (extended : history.Extends later) : Exact later events where
  rows := fun event member => by
    obtain ⟨tx, inHistory, success, same⟩ := exact.rows event member
    exact ⟨tx, extended.mem inHistory, success, same⟩
  unique := exact.unique
  oldest := fun nonempty => by
    obtain ⟨event, member⟩ := List.exists_mem_of_ne_nil _ nonempty
    obtain ⟨tx, inHistory, success, -⟩ := exact.rows event member
    have known := mem_successful.mpr ⟨inHistory, success⟩
    rw [exact.oldest nonempty]
    cases shape : history.successful with
    | nil =>
        rw [shape] at known
        cases known
    | cons first rest =>
        have extended := successful_extends extended
        rw [shape, List.cons_prefix_iff] at extended
        obtain ⟨more, shape', -⟩ := extended
        rw [shape', List.head?_cons, List.head?_cons]
  newest := by
    intro untilSignature cursor event member
    have nonempty := List.ne_nil_of_mem member
    obtain ⟨row, rowMember, cursor'⟩ := exists_newest nonempty
    rw [cursor] at cursor'
    cases cursor'
    obtain ⟨tx, inHistory, -, rfl⟩ := exact.rows event member
    obtain ⟨other, inHistory', -, rfl⟩ := exact.rows row rowMember
    have le := exact.newest _ cursor _ member
    exact (extended.position_eq inHistory).trans_le
      (le.trans_eq (extended.position_eq inHistory').symm)

/-! ## Starts -/

/-- A start stores the pages before its cursor, none if the genesis is reached. -/
theorem documents_initializeScanner (history : History) (events : TransactionEvents) :
    (initializeScanner history events).documents = events.documents ++ successEvents
      (pages ScanLimits.backward
        (history.olderThan (getOldestTransactionLocal events))).flatten := by
  unfold initializeScanner
  split
  · next reached =>
      cases cursor : getOldestTransactionLocal events with
      | none =>
          rw [checkGenesisReached, cursor] at reached
          cases reached
      | some oldestSignature =>
          rw [checkGenesisReached, cursor, beq_iff_eq, List.length_eq_zero_iff,
            ← List.reverse_eq_nil_iff, History.reverse_signatures_before,
            newestPage_eq_nil_iff Nat.one_pos] at reached
          rw [reached, pages_nil]
          exact (List.append_nil _).symm
  · refine documents_failureFree rfl (failureFree_complete ?_)
    exact Nat.lt_succ_of_le (List.length_take_le' _ _)

theorem documents_initializeScanner_of_empty (history : History) (empty : events.documents = []) :
    (initializeScanner history events).documents = scannedEvents history := by
  have cursor : getOldestTransactionLocal events = none := by
    rw [getOldest_eq, empty]
    rfl
  rw [documents_initializeScanner, cursor, empty, History.olderThan, History.upTo,
    List.take_length]
  rfl

theorem mem_scannedEvents {event : TransactionEvent} :
    event ∈ scannedEvents history ↔
      ∃ tx ∈ history.transactions, tx.err = false ∧ tx.transactionEvent = event := by
  simp only [scannedEvents, mem_successEvents, mem_flatten_pages ScanLimits.backward_pos]

/-- The oldest row after a scan of the empty collection. -/
theorem head?_scannedEvents {first : ConfirmedSignatureInfo}
    (head : history.successful.head? = some first) (whole : SlotWhole history first.slot) :
    (sortByKey TransactionEvent.blockNumber (scannedEvents history)).head? =
      some first.transactionEvent := by
  obtain ⟨rest, shape⟩ := List.head?_eq_some_iff.mp head
  have known := mem_successful.mp (List.mem_of_head? head)
  refine head?_sortByKey.mpr ⟨fun other member => ?_, ?_⟩
  · obtain ⟨tx, inHistory, success, rfl⟩ := mem_scannedEvents.mp member
    exact History.slot_le_of_position_le known.1 inHistory
      (position_first_le head inHistory success)
  · refine (congrArg List.head? (slotWhole_iff.mp whole)).trans ?_
    rw [successEvents, ← History.successful, shape, List.map_cons,
      List.filter_cons_of_pos (by simp)]
    rfl

/-- The newest row after a scan of the empty collection. -/
theorem getLast?_scannedEvents {last : ConfirmedSignatureInfo}
    (final : history.successful.getLast? = some last) (whole : SlotWhole history last.slot) :
    (sortByKey TransactionEvent.blockNumber (scannedEvents history)).getLast? =
      some last.transactionEvent := by
  obtain ⟨before, shape⟩ := List.getLast?_eq_some_iff.mp final
  have known := mem_successful.mp (List.mem_of_getLast? final)
  refine getLast?_sortByKey.mpr ⟨fun other member => ?_, ?_⟩
  · obtain ⟨tx, inHistory, success, rfl⟩ := mem_scannedEvents.mp member
    exact History.slot_le_of_position_le inHistory known.1
      (position_le_last final inHistory success)
  · refine (congrArg List.getLast? (slotWhole_iff.mp whole)).trans ?_
    rw [successEvents, ← History.successful, shape, List.map_append, List.filter_append,
      List.map_singleton, List.filter_cons_of_pos (by simp), List.filter_nil]
    exact List.getLast?_concat

/-- The scan of an empty collection makes the cursors exact. -/
theorem exact_scannedEvents (documents : events.documents = scannedEvents history)
    (whole : ∀ tx, history.successful.head? = some tx ∨ history.successful.getLast? = some tx →
      SlotWhole history tx.slot) : Exact history events where
  rows := fun event member => mem_scannedEvents.mp (documents ▸ member)
  unique := by
    rw [documents]
    have perm := ((perm_flatten_pages ScanLimits.backward_pos history.transactions).filter
      fun tx => !tx.err).map fun tx => tx.transactionEvent
    exact (perm.map _).nodup_iff.mpr (nodup_successEvents history.distinct)
  oldest := by
    intro nonempty
    obtain ⟨event, member⟩ := List.exists_mem_of_ne_nil _ nonempty
    obtain ⟨tx, inHistory, success, -⟩ := mem_scannedEvents.mp (documents ▸ member)
    have some : history.successful ≠ [] :=
      List.ne_nil_of_mem (mem_successful.mpr ⟨inHistory, success⟩)
    obtain ⟨first, head⟩ := Option.ne_none_iff_exists'.mp (mt List.head?_eq_none_iff.mp some)
    rw [getOldest_eq, documents, head?_scannedEvents head (whole first (.inl head)), head]
    rfl
  newest := by
    intro untilSignature cursor event member
    obtain ⟨tx, inHistory, success, rfl⟩ := mem_scannedEvents.mp (documents ▸ member)
    have some : history.successful ≠ [] :=
      List.ne_nil_of_mem (mem_successful.mpr ⟨inHistory, success⟩)
    obtain ⟨last, final⟩ := Option.ne_none_iff_exists'.mp (mt List.getLast?_eq_none_iff.mp some)
    rw [getNewest_eq, documents, getLast?_scannedEvents final (whole last (.inr final))] at cursor
    cases cursor
    exact position_le_last final inHistory success

/-- A start keeps the cursors exact. -/
theorem Exact.initializeScanner (exact : Exact history events)
    (whole : EndSlotsWhole events (.initializeScanner history)) :
    Exact history (initializeScanner history events) := by
  by_cases empty : events.documents = []
  · exact exact_scannedEvents (documents_initializeScanner_of_empty history empty)
      (whole history rfl empty)
  · -- everything before the oldest row has failed
    refine exact.congr ?_
    obtain ⟨event, member⟩ := List.exists_mem_of_ne_nil _ empty
    obtain ⟨tx, inHistory, success, -⟩ := exact.rows event member
    have some : history.successful ≠ [] :=
      List.ne_nil_of_mem (mem_successful.mpr ⟨inHistory, success⟩)
    obtain ⟨first, head⟩ := Option.ne_none_iff_exists'.mp (mt List.head?_eq_none_iff.mp some)
    have nothing : successEvents (pages ScanLimits.backward
        (history.olderThan (Option.some first.signature))).flatten = [] := by
      refine List.eq_nil_iff_forall_not_mem.mpr fun event member => ?_
      obtain ⟨other, onPage, success', -⟩ := mem_successEvents.mp member
      have older := (mem_flatten_pages ScanLimits.backward_pos).mp onPage
      exact absurd (position_first_le head (History.olderThan_subset older) success')
        (Nat.not_le_of_lt (History.position_lt_of_mem_olderThan older))
    rw [documents_initializeScanner, exact.oldest empty, head, Option.map_some, nothing,
      List.append_nil]

/-! ## Forward scans -/

section Forward

variable {untilSignature : String}

theorem nonempty_of_newest (cursor : getNewestTransactionLocal events = some untilSignature) :
    events.documents ≠ [] := by
  intro empty
  rw [getNewest_eq, empty] at cursor
  cases cursor

/-- The page of a forward scan stands after all rows. -/
theorem Exact.position_lt_page (exact : Exact history events)
    (cursor : getNewestTransactionLocal events = some untilSignature) {event : TransactionEvent}
    (member : event ∈ events.documents) {tx : ConfirmedSignatureInfo}
    (onPage : tx ∈ forwardPage history untilSignature) :
    history.position event.signature < history.position tx.signature :=
  (exact.newest untilSignature cursor event member).trans_lt
    (position_lt_of_mem_forwardPage onPage)

/-- The rows that a forward scan adds are sorted already, and come after all others. -/
theorem Exact.sort_scanForwards (exact : Exact history events)
    (cursor : getNewestTransactionLocal events = some untilSignature) :
    sortByKey TransactionEvent.blockNumber (scanForwards history events).documents =
      sortByKey TransactionEvent.blockNumber events.documents ++
        successEvents (forwardPage history untilSignature) := by
  rw [documents_scanForwards cursor]
  refine sortByKey_append ?_ ?_
  · refine List.pairwise_map.mpr (history.ordered.sublist ?_)
    exact List.filter_sublist.trans (forwardPage_sublist history untilSignature)
  · intro event member other new
    obtain ⟨tx, inHistory, -, rfl⟩ := exact.rows event member
    obtain ⟨tx', onPage, -, rfl⟩ := mem_successEvents.mp new
    exact History.slot_le_of_position_le inHistory ((forwardPage_sublist _ _).subset onPage)
      (exact.position_lt_page cursor member onPage).le

theorem Exact.rows_scanForwards (exact : Exact history events)
    (cursor : getNewestTransactionLocal events = some untilSignature) :
    ∀ event ∈ (scanForwards history events).documents,
      ∃ tx ∈ history.transactions, tx.err = false ∧ tx.transactionEvent = event := by
  intro event member
  rw [documents_scanForwards cursor] at member
  rcases List.mem_append.mp member with old | new
  · exact exact.rows event old
  · obtain ⟨tx, onPage, success, same⟩ := mem_successEvents.mp new
    exact ⟨tx, (forwardPage_sublist _ _).subset onPage, success, same⟩

theorem Exact.unique_scanForwards (exact : Exact history events)
    (cursor : getNewestTransactionLocal events = some untilSignature) :
    ((scanForwards history events).documents.map (·.signature)).Nodup := by
  rw [documents_scanForwards cursor, List.map_append, List.nodup_append]
  refine ⟨exact.unique, nodup_successEvents (history.distinct.sublist
    ((forwardPage_sublist history untilSignature).map _)), ?_⟩
  intro signature old signature' new equal
  obtain ⟨event, member, rfl⟩ := List.mem_map.mp old
  obtain ⟨event', member', rfl⟩ := List.mem_map.mp new
  obtain ⟨tx, onPage, -, rfl⟩ := mem_successEvents.mp member'
  exact (exact.position_lt_page cursor member onPage).ne (congrArg history.position equal)

theorem Exact.oldest_scanForwards (exact : Exact history events)
    (cursor : getNewestTransactionLocal events = some untilSignature) :
    getOldestTransactionLocal (scanForwards history events) =
      history.successful.head?.map (·.signature) := by
  have nonempty := nonempty_of_newest cursor
  rw [getOldest_eq, exact.sort_scanForwards cursor,
    List.head?_append_of_ne_nil _ (mt eq_nil_of_sortByKey nonempty), ← getOldest_eq]
  exact exact.oldest nonempty

theorem Exact.newest_scanForwards (exact : Exact history events)
    (cursor : getNewestTransactionLocal events = some untilSignature) {newest : String}
    (cursor' : getNewestTransactionLocal (scanForwards history events) = some newest) :
    ∀ event ∈ (scanForwards history events).documents,
      history.position event.signature ≤ history.position newest := by
  have pageOrder : (successEvents (forwardPage history untilSignature)).Pairwise
      fun earlier later =>
        history.position earlier.signature < history.position later.signature := by
    refine List.pairwise_map.mpr (history.pairwise_position.sublist ?_)
    exact List.filter_sublist.trans (forwardPage_sublist history untilSignature)
  intro event member
  rw [documents_scanForwards cursor, List.mem_append] at member
  rw [getNewest_eq, exact.sort_scanForwards cursor] at cursor'
  rcases List.eq_nil_or_concat' (successEvents (forwardPage history untilSignature)) with
    empty | ⟨before, last, shape⟩
  · rw [empty, List.append_nil, ← getNewest_eq, cursor] at cursor'
    cases cursor'
    rw [empty] at member
    exact exact.newest untilSignature cursor event (member.resolve_right List.not_mem_nil)
  · have lastMember : last ∈ successEvents (forwardPage history untilSignature) := by
      rw [shape]
      exact List.mem_append_right _ List.mem_cons_self
    rw [shape, ← List.append_assoc, List.getLast?_concat] at cursor'
    cases cursor'
    rcases member with old | new
    · obtain ⟨tx, onPage, -, rfl⟩ := mem_successEvents.mp lastMember
      exact (exact.position_lt_page cursor old onPage).le
    · rw [shape] at new pageOrder
      rcases List.mem_append.mp new with earlier | same
      · exact ((List.pairwise_append.mp pageOrder).2.2 event earlier last List.mem_cons_self).le
      · rw [List.mem_singleton.mp same]

/-- A forward scan keeps the cursors exact. -/
theorem Exact.scanForwards (exact : Exact history events) :
    Exact history (scanForwards history events) := by
  cases cursor : getNewestTransactionLocal events with
  | none =>
      rwa [scanForwards_of_none cursor]
  | some untilSignature =>
      exact ⟨exact.rows_scanForwards cursor, exact.unique_scanForwards cursor,
        fun _ => exact.oldest_scanForwards cursor, fun _ => exact.newest_scanForwards cursor⟩

end Forward

/-! ## Runs -/

theorem Exact.perform {call : Call} (exact : Exact call.seen events)
    (whole : EndSlotsWhole events call) : Exact call.seen (call.perform events) := by
  cases call with
  | initializeScanner => exact exact.initializeScanner whole
  | scanForwards => exact exact.scanForwards

theorem Exact.run {calls : List Call} (exact : Exact history events)
    (growing : (history :: calls.map Call.seen).Pairwise History.Extends)
    (whole : Along Call.perform EndSlotsWhole events calls) :
    ((final Call.perform events calls).documents.map (·.signature)).Nodup := by
  induction calls generalizing history events with
  | nil => exact exact.unique
  | cons call rest ih =>
      obtain ⟨extended, growing⟩ := List.pairwise_cons.mp growing
      exact ih ((exact.extend (extended _ List.mem_cons_self)).perform whole.1) growing whole.2

/-- In every run from the empty collection whose starts on an empty collection cut
neither of the end slots, no signature has two rows. -/
theorem unique_of_endSlotsWhole {calls : List Call}
    (growing : (calls.map Call.seen).Pairwise History.Extends)
    (whole : Along Call.perform EndSlotsWhole .empty calls) :
    ((final Call.perform .empty calls).documents.map (·.signature)).Nodup := by
  refine (exact_empty (.sample monotone_id 0)).run ?_ whole
  exact List.pairwise_cons.mpr ⟨fun _ _ => List.nil_prefix, growing⟩

/-- A start, a forward scan that finds a new transaction, and a restart. -/
theorem unique_of_endSlotsWhole_sample :
    ((final Call.perform .empty
      [.initializeScanner (.sample monotone_id 1), .scanForwards (.sample monotone_id 2),
        .initializeScanner (.sample monotone_id 2)]).documents.map (·.signature)).Nodup := by
  have short {count : ℕ} (le : count ≤ ScanLimits.backward) (slot : ℕ) :
      SlotWhole (.sample monotone_id count) slot :=
    slotWhole_of_short ((History.length_sample monotone_id count).trans_le le) slot
  refine unique_of_endSlotsWhole (by simp [Call.seen, History.sample_extends]) ⟨?_, ?_, ?_, trivial⟩
  · rintro _ ⟨⟩ _ tx _
    exact short (by decide) tx.slot
  · rintro _ ⟨⟩
  · rintro _ ⟨⟩ _ tx _
    exact short (by decide) tx.slot

/-- The newest row after a scan of the crowded slot is that of its oldest transaction,
which was stored last. -/
theorem newest_crowdedSlot (documents : events.documents = scannedEvents crowdedSlot) :
    getNewestTransactionLocal events = some (History.sampleSignature 0) := by
  have older : olderEntries ScanLimits.backward crowdedSlot.transactions =
      [History.sampleTransaction (fun _ => 7) 0] := by
    have first : olderEntries ScanLimits.backward (List.range 1001) = [0] := by decide +kernel
    rw [crowdedSlot, History.sample, olderEntries_map, first, List.map_singleton]
  have nonempty : crowdedSlot.transactions ≠ [] :=
    List.ne_nil_of_length_pos ((History.length_sample _ _).symm ▸ Nat.succ_pos 1000)
  have rows : scannedEvents crowdedSlot =
      successEvents (newestPage ScanLimits.backward crowdedSlot.transactions) ++
        [(History.sampleTransaction (fun _ => 7) 0).transactionEvent] := by
    rw [scannedEvents, pages_of_ne_nil ScanLimits.backward_pos nonempty, older,
      pages_of_short ScanLimits.backward_pos (List.cons_ne_nil _ _) (by decide),
      List.flatten_cons, List.flatten_singleton, successEvents_append]
    rfl
  have slot : ∀ event ∈ scannedEvents crowdedSlot, event.blockNumber = 7 := by
    intro event member
    obtain ⟨tx, inHistory, -, rfl⟩ := mem_scannedEvents.mp member
    obtain ⟨index, -, rfl⟩ := History.mem_sample.mp inHistory
    rfl
  have last : (sortByKey TransactionEvent.blockNumber (scannedEvents crowdedSlot)).getLast? =
      some (History.sampleTransaction (fun _ => 7) 0).transactionEvent := by
    refine getLast?_sortByKey.mpr ⟨fun event member => (slot event member).le, ?_⟩
    rw [rows, List.filter_append, List.filter_cons_of_pos (by simp), List.filter_nil]
    exact List.getLast?_concat
  rw [getNewest_eq, documents, last]
  rfl

/-- A start and a forward scan of the crowded slot store its newer transactions twice. -/
theorem crowdedSlot_twice :
    [crowdedSlot, crowdedSlot].Pairwise History.Extends ∧
      ¬((final Call.perform .empty
        [.initializeScanner crowdedSlot, .scanForwards crowdedSlot]).documents.map
          (·.signature)).Nodup := by
  refine ⟨by simp [History.Extends.refl], fun unique => ?_⟩
  have started : (initializeScanner crowdedSlot .empty).documents = scannedEvents crowdedSlot :=
    documents_initializeScanner_of_empty crowdedSlot rfl
  have last : 1000 ∈ newestPage ScanLimits.forward ((List.range 1001).drop 1) := by decide +kernel
  have onPage : History.sampleTransaction (fun _ => 7) 1000 ∈
      forwardPage crowdedSlot (History.sampleSignature 0) := by
    rw [forwardPage, History.newerThan_sample _ (by decide), newestPage_map]
    exact List.mem_map.mpr ⟨1000, last, rfl⟩
  have stored : (History.sampleTransaction (fun _ => 7) 1000).transactionEvent ∈
      scannedEvents crowdedSlot :=
    mem_scannedEvents.mpr ⟨_, (forwardPage_sublist _ _).subset onPage, rfl, rfl⟩
  have again : (History.sampleTransaction (fun _ => 7) 1000).transactionEvent ∈
      successEvents (forwardPage crowdedSlot (History.sampleSignature 0)) :=
    mem_successEvents.mpr ⟨_, onPage, rfl, rfl⟩
  rw [final_cons, final_cons, final_nil, Call.perform, Call.perform,
    documents_scanForwards (newest_crowdedSlot started), started, List.map_append,
    List.nodup_append] at unique
  exact unique.2.2 _ (List.mem_map_of_mem stored) _ (List.mem_map_of_mem again) rfl

end Scanner

end DlmmIndexer

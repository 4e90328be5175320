import DlmmIndexer.Library.Erasure
import DlmmIndexer.Retry

/-!
# Duplicates leave no trace

A queue delivers a message at least once and an attempt that threw is run again, so an
instruction is worked on any number of times.  An attempt at a deduplicated job that
has inserted no row has only looked for one.  The run without these attempts is a run
as well: it reaches the same store, the other attempts have the same programs and
logs, and no two of them are of one instruction.  Whatever at-least-once delivery
does to the store, delivery at most once could have done.
-/

namespace DlmmIndexer

open Documents JavaScript Atomic

namespace Attempt

/-- The attempt is at a deduplicated job and has inserted no row. -/
def Idle (attempt : Attempt) : Prop :=
  attempt.job.params.isSome = true ∧ attempt.insertedIds = []

instance : DecidablePred Idle := fun _ => inferInstanceAs (Decidable (_ ∧ _))

theorem not_idle_of_plain {attempt : Attempt} (plain : attempt.job.params = none) :
    ¬attempt.Idle := by
  rintro ⟨deduplicates, -⟩
  rw [plain] at deduplicates
  cases deduplicates

/-- Who has inserted a row goes on to have inserted it. -/
theorem not_idle_of_moves {store store' : Store} {attempt attempt' : Attempt}
    (moves : Moves mongo store attempt store' attempt') (awake : ¬attempt.Idle) :
    ¬attempt'.Idle := by
  rintro ⟨deduplicates, none⟩
  rw [moves.job_eq] at deduplicates
  refine awake ⟨deduplicates, ?_⟩
  cases moves with
  | perform applied =>
      rw [insertedIds, List.filterMap_append, List.append_eq_nil_iff] at none
      exact none.1
  | reject | fault => exact none

end Attempt

/-- How an attempt begins, up to its first insertion. -/
inductive Opening : Attempt → Prop where
  | launched (launch : Launch) : Opening (.launch Launch.process launch)
  | missing {launch : Launch} {params : CheckAndInsertInstructionParams}
      {work : Instruction → Action Unit} (deduplicates : launch.params = some params)
      (shape : launch.process = unlessProcessed params work) :
      Opening ⟨launch, afterLookup params work,
        [⟨.exists .instruction (generateInstructionId params), false⟩]⟩
  | ended {attempt : Attempt} (ended : ¬attempt.Running) : Opening attempt
  | past {attempt : Attempt} (awake : ¬attempt.Idle) : Opening attempt

namespace Opening

variable {store store' : Store} {attempt attempt' : Attempt}

/-- A launched attempt at a deduplicated job looks for the row and stays idle. -/
theorem moves_launched {launch : Launch} (deduplicates : launch.params.isSome = true)
    (moves : Moves mongo store (.launch Launch.process launch) store' attempt') :
    store' = store ∧ attempt'.Idle ∧ Opening attempt' := by
  obtain ⟨params, identified⟩ := Option.isSome_iff_exists.mp deduplicates
  rw [Process.launch, Launch.process] at moves
  rcases launch.process_deduplicated launch.rpc identified with ⟨failure, threw⟩ | ⟨work, shape, -⟩
  · rw [threw] at moves
    cases moves
  rw [shape, unlessProcessed_eq] at moves
  cases moves with
  | perform applied =>
      cases applied
      refine ⟨rfl, ⟨deduplicates, rfl⟩, ?_⟩
      cases (store .instruction).holds (generateInstructionId params) with
      | true => exact .ended (Process.Finished.not_running rfl)
      | false => exact .missing identified shape
  | reject applied => cases applied
  | fault failure failed =>
      exact ⟨failed, ⟨deduplicates, rfl⟩, .ended (Process.Failed.not_running ⟨_, rfl⟩)⟩

/-- An attempt that missed the row inserts it, or fails and leaves the store alone. -/
theorem moves_missing {launch : Launch} {params : CheckAndInsertInstructionParams}
    {work : Instruction → Action Unit}
    (moves : Moves mongo store ⟨launch, afterLookup params work,
      [⟨.exists .instruction (generateInstructionId params), false⟩]⟩ store' attempt') :
    (¬attempt'.Idle ∧ (store .instruction).holds (generateInstructionId params) = false) ∨
      (store' = store ∧ attempt'.insertedIds = [] ∧ ¬attempt'.Running) := by
  cases moves with
  | perform applied =>
      obtain ⟨rows, created, -⟩ := store_of_create applied
      exact .inl ⟨fun idle => (nomatch idle.2), unrecorded_of_create created⟩
  | reject applied =>
      exact .inr ⟨store_of_create_error applied, rfl, Process.Failed.not_running ⟨_, rfl⟩⟩
  | fault failure failed =>
      exact .inr ⟨failed, rfl, Process.Failed.not_running ⟨_, rfl⟩⟩

theorem moves (opening : Opening attempt) (moves : Moves mongo store attempt store' attempt') :
    Opening attempt' := by
  cases opening with
  | launched launch =>
      cases deduplicates : launch.params with
      | none =>
          refine .past (Attempt.not_idle_of_plain ?_)
          rw [moves.job_eq]
          exact deduplicates
      | some params =>
          exact (moves_launched (Option.isSome_iff_exists.mpr ⟨_, deduplicates⟩) moves).2.2
  | missing deduplicates shape =>
      rcases moves_missing moves with ⟨awake, -⟩ | ⟨-, -, ended⟩
      · exact .past awake
      · exact .ended ended
  | ended ended => exact absurd moves.running ended
  | past awake => exact .past (Attempt.not_idle_of_moves moves awake)

/-- While an attempt is idle it leaves the store alone. -/
theorem store_eq (opening : Opening attempt)
    (moves : Moves mongo store attempt store' attempt') (idle : attempt.Idle)
    (idle' : attempt'.Idle) : store' = store := by
  cases opening with
  | launched launch => exact (moves_launched idle.1 moves).1
  | missing =>
      rcases moves_missing moves with ⟨awake, -⟩ | ⟨same, -⟩
      · exact absurd idle' awake
      · exact same
  | ended ended => exact absurd moves.running ended
  | past awake => exact absurd idle awake

/-- An attempt that is about to insert its row could be launched now: the row is still
missing. -/
theorem again (opening : Opening attempt)
    (moves : Moves mongo store attempt store' attempt') (idle : attempt.Idle)
    (awake : ¬attempt'.Idle) (processes : List Attempt) :
    Reaches mongo Launch.process Unguarded ⟨store, processes⟩
      ⟨store, processes ++ [attempt]⟩ := by
  cases opening with
  | launched launch => exact absurd (moves_launched idle.1 moves).2.1 awake
  | @missing launch params work deduplicates shape =>
      have sameJob := moves.job_eq
      rcases moves_missing moves with ⟨-, missing⟩ | ⟨-, none, -⟩
      · refine .tail (.single (.launch launch)) (.move ?_ trivial)
        rw [Process.launch, shape, unlessProcessed_eq]
        have looked : mongo.apply (Op.exists .instruction (generateInstructionId params)) store =
            (.ok false, store) := by
          rw [← missing]
          rfl
        exact .perform looked
      · exact absurd ⟨sameJob ▸ idle.1, none⟩ awake
  | ended ended => exact absurd moves.running ended
  | past awake => exact absurd idle awake

end Opening

/-- Lists that are disjoint from each other are told apart by one element of each. -/
theorem nodup_filterMap_of_flatMap {α β : Type*} {items : List α} {all : α → List β}
    {one : α → Option β} (distinct : (items.flatMap all).Nodup)
    (among : ∀ item ∈ items, ∀ value, one item = some value → value ∈ all item) :
    (items.filterMap one).Nodup := by
  induction items with
  | nil => exact List.nodup_nil
  | cons item rest ih =>
      rw [List.flatMap_cons, List.nodup_append] at distinct
      obtain ⟨-, later, apart⟩ := distinct
      obtain ⟨here, amongRest⟩ := List.forall_mem_cons.mp among
      cases found : one item with
      | none =>
          rw [List.filterMap_cons_none found]
          exact ih later amongRest
      | some value =>
          rw [List.filterMap_cons_some found, List.nodup_cons]
          refine ⟨fun member => ?_, ih later amongRest⟩
          obtain ⟨other, listed, same⟩ := List.mem_filterMap.mp member
          exact apart value (here value found) value
            (List.mem_flatMap.mpr ⟨other, listed, amongRest other listed value same⟩) rfl

/-- An attempt at a deduplicated job that is not idle has inserted the id of its job. -/
theorem Stage.mem_insertedIds {attempt : Attempt} {id : String} (stage : Stage attempt)
    (awake : ¬attempt.Idle) (identified : attempt.job.instructionId = some id) :
    id ∈ attempt.insertedIds := by
  obtain ⟨params, deduplicates, -⟩ := Option.map_eq_some_iff.mp identified
  have inserted : attempt.insertedIds ≠ [] := fun none =>
    awake ⟨Option.isSome_iff_exists.mpr ⟨params, deduplicates⟩, none⟩
  obtain ⟨other, member⟩ := List.exists_mem_of_ne_nil _ inserted
  have same := stage.instructionId_of_inserted member
  rw [identified, Option.some_inj] at same
  rwa [same]

/-- Every store that the workers reach, messages being delivered and retried any number of
times, is reached by a run without the attempts that inserted no row; in that run every
instruction is attempted at most once. -/
theorem duplicates_invisible {start : Store} {system : Workers}
    (reaches : Reaches mongo Launch.process Unguarded (.initial start) system) :
    ∃ attempts : List Attempt,
      attempts.Perm (system.processes.filter fun attempt => ¬Attempt.Idle attempt) ∧
      Reaches mongo Launch.process Unguarded (.initial start) ⟨system.store, attempts⟩ ∧
      (attempts.filterMap fun attempt => attempt.job.instructionId).Nodup := by
  obtain ⟨attempts, same, reached⟩ := reaches.erase Attempt.Idle Opening .launched
    (fun _ _ _ _ moves opening => opening.moves moves)
    (fun _ _ _ _ moves awake => Attempt.not_idle_of_moves moves awake)
    (fun _ _ _ _ moves opening idle idle' => opening.store_eq moves idle idle')
    (fun _ _ _ _ moves opening idle awake => opening.again moves idle awake)
  refine ⟨attempts, same, reached, ?_⟩
  have accounted := accounted_of_reaches reached
  have distinct : (recordedIds start ++ attempts.flatMap Attempt.insertedIds).Nodup :=
    accounted.recorded.nodup_iff.mpr (system.store .instruction).nodup
  refine nodup_filterMap_of_flatMap (List.nodup_append.mp distinct).2.1 fun attempt member => ?_
  have awake : ¬attempt.Idle := by
    have kept := (List.mem_filter.mp (same.mem_iff.mp member)).2
    exact of_decide_eq_true kept
  exact fun id identified => (accounted.staged attempt member).mem_insertedIds awake identified

/-- A badge that was delivered twice. -/
theorem duplicates_invisible_badge :
    ∃ attempts : List Attempt,
      Reaches mongo Launch.process Unguarded (.initial Store.empty)
        ⟨storeAfter silentRpc .empty [badgeJob, badgeJob], attempts⟩ ∧
      (attempts.filterMap fun attempt => attempt.job.instructionId).Nodup := by
  obtain ⟨attempts, -, reached, distinct⟩ := duplicates_invisible
    ((reaches_of_run badgeJob.silent Store.empty []).trans (reaches_of_run badgeJob.silent _ _))
  exact ⟨attempts, reached, distinct⟩

end DlmmIndexer

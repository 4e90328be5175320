import DlmmIndexer.Retry
import DlmmIndexer.Library.Calls

/-!
# One winner per instruction

`checkAndInsertInstruction` looks a row up and inserts it in a second step, so two calls
may both miss the row.  The unique index settles it: the ids of the calls that were told
to go ahead, together with the ids stored at the start, are the ids of the stored rows.
-/

namespace DlmmIndexer

open Documents JavaScript Atomic

/-- A call of `checkAndInsertInstruction`. -/
abbrev DedupCall := Call Op Failure CheckAndInsertInstructionParams (Option Instruction)

/-- A store and the calls of `checkAndInsertInstruction` on it. -/
abbrev DedupCalls := Calls Op Store Failure CheckAndInsertInstructionParams (Option Instruction)

namespace DedupCall

/-- The instruction id a call is about. -/
def id (call : DedupCall) : String := generateInstructionId call.argument

/-- The call has returned `isAlreadyProcessed = false`. -/
def Won (call : DedupCall) : Prop := ∃ instruction, call.Returned (some instruction)

/-- The id of a call that has won. -/
def wonId (call : DedupCall) : Option String :=
  match call.program with
  | .pure (some instruction) => some instruction.id
  | _ => none

end DedupCall

/-- `checkAndInsertInstruction` as its two operations. -/
theorem checkAndInsertInstruction_eq (params : CheckAndInsertInstructionParams) :
    checkAndInsertInstruction params =
      .op (.exists .instruction (generateInstructionId params)) fun isProcessed =>
        if isProcessed then .pure none
        else .op (.create .instruction (instructionData params)) fun _ =>
          .pure (some (instructionData params)) := by
  congr 1

/-- How far a call has come, and that its row is there once it has returned. -/
inductive DedupStage (store : Store) : DedupCall → Prop where
  | waiting {params : CheckAndInsertInstructionParams} :
      DedupStage store ⟨params, checkAndInsertInstruction params⟩
  | missing {params : CheckAndInsertInstructionParams} :
      DedupStage store ⟨params, .op (.create .instruction (instructionData params)) fun _ =>
        .pure (some (instructionData params))⟩
  | known {params : CheckAndInsertInstructionParams}
      (held : (store .instruction).holds (generateInstructionId params) = true) :
      DedupStage store ⟨params, .pure none⟩
  | won {params : CheckAndInsertInstructionParams}
      (held : (store .instruction).holds (generateInstructionId params) = true) :
      DedupStage store ⟨params, .pure (some (instructionData params))⟩
  | threw {params : CheckAndInsertInstructionParams} {failure : Failure} :
      DedupStage store ⟨params, .throw failure⟩

section Moves

variable {store store' : Store} {call call' : DedupCall}

theorem DedupStage.mono (stage : DedupStage store call)
    (kept : ∀ id, (store .instruction).holds id = true → (store' .instruction).holds id = true) :
    DedupStage store' call := by
  cases stage with
  | waiting => exact .waiting
  | missing => exact .missing
  | known held => exact .known (kept _ held)
  | won held => exact .won (kept _ held)
  | threw => exact .threw

/-- What one move of a call can do: no row goes, and the id it wins, if it wins one, is the
id that the store gains. -/
theorem DedupStage.moves (stage : DedupStage store call)
    (moves : Call.Moves mongo store call store' call') :
    DedupStage store' call' ∧
      (∀ id, (store .instruction).holds id = true → (store' .instruction).holds id = true) ∧
      DedupCall.wonId call = none ∧
      recordedIds store' = recordedIds store ++ (DedupCall.wonId call').toList := by
  cases stage with
  | @waiting params =>
      rw [checkAndInsertInstruction_eq] at moves ⊢
      cases moves with
      | perform applied =>
          cases applied
          cases held : (store .instruction).holds (generateInstructionId params) with
          | true => exact ⟨.known held, fun _ kept => kept, rfl, (List.append_nil _).symm⟩
          | false => exact ⟨.missing, fun _ kept => kept, rfl, (List.append_nil _).symm⟩
      | reject applied => cases applied
      | fault failure failed =>
          cases failed
          exact ⟨.threw, fun _ kept => kept, rfl, (List.append_nil _).symm⟩
  | @missing params =>
      cases moves with
      | perform applied =>
          obtain ⟨rows, created, rfl⟩ := store_of_create applied
          rw [recordedIds, Store.put_same, Collection.rows_create created, List.map_append]
          refine ⟨.won ?_, fun id held => ?_, rfl, rfl⟩
          · rw [Store.put_same]
            exact recorded_of_create created
          · exact Collection.holds_create created held
      | reject applied =>
          rw [store_of_create_error applied]
          exact ⟨.threw, fun _ kept => kept, rfl, (List.append_nil _).symm⟩
      | fault failure failed =>
          cases failed
          exact ⟨.threw, fun _ kept => kept, rfl, (List.append_nil _).symm⟩
  | known | won | threw => cases moves

end Moves

/-- Every call is in stage, and the stored rows are those of the start and those of the
calls that have won. -/
structure DedupSettled (start : Store) (system : DedupCalls) : Prop where
  staged : ∀ call ∈ system.calls, DedupStage system.store call
  recorded : (recordedIds start ++ system.calls.filterMap DedupCall.wonId).Perm
    (recordedIds system.store)

theorem settled_of_reaches {start : Store} {system : DedupCalls}
    (reaches : Calls.Reaches mongo checkAndInsertInstruction ⟨start, []⟩ system) :
    DedupSettled start system := by
  refine Calls.Reaches.invariant (DedupSettled start) reaches ⟨by simp, by simp⟩ ?_ ?_
  · rintro store calls params ⟨staged, recorded⟩
    refine ⟨List.forall_mem_append.mpr ⟨staged, List.forall_mem_singleton.mpr .waiting⟩, ?_⟩
    have fresh : DedupCall.wonId ⟨params, checkAndInsertInstruction params⟩ = none := by
      rw [checkAndInsertInstruction_eq]
      rfl
    simpa [fresh] using recorded
  · rintro store store' before after call call' moves ⟨staged, recorded⟩
    obtain ⟨earlier, rest⟩ := List.forall_mem_append.mp staged
    obtain ⟨here, later⟩ := List.forall_mem_cons.mp rest
    obtain ⟨stage, kept, unwon, gained⟩ := here.moves moves
    refine ⟨List.forall_mem_append.mpr ⟨fun other member => (earlier other member).mono kept,
      List.forall_mem_cons.mpr ⟨stage, fun other member => (later other member).mono kept⟩⟩, ?_⟩
    -- the id that the move won goes from its place in the middle to the end
    have moved : (before ++ call' :: after).filterMap DedupCall.wonId =
        before.filterMap DedupCall.wonId ++ ((DedupCall.wonId call').toList ++
          after.filterMap DedupCall.wonId) := by
      rw [List.filterMap_append, List.filterMap_cons]
      cases DedupCall.wonId call' <;> rfl
    rw [moved, gained]
    refine List.Perm.trans ?_ (recorded.append_right _)
    rw [List.filterMap_append, List.filterMap_cons, unwon, List.append_assoc, List.append_assoc]
    exact (List.perm_append_comm.append_left _).append_left _

namespace DedupSettled

variable {start : Store} {system : DedupCalls}

/-- A call that has returned has its row. -/
theorem held (settled : DedupSettled start system) {call : DedupCall} (member : call ∈ system.calls)
    {answer : Option Instruction} (returned : call.Returned answer) :
    (system.store .instruction).holds call.id = true := by
  cases settled.staged call member with
  | waiting =>
      rw [Call.Returned, checkAndInsertInstruction_eq] at returned
      cases returned
  | missing => cases returned
  | known held => exact held
  | won held => exact held
  | threw => cases returned

theorem wonId_of_won (settled : DedupSettled start system) {call : DedupCall}
    (member : call ∈ system.calls) (won : DedupCall.Won call) :
    DedupCall.wonId call = some (DedupCall.id call) := by
  obtain ⟨instruction, returned⟩ := won
  cases settled.staged call member with
  | waiting =>
      rw [Call.Returned, checkAndInsertInstruction_eq] at returned
      cases returned
  | missing | known | threw => cases returned
  | won held => rfl

/-- Beside a call that has won, a call of the same id that has ended returned that the
instruction was processed, or threw. -/
theorem lost (settled : DedupSettled start system) {before after : List DedupCall}
    {winner : DedupCall}
    (split : system.calls = before ++ winner :: after) (won : DedupCall.Won winner)
    {other : DedupCall} (member : other ∈ before ++ after)
    (same : DedupCall.id other = DedupCall.id winner) (ended : other.Ended) :
    other.Returned none ∨ other.Threw := by
  have distinct : (system.calls.filterMap DedupCall.wonId).Nodup :=
    (List.nodup_append.mp (settled.recorded.nodup_iff.mpr (system.store .instruction).nodup)).2.1
  rcases ended with ⟨_ | instruction, returned⟩ | threw
  · exact .inl returned
  · have perm : system.calls.Perm (winner :: (before ++ after)) := split ▸ List.perm_middle
    have winnerId := settled.wonId_of_won (perm.mem_iff.mpr List.mem_cons_self) won
    have otherId := settled.wonId_of_won (perm.mem_iff.mpr (List.mem_cons_of_mem _ member))
      ⟨instruction, returned⟩
    have apart := (perm.filterMap DedupCall.wonId).nodup_iff.mp distinct
    rw [List.filterMap_cons, winnerId] at apart
    refine absurd ?_ (List.nodup_cons.mp apart).1
    exact List.mem_filterMap.mpr ⟨other, member, otherId.trans (congrArg some same)⟩
  · exact .inr threw

end DedupSettled

/-- Of any number of interleaved calls at most one per instruction id returns that the
instruction is new; the others return that it was processed or throw.  The stored ids are
distinct, and the row of a call that has returned stays. -/
theorem at_most_one_winner {start : Store} {system later : DedupCalls}
    (reaches : Calls.Reaches mongo checkAndInsertInstruction ⟨start, []⟩ system)
    (continues : Calls.Reaches mongo checkAndInsertInstruction system later) :
    (∀ before winner after, system.calls = before ++ winner :: after → DedupCall.Won winner →
      ∀ other ∈ before ++ after, DedupCall.id other = DedupCall.id winner → other.Ended →
        other.Returned none ∨ other.Threw) ∧
    (recordedIds system.store).Nodup ∧
    ∀ call ∈ system.calls, (∃ answer, call.Returned answer) →
      (later.store .instruction).holds (DedupCall.id call) = true := by
  have settled := settled_of_reaches reaches
  refine ⟨fun before winner after split won other member same ended =>
    settled.lost split won member same ended, (system.store .instruction).nodup, ?_⟩
  rintro call member ⟨answer, returned⟩
  have stable : mongo.Stable fun store =>
      (store .instruction).holds (DedupCall.id call) = true :=
    mongo_stable_holds (by simp [Coll.Deletable]) _
  exact continues.stable stable (settled.held member returned)

/-! ## Two calls that both miss the row -/

/-- The parameters of a fee update. -/
def feeParams : CheckAndInsertInstructionParams :=
  feeJob.message.params .UpdatePairStaticFeeParametersProcessor

/-- The store with the row of the fee update. -/
def feeStore : Store :=
  Store.empty.put .instruction ⟨[instructionData feeParams], List.nodup_singleton _⟩

/-- Both calls look before either inserts: one returns the row, the other throws. -/
def racedCalls : DedupCalls :=
  ⟨feeStore, [⟨feeParams, .throw (.duplicateKey .instruction)⟩,
    ⟨feeParams, .pure (some (instructionData feeParams))⟩]⟩

theorem raced_reached :
    Calls.Reaches mongo checkAndInsertInstruction ⟨.empty, []⟩ racedCalls := by
  refine .head (.begin feeParams) (.head (.begin feeParams) ?_)
  refine .head (@Calls.Step.move _ _ _ _ _ _ _ _ _ [] [_] _ _ (.perform rfl)) ?_
  refine .head (@Calls.Step.move _ _ _ _ _ _ _ _ _ [_] [] _ _ (.perform rfl)) ?_
  refine .head (@Calls.Step.move _ _ _ _ _ _ _ _ _ [_] [] _ _ (.perform rfl)) ?_
  exact .head (@Calls.Step.move _ _ _ _ _ _ _ _ _ [] [_] _ _ (.reject rfl)) .refl

/-- The race ends with one winner, whose row stays. -/
theorem raced_one_winner :
    Calls.Reaches mongo checkAndInsertInstruction ⟨.empty, []⟩ racedCalls ∧
      (∃ call ∈ racedCalls.calls, DedupCall.Won call) ∧
      (∃ call ∈ racedCalls.calls, call.Threw) ∧
      (recordedIds racedCalls.store).Nodup ∧
      ∀ call ∈ racedCalls.calls, (∃ answer, call.Returned answer) →
        (feeStore .instruction).holds (DedupCall.id call) = true := by
  obtain ⟨-, distinct, kept⟩ := at_most_one_winner raced_reached .refl
  exact ⟨raced_reached, ⟨_, .tail _ (.head _), _, rfl⟩, ⟨_, .head _, _, rfl⟩, distinct, kept⟩

end DlmmIndexer

import Mathlib.Data.Prod.Lex
import DlmmIndexer.Retry

/-!
# The latest state of a pair

`CompositionFeesEvent` jobs assign `activeId` and `update_pair_static_fee_parameters`
jobs the seven static fee fields of a pair.  No assignment looks at the place of its
message on the chain, so in every interleaved run the row has what the job that
completed last has brought.  The scanner queues transactions in slot order, but three
workers serve each queue and complete the jobs in any order.
-/

namespace DlmmIndexer

open Documents JavaScript Atomic

/-- The place of a message on the chain: block, transaction in the block, instruction,
inner instruction. -/
def ParsedInstructionMessage.place (transactionIndex : String → ℕ)
    (message : ParsedInstructionMessage) : ℕ ×ₗ ℕ ×ₗ ℕ ×ₗ ℕ :=
  toLex (message.blockNumber, toLex (transactionIndex message.signature,
    toLex (message.instructionIndex,
      match message.innerInstructionIndex with
      | .at index => index + 1
      | _ => 0)))

/-- The static fee fields of a pair row. -/
def Pair.staticFees (row : Pair) : StaticFeeParameters :=
  ⟨row.baseFactor, row.filterPeriod, row.decayPeriod, row.reductionFactor,
    row.variableFeeControl, row.maxVolatilityAccumulator, row.protocolShare⟩

namespace Job

/-- The active bin that a composition fees event brings. -/
def activeId (job : Job) : Option ℕ :=
  match job.payload with
  | .compositionFees decoded => some decoded.activeId
  | _ => none

/-- The fees that a parameter update brings. -/
def staticFees (job : Job) : Option StaticFeeParameters :=
  match job.payload with
  | .updatePairStaticFeeParameters decoded => some decoded.feeParameters
  | _ => none

/-- The job is a composition fees event or a parameter update of the pair. -/
def StateOf (pair : String) (job : Job) : Prop :=
  match job.payload with
  | .compositionFees decoded => decoded.pair = pair
  | .updatePairStaticFeeParameters decoded => decoded.pair = pair
  | _ => False

end Job

section Latest

variable {α : Type} (transactionIndex : String → ℕ) (value : Job → Option α)

/-- What the chain-latest of the jobs that bring a value brings is the final value. -/
def LatestCarries (system : Workers) (final : α) : Prop :=
  ∀ attempt ∈ system.processes, ∀ carried, value attempt.job.toJob = some carried →
    (∀ other ∈ system.processes, (value other.job.toJob).isSome →
      other.job.message.place transactionIndex ≤ attempt.job.message.place transactionIndex) →
    final = carried

/-- What the last completed job that was not skipped brought, else the initial value. -/
def lastCarried (initial : α) (completed : List Attempt) : α :=
  (((completed.filter fun attempt => attempt.insertedIds ≠ []).filterMap fun attempt =>
    value attempt.job.toJob).getLast?).getD initial

end Latest

/-- The row of the pair has the active bin and the static fees of the chain-latest jobs. -/
def LatestWins (transactionIndex : String → ℕ) (pair : String) (system : Workers) : Prop :=
  ∃ row, (system.store .pair).findOne pair = some row ∧
    LatestCarries transactionIndex Job.activeId system row.activeId ∧
    LatestCarries transactionIndex Job.staticFees system row.staticFees

/-- Of the jobs of each kind that were not skipped, the last to complete carries what the
chain-latest does. -/
def LatestCompletesLast (transactionIndex : String → ℕ) (row : Pair) (system : Workers)
    (completed : List Attempt) : Prop :=
  LatestCarries transactionIndex Job.activeId system
      (lastCarried Job.activeId row.activeId completed) ∧
    LatestCarries transactionIndex Job.staticFees system
      (lastCarried Job.staticFees row.staticFees completed)

section lastCarried

variable {α : Type} {value : Job → Option α} {initial : α} {completed : List Attempt}
variable {attempt : Attempt}

theorem lastCarried_of_skipped (skipped : attempt.insertedIds = []) :
    lastCarried value initial (completed ++ [attempt]) = lastCarried value initial completed := by
  simp [lastCarried, skipped]

theorem lastCarried_of_inserted (inserted : attempt.Inserted) :
    lastCarried value initial (completed ++ [attempt]) =
      (value attempt.job.toJob).getD (lastCarried value initial completed) := by
  have kept : attempt.insertedIds ≠ [] := inserted
  cases brought : value attempt.job.toJob with
  | none => simp [lastCarried, kept, brought]
  | some carried => simp [lastCarried, kept, brought]

end lastCarried

/-! ## What the two kinds of jobs write -/

/-- The update of a pair row assigns what the job brings and keeps the other kind's
fields. -/
def Assigns (job : Job) (update : Update Pair.id) : Prop :=
  ∀ row, (update.set row).activeId = job.activeId.getD row.activeId ∧
    (update.set row).staticFees = job.staticFees.getD row.staticFees

/-- A program that completes with an assignment to the pair and does not write pairs
before. -/
inductive Settles (pair : String) (job : Job) : Action Unit → Prop where
  | throw (failure : Failure) : Settles pair job (.throw failure)
  | other {ρ : Type} {operation : Op ρ} {next : ρ → Action Unit}
      (elsewhere : operation.target ≠ some .pair)
      (later : ∀ answer, Settles pair job (next answer)) : Settles pair job (.op operation next)
  | assign {update : Update Pair.id} {next : Unit → Action Unit} (assigns : Assigns job update)
      (last : next () = .pure ()) : Settles pair job (.op (.updateOne .pair pair update) next)

section Settles

variable {pair : String} {job : Job} {α : Type}

theorem Settles.bind {program : Action α} {rest : α → Action Unit}
    (quiet : program.Every fun {_} operation => operation.target ≠ some .pair)
    (later : ∀ value, Settles pair job (rest value)) : Settles pair job (program >>= rest) := by
  induction program with
  | pure value => exact later value
  | throw failure => exact .throw failure
  | op operation next ih => exact .other quiet.1 fun answer => ih answer (quiet.2 answer)

theorem Settles.not_finished {attempt : Attempt} (settles : Settles pair job attempt.program) :
    ¬attempt.Finished := by
  intro finished
  rw [finished] at settles
  cases settles

/-- The work of either kind of job settles its pair. -/
theorem settles_work (rpc : Rpc) (ofPair : job.StateOf pair) : Settles pair job (job.work rpc) := by
  have read {ρ : Type} {operation : Op ρ} (elsewhere : operation.target ≠ some .pair) :
      (Program.perform operation : Action ρ).Every
        fun {_} operation => operation.target ≠ some .pair :=
    Program.every_perform elsewhere
  rcases job with ⟨message, payload⟩
  cases payload with
  | compositionFees decoded =>
      obtain rfl : decoded.pair = pair := ofPair
      refine .bind (read nofun) fun existing => ?_
      cases existing with
      | none => exact .throw _
      | some existing =>
      refine .bind (read nofun) fun tokenMintX => .bind (read nofun) fun tokenMintY => ?_
      cases tokenMintX with
      | none => exact .throw _
      | some tokenMintX =>
      cases tokenMintY with
      | none => exact .throw _
      | some tokenMintY =>
      refine .bind (Program.every_ofExcept _) fun _ => .bind (read nofun) fun _ => ?_
      refine .bind (Program.every_ofExcept _) fun _ => .bind (Program.every_ofExcept _) fun _ => ?_
      exact .assign (fun row => ⟨rfl, rfl⟩) rfl
  | updatePairStaticFeeParameters decoded =>
      obtain rfl : decoded.pair = pair := ofPair
      refine .bind (read nofun) fun existing => ?_
      cases existing with
      | none => exact .throw _
      | some existing => exact .assign (fun row => ⟨rfl, rfl⟩) rfl
  | _ => cases ofPair

end Settles

/-! ## Runs -/

/-- How far a job of the pair has come. -/
inductive Settling (pair : String) : Attempt → Prop where
  | waiting {launch : Launch} {params : CheckAndInsertInstructionParams} :
      Settling pair ⟨launch, unlessProcessed params fun _ => launch.work, []⟩
  | missing {launch : Launch} {params : CheckAndInsertInstructionParams} :
      Settling pair ⟨launch, afterLookup params fun _ => launch.work,
        [⟨.exists .instruction (generateInstructionId params), false⟩]⟩
  | working {launch : Launch} {program : Action Unit} {log : List (Event Op)}
      (inserted : Attempt.Inserted ⟨launch, program, log⟩)
      (settles : Settles pair launch.toJob program) :
      Settling pair ⟨launch, program, log⟩
  | ended {attempt : Attempt} (ended : ¬attempt.Running) : Settling pair attempt

theorem settling_launch {pair : String} {launch : Launch} (ofPair : launch.StateOf pair) :
    Settling pair (.launch Launch.process launch) := by
  rcases launch with ⟨⟨message, payload⟩, rpc⟩
  cases payload with
  | compositionFees decoded => exact .waiting
  | updatePairStaticFeeParameters decoded => exact .waiting
  | _ => cases ofPair

/-- The row of the pair has what the completed jobs left. -/
def Carried (pair : String) (initial : Pair) (store : Store) (completed : List Attempt) : Prop :=
  ∃ row, (store .pair).findOne pair = some row ∧
    row.activeId = lastCarried Job.activeId initial.activeId completed ∧
    row.staticFees = lastCarried Job.staticFees initial.staticFees completed

section Carried

variable {pair : String} {initial : Pair} {store store' : Store}
variable {attempt attempt' : Attempt} {completed : List Attempt}

theorem Carried.of_pair_eq (carried : Carried pair initial store completed)
    (same : store' .pair = store .pair) : Carried pair initial store' completed := by
  rw [Carried, same]
  exact carried

theorem Carried.record_skipped (carried : Carried pair initial store completed)
    (skipped : attempt.insertedIds = []) :
    Carried pair initial store (attempt.record completed) := by
  by_cases finished : attempt.Finished
  · rw [Process.record_of_finished finished, Carried, lastCarried_of_skipped skipped,
      lastCarried_of_skipped skipped]
    exact carried
  · rwa [Process.record_of_not_finished finished]

/-- An assignment to the row is the last value carried. -/
theorem Carried.assign (carried : Carried pair initial store completed)
    {update : Update Pair.id} (assigns : Assigns attempt.job.toJob update)
    (inserted : attempt.Inserted) :
    Carried pair initial (store.put .pair ((store .pair).updateOne pair update))
      (completed ++ [attempt]) := by
  obtain ⟨row, found, active, fees⟩ := carried
  refine ⟨update.set row, ?_, ?_, ?_⟩
  · rw [Store.put_same, Collection.findOne_updateOne_self, found, Option.map_some]
  · rw [lastCarried_of_inserted inserted, (assigns row).1, active]
  · rw [lastCarried_of_inserted inserted, (assigns row).2, fees]

/-- What one move of a job at work can do: it does not write the pair, or it throws, or it
completes with its assignment. -/
theorem Settles.moves {launch : Launch} {program : Action Unit} {log : List (Event Op)}
    (settles : Settles pair launch.toJob program)
    (inserted : Attempt.Inserted ⟨launch, program, log⟩)
    (moves : Moves mongo store ⟨launch, program, log⟩ store' attempt')
    (carried : Carried pair initial store completed) :
    Settling pair attempt' ∧ Carried pair initial store' (attempt'.record completed) := by
  have longer {ρ : Type} (operation : Op ρ) (answer : ρ) (rest : Action Unit) :
      Attempt.Inserted ⟨launch, rest, log ++ [⟨operation, answer⟩]⟩ := by
    rw [Attempt.Inserted, Attempt.insertedIds, List.filterMap_append]
    exact List.append_ne_nil_of_left_ne_nil inserted _
  have threw (failure : Failure) (same : store' .pair = store .pair) :
      Settling pair (⟨launch, .throw failure, log⟩ : Attempt) ∧
        Carried pair initial store' (Process.record ⟨launch, .throw failure, log⟩ completed) := by
    have failed : Process.Failed (⟨launch, .throw failure, log⟩ : Attempt) := ⟨failure, rfl⟩
    rw [Process.record_of_not_finished fun finished => finished.not_failed failed]
    exact ⟨.ended failed.not_running, carried.of_pair_eq same⟩
  cases settles with
  | throw failure => exact absurd moves.running (Process.Failed.not_running ⟨failure, rfl⟩)
  | @other ρ operation next elsewhere later =>
      have frame := Op.frame elsewhere store
      cases moves with
      | @perform _ _ _ _ _ _ answer applied =>
          rw [show operation.apply store = (.ok answer, store') from applied] at frame
          have settles := later answer
          rw [Process.record_of_not_finished (Settles.not_finished settles)]
          exact ⟨.working (longer _ _ _) settles, carried.of_pair_eq frame.1⟩
      | @reject _ _ _ _ _ _ failure applied =>
          rw [show operation.apply store = (.error failure, store') from applied] at frame
          exact threw failure frame.1
      | fault failure failed => exact threw failure (frame.2 _ failed)
  | @assign update next assigns last =>
      cases moves with
      | perform applied =>
          have done : mongo.Completes (updateOne .pair pair update) store _ store' :=
            Database.completes_perform.mpr applied
          obtain ⟨-, rfl⟩ := completes_updateOne.mp done
          have finished : Process.Finished
              (⟨launch, next (), log ++ [⟨.updateOne .pair pair update, ()⟩]⟩ : Attempt) := last
          rw [Process.record_of_finished finished]
          exact ⟨.ended finished.not_running, carried.assign assigns (longer _ _ _)⟩
      | reject applied =>
          simp [mongo, Op.apply, Op.clashes] at applied
      | fault failure failed =>
          cases failed
          exact threw failure rfl

/-- What one move of a job of the pair can do. -/
theorem Settling.moves (settling : Settling pair attempt) (ofPair : attempt.job.StateOf pair)
    (moves : Moves mongo store attempt store' attempt')
    (carried : Carried pair initial store completed) :
    Settling pair attempt' ∧ Carried pair initial store' (attempt'.record completed) := by
  cases settling with
  | @waiting launch params =>
      rw [unlessProcessed_eq] at moves
      cases moves with
      | perform applied =>
          cases applied
          cases held : (store .instruction).holds (generateInstructionId params) with
          | true => exact ⟨.ended (Process.Finished.not_running rfl), carried.record_skipped rfl⟩
          | false => exact ⟨.missing, carried.record_skipped rfl⟩
      | reject applied => cases applied
      | fault failure failed =>
          cases failed
          exact ⟨.ended (Process.Failed.not_running ⟨_, rfl⟩), carried.record_skipped rfl⟩
  | @missing launch params =>
      cases moves with
      | @perform _ _ _ _ _ _ answer applied =>
          obtain ⟨rows, created, rfl⟩ := store_of_create applied
          have settles := settles_work launch.rpc ofPair
          refine ⟨.working (List.cons_ne_nil _ _) settles, ?_⟩
          rw [Process.record_of_not_finished (Settles.not_finished settles)]
          exact carried.of_pair_eq (Store.put_other (by decide))
      | reject applied =>
          rw [store_of_create_error applied]
          exact ⟨.ended (Process.Failed.not_running ⟨_, rfl⟩), carried.record_skipped rfl⟩
      | fault failure failed =>
          cases failed
          exact ⟨.ended (Process.Failed.not_running ⟨_, rfl⟩), carried.record_skipped rfl⟩
  | working inserted settles => exact settles.moves inserted moves carried
  | ended ended => exact absurd moves.running ended

/-- In every state of every run of the pair's jobs, its row has what the last completed
jobs have brought. -/
theorem Carried.of_completing {start : Store} {system : Workers}
    (existing : (start .pair).findOne pair = some initial)
    (run : Completing mongo Launch.process Unguarded start system completed)
    (jobs : ∀ attempt ∈ system.processes, attempt.job.StateOf pair) :
    Carried pair initial system.store completed := by
  refine (Completing.invariant_of_jobs (fun launch => launch.StateOf pair)
    (fun system completed => (∀ attempt ∈ system.processes, Settling pair attempt) ∧
      Carried pair initial system.store completed) run ?_ ?_ ?_ jobs).2
  · exact ⟨by simp [System.initial], initial, existing, rfl, rfl⟩
  · rintro store processes completed launch ofPair ⟨settling, carried⟩
    refine ⟨List.forall_mem_append.mpr ⟨settling, List.forall_mem_singleton.mpr
      (settling_launch ofPair)⟩, carried.record_skipped rfl⟩
  · rintro store store' before after completed attempt attempt' ofPair moves - ⟨settling, carried⟩
    obtain ⟨earlier, rest⟩ := List.forall_mem_append.mp settling
    obtain ⟨here, later⟩ := List.forall_mem_cons.mp rest
    obtain ⟨here', carried'⟩ := here.moves ofPair moves carried
    exact ⟨List.forall_mem_append.mpr ⟨earlier, List.forall_mem_cons.mpr ⟨here', later⟩⟩, carried'⟩

end Carried

/-- The row of a pair ends with the chain-latest active bin and fees exactly when the jobs
that completed last carry them. -/
theorem latest_wins_iff {pair : String} {initial : Pair} {start : Store}
    {transactionIndex : String → ℕ} {system : Workers} {completed : List Attempt}
    (existing : (start .pair).findOne pair = some initial)
    (run : Completing mongo Launch.process Unguarded start system completed)
    (jobs : ∀ attempt ∈ system.processes, attempt.job.StateOf pair) :
    LatestWins transactionIndex pair system ↔
      LatestCompletesLast transactionIndex initial system completed := by
  obtain ⟨row, found, active, fees⟩ := Carried.of_completing existing run jobs
  constructor
  · rintro ⟨_, found', latest⟩
    obtain rfl : row = _ := Option.some.inj (found.symm.trans found')
    rwa [active, fees] at latest
  · intro latest
    refine ⟨row, found, ?_⟩
    rwa [active, fees]

/-! ## Two updates in both orders -/

/-- An update of the pair in a block, with the block number for a base factor. -/
def feeJobOf (blockNumber : ℕ) : Job where
  message := ⟨blockNumber, "sig", 0, false, .undefined⟩
  payload := .updatePairStaticFeeParameters ⟨{ newFees with baseFactor := blockNumber }, "pair"⟩

/-- Two updates of the pair run one after the other. -/
theorem completing_feeJobs (left right : ℕ) {middle after : Store}
    (first : mongo.Completes ((feeJobOf left).process silentRpc) pairStore () middle)
    (second : mongo.Completes ((feeJobOf right).process silentRpc) middle () after) :
    ∃ attempt attempt' : Attempt, (attempt.job = (feeJobOf left).silent ∧ attempt.Finished) ∧
      (attempt'.job = (feeJobOf right).silent ∧ attempt'.Finished) ∧
      Completing mongo Launch.process Unguarded pairStore
        ⟨after, [attempt, attempt']⟩ [attempt, attempt'] := by
  have running (blockNumber : ℕ) : (feeJobOf blockNumber).silent.process ≠ .pure () := by
    intro same
    cases (unlessProcessed_eq _ _).symm.trans same
  have idle : Completing mongo Launch.process Unguarded pairStore ⟨pairStore, []⟩ [] :=
    .initial
  obtain ⟨attempt, ours, finished, run⟩ := idle.run (running left) first
  obtain ⟨attempt', ours', finished', run'⟩ := run.run (running right) second
  exact ⟨attempt, attempt', ⟨ours, finished⟩, ⟨ours', finished'⟩, run'⟩

/-- Of two updates the one of the later block has to win. -/
theorem latestWins_feeJobs {left right : ℕ} {attempt attempt' : Attempt} {store : Store}
    {row : Pair}
    (ours : attempt.job = (feeJobOf left).silent) (ours' : attempt'.job = (feeJobOf right).silent)
    (found : (store .pair).findOne "pair" = some row) :
    LatestWins (fun _ => 0) "pair" ⟨store, [attempt, attempt']⟩ ↔
      row.staticFees = { newFees with baseFactor := max left right } := by
  have place (blockNumber blockNumber' : ℕ) :
      (feeJobOf blockNumber).message.place (fun _ => 0) ≤
        (feeJobOf blockNumber').message.place (fun _ => 0) ↔ blockNumber ≤ blockNumber' := by
    simp only [feeJobOf, ParsedInstructionMessage.place, Prod.Lex.toLex_le_toLex, le_refl, and_true]
    omega
  have brought (blockNumber : ℕ) : (feeJobOf blockNumber).staticFees =
      some { newFees with baseFactor := blockNumber } := rfl
  have quiet : LatestCarries (fun _ => 0) Job.activeId ⟨store, [attempt, attempt']⟩
      row.activeId := by
    simp [LatestCarries, ours, ours', feeJobOf, Job.activeId]
  have latest : LatestCarries (fun _ => 0) Job.staticFees ⟨store, [attempt, attempt']⟩
      row.staticFees ↔ row.staticFees = { newFees with baseFactor := max left right } := by
    simp only [LatestCarries, List.forall_mem_cons, List.not_mem_nil, ours, ours', place, brought,
      Option.isSome_some, Option.some.injEq, forall_true_left, forall_eq', le_refl, true_and,
      and_true, IsEmpty.forall_iff, implies_true]
    rcases Nat.le_total left right with ordered | ordered
    · rw [max_eq_right ordered]
      refine ⟨fun both => both.2 ordered, fun same => ⟨fun other => ?_, fun _ => same⟩⟩
      rw [same, le_antisymm ordered other]
    · rw [max_eq_left ordered]
      refine ⟨fun both => both.1 ordered, fun same => ⟨fun _ => same, fun other => ?_⟩⟩
      rw [same, le_antisymm ordered other]
  rw [← latest]
  constructor
  · rintro ⟨_, found', -, carries⟩
    obtain rfl : row = _ := Option.some.inj (found.symm.trans found')
    exact carries
  · exact fun carries => ⟨row, found, quiet, carries⟩

/-- Completed in the order of the chain, the later update wins. -/
theorem latest_wins_in_order :
    ∃ system completed, Completing mongo Launch.process Unguarded pairStore system
        completed ∧
      LatestWins (fun _ => 0) "pair" system ∧
      ∃ row, (pairStore .pair).findOne "pair" = some row ∧
        LatestCompletesLast (fun _ => 0) row system completed := by
  obtain ⟨attempt, attempt', ⟨ours, -⟩, ⟨ours', -⟩, run⟩ := completing_feeJobs 8 9 rfl rfl
  have found : ((storeAfter silentRpc pairStore [feeJobOf 8, feeJobOf 9]) .pair).findOne "pair" =
      some _ := rfl
  have wins := (latestWins_feeJobs ours ours' found).mpr rfl
  refine ⟨_, _, run, wins, _, rfl, (latest_wins_iff rfl run ?_).mp wins⟩
  rintro _ (_ | ⟨_, _ | ⟨_, ⟨⟩⟩⟩)
  · rw [ours]
    rfl
  · rw [ours']
    rfl

/-- Two updates of one pair in blocks 8 and 9, completed in the other order: both complete
normally and the row keeps the fees of block 8. -/
theorem earlier_update_wins :
    ∃ system completed, Completing mongo Launch.process Unguarded pairStore system
        completed ∧
      ((pairStore .pair).holds "pair" = true ∧
        (∀ attempt ∈ system.processes, attempt.Finished ∧ attempt.job.StateOf "pair") ∧
        (system.processes.map fun attempt =>
          attempt.job.message.place fun _ => 0).Nodup) ∧
      ¬LatestWins (fun _ => 0) "pair" system := by
  obtain ⟨attempt, attempt', ⟨ours, finished⟩, ⟨ours', finished'⟩, run⟩ :=
    completing_feeJobs 9 8 rfl rfl
  refine ⟨_, _, run, ⟨by decide, ?_, ?_⟩, ?_⟩
  · rintro _ (_ | ⟨_, _ | ⟨_, ⟨⟩⟩⟩)
    · exact ⟨finished, by rw [ours]; rfl⟩
    · exact ⟨finished', by rw [ours']; rfl⟩
  · rw [List.map_cons, List.map_singleton, ours, ours']
    decide
  · rw [latestWins_feeJobs ours ours' rfl]
    decide

end DlmmIndexer

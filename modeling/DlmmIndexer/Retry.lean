import DlmmIndexer.Prerequisites

/-!
# Retries and the deduplication record

The `Instruction` row of a job goes in before the job's own checks and writes, and a
job whose row is in is skipped.  An attempt that throws after its row went in leaves
a record of work that was not done, and every retry believes the record.

The attempts of all jobs are the processes of a system, in any interleaving and with
any disturbances.  The ids that the processes inserted are exactly the ids of the
stored rows, each once; this ties a stored row to the one attempt that did the work.
-/

namespace DlmmIndexer

open Documents JavaScript Atomic

/-- One run of a job, possibly one of several. -/
abbrev Attempt := Process Op Failure Launch

abbrev Workers := System Op Store Failure Launch

/-- The id of the `Instruction` row that an operation inserts. -/
def Op.insertedId {ρ : Type} : Op ρ → Option String
  | .create .instruction row => some row.id
  | _ => none

namespace Attempt

/-- The ids of the `Instruction` rows that an attempt inserted. -/
def insertedIds (attempt : Attempt) : List String :=
  attempt.log.filterMap fun event => event.operation.insertedId

/-- The attempt has inserted an `Instruction` row. -/
def Inserted (attempt : Attempt) : Prop := attempt.insertedIds ≠ []

/-- The operation wrote a collection other than `Instruction`. -/
def WritesBusiness (event : Event Op) : Prop :=
  ∃ coll, event.operation.target = some coll ∧ coll.Business

/-- The attempt wrote a collection other than `Instruction`. -/
def Wrote (attempt : Attempt) : Prop := ∃ event ∈ attempt.log, WritesBusiness event

end Attempt

/-- In a step that leaves the `Instruction` row of its attempt in, nothing disturbs the
operation, and the store before the step has what the operation needs: what it inserts is
new and what it updates or deletes is there, and the rows that the code insists on are there
and pass its checks. -/
def Provided (store : Store) (before after : Attempt) : Prop :=
  after.Inserted → Process.Undisturbed mongo store before after ∧
    ∀ {ρ : Type} (operation : Op ρ) (next : ρ → Action Unit),
      before.program = .op operation next → before.job.payload.Needs operation store

/-- The attempt has done all the work of its job past its row, every write of it took effect
on the store of then, and what it created outside the two deletable collections is in the
store. -/
structure Applied (guard : Store → Attempt → Attempt → Prop) (system : Workers)
    (attempt : Attempt) : Prop where
  worked : ∃ params log, attempt.job.params = some params ∧
    attempt.log = ⟨.exists .instruction (generateInstructionId params), false⟩ ::
      ⟨.create .instruction (instructionData params), ()⟩ :: log ∧
    attempt.job.work.Leads log (.pure ())
  effective : ∀ event ∈ attempt.log, ∃ store after,
    Performed mongo Launch.process guard (.initial .empty) system attempt event store after ∧
      event.operation.TookEffect store after
  stored : ∀ (coll : Coll) (row : coll.Row), ⟨.create coll row, ()⟩ ∈ attempt.log →
    ¬coll.Deletable → (system.store coll).holds (coll.id row) = true

/-- The business writes of a job have been applied exactly once: one attempt has applied
them, the others wrote nothing. -/
def AppliedOnce (guard : Store → Attempt → Attempt → Prop) (system : Workers) (job : Job) : Prop :=
  ∃ (before : List Attempt) (attempt : Attempt) (after : List Attempt),
    system.processes = before ++ attempt :: after ∧ attempt.job.toJob = job ∧
    attempt.Finished ∧ Applied guard system attempt ∧
    ∀ other ∈ before ++ after, other.job.toJob = job → ¬Attempt.Wrote other

/-- Once the `Instruction` row of a job is there and no attempt of it is running, the
business writes of the job have been applied. -/
def RecordedMeansApplied (guard : Store → Attempt → Attempt → Prop) (system : Workers)
    (job : Job) : Prop :=
  ∀ id, job.instructionId = some id → (system.store .instruction).holds id = true →
    (∀ attempt ∈ system.processes, attempt.job.toJob = job → ¬attempt.Running) →
      AppliedOnce guard system job

/-! ## The stages of an attempt -/

/-- How far an attempt has come. -/
inductive Stage : Attempt → Prop where
  | plain {launch : Launch} {program : Action Unit} {log : List (Event Op)}
      (plain : launch.params = none) (within : program.Within launch.payload.writes)
      (logged : ∀ event ∈ log, Op.Within launch.payload.writes event.operation) :
      Stage ⟨launch, program, log⟩
  | waiting {launch : Launch} {params : CheckAndInsertInstructionParams}
      {work : Instruction → Action Unit} (deduplicates : launch.params = some params)
      (within : ∀ instruction, (work instruction).Within launch.payload.writes) :
      Stage ⟨launch, unlessProcessed params work, []⟩
  | missing {launch : Launch} {params : CheckAndInsertInstructionParams}
      {work : Instruction → Action Unit} (deduplicates : launch.params = some params)
      (within : ∀ instruction, (work instruction).Within launch.payload.writes) :
      Stage ⟨launch, afterLookup params work,
        [⟨.exists .instruction (generateInstructionId params), false⟩]⟩
  | ended {launch : Launch} {program : Action Unit} {log : List (Event Op)}
      (ended : ∀ {ρ : Type} (operation : Op ρ) next, program ≠ .op operation next)
      (logged : ∀ event ∈ log, event.operation.target = none) :
      Stage ⟨launch, program, log⟩
  | working {launch : Launch} {params : CheckAndInsertInstructionParams} {program : Action Unit}
      {log : List (Event Op)} (deduplicates : launch.params = some params)
      (within : program.Within launch.payload.writes)
      (logged : ∀ event ∈ log, Op.Within launch.payload.writes event.operation) :
      Stage ⟨launch, program, ⟨.exists .instruction (generateInstructionId params), false⟩ ::
        ⟨.create .instruction (instructionData params), ()⟩ :: log⟩

namespace Stage

theorem launch (launch : Launch) : Stage (.launch Launch.process launch) := by
  cases deduplicates : launch.params with
  | none => exact .plain deduplicates (launch.process_plain launch.rpc deduplicates) (by simp)
  | some params =>
      rcases launch.process_deduplicated launch.rpc deduplicates with
        ⟨failure, threw⟩ | ⟨work, same, within⟩
      · rw [Process.launch, Launch.process, threw]
        exact .ended (fun _ _ same => by cases same) (by simp)
      · rw [Process.launch, Launch.process, same]
        exact .waiting deduplicates within

end Stage

/-- An operation that stays off `Instruction` inserts no row there. -/
theorem insertedId_of_within {job : Job} {ρ : Type} {operation : Op ρ}
    (within : Op.Within job.payload.writes operation) : operation.insertedId = none := by
  cases operation with
  | create coll row =>
      cases coll with
      | instruction => exact absurd (within .instruction rfl) job.instruction_not_mem_writes
      | _ => rfl
  | _ => rfl

/-- An operation that stays off `Instruction` keeps its rows, also when disturbed. -/
theorem frame_of_within {job : Job} {ρ : Type} {operation : Op ρ}
    (within : Op.Within job.payload.writes operation) (store : Store) :
    (operation.apply store).2 .instruction = store .instruction ∧
      ∀ after, operation.fails store after → after .instruction = store .instruction :=
  Op.frame (fun written => job.instruction_not_mem_writes (within _ written)) store

/-- The ids of the stored `Instruction` rows. -/
def recordedIds (store : Store) : List String := (store .instruction).rows.map Instruction.id

/-- A move of a program that stays off `Instruction`. -/
theorem within_moves {launch : Launch} {program : Action Unit} {log : List (Event Op)}
    {store store' : Store} {attempt : Attempt} (within : program.Within launch.payload.writes)
    (moves : Moves mongo store ⟨launch, program, log⟩ store' attempt) :
    ∃ (rest : Action Unit) (suffix : List (Event Op)),
      attempt = ⟨launch, rest, log ++ suffix⟩ ∧ rest.Within launch.payload.writes ∧
      (∀ event ∈ suffix, Op.Within launch.payload.writes event.operation) ∧
      store' .instruction = store .instruction := by
  have kept {ρ : Type} {operation : Op ρ} {outcome : Except Failure ρ × Store}
      (within : Op.Within launch.payload.writes operation)
      (applied : mongo.apply operation store = outcome) :
      outcome.2 .instruction = store .instruction := by
    rw [← applied]
    exact (frame_of_within within store).1
  cases moves with
  | perform applied =>
      refine ⟨_, [⟨_, _⟩], rfl, within.2 _, ?_, kept within.1 applied⟩
      intro event member
      rw [List.mem_singleton.mp member]
      exact within.1
  | reject applied =>
      exact ⟨_, [], by rw [List.append_nil], Program.every_throw _, by simp, kept within.1 applied⟩
  | fault failure failed =>
      exact ⟨_, [], by rw [List.append_nil], Program.every_throw _, by simp,
        (frame_of_within within.1 store).2 _ failed⟩

theorem insertedIds_append_within {launch : Launch} {program rest : Action Unit}
    {log suffix : List (Event Op)}
    (logged : ∀ event ∈ suffix, Op.Within launch.payload.writes event.operation) :
    Attempt.insertedIds ⟨launch, rest, log ++ suffix⟩ =
      Attempt.insertedIds ⟨launch, program, log⟩ := by
  have none : suffix.filterMap (fun event => event.operation.insertedId) = [] :=
    List.filterMap_eq_nil_iff.mpr fun event member => insertedId_of_within (logged event member)
  rw [Attempt.insertedIds, Attempt.insertedIds, List.filterMap_append, none, List.append_nil]

/-- What one move of an attempt can do: it stays in stage, and the ids it inserts are
the ids that the store gains. -/
theorem Stage.moves {store store' : Store} {attempt attempt' : Attempt} (stage : Stage attempt)
    (moves : Moves mongo store attempt store' attempt') :
    Stage attempt' ∧ ∃ added, attempt'.insertedIds = attempt.insertedIds ++ added ∧
      recordedIds store' = recordedIds store ++ added := by
  cases stage with
  | plain plain within logged =>
      obtain ⟨rest, suffix, rfl, within', logged', same⟩ := within_moves within moves
      refine ⟨.plain plain within' ?_, [], ?_, by rw [recordedIds, same, List.append_nil]; rfl⟩
      · exact List.forall_mem_append.mpr ⟨logged, logged'⟩
      · rw [insertedIds_append_within logged', List.append_nil]
  | @waiting launch params work deduplicates within =>
      rw [unlessProcessed_eq] at moves ⊢
      cases moves with
      | perform applied =>
          cases applied
          cases held : (store .instruction).holds (generateInstructionId params) with
          | true => exact ⟨.ended (fun _ _ => nofun) (by simp [Op.target]), [], rfl, by simp⟩
          | false => exact ⟨.missing deduplicates within, [], rfl, by simp⟩
      | reject applied => cases applied
      | fault failure failed =>
          cases failed
          exact ⟨.ended (fun _ _ => nofun) (by simp), [], rfl, by simp⟩
  | @missing launch params work deduplicates within =>
      cases moves with
      | perform applied =>
          obtain ⟨rows, created, rfl⟩ := store_of_create applied
          refine ⟨.working deduplicates (within _) (by simp), [generateInstructionId params], rfl,
            ?_⟩
          rw [recordedIds, Store.put_same, Collection.rows_create created, List.map_append]
          rfl
      | reject applied =>
          refine ⟨.ended (fun _ _ => nofun) (by simp [Op.target]), [], rfl, ?_⟩
          rw [store_of_create_error applied, List.append_nil]
      | fault failure failed =>
          cases failed
          exact ⟨.ended (fun _ _ => nofun) (by simp [Op.target]), [], rfl, by simp⟩
  | ended ended logged =>
      obtain ⟨ρ, operation, next, running⟩ := moves.running
      exact absurd running (ended operation next)
  | working deduplicates within logged =>
      obtain ⟨rest, suffix, rfl, within', logged', same⟩ := within_moves within moves
      refine ⟨.working deduplicates within' ?_, [], ?_,
        by rw [recordedIds, same, List.append_nil]; rfl⟩
      · exact List.forall_mem_append.mpr ⟨logged, logged'⟩
      · rw [insertedIds_append_within logged', List.append_nil]

/-! ## Runs -/

/-- Every attempt is in stage, and the stored rows are those of the start and those the
attempts inserted. -/
structure Accounted (start : Store) (system : Workers) : Prop where
  staged : ∀ attempt ∈ system.processes, Stage attempt
  recorded : (recordedIds start ++ system.processes.flatMap Attempt.insertedIds).Perm
    (recordedIds system.store)

theorem accounted_of_reaches {guard : Store → Attempt → Attempt → Prop}
    {start : Store} {system : Workers}
    (reaches : Reaches mongo Launch.process guard (.initial start) system) :
    Accounted start system := by
  refine Reaches.invariant (Accounted start) reaches ⟨by simp [System.initial], ?_⟩ ?_ ?_
  · rw [System.initial, List.flatMap_nil, List.append_nil]
  · rintro store processes launch ⟨staged, recorded⟩
    refine
      ⟨List.forall_mem_append.mpr ⟨staged, List.forall_mem_singleton.mpr (.launch launch)⟩, ?_⟩
    have fresh : Attempt.insertedIds (.launch Launch.process launch) = [] := rfl
    simpa [fresh] using recorded
  · rintro store store' before after attempt attempt' moves - ⟨staged, recorded⟩
    obtain ⟨earlier, here, later⟩ := List.forall_mem_append.mp staged |>.imp_right
      List.forall_mem_cons.mp
    obtain ⟨stage, added, gained, stored⟩ := here.moves moves
    refine ⟨List.forall_mem_append.mpr ⟨earlier, List.forall_mem_cons.mpr ⟨stage, later⟩⟩, ?_⟩
    -- the ids that the move added go from their place in the middle to the end
    have moved : (before ++ attempt' :: after).flatMap Attempt.insertedIds =
        before.flatMap Attempt.insertedIds ++ Attempt.insertedIds attempt ++ added ++
          after.flatMap Attempt.insertedIds := by
      simp [gained]
    rw [moved, stored]
    refine List.Perm.trans ?_ (recorded.append_right added)
    simp only [List.flatMap_append, List.flatMap_cons, List.append_assoc]
    exact ((List.perm_append_comm.append_left _).append_left _).append_left _

theorem mem_recordedIds {store : Store} {id : String} :
    id ∈ recordedIds store ↔ (store .instruction).holds id = true := by
  rw [Collection.holds_iff, recordedIds, List.mem_map]
  rfl

namespace Accounted

variable {start : Store} {system : Workers} {id : String}

/-- Some attempt inserted the row that was not there at the start. -/
theorem inserted_of_holds (accounted : Accounted start system)
    (held : (system.store .instruction).holds id = true)
    (fresh : (start .instruction).holds id = false) :
    ∃ attempt ∈ system.processes, id ∈ Attempt.insertedIds attempt := by
  have member := accounted.recorded.mem_iff.mpr (mem_recordedIds.mpr held)
  rcases List.mem_append.mp member with old | new
  · rw [mem_recordedIds, fresh] at old
    cases old
  · exact List.mem_flatMap.mp new

/-- No attempt inserts a row that was there at the start. -/
theorem not_inserted (accounted : Accounted start system)
    (held : (start .instruction).holds id = true) :
    ∀ attempt ∈ system.processes, id ∉ Attempt.insertedIds attempt := by
  have distinct : (recordedIds start ++ system.processes.flatMap Attempt.insertedIds).Nodup :=
    accounted.recorded.nodup_iff.mpr (system.store .instruction).nodup
  obtain ⟨-, -, apart⟩ := List.nodup_append.mp distinct
  exact fun attempt member inserted => apart id (mem_recordedIds.mpr held) id
    (List.mem_flatMap.mpr ⟨attempt, member, inserted⟩) rfl

end Accounted

/-- Only one attempt inserts an id. -/
theorem Accounted.alone {start : Store} {system : Workers} {id : String}
    (accounted : Accounted start system) {before after : List Attempt} {winner : Attempt}
    (split : system.processes = before ++ winner :: after) (inserted : id ∈ winner.insertedIds) :
    ∀ other ∈ before ++ after, id ∉ Attempt.insertedIds other := by
  have distinct : (recordedIds start ++ system.processes.flatMap Attempt.insertedIds).Nodup :=
    accounted.recorded.nodup_iff.mpr (system.store .instruction).nodup
  rw [split, List.flatMap_append, List.flatMap_cons] at distinct
  obtain ⟨-, distinct, -⟩ := List.nodup_append.mp distinct
  obtain ⟨-, later, apart⟩ := List.nodup_append.mp distinct
  obtain ⟨-, -, apartLater⟩ := List.nodup_append.mp later
  intro other among again
  rcases List.mem_append.mp among with earlier | after
  · exact apart id (List.mem_flatMap.mpr ⟨other, earlier, again⟩) id
      (List.mem_append_left _ inserted) rfl
  · exact apartLater id inserted id (List.mem_flatMap.mpr ⟨other, after, again⟩) rfl

/-- An attempt that inserted an id works on the job of that id. -/
theorem Stage.instructionId_of_inserted {attempt : Attempt} (stage : Stage attempt) {id : String}
    (inserted : id ∈ attempt.insertedIds) : attempt.job.instructionId = some id := by
  obtain ⟨event, member, inserts⟩ := List.mem_filterMap.mp inserted
  cases stage with
  | plain plain within logged =>
      rw [insertedId_of_within (logged event member)] at inserts
      cases inserts
  | waiting => cases member
  | missing =>
      rw [List.mem_singleton.mp member] at inserts
      cases inserts
  | ended ended logged =>
      have silent := logged event member
      rcases event with ⟨operation, answer⟩
      cases operation <;> first | cases inserts | cases silent
  | working deduplicates within logged =>
      rcases List.mem_cons.mp member with rfl | member
      · cases inserts
      rcases List.mem_cons.mp member with rfl | member
      · cases inserts
        rw [Job.instructionId, deduplicates]
        rfl
      · rw [insertedId_of_within (logged event member)] at inserts
        cases inserts

/-- An attempt at a deduplicated job that inserted no row wrote nothing. -/
theorem Stage.not_wrote {attempt : Attempt} (stage : Stage attempt) {id : String}
    (identified : attempt.job.instructionId = some id) (none : id ∉ attempt.insertedIds) :
    ¬attempt.Wrote := by
  rintro ⟨event, member, coll, written, business⟩
  cases stage with
  | plain plain within logged =>
      rw [Job.instructionId, plain] at identified
      cases identified
  | waiting => cases member
  | missing =>
      rw [List.mem_singleton.mp member] at written
      cases written
  | ended ended logged =>
      rw [logged event member] at written
      cases written
  | @working launch params program log deduplicates within logged =>
      rw [Job.instructionId, deduplicates] at identified
      cases identified
      exact none (List.mem_filterMap.mpr ⟨⟨.create .instruction (instructionData params), ()⟩,
        by simp, rfl⟩)

/-! ## Attempts whose row is in -/

/-- An attempt that inserted a row is past the insertion. -/
theorem Stage.of_inserted {attempt : Attempt} (stage : Stage attempt)
    (inserted : attempt.Inserted) : ∃ params log, attempt.job.params = some params ∧
      attempt.log = ⟨.exists .instruction (generateInstructionId params), false⟩ ::
        ⟨.create .instruction (instructionData params), ()⟩ :: log := by
  obtain ⟨id, member⟩ := List.exists_mem_of_ne_nil _ inserted
  obtain ⟨event, logged, inserts⟩ := List.mem_filterMap.mp member
  cases stage with
  | plain _ _ within =>
      rw [insertedId_of_within (within event logged)] at inserts
      cases inserts
  | waiting => cases logged
  | missing =>
      rw [List.mem_singleton.mp logged] at inserts
      cases inserts
  | ended _ reads =>
      have silent := reads event logged
      rcases event with ⟨operation, answer⟩
      cases operation <;> first | cases inserts | cases silent
  | working deduplicates => exact ⟨_, _, deduplicates, rfl⟩

section Led

variable {rpc : Rpc} {job : Job} {params : CheckAndInsertInstructionParams}

/-- A program that has performed operations did not throw at once. -/
theorem Job.accepted_of_leads {program : Action Unit} {event : Event Op} {log : List (Event Op)}
    (leads : (job.process rpc).Leads (event :: log) program) : job.Accepted rpc := by
  intro failure threw
  rw [threw] at leads
  cases leads

/-- Past the lookup that found no row, a job inserts it and does its work. -/
theorem Job.leads_of_missing (deduplicates : job.params = some params) {log : List (Event Op)}
    {program : Action Unit}
    (leads : (job.process rpc).Leads
      (⟨.exists .instruction (generateInstructionId params), false⟩ :: log) program) :
    Program.Leads (afterLookup params fun _ => job.work rpc) log program := by
  rw [Job.process_eq deduplicates (Job.accepted_of_leads leads)] at leads
  cases leads with
  | perform leads => exact leads

/-- Past the insertion, it does its work. -/
theorem Job.leads_of_recorded (deduplicates : job.params = some params) {log : List (Event Op)}
    {program : Action Unit}
    (leads : (job.process rpc).Leads
      (⟨.exists .instruction (generateInstructionId params), false⟩ ::
        ⟨.create .instruction (instructionData params), ()⟩ :: log) program) :
    (job.work rpc).Leads log program := by
  cases Job.leads_of_missing deduplicates leads with
  | perform leads => exact leads

end Led

/-- What is left of an attempt whose row is in succeeds where it gets what it needs. -/
def Attempt.Succeeds (attempt : Attempt) : Prop :=
  attempt.Inserted → Action.Succeeds attempt.job.payload (fun _ => True) attempt.program

/-- A provided move keeps an attempt succeeding. -/
theorem Stage.succeeds_of_moves {store store' : Store} {attempt attempt' : Attempt}
    (stage : Stage attempt) (led : attempt.Led Launch.process) (succeeds : attempt.Succeeds)
    (moves : Moves mongo store attempt store' attempt')
    (provided : Provided store attempt attempt') :
    attempt'.Succeeds := by
  intro inserted
  obtain ⟨undisturbed, needs⟩ := provided inserted
  cases moves with
  | @perform _ launch ρ operation next log answer applied =>
      have needed := needs operation next rfl
      by_cases before : Attempt.Inserted ⟨launch, .op operation next, log⟩
      · exact succeeds before _ answer _ needed applied
      -- the row goes in with this move
      cases stage with
      | plain _ within logged =>
          refine absurd (show Attempt.insertedIds _ = [] from ?_) inserted
          refine List.filterMap_eq_nil_iff.mpr (List.forall_mem_append.mpr
            ⟨fun event member => insertedId_of_within (logged event member),
              List.forall_mem_singleton.mpr (insertedId_of_within within.1)⟩)
      | waiting => exact absurd rfl inserted
      | @missing _ params work deduplicates within =>
          rcases led with ⟨failure, threw⟩ | leads
          · cases threw
          · have accepted := Job.accepted_of_leads leads
            have same : afterLookup params (fun _ => launch.work) = afterLookup params work :=
              (Job.leads_of_missing deduplicates leads).eq_of_nil
            injection same with _ _ rest
            have worked : launch.work = work (instructionData params) := congrFun rest ()
            rw [Action.Succeeds, ← worked]
            exact Job.work_succeeds deduplicates accepted needed.2
      | ended ended => exact absurd rfl (ended operation next)
      | working => exact absurd (List.cons_ne_nil _ _) before
  | @reject _ launch ρ operation next log failure applied =>
      obtain ⟨_, _, answered, -⟩ := Op.apply_of_takes (needs operation next rfl).1
      cases answered.symm.trans applied
  | @fault _ launch ρ operation next log failure failed =>
      obtain ⟨answer, _, answered, -⟩ := Op.apply_of_takes (needs operation next rfl).1
      have same := undisturbed operation next rfl
      rw [answered] at same
      have longer : log.length = (log ++ [(⟨operation, answer⟩ : Event Op)]).length :=
        congrArg (fun attempt : Attempt => attempt.log.length) same
      rw [List.length_append, List.length_singleton] at longer
      omega

section Provided

variable {system : Workers}

/-- In a provided run no attempt throws once its row is in. -/
theorem succeeds_of_reaches
    (reaches : Reaches mongo Launch.process Provided (.initial Store.empty) system) :
    ∀ attempt ∈ system.processes, Attempt.Succeeds attempt := by
  have kept := Reaches.forall_processes (fun attempt : Attempt =>
    Stage attempt ∧ attempt.Led Launch.process ∧ Attempt.Succeeds attempt) reaches
      (fun _ member => nomatch member)
      (fun launch => ⟨.launch launch, .inr (.refl _), fun inserted => absurd rfl inserted⟩) ?_
  · exact fun attempt member => (kept attempt member).2.2
  · rintro store store' attempt attempt' moves provided ⟨stage, led, succeeds⟩
    exact ⟨(stage.moves moves).1, moves.led led,
      stage.succeeds_of_moves led succeeds moves provided⟩

/-- A row that is in a collection without deletions stays. -/
theorem holds_of_reaches {guard : Store → Attempt → Attempt → Prop} {earlier : Workers}
    (reaches : Reaches mongo Launch.process guard earlier system) {coll : Coll}
    (kept : ¬coll.Deletable) {id : String} (held : (earlier.store coll).holds id = true) :
    (system.store coll).holds id = true := by
  refine Reaches.invariant (fun system => (system.store coll).holds id = true) reaches held ?_ ?_
  · exact fun _ _ _ held => held
  · intro store store' before after process process' moves _ held
    exact Database.Stable.moves (mongo_stable_holds kept id) moves held

/-- An attempt that goes past the lookup of its row has the row in. -/
theorem Attempt.inserted_of_append {attempt : Attempt} {lookup event : Event Op}
    {params : CheckAndInsertInstructionParams} {earlier log : List (Event Op)}
    (longer : attempt.log = earlier ++ [event]) (begun : earlier ≠ [])
    (kept : attempt.log <+: lookup :: ⟨.create .instruction (instructionData params), ()⟩ :: log) :
    attempt.Inserted := by
  obtain ⟨rest, same⟩ := kept
  obtain ⟨first, others, rfl⟩ := List.exists_cons_of_ne_nil begun
  obtain ⟨second, later, shape⟩ :=
    List.exists_cons_of_ne_nil (List.append_ne_nil_of_right_ne_nil others
      (List.cons_ne_nil event []))
  have whole : attempt.log = first :: second :: later := by
    rw [longer, List.cons_append, shape]
  rw [whole] at same
  obtain ⟨recorded, -⟩ := List.cons.inj (List.cons.inj same).2
  have named : generateInstructionId params ∈ attempt.insertedIds := by
    rw [Attempt.insertedIds, whole, recorded]
    exact List.mem_filterMap.mpr ⟨_, List.mem_cons_of_mem _ List.mem_cons_self, rfl⟩
  exact List.ne_nil_of_mem named

/-- In a provided run, what an attempt performed past the lookup of its row took effect. -/
theorem tookEffect_of_performed {attempt : Attempt} {params : CheckAndInsertInstructionParams}
    {log : List (Event Op)} {event : Event Op} {store after : Store}
    (logged : attempt.log = ⟨.exists .instruction (generateInstructionId params), false⟩ ::
      ⟨.create .instruction (instructionData params), ()⟩ :: log)
    (performed : Performed mongo Launch.process Provided (.initial .empty) system attempt event
      store after) :
    event.operation.TookEffect store after := by
  cases performed with
  | @intro _ _ acting acting' _ _ running _ allowed applied longer kept _ =>
  rw [logged] at kept
  by_cases first : acting.log = []
  · -- the first operation only looks the row up
    rw [longer, first, List.nil_append] at kept
    obtain ⟨_, same⟩ := kept
    cases same
    trivial
  · have needed := (allowed (Attempt.inserted_of_append longer first kept)).2 _ _ running
    exact Op.tookEffect_of_takes needed.1 applied

/-- An attempt that has come to its end in a provided run has applied the work of its job. -/
theorem applied_of_finished
    (reaches : Reaches mongo Launch.process Provided (.initial Store.empty) system)
    {attempt : Attempt} (launched : attempt ∈ system.processes) (inserted : attempt.Inserted)
    (finished : attempt.Finished) : Applied Provided system attempt := by
  obtain ⟨params, log, deduplicates, logged⟩ :=
    ((accounted_of_reaches reaches).staged attempt launched).of_inserted inserted
  have effective : ∀ event ∈ attempt.log, ∃ store after,
      Performed mongo Launch.process Provided (.initial .empty) system attempt event store
        after ∧ event.operation.TookEffect store after := by
    intro event member
    obtain ⟨store, after, performed⟩ := reaches.performed attempt launched event member
    exact ⟨store, after, performed, tookEffect_of_performed logged performed⟩
  refine ⟨⟨params, log, deduplicates, logged, ?_⟩, effective, fun coll row member kept => ?_⟩
  · rcases reaches.led attempt launched with failed | leads
    · exact absurd failed finished.not_failed
    · rw [logged, show attempt.program = .pure () from finished] at leads
      exact Job.leads_of_recorded deduplicates leads
  · obtain ⟨store, after, performed, effect⟩ := effective _ member
    cases performed with
    | intro _ _ _ _ _ _ _ later =>
        exact holds_of_reaches later kept (Collection.holds_of_findOne effect)

end Provided

/-- In every provided run from the empty store, the property holds in every state reached,
for every job whose id is its own. -/
theorem retry_applies {system : Workers}
    (reaches : Reaches mongo Launch.process Provided (.initial Store.empty) system) {job : Job}
    (own : ∀ attempt ∈ system.processes, attempt.job.instructionId = job.instructionId →
      attempt.job.toJob = job) :
    RecordedMeansApplied Provided system job := by
  intro id identified recorded idle
  have accounted := accounted_of_reaches reaches
  -- the stored row is the one that some attempt inserted
  obtain ⟨attempt, launched, inserted⟩ := accounted.inserted_of_holds recorded rfl
  obtain ⟨before, after, split⟩ := List.append_of_mem launched
  have named := (accounted.staged attempt launched).instructionId_of_inserted inserted
  have ours : attempt.job.toJob = job := own attempt launched (named.trans identified.symm)
  have entered : Attempt.Inserted attempt := List.ne_nil_of_mem inserted
  have finished : attempt.Finished := by
    rcases attempt.running_or_ended with running | finished | ⟨failure, threw⟩
    · exact absurd running (idle attempt launched ours)
    · exact finished
    · exact absurd threw
        (Program.Succeeds.not_throw (succeeds_of_reaches reaches attempt launched entered) failure)
  refine ⟨before, attempt, after, split, ours, finished,
    applied_of_finished reaches launched entered finished, fun other among same => ?_⟩
  -- no other attempt inserted that id, so none got past its lookup
  have here : other ∈ system.processes := by
    rw [split]
    simp only [List.mem_append, List.mem_cons] at among ⊢
    tauto
  exact (accounted.staged other here).not_wrote (by rw [same]; exact identified)
    (accounted.alone split inserted other among)

/-- A step whose operation is answered with what it needs is provided. -/
theorem provided_of_needs {launch : Launch} {store : Store} {ρ : Type} {operation : Op ρ}
    {next : ρ → Action Unit} {log : List (Event Op)}
    (needed : launch.payload.Needs operation store) :
    Provided store ⟨launch, .op operation next, log⟩
      (Process.resume ⟨launch, .op operation next, log⟩ operation next
        (mongo.apply operation store).1) := by
  refine fun _ => ⟨?_, ?_⟩
  · rintro ρ operation next ⟨⟩
    rfl
  · rintro ρ operation next ⟨⟩
    exact needed

theorem reaches_of_job {launch : Launch} {store : Store} {attempts : List Attempt}
    (provides : mongo.Provides (fun {_} operation store => launch.payload.Needs operation store)
      launch.process store) :
    Reaches mongo Launch.process Provided ⟨store, attempts⟩
      ⟨(mongo.run launch.process store).2,
        attempts ++ [⟨launch, .pure (), mongo.trace launch.process store⟩]⟩ :=
  reaches_of_provides provided_of_needs provides attempts

/-! ## A prerequisite that comes late -/

/-- Fees that differ from those of `configJob`. -/
def newFees : StaticFeeParameters := ⟨9, 9, 9, 9, 9, 9, 9⟩

/-- A fee update of the pair that `pairJob` initializes. -/
def feeJob : Job where
  message := ⟨7, "sig", 3, false, .undefined⟩
  payload := .updatePairStaticFeeParameters ⟨newFees, "pair"⟩

/-- The update after its pair: the fees of the pair are new. -/
theorem retry_applies_update : ∃ system : Workers,
    AppliedOnce Provided system feeJob ∧
      (system.store .pair).rows.map Pair.baseFactor = [9] := by
  have configured : mongo.Provides
      (fun {_} operation store => configJob.payload.Needs operation store)
      (configJob.process silentRpc) Store.empty := by
    refine ⟨⟨trivial, trivial⟩, _, _, rfl, ⟨⟨rfl, rfl⟩, trivial⟩, _, _, rfl, trivial⟩
  have paired : mongo.Provides
      (fun {_} operation store => pairJob.payload.Needs operation store)
      (pairJob.process silentRpc) (storeAfter silentRpc .empty [configJob]) := by
    refine ⟨⟨trivial, trivial⟩, _, _, rfl, ⟨trivial, trivial⟩, _, _, rfl,
      ⟨trivial, trivial⟩, _, _, rfl, ⟨trivial, trivial⟩, _, _, rfl,
      ⟨⟨rfl, rfl⟩, trivial⟩, _, _, rfl, ⟨trivial, trivial⟩, _, _, rfl,
      ⟨⟨rfl, rfl⟩, trivial⟩, _, _, rfl, ⟨⟨rfl, rfl⟩, trivial⟩, _, _, rfl, trivial⟩
  have updated : mongo.Provides
      (fun {_} operation store => feeJob.payload.Needs operation store)
      (feeJob.process silentRpc) (storeAfter silentRpc .empty [configJob, pairJob]) := by
    refine ⟨⟨trivial, trivial⟩, _, _, rfl, ⟨⟨rfl, rfl⟩, trivial⟩, _, _, rfl,
      ⟨trivial, _, rfl⟩, _, _, rfl, ⟨⟨_, rfl, rfl⟩, trivial⟩, _, _, rfl, trivial⟩
  have reached : Reaches mongo Launch.process Provided (.initial Store.empty) _ :=
    ((@reaches_of_job configJob.silent _ _ configured).trans
      (@reaches_of_job pairJob.silent _ _ paired)).trans (@reaches_of_job feeJob.silent _ _ updated)
  refine ⟨_, retry_applies reached ?_ _ rfl ?_ ?_, ?_⟩
  · intro attempt member same
    simp only [List.nil_append, List.cons_append, List.mem_cons,
      List.not_mem_nil, or_false] at member
    rcases member with rfl | rfl | rfl
    · cases same
    · cases same
    · rfl
  · decide
  · rintro attempt member - ⟨ρ, operation, next, running⟩
    simp only [List.nil_append, List.cons_append, List.mem_cons,
      List.not_mem_nil, or_false] at member
    rcases member with rfl | rfl | rfl <;> cases running
  · decide

/-- The attempt that such a run of a launch leaves behind. -/
def attemptAt (store : Store) (launch : Launch) : Attempt :=
  ⟨launch, .ofExcept (mongo.run launch.process store).1, mongo.trace launch.process store⟩

/-- The fee update runs before its pair is there and again when it is. -/
def lateSystem : Workers :=
  let rpc := silentRpc
  { store := storeAfter rpc .empty [feeJob, configJob, pairJob, feeJob]
    processes :=
      [attemptAt .empty feeJob.silent,
        attemptAt (storeAfter rpc .empty [feeJob]) configJob.silent,
        attemptAt (storeAfter rpc .empty [feeJob, configJob]) pairJob.silent,
        attemptAt (storeAfter rpc .empty [feeJob, configJob, pairJob]) feeJob.silent] }

theorem late_reached :
    Reaches mongo Launch.process Unguarded (.initial Store.empty) lateSystem :=
  (((reaches_of_run feeJob.silent Store.empty []).trans
    (reaches_of_run configJob.silent _ _)).trans (reaches_of_run pairJob.silent _ _)).trans
      (reaches_of_run feeJob.silent _ _)

/-- The retry is skipped: no attempt did the work of the job. -/
theorem late_not_applied : ¬RecordedMeansApplied Unguarded lateSystem feeJob := by
  have failed : (attemptAt .empty feeJob.silent).program =
      .throw (.error "Processing update pair static fee instruction for non existent pair: pair") :=
    rfl
  have skipped : (attemptAt (storeAfter silentRpc .empty [feeJob, configJob, pairJob])
      feeJob.silent).log.length = 1 := rfl
  intro applied
  have idle : ∀ attempt ∈ lateSystem.processes, attempt.job.toJob = feeJob → ¬attempt.Running := by
    rintro attempt member - ⟨ρ, operation, next, running⟩
    simp only [lateSystem, List.mem_cons, List.not_mem_nil, or_false] at member
    rcases member with rfl | rfl | rfl | rfl <;> cases running
  obtain ⟨before, attempt, after, split, ours, finished, written, -⟩ :=
    applied (generateInstructionId (feeJob.message.params
      .UpdatePairStaticFeeParametersProcessor)) rfl (by decide) idle
  have member : attempt ∈ lateSystem.processes := by simp [split]
  simp only [lateSystem, List.mem_cons, List.not_mem_nil, or_false] at member
  rcases member with rfl | rfl | rfl | rfl
  · rw [Process.Finished, failed] at finished
    cases finished
  · cases ours
  · cases ours
  · obtain ⟨params, log, -, logged, -⟩ := written.worked
    rw [logged] at skipped
    cases skipped

/-- A fee update that first ran before its pair was there is never applied: its row
says it was, and the pair keeps the fees of its config. -/
theorem late_update_lost :
    (Reaches mongo Launch.process Unguarded (.initial Store.empty) lateSystem ∧
      ∀ attempt ∈ lateSystem.processes,
        attempt.job.instructionId = feeJob.instructionId → attempt.job.toJob = feeJob) ∧
      ¬RecordedMeansApplied Unguarded lateSystem feeJob ∧
      (lateSystem.store .pair).rows.map Pair.baseFactor = [1] := by
  refine ⟨⟨late_reached, ?_⟩, late_not_applied, by decide⟩
  intro attempt member same
  simp only [lateSystem, List.mem_cons, List.not_mem_nil, or_false] at member
  rcases member with rfl | rfl | rfl | rfl
  · rfl
  · cases same
  · cases same
  · rfl

end DlmmIndexer

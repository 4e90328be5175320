import DlmmIndexer.Worker

/-!
# Bin arrays that were cut short

The job of a bin array looks for the first bin and inserts all 256 in one batch, which the
database can cut anywhere.  A retry that finds the first bin takes the array for whole, so
the bins are all there after it exactly when a job of the array never finds the first bin
without the others.
-/

namespace DlmmIndexer

open Documents Atomic

namespace InitializeBinArray

variable {pair : String} {index : ℕ}

/-- All bins of an array are there. -/
def AllHeld (pair : String) (index : ℕ) (store : Store) : Prop :=
  ∀ binIndex < binArraySize,
    (store .bin).holds (binId pair (index * binArraySize + binIndex)) = true

/-- The first bin of an array is not there without the others. -/
def Whole (pair : String) (index : ℕ) (store : Store) : Prop :=
  (store .bin).holds (binId pair (index * binArraySize)) = true → AllHeld pair index store

/-- The job is one of the array. -/
def OfArray (pair : String) (index : ℕ) (job : Job) : Prop :=
  ∃ binArray, job.payload = .initializeBinArray ⟨index, pair, binArray⟩

/-- A job of the array that is about to look for the first bin does not find it without
the others. -/
def LooksAtWhole (pair : String) (index : ℕ) (store : Store)
    (before _after : Process Op Failure Launch) : Prop :=
  OfArray pair index before.job.toJob → before.log = [] → Whole pair index store

theorem stable_allHeld : mongo.Stable (AllHeld pair index) := by
  intro ρ operation store held
  have stable (binIndex : ℕ) := @mongo_stable_holds .bin (by simp [Coll.Deletable])
    (binId pair (index * binArraySize + binIndex)) ρ operation store
  exact ⟨fun binIndex inside => (stable binIndex (held binIndex inside)).1,
    fun after failed binIndex inside => (stable binIndex (held binIndex inside)).2 after failed⟩

/-- A batch that is inserted in full holds the whole array. -/
theorem allHeld_of_insertMany {binArray : String} {store after : Store} {answer : Unit}
    (applied : mongo.apply (.insertMany .bin (binDocuments ⟨index, pair, binArray⟩)) store =
      (.ok answer, after)) : AllHeld pair index after := by
  obtain ⟨rows, inserted, rfl⟩ :=
    completes_insertMany.mp (Database.completes_perform.mpr applied)
  intro binIndex inside
  rw [Store.put_same, Collection.holds_iff]
  exact ⟨_, (Collection.mem_insertMany inserted).mpr (.inr (binDocument_mem inside)), rfl⟩

/-- One run of the job that completes leaves the whole array exactly when it did not find
the first bin without the others. -/
theorem allHeld_iff_of_completes {binArray : String} {store after : Store}
    (completes : mongo.Completes (processInitializeBinArray ⟨index, pair, binArray⟩) store ()
      after) : AllHeld pair index after ↔ Whole pair index store := by
  simp only [processInitializeBinArray, Database.completes_bind, completes_existsId] at completes
  obtain ⟨_, _, ⟨rfl, rfl⟩, completes⟩ := completes
  split at completes
  next found =>
    obtain ⟨-, rfl⟩ := Database.completes_return.mp completes
    exact ⟨fun all _ => all, fun whole => whole found⟩
  next missing =>
    exact iff_of_true (allHeld_of_insertMany (Database.completes_perform.mp completes))
      fun found => absurd found missing

/-! ## Attempts at an array -/

/-- How far an attempt at the array has come. -/
inductive Stage (pair : String) (index : ℕ) (store : Store) : Process Op Failure Launch → Prop where
  | looking {launch : Launch} {binArray : String} :
      Stage pair index store
        ⟨launch, processInitializeBinArray ⟨index, pair, binArray⟩, []⟩
  | inserting {launch : Launch} {binArray : String} {log : List (Event Op)} :
      Stage pair index store
        ⟨launch, .op (.insertMany .bin (binDocuments ⟨index, pair, binArray⟩)) .pure, log⟩
  | failed {launch : Launch} {failure : Failure} {log : List (Event Op)} :
      Stage pair index store ⟨launch, .throw failure, log⟩
  | finished {launch : Launch} {log : List (Event Op)} (all : AllHeld pair index store) :
      Stage pair index store ⟨launch, .pure (), log⟩

theorem Stage.launch {store : Store} {launch : Launch}
    (ofArray : OfArray pair index launch.toJob) :
    Stage pair index store (.launch Launch.process launch) := by
  obtain ⟨binArray, payload⟩ := ofArray
  have program : launch.process = processInitializeBinArray ⟨index, pair, binArray⟩ := by
    rw [Launch.process, Job.process, payload]
  rw [Process.launch, program]
  exact .looking

/-- What other processes do to the store does not set an attempt back. -/
theorem Stage.of_stable {store store' : Store} {process : Process Op Failure Launch}
    (stage : Stage pair index store process)
    (kept : AllHeld pair index store → AllHeld pair index store') :
    Stage pair index store' process := by
  cases stage with
  | looking => exact .looking
  | inserting => exact .inserting
  | failed => exact .failed
  | finished all => exact .finished (kept all)

theorem Stage.moves {store store' : Store} {process process' : Process Op Failure Launch}
    (stage : Stage pair index store process) (ofArray : OfArray pair index process.job.toJob)
    (moves : Moves mongo store process store' process')
    (allowed : LooksAtWhole pair index store process process') :
    Stage pair index store' process' := by
  cases stage with
  | @looking launch binArray =>
      cases moves with
      | perform applied =>
          cases applied
          cases found : (store .bin).holds (firstBinDocumentId ⟨index, pair, binArray⟩) with
          | true => exact .finished (allowed ofArray rfl found)
          | false => exact .inserting
      | reject => exact .failed
      | fault => exact .failed
  | inserting =>
      cases moves with
      | perform applied => exact .finished (allHeld_of_insertMany applied)
      | reject => exact .failed
      | fault => exact .failed
  | failed => cases moves
  | finished => cases moves

/-! ## An array that was cut short -/

/-- The store after a batch for `arrayJob` of which only `stored` came through. -/
def cutStore (stored : List Bin) : Store :=
  Store.empty.put .bin ((Collection.empty _).insertFree stored)

/-- An attempt at `arrayJob` that has looked for the first bin. -/
def lookedAttempt (program : Action Unit) (answer : Bool) : Process Op Failure Launch :=
  ⟨arrayJob.silent, program, [⟨.exists .bin (binId "pair" 8388608), answer⟩]⟩

/-- What an attempt at `arrayJob` is to do after its look. -/
def afterLook (existingBin : Bool) : Action Unit :=
  if existingBin then pure ()
  else insertMany .bin (binDocuments ⟨32768, "pair", "array"⟩)

theorem arrayJob_looks {store : Store} {answer : Bool}
    (held : (store .bin).holds (binId "pair" 8388608) = answer) :
    Moves mongo store (.launch Launch.process arrayJob.silent) store
      (lookedAttempt (afterLook answer) answer) := by
  have applied : mongo.apply (.exists .bin (binId "pair" 8388608)) store = (.ok answer, store) := by
    rw [← held]
    rfl
  exact @Moves.perform _ _ _ _ mongo store store arrayJob.silent _ _ afterLook [] _ applied

theorem cut_reached {guard : Store → Process Op Failure Launch → Process Op Failure Launch → Prop}
    (allowed : ∀ before after, guard .empty before after) {stored : List Bin}
    (sublist : stored.Sublist (binDocuments ⟨32768, "pair", "array"⟩)) :
    Reaches mongo Launch.process guard (.initial .empty)
      ⟨cutStore stored, [lookedAttempt (.throw .unavailable) false]⟩ := by
  have looked : Step mongo Launch.process guard
      ⟨.empty, [] ++ .launch Launch.process arrayJob.silent :: []⟩
      ⟨.empty, [] ++ lookedAttempt (afterLook false) false :: []⟩ :=
    .move (arrayJob_looks rfl) (allowed _ _)
  have failed : mongo.fails (.insertMany .bin (binDocuments ⟨32768, "pair", "array"⟩)) .empty
      (cutStore stored) := ⟨stored, sublist, rfl⟩
  have moved : Moves mongo .empty (lookedAttempt (afterLook false) false) (cutStore stored)
      (lookedAttempt (.throw .unavailable) false) :=
    @Moves.fault _ _ _ _ mongo _ _ arrayJob.silent _ _ .pure _ Failure.unavailable failed
  have cut : Step mongo Launch.process guard
      ⟨.empty, [] ++ lookedAttempt (afterLook false) false :: []⟩
      ⟨cutStore stored, [] ++ lookedAttempt (.throw .unavailable) false :: []⟩ :=
    .move moved (allowed _ _)
  exact ((Relation.ReflTransGen.single (.launch arrayJob.silent)).tail looked).tail cut

/-- A batch of which nothing came through, and a retry. -/
theorem retry_reached : ∃ (system : System Op Store Failure Launch)
      (attempt : Process Op Failure Launch),
    Reaches mongo Launch.process (LooksAtWhole "pair" 32768) (.initial .empty) system ∧
      attempt ∈ system.processes ∧ attempt.job.toJob = arrayJob ∧ attempt.Finished := by
  have missing : (cutStore [] .bin).holds (binId "pair" 8388608) = false := rfl
  have whole : Whole "pair" 32768 .empty := nofun
  obtain ⟨rows, inserted, -⟩ := @completes_processInitializeBinArray
    ⟨32768, "pair", "array"⟩ (cutStore []) fun _ _ => rfl
  have launched := (@cut_reached (LooksAtWhole "pair" 32768) (fun _ _ _ _ => whole) []
    (List.nil_sublist _)).tail (.launch arrayJob.silent)
  have looked : Step mongo Launch.process (LooksAtWhole "pair" 32768)
      ⟨cutStore [], [lookedAttempt (.throw .unavailable) false] ++
        .launch Launch.process arrayJob.silent :: []⟩
      ⟨cutStore [], [lookedAttempt (.throw .unavailable) false] ++
        lookedAttempt (afterLook false) false :: []⟩ :=
    .move (arrayJob_looks missing) fun _ _ found => nomatch missing.symm.trans found
  have applied : mongo.apply (.insertMany .bin (binDocuments ⟨32768, "pair", "array"⟩))
      (cutStore []) = (.ok (), (cutStore []).put .bin rows) :=
    Database.completes_perform.mp (completes_insertMany.mpr ⟨rows, inserted, rfl⟩)
  have finished := @Step.move _ _ _ _ mongo Launch.process (LooksAtWhole "pair" 32768) _ _
    [lookedAttempt (.throw .unavailable) false] [] _ _ (@Moves.perform _ _ _ _ mongo _ _
      arrayJob.silent _ _ .pure [⟨.exists .bin (binId "pair" 8388608), false⟩] () applied)
    fun _ unlogged => nomatch unlogged
  exact ⟨_, _, (launched.tail looked).tail finished,
    List.mem_append_right _ List.mem_cons_self, rfl, rfl⟩

/-- In every run, with whatever failures and cuts, in which no job of an array finds its
first bin without the others, all bins of the array are there once one of its jobs has
completed. -/
theorem array_whole {start : Store} {system : System Op Store Failure Launch}
    (reaches : Reaches mongo Launch.process (LooksAtWhole pair index) (.initial start) system)
    {attempt : Process Op Failure Launch} (member : attempt ∈ system.processes)
    (ofArray : OfArray pair index attempt.job.toJob) (finished : attempt.Finished) :
    AllHeld pair index system.store := by
  have staged : ∀ process ∈ system.processes, OfArray pair index process.job.toJob →
      Stage pair index system.store process := by
    refine Reaches.forall_processes_store (fun store process =>
      OfArray pair index process.job.toJob → Stage pair index store process) reaches ?_ ?_ ?_ ?_
    · exact fun process member => nomatch member
    · exact fun store launch ofArray => .launch ofArray
    · exact fun store store' _ _ other moves staged ofArray =>
        (staged ofArray).of_stable (Database.Stable.moves (@stable_allHeld pair index) moves)
    · intro store store' process process' moves allowed staged ofArray
      rw [moves.job_eq] at ofArray
      exact (staged ofArray).moves ofArray moves allowed
  have stage := staged attempt member ofArray
  rcases attempt with ⟨launch, program, log⟩
  obtain rfl : program = .pure () := finished
  cases stage with
  | finished all => exact all

theorem array_whole_retried : ∃ system : System Op Store Failure Launch,
    Reaches mongo Launch.process (LooksAtWhole "pair" 32768) (.initial .empty) system ∧
      AllHeld "pair" 32768 system.store := by
  obtain ⟨system, attempt, reached, member, same, finished⟩ := retry_reached
  exact ⟨system, reached,
    array_whole reached member ⟨"array", congrArg Job.payload same⟩ finished⟩

/-- A batch of which only the first bin came through, and a retry that takes the array for
whole. -/
theorem array_cut : ∃ (system : System Op Store Failure Launch)
      (attempt : Process Op Failure Launch),
    Reaches mongo Launch.process Unguarded (.initial .empty) system ∧
      attempt ∈ system.processes ∧ attempt.job.toJob = arrayJob ∧ attempt.Finished ∧
      (system.store .bin).holds (binId "pair" 8388609) = false ∧
      ¬AllHeld "pair" 32768 system.store := by
  have sublist : [sampleBin].Sublist (binDocuments ⟨32768, "pair", "array"⟩) :=
    List.singleton_sublist.mpr (binDocument_mem (by decide))
  have found : (cutStore [sampleBin] .bin).holds (binId "pair" 8388608) = true := by
    decide +kernel
  have missing : (cutStore [sampleBin] .bin).holds (binId "pair" 8388609) = false := by
    decide +kernel
  have launched := (@cut_reached Unguarded (fun _ _ => trivial) _ sublist).tail
    (.launch arrayJob.silent)
  have looked : Step mongo Launch.process Unguarded
      ⟨cutStore [sampleBin], [lookedAttempt (.throw .unavailable) false] ++
        .launch Launch.process arrayJob.silent :: []⟩
      ⟨cutStore [sampleBin], [lookedAttempt (.throw .unavailable) false] ++
        lookedAttempt (afterLook true) true :: []⟩ :=
    .move (arrayJob_looks found) trivial
  refine ⟨_, _, launched.tail looked, List.mem_append_right _ List.mem_cons_self, rfl, rfl,
    missing, fun all => ?_⟩
  have held := all 1 (by decide)
  rw [show (32768 * binArraySize + 1 : ℕ) = 8388609 from rfl, missing] at held
  cases held

end InitializeBinArray

end DlmmIndexer

import DlmmIndexer.Library.Schedule

/-!
# Rely and guarantee over whole runs

A contract says what one program counts on and what it owes.  A `Discipline` adds why
keeping the contract is enough for everybody: a permitted operation, undisturbed or
disturbed, leaves a store that can be relied on and that differs from the one before
within the `guarantee`; an answer witnesses a `fact` about the store, and no change
within the guarantee undoes a fact.

When the programs of all jobs obey the contract, every interleaving keeps to it: all
stores can be relied on, each is within the guarantee of the earlier ones, and what
the logs witness holds of the store at any later time (`Disciplined.reaches`).
-/

namespace Atomic

variable {Op : Type → Type} {σ ε ι : Type}

/-- The facts that the answers in a log witness hold of the store. -/
def Witnessed (fact : {ρ : Type} → Op ρ → ρ → σ → Prop) (log : List (Event Op)) (store : σ) :
    Prop :=
  ∀ event ∈ log, fact event.operation event.answer store

structure Discipline (database : Database Op σ ε) where
  contract : Contract Op σ
  guarantee : σ → σ → Prop
  fact : {ρ : Type} → Op ρ → ρ → σ → Prop
  refl : ∀ store, guarantee store store
  trans : ∀ {first second third}, guarantee first second → guarantee second third →
    guarantee first third
  /-- What permitted operations do, answered, rejected or disturbed. -/
  sound : ∀ {ρ : Type} {log : List (Event Op)} {operation : Op ρ} {store after : σ},
    contract.rely store → Witnessed fact log store → contract.permitted log operation →
      (database.apply operation store).2 = after ∨ database.fails operation store after →
        contract.rely after ∧ guarantee store after
  /-- What answers witness. -/
  answered : ∀ {ρ : Type} {log : List (Event Op)} {operation : Op ρ} {store after : σ}
    {answer : ρ}, contract.rely store → contract.permitted log operation →
      database.apply operation store = (.ok answer, after) → fact operation answer after
  stable : ∀ {ρ : Type} {operation : Op ρ} {answer : ρ} {store after : σ},
    guarantee store after → fact operation answer store → fact operation answer after

variable {database : Database Op σ ε}

/-- The store can be relied on, and every process obeys its contract and has witnessed
facts only. -/
structure Disciplined (discipline : Discipline database) (system : System Op σ ε ι) : Prop where
  reliable : discipline.contract.rely system.store
  obeys : ∀ process ∈ system.processes, process.program.Obeys database discipline.contract
    (fun _ _ => True) process.log
  witnessed : ∀ process ∈ system.processes,
    Witnessed discipline.fact process.log system.store

namespace Disciplined

variable {discipline : Discipline database} {program : ι → Program Op ε Unit}
variable {guard : σ → Process Op ε ι → Process Op ε ι → Prop}
variable {system later : System Op σ ε ι}

theorem initial {store : σ} (reliable : discipline.contract.rely store) :
    Disciplined discipline (.initial store : System Op σ ε ι) where
  reliable := reliable
  obeys _ member := nomatch member
  witnessed _ member := nomatch member

/-- A move of a process that keeps the contract stays within the guarantee, and the
process goes on to keep it. -/
theorem moves {store store' : σ} {process process' : Process Op ε ι}
    (reliable : discipline.contract.rely store)
    (obeys : process.program.Obeys database discipline.contract (fun _ _ => True) process.log)
    (witnessed : Witnessed discipline.fact process.log store)
    (moves : Moves database store process store' process') :
    discipline.contract.rely store' ∧ discipline.guarantee store store' ∧
      process'.program.Obeys database discipline.contract (fun _ _ => True) process'.log ∧
      Witnessed discipline.fact process'.log store' := by
  have continues := moves.obeys reliable obeys
  cases moves with
  | perform applied =>
      obtain ⟨rely, within⟩ :=
        discipline.sound reliable witnessed obeys.1 (.inl (congrArg Prod.snd applied))
      refine ⟨rely, within, continues, List.forall_mem_append.mpr ⟨?_, ?_⟩⟩
      · exact fun event member => discipline.stable within (witnessed event member)
      · exact List.forall_mem_singleton.mpr (discipline.answered reliable obeys.1 applied)
  | reject applied =>
      obtain ⟨rely, within⟩ :=
        discipline.sound reliable witnessed obeys.1 (.inl (congrArg Prod.snd applied))
      exact ⟨rely, within, continues,
        fun event member => discipline.stable within (witnessed event member)⟩
  | fault failure failed =>
      obtain ⟨rely, within⟩ := discipline.sound reliable witnessed obeys.1 (.inr failed)
      exact ⟨rely, within, continues,
        fun event member => discipline.stable within (witnessed event member)⟩

/-- One step of a disciplined system. -/
theorem step
    (keeps : ∀ job, (program job).Obeys database discipline.contract (fun _ _ => True) [])
    (disciplined : Disciplined discipline system)
    (step : Step database program guard system later) :
    Disciplined discipline later ∧ discipline.guarantee system.store later.store := by
  cases step with
  | launch job =>
      refine ⟨⟨disciplined.reliable, ?_, ?_⟩, discipline.refl _⟩
      · exact List.forall_mem_append.mpr
          ⟨disciplined.obeys, List.forall_mem_singleton.mpr (keeps job)⟩
      · exact List.forall_mem_append.mpr
          ⟨disciplined.witnessed, List.forall_mem_singleton.mpr fun _ member => nomatch member⟩
  | move moved =>
      obtain ⟨obeysBefore, rest⟩ := List.forall_mem_append.mp disciplined.obeys
      obtain ⟨obeysHere, obeysAfter⟩ := List.forall_mem_cons.mp rest
      obtain ⟨knownBefore, rest⟩ := List.forall_mem_append.mp disciplined.witnessed
      obtain ⟨knownHere, knownAfter⟩ := List.forall_mem_cons.mp rest
      obtain ⟨rely, within, obeys, known⟩ :=
        moves disciplined.reliable obeysHere knownHere moved
      -- what the other processes know survives the move
      have others {processes : List (Process Op ε ι)}
          (held : ∀ process ∈ processes, Witnessed discipline.fact process.log _) :
          ∀ process ∈ processes, Witnessed discipline.fact process.log _ :=
        fun process member event logged =>
          discipline.stable within (held process member event logged)
      exact ⟨⟨rely, List.forall_mem_append.mpr
          ⟨obeysBefore, List.forall_mem_cons.mpr ⟨obeys, obeysAfter⟩⟩,
        List.forall_mem_append.mpr
          ⟨others knownBefore, List.forall_mem_cons.mpr ⟨known, others knownAfter⟩⟩⟩, within⟩

/-- The rely-guarantee rule for whole runs. -/
theorem reaches
    (keeps : ∀ job, (program job).Obeys database discipline.contract (fun _ _ => True) [])
    (disciplined : Disciplined discipline system)
    (reaches : Reaches database program guard system later) :
    Disciplined discipline later ∧ discipline.guarantee system.store later.store := by
  induction reaches with
  | refl => exact ⟨disciplined, discipline.refl _⟩
  | tail _ stepped ih =>
      obtain ⟨middle, within⟩ := ih
      obtain ⟨last, further⟩ := middle.step keeps stepped
      exact ⟨last, discipline.trans within further⟩

end Disciplined

/-! ## Meeting contracts -/

namespace Program

variable {contract : Contract Op σ} {log : List (Event Op)} {α : Type}

/-- A program whose operations are permitted after any log obeys the contract. -/
theorem Every.obeys {allowed : ∀ {ρ : Type}, Op ρ → Prop}
    (permits : ∀ {ρ : Type} (log : List (Event Op)) (operation : Op ρ), allowed operation →
      contract.permitted log operation)
    {program : Program Op ε α} (every : program.Every allowed) :
    program.Obeys database contract (fun _ _ => True) log := by
  induction program generalizing log with
  | pure => trivial
  | throw => trivial
  | op operation next ih =>
      exact ⟨permits log operation every.1, fun _ answer _ _ _ => ih answer (every.2 answer)⟩

/-- A contract that relies on more is easier to obey. -/
theorem Obeys.of_rely {rely : σ → Prop} (stronger : ∀ store, rely store → contract.rely store)
    {program : Program Op ε α} {post : List (Event Op) → α → Prop}
    (obeys : program.Obeys database contract post log) :
    program.Obeys database ⟨rely, contract.permitted⟩ post log := by
  induction program generalizing log with
  | pure => exact obeys
  | throw => trivial
  | op operation next ih =>
      exact ⟨obeys.1, fun store answer after reliable applied =>
        ih answer (obeys.2 store answer after (stronger store reliable) applied)⟩

end Program

end Atomic

import Mathlib.Data.List.TakeDrop
import Mathlib.Logic.Relation
import DlmmIndexer.Library.Program

/-!
# Interleaved runs of programs

A system is a store together with the processes working on it.  A process runs
the program of its job and keeps a log of the operations it has performed.  A
step launches a process or lets one process move: its next operation is answered,
is rejected, or is disturbed and leaves the store as the database's `fails`
allows.  Processes may move in any order.

Steps carry a `guard` on the moving process and the store before the move, so a
discipline on schedules is a choice of guard.  The undisturbed sequential run of
`Program` is one particular schedule (`reaches_of_run`).
-/

namespace Atomic

variable {Op : Type → Type} {σ ε ι : Type}

/-- A job, what is left of its program, and the operations performed so far. -/
structure Process (Op : Type → Type) (ε ι : Type) : Type 1 where
  job : ι
  program : Program Op ε Unit
  log : List (Event Op)

/-- A store and the processes launched so far. -/
structure System (Op : Type → Type) (σ ε ι : Type) : Type 1 where
  store : σ
  processes : List (Process Op ε ι)

namespace Process

/-- The process that is about to begin a job. -/
def launch (program : ι → Program Op ε Unit) (job : ι) : Process Op ε ι :=
  ⟨job, program job, []⟩

/-- The process has completed normally. -/
def Finished (process : Process Op ε ι) : Prop := process.program = .pure ()

instance (process : Process Op ε ι) : Decidable process.Finished :=
  match process with
  | ⟨_, .pure (), _⟩ => .isTrue rfl
  | ⟨_, .throw _, _⟩ => .isFalse nofun
  | ⟨_, .op _ _, _⟩ => .isFalse nofun

/-- The process has ended in a failure. -/
def Failed (process : Process Op ε ι) : Prop := ∃ failure, process.program = .throw failure

instance (process : Process Op ε ι) : Decidable process.Failed :=
  match process with
  | ⟨_, .pure (), _⟩ => .isFalse nofun
  | ⟨_, .throw failure, _⟩ => .isTrue ⟨failure, rfl⟩
  | ⟨_, .op _ _, _⟩ => .isFalse nofun

/-- The process still has an operation to perform. -/
def Running (process : Process Op ε ι) : Prop :=
  ∃ (ρ : Type) (operation : Op ρ) (next : ρ → Program Op ε Unit),
    process.program = .op operation next

theorem running_or_ended (process : Process Op ε ι) :
    process.Running ∨ process.Finished ∨ process.Failed := by
  rcases process with ⟨job, value | failure | ⟨operation, next⟩, log⟩
  · exact .inr (.inl rfl)
  · exact .inr (.inr ⟨failure, rfl⟩)
  · exact .inl ⟨_, operation, next, rfl⟩

theorem Finished.not_running {process : Process Op ε ι} (finished : process.Finished) :
    ¬process.Running := by
  rintro ⟨ρ, operation, next, same⟩
  rw [Finished, same] at finished
  cases finished

theorem Finished.not_failed {process : Process Op ε ι} (finished : process.Finished) :
    ¬process.Failed := by
  rintro ⟨failure, same⟩
  rw [Finished, same] at finished
  cases finished

theorem Failed.not_running {process : Process Op ε ι} (failed : process.Failed) :
    ¬process.Running := by
  rintro ⟨ρ, operation, next, same⟩
  obtain ⟨failure, threw⟩ := failed
  rw [threw] at same
  cases same

end Process

/-- One move of one process on the store. -/
inductive Moves (database : Database Op σ ε) :
    σ → Process Op ε ι → σ → Process Op ε ι → Prop where
  | perform {store after : σ} {job : ι} {ρ : Type} {operation : Op ρ}
      {next : ρ → Program Op ε Unit} {log : List (Event Op)} {answer : ρ}
      (applied : database.apply operation store = (.ok answer, after)) :
      Moves database store ⟨job, .op operation next, log⟩
        after ⟨job, next answer, log ++ [⟨operation, answer⟩]⟩
  | reject {store after : σ} {job : ι} {ρ : Type} {operation : Op ρ}
      {next : ρ → Program Op ε Unit} {log : List (Event Op)} {failure : ε}
      (applied : database.apply operation store = (.error failure, after)) :
      Moves database store ⟨job, .op operation next, log⟩ after ⟨job, .throw failure, log⟩
  | fault {store after : σ} {job : ι} {ρ : Type} {operation : Op ρ}
      {next : ρ → Program Op ε Unit} {log : List (Event Op)} (failure : ε)
      (failed : database.fails operation store after) :
      Moves database store ⟨job, .op operation next, log⟩ after ⟨job, .throw failure, log⟩

/-- The guard that admits every move. -/
def Unguarded (_store : σ) (_before _after : Process Op ε ι) : Prop := True

/-- One step of a system: a job is launched, or some process makes a guarded move. -/
inductive Step (database : Database Op σ ε) (program : ι → Program Op ε Unit)
    (guard : σ → Process Op ε ι → Process Op ε ι → Prop) :
    System Op σ ε ι → System Op σ ε ι → Prop where
  | launch {store : σ} {processes : List (Process Op ε ι)} (job : ι) :
      Step database program guard ⟨store, processes⟩
        ⟨store, processes ++ [.launch program job]⟩
  | move {store store' : σ} {before after : List (Process Op ε ι)}
      {process process' : Process Op ε ι}
      (moves : Moves database store process store' process')
      (allowed : guard store process process') :
      Step database program guard ⟨store, before ++ process :: after⟩
        ⟨store', before ++ process' :: after⟩

/-- The systems that guarded steps reach. -/
abbrev Reaches (database : Database Op σ ε) (program : ι → Program Op ε Unit)
    (guard : σ → Process Op ε ι → Process Op ε ι → Prop) :
    System Op σ ε ι → System Op σ ε ι → Prop :=
  Relation.ReflTransGen (Step database program guard)

/-- The system before anything is launched. -/
def System.initial (store : σ) : System Op σ ε ι := ⟨store, []⟩

section Invariants

variable {database : Database Op σ ε} {program : ι → Program Op ε Unit}
variable {guard : σ → Process Op ε ι → Process Op ε ι → Prop}
variable {start system : System Op σ ε ι}

/-- A property that holds at the start and survives launches and guarded moves
holds in every reachable system. -/
theorem Reaches.invariant (kept : System Op σ ε ι → Prop)
    (reaches : Reaches database program guard start system) (holds : kept start)
    (launched : ∀ store processes job, kept ⟨store, processes⟩ →
      kept ⟨store, processes ++ [.launch program job]⟩)
    (moved : ∀ store store' before after process process',
      Moves database store process store' process' → guard store process process' →
        kept ⟨store, before ++ process :: after⟩ →
          kept ⟨store', before ++ process' :: after⟩) :
    kept system := by
  induction reaches with
  | refl => exact holds
  | tail _ step ih =>
      cases step with
      | launch job => exact launched _ _ job ih
      | move moves allowed => exact moved _ _ _ _ _ _ moves allowed ih

/-- A move does not change the job of its process. -/
theorem Moves.job_eq {store store' : σ} {process process' : Process Op ε ι}
    (moves : Moves database store process store' process') : process'.job = process.job := by
  cases moves <;> rfl

/-- A property of systems whose jobs are all `admitted`, kept by every launch and
every guarded move among them. -/
theorem Reaches.invariant_of_jobs (admitted : ι → Prop) (kept : System Op σ ε ι → Prop)
    (reaches : Reaches database program guard start system) (holds : kept start)
    (launched : ∀ store processes job, admitted job → kept ⟨store, processes⟩ →
      kept ⟨store, processes ++ [.launch program job]⟩)
    (moved : ∀ store store' before after process process', admitted process.job →
      Moves database store process store' process' → guard store process process' →
        kept ⟨store, before ++ process :: after⟩ →
          kept ⟨store', before ++ process' :: after⟩)
    (jobs : ∀ process ∈ system.processes, admitted process.job) : kept system := by
  refine Reaches.invariant
    (fun system => (∀ process ∈ system.processes, admitted process.job) → kept system)
    reaches (fun _ => holds) ?_ ?_ jobs
  · intro store processes job held jobs
    obtain ⟨earlier, last⟩ := List.forall_mem_append.mp jobs
    exact launched store processes job (last _ List.mem_cons_self) (held earlier)
  · intro store store' before after process process' moves allowed held jobs
    obtain ⟨earlier, later⟩ := List.forall_mem_append.mp jobs
    obtain ⟨here, later⟩ := List.forall_mem_cons.mp later
    rw [moves.job_eq] at here
    exact moved store store' before after process process' here moves allowed
      (held (List.forall_mem_append.mpr ⟨earlier, List.forall_mem_cons.mpr ⟨here, later⟩⟩))

/-- A process that ended does not move. -/
theorem Moves.running {store store' : σ} {process process' : Process Op ε ι}
    (moves : Moves database store process store' process') : process.Running := by
  cases moves <;> exact ⟨_, _, _, rfl⟩

/-- What is known of a process and the store, from the launch on and through the guarded
moves of the process and all moves of the others, is known of every process of a reachable
system. -/
theorem Reaches.forall_processes_store (kept : σ → Process Op ε ι → Prop)
    (reaches : Reaches database program guard start system)
    (holds : ∀ process ∈ start.processes, kept start.store process)
    (launched : ∀ store job, kept store (.launch program job))
    (stays : ∀ (store store' : σ) (process process' other : Process Op ε ι),
      Moves database store process store' process' → kept store other → kept store' other)
    (moved : ∀ store store' process process', Moves database store process store' process' →
      guard store process process' → kept store process → kept store' process') :
    ∀ process ∈ system.processes, kept system.store process := by
  refine Reaches.invariant
    (fun system => ∀ process ∈ system.processes, kept system.store process) reaches holds ?_ ?_
  · intro store processes job held
    exact List.forall_mem_append.mpr ⟨held, List.forall_mem_singleton.mpr (launched store job)⟩
  · intro store store' before after process process' moves allowed held
    obtain ⟨earlier, rest⟩ := List.forall_mem_append.mp held
    obtain ⟨here, later⟩ := List.forall_mem_cons.mp rest
    have other (other : Process Op ε ι) : kept store other → kept store' other :=
      stays _ _ _ _ other moves
    exact List.forall_mem_append.mpr ⟨fun process member => other process (earlier process member),
      List.forall_mem_cons.mpr ⟨moved _ _ _ _ moves allowed here,
        fun process member => other process (later process member)⟩⟩

/-- A property of single processes that holds at the launch and survives guarded
moves holds of every process of a reachable system. -/
theorem Reaches.forall_processes (kept : Process Op ε ι → Prop)
    (reaches : Reaches database program guard start system)
    (holds : ∀ process ∈ start.processes, kept process)
    (launched : ∀ job, kept (.launch program job))
    (moved : ∀ store store' process process', Moves database store process store' process' →
      guard store process process' → kept process → kept process') :
    ∀ process ∈ system.processes, kept process :=
  Reaches.forall_processes_store (fun _ => kept) reaches holds (fun _ => launched)
    (fun _ _ _ _ _ _ held => held) moved

/-- A process that obeys a contract goes on to obey it when the store it moves on can
be relied on. -/
theorem Moves.obeys {contract : Contract Op σ} {post : List (Event Op) → Unit → Prop}
    {store store' : σ} {process process' : Process Op ε ι}
    (moves : Moves database store process store' process') (reliable : contract.rely store)
    (obeys : process.program.Obeys database contract post process.log) :
    process'.program.Obeys database contract post process'.log := by
  cases moves with
  | perform applied => exact obeys.2 _ _ _ reliable applied
  | reject => trivial
  | fault => trivial

/-- The store fact survives every move of every process. -/
def Database.Stable (database : Database Op σ ε) (fact : σ → Prop) : Prop :=
  ∀ {ρ : Type} (operation : Op ρ) (store : σ), fact store →
    fact (database.apply operation store).2 ∧
      ∀ after, database.fails operation store after → fact after

theorem Database.Stable.moves {fact : σ → Prop} (stable : database.Stable fact)
    {store store' : σ} {process process' : Process Op ε ι}
    (moves : Moves database store process store' process') (holds : fact store) :
    fact store' := by
  cases moves with
  | @perform _ _ _ operation _ _ _ applied | @reject _ _ _ operation _ _ _ applied =>
      have kept := (stable operation store holds).1
      rwa [applied] at kept
  | fault failure failed => exact (stable _ _ holds).2 _ failed

/-- What is stable survives a program that is run alone. -/
theorem Database.Stable.run {fact : σ → Prop} (stable : database.Stable fact) {α : Type}
    (rest : Program Op ε α) {store : σ} (holds : fact store) :
    fact (database.run rest store).2 := by
  induction rest generalizing store with
  | pure => exact holds
  | throw => exact holds
  | op operation next ih =>
      have kept := (stable operation store holds).1
      rw [Database.run]
      revert kept
      rcases database.apply operation store with ⟨failure | answer, middle⟩
      · exact fun kept => kept
      · exact ih answer

/-- What is stable survives a program that completes. -/
theorem Database.Stable.completes {fact : σ → Prop} (stable : database.Stable fact) {α : Type}
    {rest : Program Op ε α} {store after : σ} {value : α}
    (completes : database.Completes rest store value after) (holds : fact store) : fact after := by
  have kept := stable.run rest holds
  rwa [completes] at kept

/-- What is stable survives a program that fails. -/
theorem Database.Stable.throws {fact : σ → Prop} (stable : database.Stable fact) {α : Type}
    {rest : Program Op ε α} {store after : σ} {failure : ε}
    (threw : database.Throws rest store failure after) (holds : fact store) : fact after := by
  have kept := stable.run rest holds
  rwa [threw] at kept

/-- What the operations that a program is restricted to keep survives a move, and the
program stays restricted. -/
theorem Moves.kept_of_every {allowed : ∀ {ρ : Type}, Op ρ → Prop} {fact : σ → Prop}
    (keeps : ∀ {ρ : Type} (operation : Op ρ) (store : σ), allowed operation → fact store →
      fact (database.apply operation store).2 ∧
        ∀ after, database.fails operation store after → fact after)
    {store store' : σ} {process process' : Process Op ε ι}
    (moves : Moves database store process store' process')
    (every : process.program.Every allowed) (holds : fact store) :
    fact store' ∧ process'.program.Every allowed := by
  cases moves with
  | @perform _ _ _ operation _ _ _ applied =>
      have kept := (keeps operation store every.1 holds).1
      rw [applied] at kept
      exact ⟨kept, every.2 _⟩
  | @reject _ _ _ operation _ _ _ applied =>
      have kept := (keeps operation store every.1 holds).1
      rw [applied] at kept
      exact ⟨kept, trivial⟩
  | @fault _ _ _ operation _ _ failure failed =>
      exact ⟨(keeps operation store every.1 holds).2 _ failed, trivial⟩

/-- What the operations that programs are restricted to keep, also when they are
disturbed, holds in every reachable store. -/
theorem Reaches.kept_of_every {allowed : ∀ {ρ : Type}, Op ρ → Prop} {fact : σ → Prop}
    (every : ∀ job, (program job).Every allowed)
    (keeps : ∀ {ρ : Type} (operation : Op ρ) (store : σ), allowed operation → fact store →
      fact (database.apply operation store).2 ∧
        ∀ after, database.fails operation store after → fact after)
    {store : σ} (reaches : Reaches database program guard (.initial store) system)
    (holds : fact store) : fact system.store := by
  refine (Reaches.invariant (fun system => fact system.store ∧
    ∀ process ∈ system.processes, process.program.Every allowed) reaches ?_ ?_ ?_).1
  · exact ⟨holds, fun _ member => nomatch member⟩
  · rintro store processes job ⟨held, restricted⟩
    exact ⟨held, List.forall_mem_append.mpr ⟨restricted, List.forall_mem_singleton.mpr (every job)⟩⟩
  · rintro store store' before after process process' moves - ⟨held, restricted⟩
    obtain ⟨earlier, rest⟩ := List.forall_mem_append.mp restricted
    obtain ⟨here, later⟩ := List.forall_mem_cons.mp rest
    have moved := moves.kept_of_every keeps here held
    exact ⟨moved.1, List.forall_mem_append.mpr ⟨earlier, List.forall_mem_cons.mpr ⟨moved.2, later⟩⟩⟩

/-- What a job's program establishes before it can finish, and no move destroys,
holds of the store once a process of that job has finished, whatever the other
processes did meanwhile. -/
theorem Reaches.established {fact : ι → σ → Prop}
    (stable : ∀ job, database.Stable (fact job))
    (establishes : ∀ job, (program job).Establishes database (fact job))
    {store : σ} (reaches : Reaches database program guard (.initial store) system) :
    ∀ process ∈ system.processes, process.Finished → fact process.job system.store := by
  have kept : ∀ process ∈ system.processes,
      fact process.job system.store ∨
        process.program.Establishes database (fact process.job) := by
    refine Reaches.forall_processes_store (fun store process => fact process.job store ∨
      process.program.Establishes database (fact process.job)) reaches ?_ ?_ ?_ ?_
    · exact fun process member => nomatch member
    · exact fun store job => .inr (establishes job)
    · exact fun store store' _ _ other moves =>
        Or.imp_left (Database.Stable.moves (stable other.job) moves)
    · rintro store store' process process' moves - (known | pending)
      · rw [moves.job_eq]
        exact .inl (Database.Stable.moves (stable process.job) moves known)
      · cases moves with
        | perform applied => exact pending _ _ _ applied
        | reject => exact .inr trivial
        | fault => exact .inr trivial
  intro process member finished
  rcases kept process member with known | pending
  · exact known
  · rw [finished] at pending
    exact pending system.store

end Invariants

/-! ## The sequential schedule -/

namespace Database

variable (database : Database Op σ ε)

/-- The operations a program performs when it is run alone. -/
def trace {α : Type} : Program Op ε α → σ → List (Event Op)
  | .pure _, _ => []
  | .throw _, _ => []
  | .op operation next, store =>
      match database.apply operation store with
      | (.ok answer, after) => ⟨operation, answer⟩ :: trace (next answer) after
      | (.error _, _) => []

end Database

variable {database : Database Op σ ε} {program : ι → Program Op ε Unit}

private theorem reaches_of_run_from (job : ι) (rest : Program Op ε Unit) (store : σ)
    (processes : List (Process Op ε ι)) (log : List (Event Op)) :
    Reaches database program Unguarded
      ⟨store, processes ++ [⟨job, rest, log⟩]⟩
      ⟨(database.run rest store).2,
        processes ++ [⟨job, .ofExcept (database.run rest store).1,
          log ++ database.trace rest store⟩]⟩ := by
  induction rest generalizing store log with
  | pure value =>
      rw [Database.run, Database.trace, Program.ofExcept, List.append_nil]
  | throw failure =>
      rw [Database.run, Database.trace, Program.ofExcept, List.append_nil]
  | op operation next ih =>
      rw [Database.run, Database.trace]
      rcases applied : database.apply operation store with ⟨failure | answer, after⟩
      · have moved : Step database program Unguarded
            ⟨store, processes ++ ⟨job, .op operation next, log⟩ :: []⟩
            ⟨after, processes ++ ⟨job, .throw failure, log⟩ :: []⟩ :=
          .move (.reject applied) trivial
        simpa [Program.ofExcept] using Relation.ReflTransGen.single moved
      · have moved : Step database program Unguarded
            ⟨store, processes ++ ⟨job, .op operation next, log⟩ :: []⟩
            ⟨after, processes ++ ⟨job, next answer, log ++ [⟨operation, answer⟩]⟩ :: []⟩ :=
          .move (.perform applied) trivial
        refine Relation.ReflTransGen.head moved ?_
        have rest := ih answer after (log ++ [⟨operation, answer⟩])
        rwa [List.append_assoc, List.singleton_append] at rest

/-- Launching a job and running it to its end without interruption is a schedule. -/
theorem reaches_of_run (job : ι) (store : σ) (processes : List (Process Op ε ι)) :
    Reaches database program Unguarded ⟨store, processes⟩
      ⟨(database.run (program job) store).2,
        processes ++ [⟨job, .ofExcept (database.run (program job) store).1,
          database.trace (program job) store⟩]⟩ := by
  refine Relation.ReflTransGen.head (Step.launch job) ?_
  have ran : Reaches database program Unguarded _ _ :=
    reaches_of_run_from job (program job) store processes []
  simpa [Process.launch] using ran

/-- An undisturbed run to normal completion meets every guard that only objects to
processes that fail. -/
theorem reaches_of_completes {guard : σ → Process Op ε ι → Process Op ε ι → Prop}
    (lenient : ∀ store before after, ¬after.Failed → guard store before after) {job : ι}
    {store after : σ} (completes : database.Completes (program job) store () after)
    (processes : List (Process Op ε ι)) :
    Reaches database program guard ⟨store, processes⟩
      ⟨after, processes ++ [⟨job, .pure (), database.trace (program job) store⟩]⟩ := by
  have ran : ∀ (rest : Program Op ε Unit) (store : σ) (log : List (Event Op)),
      database.Completes rest store () after →
        Reaches database program guard ⟨store, processes ++ [⟨job, rest, log⟩]⟩
          ⟨after, processes ++ [⟨job, .pure (), log ++ database.trace rest store⟩]⟩ := by
    intro rest
    induction rest with
    | pure value =>
        intro store log completes
        obtain ⟨-, rfl⟩ := Database.completes_pure.mp completes
        rw [Database.trace, List.append_nil]
    | throw => exact fun _ _ completes => absurd completes Database.not_completes_throw
    | op operation next ih =>
        intro store log completes
        obtain ⟨answer, middle, applied, rest⟩ := Database.completes_op.mp completes
        have steady : ¬Process.Failed (⟨job, next answer, log ++ [⟨operation, answer⟩]⟩ :
            Process Op ε ι) := by
          rintro ⟨failure, threw⟩
          rw [show next answer = .throw failure from threw] at rest
          exact Database.not_completes_throw rest
        have moved : Step database program guard
            ⟨store, processes ++ ⟨job, .op operation next, log⟩ :: []⟩
            ⟨middle, processes ++ ⟨job, next answer, log ++ [⟨operation, answer⟩]⟩ :: []⟩ :=
          .move (.perform applied) (lenient _ _ _ steady)
        refine Relation.ReflTransGen.head moved ?_
        have later := ih answer middle (log ++ [⟨operation, answer⟩]) rest
        rw [Database.trace, applied]
        rwa [List.append_assoc, List.singleton_append] at later
  refine Relation.ReflTransGen.head (Step.launch job) ?_
  simpa [Process.launch] using ran (program job) store [] completes

/-! ## Replayed schedules -/

/-- What a scheduler does next: launch a job, or let the process at an index move. -/
inductive Choice (ι : Type) where
  | launch (job : ι)
  | move (index : ℕ)

/-- The undisturbed move of a process, if it has one. -/
def Process.advance (database : Database Op σ ε) (store : σ) (process : Process Op ε ι) :
    Option (σ × Process Op ε ι) :=
  match process.program with
  | .op operation next =>
      match database.apply operation store with
      | (.ok answer, after) =>
          some (after, ⟨process.job, next answer, process.log ++ [⟨operation, answer⟩]⟩)
      | (.error failure, after) => some (after, ⟨process.job, .throw failure, process.log⟩)
  | _ => none

/-- Follow a schedule as long as its moves are possible and `admits` holds of the store
and the process before each. -/
def play (database : Database Op σ ε) (program : ι → Program Op ε Unit)
    (admits : σ → Process Op ε ι → Bool) :
    List (Choice ι) → System Op σ ε ι → Option (System Op σ ε ι)
  | [], system => some system
  | .launch job :: rest, ⟨store, processes⟩ =>
      play database program admits rest ⟨store, processes ++ [.launch program job]⟩
  | .move index :: rest, ⟨store, processes⟩ =>
      match processes[index]? with
      | none => none
      | some process =>
          match admits store process, process.advance database store with
          | true, some (store', process') =>
              play database program admits rest ⟨store', processes.set index process'⟩
          | _, _ => none

theorem moves_of_advance {store store' : σ} {process process' : Process Op ε ι}
    (advanced : process.advance database store = some (store', process')) :
    Moves database store process store' process' := by
  rcases process with ⟨job, value | failure | ⟨operation, next⟩, log⟩
  · cases advanced
  · cases advanced
  · simp only [Process.advance] at advanced
    split at advanced
    next applied =>
      cases advanced
      exact .perform applied
    next applied =>
      cases advanced
      exact .reject applied

/-- A schedule that can be followed reaches the system at its end. -/
theorem reaches_of_play {admits : σ → Process Op ε ι → Bool}
    {guard : σ → Process Op ε ι → Process Op ε ι → Prop}
    (sound : ∀ store process process', admits store process = true → guard store process process')
    {choices : List (Choice ι)} {system final : System Op σ ε ι}
    (played : play database program admits choices system = some final) :
    Reaches database program guard system final := by
  induction choices generalizing system with
  | nil =>
      cases played
      exact .refl
  | cons choice rest ih =>
      rcases system with ⟨store, processes⟩
      cases choice with
      | launch job => exact .head (.launch job) (ih played)
      | move index =>
          rw [play] at played
          split at played
          · cases played
          next process found =>
          split at played
          next store' process' admitted advanced =>
            obtain ⟨inside, rfl⟩ := List.getElem?_eq_some_iff.mp found
            have step : Step database program guard
                ⟨store, processes.take index ++ processes[index] :: processes.drop (index + 1)⟩
                ⟨store', processes.take index ++ process' :: processes.drop (index + 1)⟩ :=
              .move (moves_of_advance advanced) (sound _ _ _ admitted)
            rw [List.cons_getElem_drop_succ, List.take_append_drop] at step
            rw [List.set_eq_take_append_cons_drop, if_pos inside] at played
            exact .head step (ih played)
          · cases played

/-! ## Jobs one at a time -/

/-- The jobs are run one after another, each undisturbed, each to normal completion,
and each from a store that `guard` admits for it. -/
inductive Sequence (database : Database Op σ ε) (program : ι → Program Op ε Unit)
    (guard : σ → ι → Prop) : σ → List ι → σ → Prop where
  | nil (store : σ) : Sequence database program guard store [] store
  | cons {store middle after : σ} {job : ι} {rest : List ι} (allowed : guard store job)
      (completes : database.Completes (program job) store () middle)
      (later : Sequence database program guard middle rest after) :
      Sequence database program guard store (job :: rest) after

/-- A property of the jobs done so far and the store, kept by every job of the
sequence, holds at its end. -/
theorem Sequence.invariant {guard : σ → ι → Prop} {start after : σ} {jobs : List ι}
    (sequence : Sequence database program guard start jobs after) (kept : List ι → σ → Prop)
    (holds : kept [] start)
    (step : ∀ (done : List ι) (job : ι) (rest : List ι) (store middle : σ),
      jobs = done ++ job :: rest → guard store job →
        database.Completes (program job) store () middle → kept done store →
          kept (done ++ [job]) middle) :
    kept jobs after := by
  have run : ∀ (rest done : List ι) (store : σ), jobs = done ++ rest → kept done store →
      Sequence database program guard store rest after → kept jobs after := by
    intro rest
    induction rest with
    | nil =>
        intro done store split held sequence
        cases sequence
        rw [split, List.append_nil]
        exact held
    | cons job rest ih =>
        intro done store split held sequence
        cases sequence with
        | cons allowed completes later =>
            exact ih (done ++ [job]) _ (by rw [split, List.append_assoc, List.singleton_append])
              (step done job rest store _ split allowed completes held) later
  exact run jobs [] start rfl holds sequence

/-- The store after jobs run one after another, if all of them complete. -/
def runAll (database : Database Op σ ε) (program : ι → Program Op ε Unit) : List ι → σ → Option σ
  | [], store => some store
  | job :: rest, store =>
      match database.run (program job) store with
      | (.ok (), after) => runAll database program rest after
      | (.error _, _) => none

theorem sequence_of_runAll {jobs : List ι} {store after : σ}
    (ran : runAll database program jobs store = some after) :
    Sequence database program (fun _ _ => True) store jobs after := by
  induction jobs generalizing store with
  | nil =>
      cases ran
      exact .nil _
  | cons job rest ih =>
      rw [runAll] at ran
      split at ran
      next middle completes => exact .cons trivial completes (ih ran)
      · cases ran

/-- Jobs that complete one after another are one schedule of the workers. -/
theorem Sequence.reaches {jobs : List ι} {store after : σ}
    (sequence : Sequence database program (fun _ _ => True) store jobs after)
    (processes : List (Process Op ε ι)) :
    ∃ processes', Reaches database program Unguarded ⟨store, processes⟩ ⟨after, processes'⟩ := by
  induction sequence generalizing processes with
  | nil => exact ⟨processes, .refl⟩
  | cons allowed completes later ih =>
      obtain ⟨processes', rest⟩ := ih (processes ++ [⟨_, .pure (), _⟩])
      exact ⟨processes', (reaches_of_completes (fun _ _ _ _ => trivial) completes processes).trans
        rest⟩

/-! ## The order of completion -/

/-- Add a process to the completed ones if it has completed. -/
def Process.record (process : Process Op ε ι) (completed : List (Process Op ε ι)) :
    List (Process Op ε ι) :=
  if process.Finished then completed ++ [process] else completed

theorem Process.record_of_finished {process : Process Op ε ι} (finished : process.Finished)
    (completed : List (Process Op ε ι)) : process.record completed = completed ++ [process] :=
  if_pos finished

theorem Process.record_of_not_finished {process : Process Op ε ι}
    (unfinished : ¬process.Finished) (completed : List (Process Op ε ι)) :
    process.record completed = completed :=
  if_neg unfinished

/-- Runs from a store, with the processes that have completed, first to last. -/
inductive Completing (database : Database Op σ ε) (program : ι → Program Op ε Unit)
    (guard : σ → Process Op ε ι → Process Op ε ι → Prop) (start : σ) :
    System Op σ ε ι → List (Process Op ε ι) → Prop where
  | initial : Completing database program guard start (.initial start) []
  | launch {store : σ} {processes completed : List (Process Op ε ι)} (job : ι)
      (earlier : Completing database program guard start ⟨store, processes⟩ completed) :
      Completing database program guard start ⟨store, processes ++ [.launch program job]⟩
        (Process.record (.launch program job) completed)
  | move {store store' : σ} {before after completed : List (Process Op ε ι)}
      {process process' : Process Op ε ι}
      (earlier : Completing database program guard start ⟨store, before ++ process :: after⟩
        completed)
      (moves : Moves database store process store' process')
      (allowed : guard store process process') :
      Completing database program guard start ⟨store', before ++ process' :: after⟩
        (process'.record completed)

section Completing

variable {guard : σ → Process Op ε ι → Process Op ε ι → Prop} {start : σ}
variable {system : System Op σ ε ι} {completed : List (Process Op ε ι)}

/-- `Reaches.invariant_of_jobs` for a property that also speaks of the completed
processes. -/
theorem Completing.invariant_of_jobs (admitted : ι → Prop)
    (kept : System Op σ ε ι → List (Process Op ε ι) → Prop)
    (run : Completing database program guard start system completed)
    (holds : kept (.initial start) [])
    (launched : ∀ store processes completed job, admitted job →
      kept ⟨store, processes⟩ completed →
        kept ⟨store, processes ++ [.launch program job]⟩
          (Process.record (.launch program job) completed))
    (moved : ∀ store store' before after completed process process', admitted process.job →
      Moves database store process store' process' → guard store process process' →
        kept ⟨store, before ++ process :: after⟩ completed →
          kept ⟨store', before ++ process' :: after⟩ (process'.record completed))
    (jobs : ∀ process ∈ system.processes, admitted process.job) : kept system completed := by
  induction run with
  | initial => exact holds
  | launch job earlier ih =>
      obtain ⟨before, last⟩ := List.forall_mem_append.mp jobs
      exact launched _ _ _ job (last _ List.mem_cons_self) (ih before)
  | move earlier moves allowed ih =>
      obtain ⟨before, rest⟩ := List.forall_mem_append.mp jobs
      obtain ⟨here, after⟩ := List.forall_mem_cons.mp rest
      rw [moves.job_eq] at here
      exact moved _ _ _ _ _ _ _ here moves allowed
        (ih (List.forall_mem_append.mpr ⟨before, List.forall_mem_cons.mpr ⟨here, after⟩⟩))

private theorem Completing.run_from {job : ι} {rest : Program Op ε Unit} {store after : σ}
    {processes : List (Process Op ε ι)} {log : List (Event Op)}
    (earlier : Completing database program Unguarded start
      ⟨store, processes ++ [⟨job, rest, log⟩]⟩ completed)
    (running : rest ≠ .pure ()) (completes : database.Completes rest store () after) :
    ∃ process : Process Op ε ι, process.job = job ∧ process.Finished ∧
      Completing database program Unguarded start ⟨after, processes ++ [process]⟩
        (completed ++ [process]) := by
  induction rest generalizing store log with
  | pure => exact absurd rfl running
  | throw => exact absurd completes Database.not_completes_throw
  | op operation next ih =>
      obtain ⟨answer, middle, applied, later⟩ := Database.completes_op.mp completes
      have moved := earlier.move (.perform applied) trivial
      by_cases last : next answer = .pure ()
      · rw [last, Database.completes_pure] at later
        obtain ⟨-, rfl⟩ := later
        have finished : Process.Finished
            ⟨job, next answer, log ++ [⟨operation, answer⟩]⟩ := last
        rw [Process.record_of_finished finished] at moved
        exact ⟨_, rfl, finished, moved⟩
      · have unfinished : ¬Process.Finished
            ⟨job, next answer, log ++ [⟨operation, answer⟩]⟩ := last
        rw [Process.record_of_not_finished unfinished] at moved
        exact ih answer moved last later

/-- A job that is launched and runs to its end alone completes last. -/
theorem Completing.run {job : ι} {store after : σ} {processes : List (Process Op ε ι)}
    (earlier : Completing database program Unguarded start ⟨store, processes⟩ completed)
    (running : program job ≠ .pure ())
    (completes : database.Completes (program job) store () after) :
    ∃ process : Process Op ε ι, process.job = job ∧ process.Finished ∧
      Completing database program Unguarded start ⟨after, processes ++ [process]⟩
        (completed ++ [process]) := by
  have launched := earlier.launch job
  have unfinished : ¬Process.Finished (.launch program job) := running
  rw [Process.record_of_not_finished unfinished] at launched
  exact launched.run_from running completes

end Completing

end Atomic

import DlmmIndexer.Library.Footprint

/-!
# Serial runs

Processes whose footprints do not meet may be interleaved in any way: the run is
indistinguishable from the jobs run one after another, in the order in which they were
launched.  The invariant is that the logs of the processes, process by process, replay
from the start to the present store (`Serial`); a move adds an event to one log in the
middle, and the event moves across the logs behind it.  When all processes have
finished, each log is the whole run of its job.
-/

namespace Atomic

variable {Op : Type → Type} {σ ε ι : Type} {α : Type}

/-- The program, given the answers of the log one after another, has come to the rest. -/
inductive Follows : Program Op ε α → List (Event Op) → Program Op ε α → Prop where
  | nil (program : Program Op ε α) : Follows program [] program
  | cons {ρ : Type} {operation : Op ρ} {next : ρ → Program Op ε α} {answer : ρ}
      {log : List (Event Op)} {rest : Program Op ε α} (later : Follows (next answer) log rest) :
      Follows (.op operation next) (⟨operation, answer⟩ :: log) rest

namespace Follows

variable {database : Database Op σ ε} {program rest : Program Op ε α} {log : List (Event Op)}

theorem snoc {ρ : Type} {operation : Op ρ} {next : ρ → Program Op ε α} {answer : ρ}
    (follows : Follows program log rest) (shape : rest = .op operation next) :
    Follows program (log ++ [⟨operation, answer⟩]) (next answer) := by
  induction follows with
  | nil program =>
      subst shape
      exact .cons (.nil _)
  | cons _ ih => exact .cons (ih shape)

/-- A log that leads to the end of the program is a whole run of it. -/
theorem completes {store after : σ} {value : α} (follows : Follows program log (.pure value))
    (replays : Replays database store log after) :
    database.Completes program store value after := by
  induction log generalizing program store with
  | nil =>
      cases follows
      cases replays
      exact Database.completes_pure.mpr ⟨rfl, rfl⟩
  | cons event rest ih =>
      cases follows with
      | cons later =>
          cases replays with
          | cons applied replays =>
              exact Database.completes_op.mpr ⟨_, _, applied, ih later replays⟩

end Follows

variable {database : Database Op σ ε} {program : ι → Program Op ε Unit}
variable {observation : Observation σ} {footprint : ι → Footprint observation.Cell}

/-- A program that performs local operations only, as long as the stores are good. -/
def Observation.contract (observation : Observation σ) (database : Database Op σ ε)
    (footprint : Footprint observation.Cell) : Contract Op σ :=
  ⟨observation.good, fun _ operation => observation.Local database footprint operation⟩

/-- What is known of one process: how its log led to the rest of its program, and that it
stays within its footprint. -/
structure Confined (observation : Observation σ) (database : Database Op σ ε)
    (program : ι → Program Op ε Unit) (footprint : ι → Footprint observation.Cell)
    (process : Process Op ε ι) : Prop where
  follows : Follows (program process.job) process.log process.program
  obeys : process.program.Obeys database (observation.contract database (footprint process.job))
    (fun _ _ => True) process.log
  logged : ∀ event ∈ process.log,
    observation.Local database (footprint process.job) event.operation

/-- The logs, process by process, replay from the start to the store. -/
structure Serial (observation : Observation σ) (database : Database Op σ ε)
    (program : ι → Program Op ε Unit) (footprint : ι → Footprint observation.Cell) (start : σ)
    (system : System Op σ ε ι) : Prop where
  good : observation.good system.store
  confined : ∀ process ∈ system.processes,
    Confined observation database program footprint process
  replayed : ∃ after, Replays database start (system.processes.flatMap Process.log) after ∧
    observation.Same system.store after

/-- The later jobs keep off the footprints of the earlier ones. -/
def PairwiseApart {κ : Type} (footprint : ι → Footprint κ) (jobs : List ι) : Prop :=
  jobs.Pairwise fun earlier later => (footprint later).Apart (footprint earlier)

namespace Serial

variable {start store store' : σ}

theorem initial (good : observation.good start) :
    Serial observation database program footprint start (.initial start) :=
  ⟨good, nofun, start, .nil start, .refl start⟩

theorem launch {processes : List (Process Op ε ι)} {job : ι}
    (isLocal : (program job).Obeys database (observation.contract database (footprint job))
      (fun _ _ => True) [])
    (serial : Serial observation database program footprint start ⟨store, processes⟩) :
    Serial observation database program footprint start
      ⟨store, processes ++ [.launch program job]⟩ where
  good := serial.good
  confined := List.forall_mem_append.mpr ⟨serial.confined,
    List.forall_mem_singleton.mpr ⟨.nil _, isLocal, nofun⟩⟩
  replayed := by
    obtain ⟨after, replays, same⟩ := serial.replayed
    refine ⟨after, ?_, same⟩
    simpa [Process.launch] using replays

/-- An operation of a process in the middle is performed before what the processes
behind it did. -/
theorem perform {before after : List (Process Op ε ι)} {job : ι} {ρ : Type} {operation : Op ρ}
    {next : ρ → Program Op ε Unit} {log : List (Event Op)} {answer : ρ}
    (apart : ∀ process ∈ after, (footprint process.job).Apart (footprint job))
    (good : observation.good start)
    (serial : Serial observation database program footprint start
      ⟨store, before ++ ⟨job, .op operation next, log⟩ :: after⟩)
    (applied : database.apply operation store = (.ok answer, store')) :
    Serial observation database program footprint start
      ⟨store', before ++ ⟨job, next answer, log ++ [⟨operation, answer⟩]⟩ :: after⟩ := by
  obtain ⟨confinedBefore, rest⟩ := List.forall_mem_append.mp serial.confined
  obtain ⟨here, confinedAfter⟩ := List.forall_mem_cons.mp rest
  have isLocal : observation.Local database (footprint job) operation := here.obeys.1
  have goodAfter := (isLocal _ _ _ serial.good applied).1
  have confined : Confined observation database program footprint
      ⟨job, next answer, log ++ [⟨operation, answer⟩]⟩ :=
    ⟨here.follows.snoc rfl, here.obeys.2 _ _ _ serial.good applied,
      List.forall_mem_append.mpr ⟨here.logged, List.forall_mem_singleton.mpr isLocal⟩⟩
  refine ⟨goodAfter, List.forall_mem_append.mpr ⟨confinedBefore,
    List.forall_mem_cons.mpr ⟨confined, confinedAfter⟩⟩, ?_⟩
  obtain ⟨final, replays, same⟩ := serial.replayed
  rw [List.flatMap_append, List.flatMap_cons, ← List.append_assoc] at replays
  obtain ⟨middle, first, second⟩ := replays.split
  have localFirst : ∀ event ∈ before.flatMap Process.log ++ log,
      ∃ footprint, observation.Local database footprint event.operation := by
    refine List.forall_mem_append.mpr ⟨fun event member => ?_, fun event member => ?_⟩
    · obtain ⟨process, listed, logged⟩ := List.mem_flatMap.mp member
      exact ⟨_, (confinedBefore process listed).logged event logged⟩
    · exact ⟨_, here.logged event member⟩
  have localSecond : ∀ event ∈ after.flatMap Process.log, ∃ other : Footprint observation.Cell,
      observation.Local database other event.operation ∧ other.Apart (footprint job) := by
    intro event member
    obtain ⟨process, listed, logged⟩ := List.mem_flatMap.mp member
    exact ⟨_, (confinedAfter process listed).logged event logged, apart process listed⟩
  have goodMiddle := first.good localFirst good
  have goodFinal : observation.good final := second.good (fun event member =>
    let ⟨other, isLocal, _⟩ := localSecond event member
    ⟨other, isLocal⟩) goodMiddle
  -- the same operation at the end of the replayed logs, and from there across the later ones
  obtain ⟨final', applied', alike⟩ := isLocal.same serial.good goodFinal same applied
  obtain ⟨middle', last, moved, later, alike'⟩ :=
    second.swap localSecond isLocal goodMiddle applied'
  refine ⟨last, ?_, alike.trans alike'⟩
  rw [List.flatMap_append, List.flatMap_cons, ← List.append_assoc, ← List.append_assoc]
  exact (first.append (.cons moved (.nil middle'))).append later

end Serial

/-- A run of processes that keep off each other's footprints, none of which has failed,
replays process by process. -/
theorem Reaches.serial {start : σ} {system : System Op σ ε ι} (good : observation.good start)
    (reaches : Reaches database program Unguarded (.initial start) system)
    (apart : PairwiseApart footprint (system.processes.map Process.job))
    (isLocal : ∀ job ∈ system.processes.map Process.job, (program job).Obeys database
      (observation.contract database (footprint job)) (fun _ _ => True) [])
    (steady : ∀ process ∈ system.processes, ¬process.Failed) :
    Serial observation database program footprint start system := by
  induction reaches with
  | refl => exact .initial good
  | tail _ step ih =>
      cases step with
      | @launch store processes job =>
          rw [List.map_append] at apart isLocal
          obtain ⟨localBefore, localHere⟩ := List.forall_mem_append.mp isLocal
          refine .launch (localHere job List.mem_cons_self) (ih ?_ localBefore ?_)
          · exact (List.pairwise_append.mp apart).1
          · exact (List.forall_mem_append.mp steady).1
      | @move store store' before after process process' moves allowed =>
          have jobs : (before ++ process' :: after).map Process.job =
              (before ++ process :: after).map Process.job := by
            rw [List.map_append, List.map_append, List.map_cons, List.map_cons, moves.job_eq]
          have running := moves.running
          obtain ⟨steadyBefore, rest⟩ := List.forall_mem_append.mp steady
          obtain ⟨steadyHere, steadyAfter⟩ := List.forall_mem_cons.mp rest
          change PairwiseApart footprint ((before ++ process' :: after).map Process.job) at apart
          rw [jobs] at apart
          have serial := ih apart (by rwa [← jobs]) (List.forall_mem_append.mpr ⟨steadyBefore,
            List.forall_mem_cons.mpr ⟨fun failed => failed.not_running running, steadyAfter⟩⟩)
          rw [PairwiseApart, List.map_append, List.map_cons, List.pairwise_append,
            List.pairwise_cons] at apart
          cases moves with
          | perform applied =>
              exact serial.perform (fun other member =>
                apart.2.1.1 _ (List.mem_map_of_mem member)) good applied
          | reject => exact absurd ⟨_, rfl⟩ steadyHere
          | fault => exact absurd ⟨_, rfl⟩ steadyHere

/-- The logs of finished processes replay as whole runs of the jobs. -/
theorem Replays.sequence {start last : σ} {processes : List (Process Op ε ι)}
    (replays : Replays database start (processes.flatMap Process.log) last)
    (confined : ∀ process ∈ processes,
      Confined observation database program footprint process)
    (finished : ∀ process ∈ processes, process.Finished) :
    Sequence database program (fun _ _ => True) start (processes.map Process.job) last := by
  induction processes generalizing start with
  | nil =>
      cases replays
      exact .nil _
  | cons process rest ih =>
      obtain ⟨here, later⟩ := List.forall_mem_cons.mp confined
      obtain ⟨ended, others⟩ := List.forall_mem_cons.mp finished
      rw [List.flatMap_cons] at replays
      obtain ⟨middle, first, second⟩ := replays.split
      have follows := here.follows
      rw [show process.program = .pure () from ended] at follows
      exact .cons trivial (follows.completes first) (ih second later others)

/-- When all processes have finished, the jobs can be run one after another instead, in
any order. -/
theorem Serial.sequence {start : σ} {system : System Op σ ε ι}
    (serial : Serial observation database program footprint start system)
    (good : observation.good start)
    (apart : PairwiseApart footprint (system.processes.map Process.job))
    (finished : ∀ process ∈ system.processes, process.Finished)
    {order : List (Process Op ε ι)} (reordered : system.processes.Perm order) :
    ∃ last, Sequence database program (fun _ _ => True) start (order.map Process.job) last ∧
      observation.Same system.store last := by
  obtain ⟨last, replays, same⟩ := serial.replayed
  obtain ⟨last', replays', same'⟩ := replays.perm reordered
    ((List.pairwise_map.mp apart).imp fun met => met.symm)
    (fun process listed => (serial.confined process listed).logged) good
  exact ⟨last', replays'.sequence
    (fun process listed => serial.confined process (reordered.mem_iff.mpr listed))
    (fun process listed => finished process (reordered.mem_iff.mpr listed)), same.trans same'⟩

end Atomic

import DlmmIndexer.Library.Schedule
import Mathlib.Data.List.Perm.Basic

/-!
# Processes that leave no trace

Some processes are idle: they have come some way without changing the store, and
whenever one of them does change it, it could as well have been launched just before.
A run can do without the processes that are idle at its end: another run, of the
others alone, reaches the same store with the same processes.
-/

namespace Atomic

variable {Op : Type → Type} {σ ε ι : Type}
variable {database : Database Op σ ε} {program : ι → Program Op ε Unit}

/-- The system is reached without the idle processes, which may change the order in
which the others were launched. -/
def ReachedWithout (database : Database Op σ ε) (program : ι → Program Op ε Unit)
    (idle : Process Op ε ι → Prop) [DecidablePred idle] (start : σ) (system : System Op σ ε ι) :
    Prop :=
  ∃ processes, processes.Perm (system.processes.filter fun process => ¬idle process) ∧
    Reaches database program Unguarded (.initial start) ⟨system.store, processes⟩

section

variable {idle : Process Op ε ι → Prop} [DecidablePred idle] {start : σ}

theorem ReachedWithout.initial : ReachedWithout database program idle start (.initial start) :=
  ⟨[], .refl _, .refl⟩

theorem ReachedWithout.launch {store : σ} {processes : List (Process Op ε ι)} (job : ι)
    (reached : ReachedWithout database program idle start ⟨store, processes⟩) :
    ReachedWithout database program idle start ⟨store, processes ++ [.launch program job]⟩ := by
  obtain ⟨others, same, reaches⟩ := reached
  by_cases asleep : idle (.launch program job)
  · refine ⟨others, ?_, reaches⟩
    simpa [asleep] using same
  · refine ⟨others ++ [.launch program job], ?_, reaches.tail (.launch job)⟩
    simpa [asleep] using same.append_right _

/-- A process that is awake moves in the run of the others as it does in the whole one. -/
theorem ReachedWithout.move {store store' : σ} {before after : List (Process Op ε ι)}
    {process process' : Process Op ε ι} (moves : Moves database store process store' process')
    (awake : ¬idle process) (awake' : ¬idle process')
    (reached : ReachedWithout database program idle start ⟨store, before ++ process :: after⟩) :
    ReachedWithout database program idle start ⟨store', before ++ process' :: after⟩ := by
  obtain ⟨others, same, reaches⟩ := reached
  simp only [List.filter_append, List.filter_cons, awake, not_false_eq_true, decide_true,
    if_true] at same
  obtain ⟨earlier, later, rfl⟩ := List.append_of_mem
    (same.mem_iff.mpr (List.mem_append_right _ List.mem_cons_self))
  refine ⟨earlier ++ process' :: later, ?_, reaches.tail (.move moves trivial)⟩
  simp only [List.filter_append, List.filter_cons, awake', not_false_eq_true, decide_true,
    if_true]
  have rest := (List.perm_middle.symm.trans (same.trans List.perm_middle)).cons_inv
  exact List.perm_middle.trans ((rest.cons _).trans List.perm_middle.symm)

/-- A move that nobody notices. -/
theorem ReachedWithout.sleep {store : σ} {before after : List (Process Op ε ι)}
    {process process' : Process Op ε ι} (asleep : idle process) (asleep' : idle process')
    (reached : ReachedWithout database program idle start ⟨store, before ++ process :: after⟩) :
    ReachedWithout database program idle start ⟨store, before ++ process' :: after⟩ := by
  obtain ⟨others, same, reaches⟩ := reached
  refine ⟨others, ?_, reaches⟩
  simpa [List.filter_append, List.filter_cons, asleep, asleep'] using same

/-- A process that wakes up is launched only now. -/
theorem ReachedWithout.wake {store store' : σ} {before after : List (Process Op ε ι)}
    {process process' : Process Op ε ι} (asleep : idle process) (awake : ¬idle process')
    (again : ∀ processes, Reaches database program Unguarded ⟨store, processes⟩
      ⟨store, processes ++ [process]⟩)
    (moves : Moves database store process store' process')
    (reached : ReachedWithout database program idle start ⟨store, before ++ process :: after⟩) :
    ReachedWithout database program idle start ⟨store', before ++ process' :: after⟩ := by
  obtain ⟨others, same, reaches⟩ := reached
  refine ⟨others ++ [process'], ?_, (reaches.trans (again others)).tail (.move moves trivial)⟩
  simp only [List.filter_append, List.filter_cons, asleep, awake, not_true_eq_false,
    not_false_eq_true, decide_false, decide_true, Bool.false_eq_true, if_false, if_true] at same ⊢
  exact (List.perm_append_singleton _ _).trans ((same.cons _).trans List.perm_middle.symm)

end

/-- A run can do without its idle processes.  `known` is what is known of every process
along the run; a process that is awake stays so, one that stays idle leaves the store
alone, and one that wakes up could have been launched right before. -/
theorem Reaches.erase (idle known : Process Op ε ι → Prop) [DecidablePred idle]
    {start : σ} {system : System Op σ ε ι}
    (reaches : Reaches database program Unguarded (.initial start) system)
    (launched : ∀ job, known (.launch program job))
    (moved : ∀ store store' process process', Moves database store process store' process' →
      known process → known process')
    (stays : ∀ store store' process process', Moves database store process store' process' →
      ¬idle process → ¬idle process')
    (quiet : ∀ store store' process process', Moves database store process store' process' →
      known process → idle process → idle process' → store' = store)
    (wakes : ∀ store store' process process', Moves database store process store' process' →
      known process → idle process → ¬idle process' → ∀ processes,
        Reaches database program Unguarded ⟨store, processes⟩ ⟨store, processes ++ [process]⟩) :
    ReachedWithout database program idle start system := by
  refine (Reaches.invariant (fun system => (∀ process ∈ system.processes, known process) ∧
    ReachedWithout database program idle start system) reaches ?_ ?_ ?_).2
  · exact ⟨nofun, .initial⟩
  · rintro store processes job ⟨all, reached⟩
    exact ⟨List.forall_mem_append.mpr ⟨all, List.forall_mem_singleton.mpr (launched job)⟩,
      reached.launch job⟩
  · rintro store store' before after process process' moves - ⟨all, reached⟩
    obtain ⟨earlier, rest⟩ := List.forall_mem_append.mp all
    obtain ⟨here, later⟩ := List.forall_mem_cons.mp rest
    refine ⟨List.forall_mem_append.mpr ⟨earlier,
      List.forall_mem_cons.mpr ⟨moved _ _ _ _ moves here, later⟩⟩, ?_⟩
    by_cases asleep : idle process
    · by_cases asleep' : idle process'
      · obtain rfl := quiet _ _ _ _ moves here asleep asleep'
        exact reached.sleep asleep asleep'
      · exact reached.wake asleep asleep' (wakes _ _ _ _ moves here asleep asleep') moves
    · exact reached.move moves asleep (stays _ _ _ _ moves asleep)

end Atomic

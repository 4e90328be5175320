import Mathlib.Data.List.Count
import Mathlib.Logic.Relation

/-!
# Calls on an event loop

Asynchronous calls share a state and run one at a time.  A call runs until it awaits
something; it goes on, when that has come, from the state that others have left.  What
a call does between two awaits is one turn, and turns of different calls alternate in any
order.

A flag that calls test and set within one turn is a lock (`Lock`): whatever the order of
the turns, no two calls hold it at a time.
-/

namespace EventLoop

universe u v

variable {σ : Type u} {τ : Type v}

/-- A turn leads from a state, and the call that goes on, to a state and the same call where
it awaits next.  A call that begins has no place before its first turn, and one that returns
has none after its last; a turn without a call is one of the world outside. -/
abbrev Turns (σ : Type u) (τ : Type v) : Type (max u v) := σ → Option τ → σ → Option τ → Prop

/-- The state, and the calls that await something. -/
structure Loop (σ : Type u) (τ : Type v) where
  state : σ
  awaiting : List τ

/-- The loop with nothing going on. -/
def Loop.idle (state : σ) : Loop σ τ := ⟨state, []⟩

inductive Step (turns : Turns σ τ) : Loop σ τ → Loop σ τ → Prop where
  | turn {state state' : σ} {task task' : Option τ} (before after : List τ)
      (turned : turns state task state' task') :
      Step turns ⟨state, before ++ task.toList ++ after⟩
        ⟨state', before ++ task'.toList ++ after⟩

/-- The loops that turns lead to. -/
abbrev Reaches (turns : Turns σ τ) : Loop σ τ → Loop σ τ → Prop :=
  Relation.ReflTransGen (Step turns)

variable {turns : Turns σ τ} {start loop : Loop σ τ}

/-- A property that holds at the start and survives every turn holds in every loop that
is reached. -/
theorem Reaches.invariant (kept : Loop σ τ → Prop) (reaches : Reaches turns start loop)
    (holds : kept start)
    (turned : ∀ state task state' task' before after, turns state task state' task' →
      kept ⟨state, before ++ task.toList ++ after⟩ →
        kept ⟨state', before ++ task'.toList ++ after⟩) : kept loop := by
  induction reaches with
  | refl => exact holds
  | tail _ step ih =>
      cases step with
      | turn before after moved => exact turned _ _ _ _ before after moved ih

theorem Reaches.of_turns {more : Turns σ τ} (reaches : Reaches turns start loop)
    (included : ∀ state task state' task', turns state task state' task' →
      more state task state' task') : Reaches more start loop := by
  refine Relation.ReflTransGen.mono (fun _ _ step => ?_) _ _ reaches
  cases step with
  | turn before after turned => exact .turn before after (included _ _ _ _ turned)

theorem forall_mem_awaiting {before after : List τ} {task : Option τ} {kept : τ → Prop} :
    (∀ other ∈ before ++ task.toList ++ after, kept other) ↔
      (∀ other ∈ before ++ after, kept other) ∧ ∀ other ∈ task, kept other := by
  cases task with
  | none => simp
  | some task =>
      simp only [Option.toList, List.append_assoc, List.singleton_append, List.mem_append,
        List.mem_cons, Option.mem_def, Option.some_inj]
      constructor
      · exact fun all => ⟨fun other member => all other (member.imp id .inr),
          fun _ same => same ▸ all task (.inr (.inl rfl))⟩
      · rintro ⟨others, here⟩ other (old | rfl | new)
        · exact others other (.inl old)
        · exact here other rfl
        · exact others other (.inr new)

/-! ## Locks -/

/-- A turn leaves a lock alone, takes it while it is free, or gives it back. -/
inductive LockMove (held : σ → Bool) (holds : τ → Bool) (state : σ) (task : Option τ) (state' : σ)
    (task' : Option τ) : Prop where
  | kept (flag : held state' = held state) (call : task'.any holds = task.any holds)
  | taken (free : held state = false) (flag : held state' = true) (fresh : task.any holds = false)
      (call : task'.any holds = true)
  | given (flag : held state' = false) (old : task.any holds = true)
      (call : task'.any holds = false)

structure Lock (turns : Turns σ τ) where
  /-- the flag -/
  held : σ → Bool
  /-- the calls between taking the lock and giving it back -/
  holds : τ → Bool
  moves : ∀ {state task state' task'}, turns state task state' task' →
    LockMove held holds state task state' task'

namespace Lock

variable (lock : Lock turns)

/-- The flag counts the calls that hold the lock. -/
def Counts (loop : Loop σ τ) : Prop :=
  loop.awaiting.countP lock.holds = if lock.held loop.state then 1 else 0

variable {lock}

theorem countP_toList (task : Option τ) :
    task.toList.countP lock.holds = if task.any lock.holds then 1 else 0 := by
  cases task with
  | none => rfl
  | some task => exact List.countP_singleton

/-- The lock is never held twice, and the flag tells whether it is held. -/
theorem counts (reaches : Reaches turns start loop) (free : lock.Counts start) :
    lock.Counts loop := by
  refine reaches.invariant lock.Counts free ?_
  intro state task state' task' before after turned kept
  have kept : (before ++ task.toList ++ after).countP lock.holds =
      if lock.held state then 1 else 0 := kept
  change (before ++ task'.toList ++ after).countP lock.holds =
    if lock.held state' then 1 else 0
  rw [List.countP_append, List.countP_append, countP_toList] at kept ⊢
  cases lock.moves turned with
  | kept flag call => rw [flag, call, kept]
  | taken free flag fresh call =>
      rw [free, fresh] at kept
      rw [flag, call]
      simp only [Bool.false_eq_true, if_false, if_true] at kept ⊢
      omega
  | given flag old call =>
      rw [old] at kept
      rw [flag, call]
      simp only [Bool.false_eq_true, if_false, if_true] at kept ⊢
      split at kept <;> omega

/-- Next to a call that holds the lock no other one does. -/
theorem alone {state : σ} {before after : List τ} {task : τ}
    (counts : lock.Counts ⟨state, before ++ (some task).toList ++ after⟩)
    (holds : lock.holds task = true) : ∀ other ∈ before ++ after, lock.holds other = false := by
  have counts : (before ++ (some task).toList ++ after).countP lock.holds =
      if lock.held state then 1 else 0 := counts
  rw [List.countP_append, List.countP_append, countP_toList, Option.any_some, holds,
    if_pos rfl] at counts
  have none : (before ++ after).countP lock.holds = 0 := by
    rw [List.countP_append]
    split at counts <;> omega
  intro other member
  exact Bool.eq_false_iff.mpr (List.countP_eq_zero.mp none other member)

/-- While the flag is not set no call holds the lock. -/
theorem none_holds (counts : lock.Counts loop) (free : lock.held loop.state = false) :
    ∀ task ∈ loop.awaiting, lock.holds task = false := by
  rw [Counts, free] at counts
  exact fun task member => Bool.eq_false_iff.mpr (List.countP_eq_zero.mp counts task member)

end Lock

end EventLoop

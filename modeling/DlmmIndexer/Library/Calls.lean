import DlmmIndexer.Library.Schedule

/-!
# Interleaved calls

Any number of calls of one function run at once on a shared store.  Unlike the
processes of `Schedule`, a call ends with an answer.
-/

namespace Atomic

variable {Op : Type → Type} {σ ε ι α : Type}

/-- The argument of a call and what is left of its program. -/
structure Call (Op : Type → Type) (ε ι α : Type) : Type 1 where
  argument : ι
  program : Program Op ε α

namespace Call

/-- The call has returned a value. -/
def Returned (call : Call Op ε ι α) (value : α) : Prop := call.program = .pure value

/-- The call has thrown. -/
def Threw (call : Call Op ε ι α) : Prop := ∃ failure, call.program = .throw failure

/-- The call has returned or thrown. -/
def Ended (call : Call Op ε ι α) : Prop := (∃ value, call.Returned value) ∨ call.Threw

/-- One operation of a call, which is answered, rejected or disturbed. -/
inductive Moves (database : Database Op σ ε) : σ → Call Op ε ι α → σ → Call Op ε ι α → Prop where
  | perform {store after : σ} {argument : ι} {ρ : Type} {operation : Op ρ}
      {next : ρ → Program Op ε α} {answer : ρ}
      (applied : database.apply operation store = (.ok answer, after)) :
      Moves database store ⟨argument, .op operation next⟩ after ⟨argument, next answer⟩
  | reject {store after : σ} {argument : ι} {ρ : Type} {operation : Op ρ}
      {next : ρ → Program Op ε α} {failure : ε}
      (applied : database.apply operation store = (.error failure, after)) :
      Moves database store ⟨argument, .op operation next⟩ after ⟨argument, .throw failure⟩
  | fault {store after : σ} {argument : ι} {ρ : Type} {operation : Op ρ}
      {next : ρ → Program Op ε α} (failure : ε) (failed : database.fails operation store after) :
      Moves database store ⟨argument, .op operation next⟩ after ⟨argument, .throw failure⟩

end Call

/-- A store and the calls begun so far. -/
structure Calls (Op : Type → Type) (σ ε ι α : Type) : Type 1 where
  store : σ
  calls : List (Call Op ε ι α)

namespace Calls

/-- A call is begun, or some call makes a move. -/
inductive Step (database : Database Op σ ε) (function : ι → Program Op ε α) :
    Calls Op σ ε ι α → Calls Op σ ε ι α → Prop where
  | begin {store : σ} {calls : List (Call Op ε ι α)} (argument : ι) :
      Step database function ⟨store, calls⟩ ⟨store, calls ++ [⟨argument, function argument⟩]⟩
  | move {store store' : σ} {before after : List (Call Op ε ι α)} {call call' : Call Op ε ι α}
      (moves : Call.Moves database store call store' call') :
      Step database function ⟨store, before ++ call :: after⟩ ⟨store', before ++ call' :: after⟩

/-- The states that steps reach. -/
abbrev Reaches (database : Database Op σ ε) (function : ι → Program Op ε α) :
    Calls Op σ ε ι α → Calls Op σ ε ι α → Prop :=
  Relation.ReflTransGen (Step database function)

section Invariants

variable {database : Database Op σ ε} {function : ι → Program Op ε α}
variable {start system : Calls Op σ ε ι α}

/-- What holds at the start and survives every step holds in every reachable state. -/
theorem Reaches.invariant (kept : Calls Op σ ε ι α → Prop)
    (reaches : Reaches database function start system) (holds : kept start)
    (begun : ∀ store calls argument, kept ⟨store, calls⟩ →
      kept ⟨store, calls ++ [⟨argument, function argument⟩]⟩)
    (moved : ∀ store store' before after call call', Call.Moves database store call store' call' →
      kept ⟨store, before ++ call :: after⟩ → kept ⟨store', before ++ call' :: after⟩) :
    kept system := by
  induction reaches with
  | refl => exact holds
  | tail _ step ih =>
      cases step with
      | begin argument => exact begun _ _ argument ih
      | move moves => exact moved _ _ _ _ _ _ moves ih

/-- What no operation destroys stays. -/
theorem Reaches.stable {fact : σ → Prop} (stable : database.Stable fact)
    (reaches : Reaches database function start system) (holds : fact start.store) :
    fact system.store := by
  refine Reaches.invariant (fun system => fact system.store) reaches holds
    (fun _ _ _ held => held) fun store store' _ _ call call' moves held => ?_
  cases moves with
  | @perform _ _ _ operation _ _ applied | @reject _ _ _ operation _ _ applied =>
      have kept := (stable operation store held).1
      rwa [applied] at kept
  | fault failure failed => exact (stable _ store held).2 _ failed

end Invariants

end Calls

end Atomic

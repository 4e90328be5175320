import Mathlib.Logic.Basic

/-!
# Programs over an atomic store

A program performs operations one after another on a shared store and computes
with their answers.  Every operation is atomic; between two operations the store
may change under the program.  The operations are a family `Op` indexed by the
type of their answers, and a `Database` says what each one does.

This module has the sequential reading: `run` performs a program without
interruption and `Completes` is its normal completion, which inverts through
`bind`.  `Schedule` adds failures and interleaving.
-/

namespace Atomic

variable {Op : Type → Type} {σ ε α β γ : Type}

/-- Programs whose steps are operations of `Op` and whose failures are `ε`. -/
inductive Program (Op : Type → Type) (ε α : Type) : Type 1 where
  | pure (value : α)
  | throw (failure : ε)
  | op {ρ : Type} (operation : Op ρ) (next : ρ → Program Op ε α)

namespace Program

/-- Continue a program with another one that depends on its value. -/
def bind : Program Op ε α → (α → Program Op ε β) → Program Op ε β
  | .pure value, rest => rest value
  | .throw failure, _ => .throw failure
  | .op operation next, rest => .op operation fun answer => (next answer).bind rest

instance : Monad (Program Op ε) where
  pure := .pure
  bind := .bind

@[simp] theorem op_bind {ρ : Type} (operation : Op ρ) (next : ρ → Program Op ε α)
    (rest : α → Program Op ε β) :
    (Program.op operation next >>= rest) = .op operation fun answer => next answer >>= rest :=
  rfl

/-- The program of a single operation. -/
def perform {ρ : Type} (operation : Op ρ) : Program Op ε ρ := .op operation .pure

/-- Give the value of a computation without operations, or its failure. -/
def ofExcept : Except ε α → Program Op ε α
  | .ok value => .pure value
  | .error failure => .throw failure

end Program

/-- What operations do.  `apply` is an undisturbed operation: it answers or
rejects.  `fails` relates a store to the ones a disturbed operation can leave
behind. -/
structure Database (Op : Type → Type) (σ ε : Type) where
  apply : {ρ : Type} → Op ρ → σ → Except ε ρ × σ
  fails : {ρ : Type} → Op ρ → σ → σ → Prop

/-! ## Undisturbed runs -/

namespace Database

variable (database : Database Op σ ε)

/-- Perform a program from a store, alone and undisturbed. -/
def run : Program Op ε α → σ → Except ε α × σ
  | .pure value, store => (.ok value, store)
  | .throw failure, store => (.error failure, store)
  | .op operation next, store =>
      match database.apply operation store with
      | (.ok answer, after) => run (next answer) after
      | (.error failure, after) => (.error failure, after)

theorem run_bind (program : Program Op ε α) (rest : α → Program Op ε β) (store : σ) :
    database.run (program >>= rest) store =
      match database.run program store with
      | (.ok value, after) => database.run (rest value) after
      | (.error failure, after) => (.error failure, after) := by
  induction program generalizing store with
  | pure => rfl
  | throw => rfl
  | op operation next ih =>
      simp only [Program.op_bind, run]
      rcases database.apply operation store with ⟨failure | answer, after⟩
      · rfl
      · exact ih answer after

/-- The program, run alone from `store`, returns `value` and leaves `after`. -/
def Completes (program : Program Op ε α) (store : σ) (value : α) (after : σ) : Prop :=
  database.run program store = (.ok value, after)

variable {database} {store after : σ}

/-- A run that answers completes, in the store it leaves. -/
theorem completes_of_run {program : Program Op ε α} {value : α}
    (answered : (database.run program store).1 = .ok value) :
    database.Completes program store value (database.run program store).2 :=
  Prod.ext answered rfl

theorem completes_pure {value result : α} :
    database.Completes (.pure value) store result after ↔ result = value ∧ after = store := by
  simp [Completes, run, eq_comm]

theorem completes_return {value result : α} :
    database.Completes (pure value) store result after ↔ result = value ∧ after = store :=
  completes_pure

theorem not_completes_throw {failure : ε} {result : α} :
    ¬database.Completes (.throw failure) store result after := by
  simp [Completes, run]

theorem completes_op {ρ : Type} {operation : Op ρ} {next : ρ → Program Op ε α} {result : α} :
    database.Completes (.op operation next) store result after ↔
      ∃ answer middle, database.apply operation store = (.ok answer, middle) ∧
        database.Completes (next answer) middle result after := by
  rw [Completes, run]
  rcases database.apply operation store with ⟨failure | answer, middle⟩
  · simp
  · constructor
    · intro finished
      exact ⟨answer, middle, rfl, finished⟩
    · rintro ⟨_, _, ⟨⟩, finished⟩
      exact finished

theorem completes_perform {ρ : Type} {operation : Op ρ} {answer : ρ} :
    database.Completes (.perform operation) store answer after ↔
      database.apply operation store = (.ok answer, after) := by
  rw [Program.perform, completes_op]
  constructor
  · rintro ⟨answer, middle, applied, finished⟩
    obtain ⟨rfl, rfl⟩ := completes_pure.mp finished
    exact applied
  · intro applied
    exact ⟨answer, after, applied, completes_pure.mpr ⟨rfl, rfl⟩⟩

theorem completes_bind {program : Program Op ε α} {rest : α → Program Op ε β} {result : β} :
    database.Completes (program >>= rest) store result after ↔
      ∃ value middle, database.Completes program store value middle ∧
        database.Completes (rest value) middle result after := by
  unfold Completes
  rw [run_bind]
  rcases database.run program store with ⟨failure | value, middle⟩
  · simp
  · constructor
    · intro finished
      exact ⟨value, middle, rfl, finished⟩
    · rintro ⟨_, _, ⟨⟩, finished⟩
      exact finished

theorem completes_ofExcept {outcome : Except ε α} {result : α} :
    database.Completes (.ofExcept outcome) store result after ↔
      outcome = .ok result ∧ after = store := by
  cases outcome with
  | ok value => rw [Program.ofExcept, completes_pure, Except.ok.injEq, eq_comm (a := value)]
  | error failure => simp [Program.ofExcept, not_completes_throw]

/-- An outcome that is awaited first reads and writes nothing. -/
theorem completes_ofExcept_bind {outcome : Except ε α} {rest : α → Program Op ε β} {result : β} :
    database.Completes (.ofExcept outcome >>= rest) store result after ↔
      ∃ value, outcome = .ok value ∧ database.Completes (rest value) store result after := by
  rw [completes_bind]
  constructor
  · rintro ⟨value, middle, awaited, finished⟩
    obtain ⟨same, rfl⟩ := completes_ofExcept.mp awaited
    exact ⟨value, same, finished⟩
  · rintro ⟨value, same, finished⟩
    exact ⟨value, store, completes_ofExcept.mpr ⟨same, rfl⟩, finished⟩

/-! ### Failing runs -/

variable (database) in
/-- The program, run alone from `store`, throws `failure` and leaves `after`. -/
def Throws (program : Program Op ε α) (store : σ) (failure : ε) (after : σ) : Prop :=
  database.run program store = (.error failure, after)

/-- A run that is answered with a failure throws it, in the store it leaves. -/
theorem throws_of_run {program : Program Op ε α} {failure : ε}
    (answered : (database.run program store).1 = .error failure) :
    database.Throws program store failure (database.run program store).2 :=
  Prod.ext answered rfl

theorem not_throws_pure {value : α} {failure : ε} :
    ¬database.Throws (.pure value) store failure after := by
  simp [Throws, run]

theorem not_throws_return {value : α} {failure : ε} :
    ¬database.Throws (pure value) store failure after :=
  not_throws_pure

theorem throws_throw {failure thrown : ε} :
    database.Throws (.throw failure : Program Op ε α) store thrown after ↔
      thrown = failure ∧ after = store := by
  simp [Throws, run, eq_comm]

theorem throws_perform {ρ : Type} {operation : Op ρ} {failure : ε} :
    database.Throws (.perform operation) store failure after ↔
      database.apply operation store = (.error failure, after) := by
  rw [Program.perform, Throws, run]
  rcases database.apply operation store with ⟨thrown | answer, middle⟩
  · exact Iff.rfl
  · simp [run]

/-- A program followed by another fails in the first or, past it, in the second. -/
theorem throws_bind {program : Program Op ε α} {rest : α → Program Op ε β} {failure : ε} :
    database.Throws (program >>= rest) store failure after ↔
      database.Throws program store failure after ∨
        ∃ value middle, database.Completes program store value middle ∧
          database.Throws (rest value) middle failure after := by
  unfold Throws Completes
  rw [run_bind]
  rcases database.run program store with ⟨thrown | value, middle⟩
  · simp
  · constructor
    · intro failed
      exact .inr ⟨value, middle, rfl, failed⟩
    · rintro (⟨⟨⟩⟩ | ⟨_, _, ⟨⟩, failed⟩)
      exact failed

theorem throws_ofExcept {outcome : Except ε α} {failure : ε} :
    database.Throws (.ofExcept outcome) store failure after ↔
      outcome = .error failure ∧ after = store := by
  cases outcome with
  | ok value => simp [Program.ofExcept, not_throws_pure]
  | error thrown => rw [Program.ofExcept, throws_throw, Except.error.injEq, eq_comm]

/-! ### Attempts -/

variable (database) in
/-- The program, run alone from a store, stops before its end: it throws, or an operation
is rejected or disturbed. -/
inductive Stops : Program Op ε α → σ → σ → Prop where
  | throw {failure : ε} {store : σ} : Stops (.throw failure) store store
  | reject {ρ : Type} {operation : Op ρ} {next : ρ → Program Op ε α} {failure : ε}
      {store after : σ} (applied : database.apply operation store = (.error failure, after)) :
      Stops (.op operation next) store after
  | fault {ρ : Type} {operation : Op ρ} {next : ρ → Program Op ε α} {store after : σ}
      (failed : database.fails operation store after) : Stops (.op operation next) store after
  | later {ρ : Type} {operation : Op ρ} {next : ρ → Program Op ε α} {answer : ρ}
      {store middle after : σ} (applied : database.apply operation store = (.ok answer, middle))
      (stops : Stops (next answer) middle after) : Stops (.op operation next) store after

theorem not_stops_return {value : α} : ¬database.Stops (pure value) store after := nofun

theorem stops_perform {ρ : Type} {operation : Op ρ} :
    database.Stops (.perform operation) store after ↔
      (∃ failure, database.apply operation store = (.error failure, after)) ∨
        database.fails operation store after := by
  constructor
  · intro stops
    cases stops with
    | reject applied => exact .inl ⟨_, applied⟩
    | fault failed => exact .inr failed
    | later applied stops => exact absurd stops not_stops_return
  · rintro (⟨failure, applied⟩ | failed)
    · exact .reject applied
    · exact .fault failed

/-- A run that throws has stopped. -/
theorem Throws.stops {program : Program Op ε α} {failure : ε}
    (threw : database.Throws program store failure after) : database.Stops program store after := by
  induction program generalizing store with
  | pure value => exact absurd threw not_throws_pure
  | throw thrown =>
      obtain ⟨-, rfl⟩ := throws_throw.mp threw
      exact .throw
  | op operation next ih =>
      rw [Throws, run] at threw
      rcases applied : database.apply operation store with ⟨thrown | answer, middle⟩
      · rw [applied] at threw
        cases threw
        exact .reject applied
      · rw [applied] at threw
        exact .later applied (ih answer threw)

/-- A program followed by another stops in the first or, past it, in the second. -/
theorem stops_bind {program : Program Op ε α} {rest : α → Program Op ε β} :
    database.Stops (program >>= rest) store after ↔
      database.Stops program store after ∨
        ∃ value middle, database.Completes program store value middle ∧
          database.Stops (rest value) middle after := by
  induction program generalizing store with
  | pure value =>
      refine ⟨fun stops => .inr ⟨value, store, rfl, stops⟩, ?_⟩
      rintro (stops | ⟨_, _, finished, stops⟩)
      · exact absurd stops not_stops_return
      · obtain ⟨rfl, rfl⟩ := completes_pure.mp finished
        exact stops
  | throw failure =>
      refine ⟨fun stops => .inl ?_, ?_⟩
      · cases stops
        exact .throw
      · rintro (stops | ⟨_, _, finished, -⟩)
        · cases stops
          exact .throw
        · exact absurd finished not_completes_throw
  | op operation next ih =>
      rw [Program.op_bind]
      constructor
      · intro stops
        cases stops with
        | reject applied => exact .inl (.reject applied)
        | fault failed => exact .inl (.fault failed)
        | later applied stops =>
            rcases (ih _).mp stops with first | ⟨value, middle, finished, second⟩
            · exact .inl (.later applied first)
            · exact .inr ⟨value, middle, completes_op.mpr ⟨_, _, applied, finished⟩, second⟩
      · rintro (stops | ⟨value, middle, finished, second⟩)
        · cases stops with
          | reject applied => exact .reject applied
          | fault failed => exact .fault failed
          | later applied stops => exact .later applied ((ih _).mpr (.inl stops))
        · obtain ⟨answer, first, applied, finished⟩ := completes_op.mp finished
          exact .later applied ((ih _).mpr (.inr ⟨value, middle, finished, second⟩))

/-- An outcome that is awaited stops on its failure only. -/
theorem stops_ofExcept {outcome : Except ε α} :
    database.Stops (.ofExcept outcome) store after ↔
      (∃ failure, outcome = .error failure) ∧ after = store := by
  cases outcome with
  | ok value => exact iff_of_false not_stops_return fun failed => nomatch failed.1
  | error failure =>
      constructor
      · intro stops
        cases stops
        exact ⟨⟨failure, rfl⟩, rfl⟩
      · rintro ⟨-, rfl⟩
        exact .throw

variable (database) in
/-- Every operation that the program performs, run alone and undisturbed from a store, is
`allowed`. -/
def Performs (allowed : ∀ {ρ : Type}, Op ρ → Prop) : Program Op ε α → σ → Prop
  | .pure _, _ => True
  | .throw _, _ => True
  | .op operation next, store => allowed operation ∧
      ∀ answer after, database.apply operation store = (.ok answer, after) →
        Performs allowed (next answer) after

end Database

/-! ## Programs restricted to some operations -/

/-- Every operation the program can reach, whatever the answers, is `allowed`. -/
def Program.Every (allowed : ∀ {ρ : Type}, Op ρ → Prop) : Program Op ε α → Prop
  | .pure _ => True
  | .throw _ => True
  | .op operation next => allowed operation ∧ ∀ answer, (next answer).Every allowed

namespace Program

variable {allowed : ∀ {ρ : Type}, Op ρ → Prop}

@[simp] theorem every_pure (value : α) :
    (Program.pure value : Program Op ε α).Every allowed := trivial

@[simp] theorem every_return (value : α) :
    (pure value : Program Op ε α).Every allowed := trivial

@[simp] theorem every_throw (failure : ε) :
    (Program.throw failure : Program Op ε α).Every allowed := trivial

@[simp] theorem every_ofExcept (outcome : Except ε α) :
    (ofExcept outcome : Program Op ε α).Every allowed := by
  cases outcome <;> trivial

theorem every_perform {ρ : Type} {operation : Op ρ} (holds : allowed operation) :
    (perform operation : Program Op ε ρ).Every allowed :=
  ⟨holds, fun _ => trivial⟩

theorem Every.bind {program : Program Op ε α} {rest : α → Program Op ε β}
    (first : program.Every allowed) (second : ∀ value, (rest value).Every allowed) :
    (program >>= rest).Every allowed := by
  induction program with
  | pure value => exact second value
  | throw => trivial
  | op operation next ih => exact ⟨first.1, fun answer => ih answer (first.2 answer)⟩

theorem Every.imp {wider : ∀ {ρ : Type}, Op ρ → Prop}
    (implied : ∀ {ρ : Type} (operation : Op ρ), allowed operation → wider operation)
    {program : Program Op ε α} (every : program.Every allowed) : program.Every wider := by
  induction program with
  | pure => trivial
  | throw => trivial
  | op operation next ih =>
      exact ⟨implied operation every.1, fun answer => ih answer (every.2 answer)⟩

/-- An undisturbed run keeps what every allowed operation keeps. -/
theorem Every.completes {database : Database Op σ ε} (kept : σ → Prop)
    (keeps : ∀ {ρ : Type} (operation : Op ρ) store answer after, allowed operation →
      database.apply operation store = (.ok answer, after) → kept store → kept after)
    {program : Program Op ε α} (every : program.Every allowed) {store after : σ} {value : α}
    (completes : database.Completes program store value after) (holds : kept store) :
    kept after := by
  induction program generalizing store with
  | pure =>
      obtain ⟨rfl, rfl⟩ := Database.completes_pure.mp completes
      exact holds
  | throw => exact absurd completes Database.not_completes_throw
  | op operation next ih =>
      obtain ⟨answer, middle, applied, rest⟩ := Database.completes_op.mp completes
      exact ih answer (every.2 answer) rest
        (keeps operation store answer middle every.1 applied holds)

/-- A run keeps what every allowed operation keeps, also where it fails. -/
theorem Every.run {database : Database Op σ ε} (kept : σ → Prop)
    (keeps : ∀ {ρ : Type} (operation : Op ρ) store, allowed operation → kept store →
      kept (database.apply operation store).2)
    {program : Program Op ε α} (every : program.Every allowed) {store : σ} (holds : kept store) :
    kept (database.run program store).2 := by
  induction program generalizing store with
  | pure => exact holds
  | throw => exact holds
  | op operation next ih =>
      have after := keeps operation store every.1 holds
      rw [Database.run]
      revert after
      rcases database.apply operation store with ⟨failure | answer, middle⟩
      · exact fun after => after
      · exact ih answer (every.2 answer)

end Program

/-! ## Facts that a finished program has established -/

/-- However the answers come out, the program does not finish normally before an
operation that leaves `fact` behind it, unless the fact needs no operation. -/
def Program.Establishes (database : Database Op σ ε) (fact : σ → Prop) :
    Program Op ε α → Prop
  | .pure _ => ∀ store, fact store
  | .throw _ => True
  | .op operation next => ∀ store answer after,
      database.apply operation store = (.ok answer, after) →
        fact after ∨ (next answer).Establishes database fact

/-- What every continuation establishes, the whole program establishes. -/
theorem Program.establishes_bind_of_rest {database : Database Op σ ε} {fact : σ → Prop}
    (program : Program Op ε α) {rest : α → Program Op ε β}
    (second : ∀ value, (rest value).Establishes database fact) :
    (program >>= rest).Establishes database fact := by
  induction program with
  | pure value => exact second value
  | throw => trivial
  | op operation next ih => exact fun _ answer _ _ => .inr (ih answer)

theorem Program.Establishes.imp {database : Database Op σ ε} {fact weaker : σ → Prop}
    (implied : ∀ store, fact store → weaker store) {program : Program Op ε α}
    (establishes : program.Establishes database fact) :
    program.Establishes database weaker := by
  induction program with
  | pure => exact fun store => implied store (establishes store)
  | throw => trivial
  | op operation next ih =>
      intro store answer after applied
      exact (establishes store answer after applied).imp (implied after) (ih answer)

/-! ## Rely and guarantee -/

/-- An operation performed with the answer it got. -/
structure Event (Op : Type → Type) : Type 1 where
  {result : Type}
  operation : Op result
  answer : result

/-- What a program counts on and what it owes: the stores that answer it satisfy
`rely`, and every operation is `permitted` after the log so far. -/
structure Contract (Op : Type → Type) (σ : Type) where
  rely : σ → Prop
  permitted : {ρ : Type} → List (Event Op) → Op ρ → Prop

/-- Against stores that may change between two operations but keep to the `rely`, the
program owes nothing but permitted operations, and completes normally only with a log
and a value in `post`. -/
def Program.Obeys (database : Database Op σ ε) (contract : Contract Op σ)
    (post : List (Event Op) → α → Prop) : Program Op ε α → List (Event Op) → Prop
  | .pure value, log => post log value
  | .throw _, _ => True
  | .op operation next, log => contract.permitted log operation ∧
      ∀ store answer after, contract.rely store →
        database.apply operation store = (.ok answer, after) →
          (next answer).Obeys database contract post (log ++ [⟨operation, answer⟩])

namespace Program

variable {database : Database Op σ ε} {contract : Contract Op σ} {log : List (Event Op)}

theorem obeys_bind {program : Program Op ε α} {rest : α → Program Op ε β}
    {post : List (Event Op) → β → Prop} :
    (program >>= rest).Obeys database contract post log ↔
      program.Obeys database contract
        (fun log value => (rest value).Obeys database contract post log) log := by
  induction program generalizing log with
  | pure => exact Iff.rfl
  | throw => exact Iff.rfl
  | op operation next ih =>
      exact and_congr_right fun _ => forall_congr' fun _ => forall_congr' fun answer =>
        forall_congr' fun _ => imp_congr_right fun _ => imp_congr_right fun _ => ih answer

theorem obeys_ofExcept {outcome : Except ε α} {post : List (Event Op) → α → Prop} :
    (ofExcept outcome : Program Op ε α).Obeys database contract post log ↔
      ∀ value, outcome = .ok value → post log value := by
  cases outcome with
  | ok value =>
      constructor
      · rintro holds _ ⟨⟩
        exact holds
      · exact fun holds => holds value rfl
  | error failure => exact ⟨fun _ _ => nofun, fun _ => trivial⟩

theorem Obeys.mono {program : Program Op ε α} {strong weak : List (Event Op) → α → Prop}
    (obeys : program.Obeys database contract strong log)
    (implied : ∀ log value, strong log value → weak log value) :
    program.Obeys database contract weak log := by
  induction program generalizing log with
  | pure value => exact implied log value obeys
  | throw => trivial
  | op operation next ih =>
      exact ⟨obeys.1, fun store answer after reliable applied =>
        ih answer (obeys.2 store answer after reliable applied)⟩

/-- The log at the end continues the log at the start. -/
theorem Obeys.extends {program : Program Op ε α} {post : List (Event Op) → α → Prop}
    (obeys : program.Obeys database contract post log) :
    program.Obeys database contract (fun longer value => log <+: longer ∧ post longer value)
      log := by
  induction program generalizing log with
  | pure value => exact ⟨List.prefix_rfl, obeys⟩
  | throw => trivial
  | op operation next ih =>
      refine ⟨obeys.1, fun store answer after reliable applied => ?_⟩
      refine (ih answer (obeys.2 store answer after reliable applied)).mono ?_
      rintro longer value ⟨longer_of, holds⟩
      exact ⟨(List.prefix_append log _).trans longer_of, holds⟩

end Program

end Atomic

import Mathlib.Data.List.Basic

/-!
# Deterministic machines

A machine has a state and a step for every input.  A run feeds it a list of inputs.
What is said of a single step is said of a run by `Along`: it holds of every input at
the state that input meets.

Two inputs may trade places when the machine ends in the same state either way.  A run
then ends in the same state in any order that keeps the order of the inputs that may not
(`final_perm`).
-/

namespace Machine

universe u v

variable {σ : Type u} {ι : Type v} {step : σ → ι → σ}

/-- The state after a list of inputs. -/
def final (step : σ → ι → σ) (state : σ) (inputs : List ι) : σ := inputs.foldl step state

@[simp] theorem final_nil (state : σ) : final step state [] = state := rfl

@[simp] theorem final_cons (state : σ) (input : ι) (rest : List ι) :
    final step state (input :: rest) = final step (step state input) rest := rfl

theorem final_append (state : σ) (first second : List ι) :
    final step state (first ++ second) = final step (final step state first) second :=
  List.foldl_append

/-- Every input of a run meets a state at which `fact` holds of it. -/
def Along (step : σ → ι → σ) (fact : σ → ι → Prop) : σ → List ι → Prop
  | _, [] => True
  | state, input :: rest => fact state input ∧ Along step fact (step state input) rest

@[simp] theorem along_nil (fact : σ → ι → Prop) (state : σ) : Along step fact state [] := trivial

theorem along_cons {fact : σ → ι → Prop} {state : σ} {input : ι} {rest : List ι} :
    Along step fact state (input :: rest) ↔
      fact state input ∧ Along step fact (step state input) rest := Iff.rfl

instance decidableAlong (fact : σ → ι → Prop) [∀ state input, Decidable (fact state input)] :
    ∀ (state : σ) (inputs : List ι), Decidable (Along step fact state inputs)
  | _, [] => .isTrue trivial
  | state, input :: rest =>
      have : Decidable (Along step fact (step state input) rest) :=
        decidableAlong fact (step state input) rest
      inferInstanceAs (Decidable (fact state input ∧ Along step fact (step state input) rest))

/-! ## Inputs that trade places -/

/-- The machine does not see which of the two inputs came first. -/
def Trade (step : σ → ι → σ) (left right : ι) : Prop :=
  ∀ state, step (step state left) right = step (step state right) left

/-- An input that trades places with all others may be the last one. -/
theorem final_step {input : ι} {inputs : List ι}
    (trade : ∀ other ∈ inputs, Trade step input other) (state : σ) :
    final step (step state input) inputs = step (final step state inputs) input := by
  induction inputs generalizing state with
  | nil => rfl
  | cons other rest ih =>
      obtain ⟨first, later⟩ := List.forall_mem_cons.mp trade
      rw [final_cons, first state, ih later, final_cons]

variable {ordered : ι → Bool} {inputs inputs' : List ι}

/-- The inputs whose order counts may come first. -/
theorem final_partition
    (trade : ∀ input ∈ inputs, ordered input = false → ∀ other ∈ inputs, Trade step input other)
    (state : σ) :
    final step state inputs =
      final step (final step state (inputs.filter ordered))
        (inputs.filter fun input => !ordered input) := by
  induction inputs generalizing state with
  | nil => rfl
  | cons input rest ih =>
      have later : ∀ input ∈ rest, ordered input = false →
          ∀ other ∈ rest, Trade step input other :=
        fun input member free other listed =>
          trade input (List.mem_cons_of_mem _ member) free other (List.mem_cons_of_mem _ listed)
      rw [final_cons, ih later]
      cases free : ordered input with
      | true =>
          rw [List.filter_cons_of_pos free, List.filter_cons_of_neg (by rw [free]; simp),
            final_cons]
      | false =>
          have moved : ∀ other ∈ rest.filter ordered, Trade step input other :=
            fun other listed => trade input List.mem_cons_self free other
              (List.mem_cons_of_mem _ (List.mem_filter.mp listed).1)
          rw [List.filter_cons_of_neg (by rw [free]; simp),
            List.filter_cons_of_pos (by rw [free]; rfl), final_cons, final_step moved]

/-- A run ends in the same state in any order that keeps that of the ordered inputs. -/
theorem final_perm
    (trade : ∀ input ∈ inputs, ordered input = false → ∀ other ∈ inputs, Trade step input other)
    (reordered : inputs.Perm inputs') (kept : inputs.filter ordered = inputs'.filter ordered)
    (state : σ) : final step state inputs = final step state inputs' := by
  have trade' : ∀ input ∈ inputs', ordered input = false →
      ∀ other ∈ inputs', Trade step input other :=
    fun input member free other listed =>
      trade input (reordered.mem_iff.mpr member) free other (reordered.mem_iff.mpr listed)
  rw [final_partition trade, final_partition trade', kept]
  refine (reordered.filter _).foldl_eq' (fun left leftMem right rightMem state => ?_) _
  obtain ⟨leftMem, free⟩ := List.mem_filter.mp leftMem
  rw [Bool.not_eq_true'] at free
  exact trade left leftMem free right (List.mem_filter.mp rightMem).1 state

end Machine

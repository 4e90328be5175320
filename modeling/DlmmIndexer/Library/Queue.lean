import DlmmIndexer.Library.Schedule

/-!
# Queued jobs with retries

A queue runs a fixed list of jobs at once.  A job whose attempt has thrown is tried
again, from the start of its program, until it has used up its attempts.  The next attempt
may be made in other circumstances: `again` says which jobs may follow which.
-/

namespace Atomic

variable {Op : Type → Type} {σ ε ι : Type}

/-- A job of a queue: its current attempt and the number of attempts so far. -/
structure Delivery (Op : Type → Type) (ε ι : Type) : Type 1 where
  attempt : Process Op ε ι
  attempts : ℕ

namespace Delivery

/-- The first attempt at a job. -/
def first (program : ι → Program Op ε Unit) (job : ι) : Delivery Op ε ι :=
  ⟨.launch program job, 1⟩

/-- The job has completed, or thrown in its last attempt. -/
def Ended (limit : ℕ) (delivery : Delivery Op ε ι) : Prop :=
  delivery.attempt.Finished ∨ (delivery.attempt.Failed ∧ delivery.attempts = limit)

instance (limit : ℕ) (delivery : Delivery Op ε ι) : Decidable (delivery.Ended limit) :=
  inferInstanceAs (Decidable (_ ∨ _ ∧ _))

end Delivery

/-- A store and the jobs running on it. -/
structure Queue (Op : Type → Type) (σ ε ι : Type) : Type 1 where
  store : σ
  deliveries : List (Delivery Op ε ι)

namespace Queue

variable (database : Database Op σ ε) (program : ι → Program Op ε Unit)
variable (guard : σ → Process Op ε ι → Process Op ε ι → Prop) (again : ι → ι → Prop)
variable (limit : ℕ)

/-- Some attempt makes a guarded move, or a failed job is tried again. -/
inductive Step : Queue Op σ ε ι → Queue Op σ ε ι → Prop where
  | move {store store' : σ} {before after : List (Delivery Op ε ι)}
      {delivery : Delivery Op ε ι} {attempt' : Process Op ε ι}
      (moves : Moves database store delivery.attempt store' attempt')
      (allowed : guard store delivery.attempt attempt') :
      Step ⟨store, before ++ delivery :: after⟩
        ⟨store', before ++ ⟨attempt', delivery.attempts⟩ :: after⟩
  | retry {store : σ} {before after : List (Delivery Op ε ι)} {delivery : Delivery Op ε ι}
      {job : ι} (failed : delivery.attempt.Failed) (more : delivery.attempts < limit)
      (next : again delivery.attempt.job job) :
      Step ⟨store, before ++ delivery :: after⟩
        ⟨store, before ++ ⟨.launch program job, delivery.attempts + 1⟩ :: after⟩

/-- The queues that steps reach. -/
abbrev Reaches : Queue Op σ ε ι → Queue Op σ ε ι → Prop :=
  Relation.ReflTransGen (Step database program guard again limit)

variable {database program guard again limit}

/-- A property of a store and two attempts that have not thrown, kept when either moves,
holds along every run of two jobs. -/
theorem Reaches.invariant_of_two
    (kept : σ → Process Op ε ι → Process Op ε ι → Prop) {start : σ} {left right : ι}
    {queue : Queue Op σ ε ι}
    (reaches : Reaches database program guard again limit
      ⟨start, [.first program left, .first program right]⟩ queue)
    (holds : kept start (.launch program left) (.launch program right))
    (steady : ∀ store first second, kept store first second → ¬first.Failed ∧ ¬second.Failed)
    (movedLeft : ∀ store store' first first' second, kept store first second →
      Moves database store first store' first' → guard store first first' →
        kept store' first' second)
    (movedRight : ∀ store store' first second second', kept store first second →
      Moves database store second store' second' → guard store second second' →
        kept store' first second') :
    ∃ first second, queue.deliveries = [first, second] ∧
      kept queue.store first.attempt second.attempt := by
  induction reaches with
  | refl => exact ⟨_, _, rfl, holds⟩
  | tail _ step ih =>
      obtain ⟨first, second, both, held⟩ := ih
      obtain ⟨firstSteady, secondSteady⟩ := steady _ _ _ held
      cases step with
      | @move store store' before after delivery attempt' moves allowed =>
          rcases before with _ | ⟨head, _ | ⟨other, rest⟩⟩
          · cases both
            exact ⟨_, _, rfl, movedLeft _ _ _ _ _ held moves allowed⟩
          · cases both
            exact ⟨_, _, rfl, movedRight _ _ _ _ _ held moves allowed⟩
          · simp at both
      | @retry store before after delivery job failed more next =>
          rcases before with _ | ⟨head, _ | ⟨other, rest⟩⟩
          · cases both
            exact absurd failed firstSteady
          · cases both
            exact absurd failed secondSteady
          · simp at both

/-! ## Replayed schedules -/

/-- What a queue does next: let the job at an index move, or try it again. -/
inductive Turn where
  | move (index : ℕ)
  | retry (index : ℕ)

/-- Follow a schedule as long as its turns are possible and `admits` holds of the store
and the attempt before each move. -/
def play (database : Database Op σ ε) (program : ι → Program Op ε Unit)
    (admits : σ → Process Op ε ι → Bool) (limit : ℕ) :
    List Turn → Queue Op σ ε ι → Option (Queue Op σ ε ι)
  | [], queue => some queue
  | .move index :: rest, ⟨store, deliveries⟩ =>
      match deliveries[index]? with
      | none => none
      | some delivery =>
          match admits store delivery.attempt, delivery.attempt.advance database store with
          | true, some (store', attempt') =>
              play database program admits limit rest
                ⟨store', deliveries.set index ⟨attempt', delivery.attempts⟩⟩
          | _, _ => none
  | .retry index :: rest, ⟨store, deliveries⟩ =>
      match deliveries[index]? with
      | none => none
      | some delivery =>
          match delivery.attempt.program, decide (delivery.attempts < limit) with
          | .throw _, true =>
              play database program admits limit rest
                ⟨store, deliveries.set index
                  ⟨.launch program delivery.attempt.job, delivery.attempts + 1⟩⟩
          | _, _ => none

/-- A schedule that can be followed reaches the queue at its end. -/
theorem reaches_of_play {admits : σ → Process Op ε ι → Bool} (same : ∀ job, again job job)
    (sound : ∀ store attempt attempt', admits store attempt = true → guard store attempt attempt')
    {turns : List Turn} {queue final : Queue Op σ ε ι}
    (played : play database program admits limit turns queue = some final) :
    Reaches database program guard again limit queue final := by
  have split {deliveries : List (Delivery Op ε ι)} {index : ℕ} {delivery : Delivery Op ε ι}
      (found : deliveries[index]? = some delivery) (delivery' : Delivery Op ε ι) :
      deliveries = deliveries.take index ++ delivery :: deliveries.drop (index + 1) ∧
        deliveries.set index delivery' =
          deliveries.take index ++ delivery' :: deliveries.drop (index + 1) := by
    obtain ⟨inside, rfl⟩ := List.getElem?_eq_some_iff.mp found
    rw [List.cons_getElem_drop_succ, List.take_append_drop, List.set_eq_take_append_cons_drop,
      if_pos inside]
    exact ⟨rfl, rfl⟩
  induction turns generalizing queue with
  | nil =>
      cases played
      exact .refl
  | cons turn rest ih =>
      obtain ⟨store, deliveries⟩ := queue
      cases turn with
      | move index =>
          rw [play] at played
          cases found : deliveries[index]? with
          | none => simp [found] at played
          | some delivery =>
              simp only [found] at played
              split at played
              next store' attempt' admitted advanced =>
                obtain ⟨before, after⟩ := split found ⟨attempt', delivery.attempts⟩
                rw [after] at played
                rw [before]
                exact .head (.move (moves_of_advance advanced) (sound _ _ _ admitted)) (ih played)
              · cases played
      | retry index =>
          rw [play] at played
          cases found : deliveries[index]? with
          | none => simp [found] at played
          | some delivery =>
              simp only [found] at played
              split at played
              next failure threw more =>
                obtain ⟨before, after⟩ := split found
                  ⟨.launch program delivery.attempt.job, delivery.attempts + 1⟩
                rw [after] at played
                rw [before]
                exact .head (.retry ⟨failure, threw⟩ (of_decide_eq_true more) (same _))
                  (ih played)
              · cases played

end Queue

end Atomic

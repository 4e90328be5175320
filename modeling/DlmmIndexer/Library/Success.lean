import DlmmIndexer.Library.Schedule

/-!
# Programs that get what they need

Whether an operation does what it is there for depends on the store that it meets.  Given
what every operation needs of its store, a program *succeeds* when it does not throw as
long as each of its operations gets that, whatever the answers are otherwise.

What a process has done is in its log: the log leads from the program of its job to what is
left of it (`Reaches.led`), and each event in the log took place at some point of the run,
on the store of then (`Reaches.performed`).
-/

namespace Atomic

variable {Op : Type → Type} {σ ε ι α β : Type}

namespace Program

/-- Performing the events of a log leads from a program to the rest of it. -/
inductive Leads : Program Op ε α → List (Event Op) → Program Op ε α → Prop where
  | refl (program : Program Op ε α) : Leads program [] program
  | perform {ρ : Type} {operation : Op ρ} {next : ρ → Program Op ε α} {answer : ρ}
      {log : List (Event Op)} {rest : Program Op ε α} (leads : Leads (next answer) log rest) :
      Leads (.op operation next) (⟨operation, answer⟩ :: log) rest

theorem Leads.eq_of_nil {program rest : Program Op ε α} (leads : Leads program [] rest) :
    program = rest := by
  cases leads
  rfl

theorem Leads.snoc {program : Program Op ε α} {log : List (Event Op)} {ρ : Type}
    {operation : Op ρ} {next : ρ → Program Op ε α}
    (leads : Leads program log (.op operation next)) (answer : ρ) :
    Leads program (log ++ [⟨operation, answer⟩]) (next answer) := by
  generalize same : Program.op operation next = rest at leads
  induction leads with
  | refl =>
      subst same
      exact .perform (.refl _)
  | perform _ ih => exact .perform (ih same)

variable {database : Database Op σ ε} {needs : {ρ : Type} → Op ρ → σ → Prop}

/-- Where every operation gets what it needs, the program does not throw, and its value is
in `post`. -/
def Succeeds (database : Database Op σ ε) (needs : {ρ : Type} → Op ρ → σ → Prop)
    (post : α → Prop) : Program Op ε α → Prop
  | .pure value => post value
  | .throw _ => False
  | .op operation next => ∀ store answer after, needs operation store →
      database.apply operation store = (.ok answer, after) →
        (next answer).Succeeds database needs post

theorem succeeds_bind {program : Program Op ε α} {rest : α → Program Op ε β} {post : β → Prop} :
    (program >>= rest).Succeeds database needs post ↔
      program.Succeeds database needs fun value => (rest value).Succeeds database needs post := by
  induction program with
  | pure => exact Iff.rfl
  | throw => exact Iff.rfl
  | op operation next ih =>
      exact forall_congr' fun _ => forall_congr' fun answer => forall_congr' fun _ =>
        imp_congr_right fun _ => imp_congr_right fun _ => ih answer

theorem Succeeds.mono {program : Program Op ε α} {strong weak : α → Prop}
    (succeeds : program.Succeeds database needs strong)
    (implied : ∀ value, strong value → weak value) : program.Succeeds database needs weak := by
  induction program with
  | pure value => exact implied value succeeds
  | throw => exact succeeds
  | op operation next ih =>
      exact fun store answer after needed applied =>
        ih answer (succeeds store answer after needed applied)

theorem Succeeds.bind {program : Program Op ε α} {rest : α → Program Op ε β} {post : β → Prop}
    (first : program.Succeeds database needs fun _ => True)
    (second : ∀ value, (rest value).Succeeds database needs post) :
    (program >>= rest).Succeeds database needs post :=
  succeeds_bind.mpr (first.mono fun value _ => second value)

/-- An operation in itself does not throw. -/
theorem succeeds_perform {ρ : Type} {operation : Op ρ} :
    (perform operation : Program Op ε ρ).Succeeds database needs fun _ => True :=
  fun _ _ _ _ _ => trivial

theorem succeeds_ofExcept_bind {outcome : Except ε α} {rest : α → Program Op ε β} {value : α}
    {post : β → Prop} (computed : outcome = .ok value)
    (succeeds : (rest value).Succeeds database needs post) :
    (ofExcept outcome >>= rest).Succeeds database needs post := by
  rw [computed]
  exact succeeds

theorem Succeeds.not_throw {program : Program Op ε α} {post : α → Prop}
    (succeeds : program.Succeeds database needs post) (failure : ε) : program ≠ .throw failure := by
  rintro rfl
  exact succeeds

end Program

/-! ## Undisturbed moves -/

/-- The process after its operation was answered or rejected. -/
def Process.resume {ρ : Type} (process : Process Op ε ι) (operation : Op ρ)
    (next : ρ → Program Op ε Unit) : Except ε ρ → Process Op ε ι
  | .ok answer => ⟨process.job, next answer, process.log ++ [⟨operation, answer⟩]⟩
  | .error failure => ⟨process.job, .throw failure, process.log⟩

/-- The move is what the database makes of the operation when nothing disturbs it. -/
def Process.Undisturbed (database : Database Op σ ε) (store : σ)
    (process process' : Process Op ε ι) : Prop :=
  ∀ {ρ : Type} (operation : Op ρ) (next : ρ → Program Op ε Unit),
    process.program = .op operation next →
      process' = process.resume operation next (database.apply operation store).1

/-- Every operation of an undisturbed run that completes gets what it needs. -/
def Database.Provides (database : Database Op σ ε) (needs : {ρ : Type} → Op ρ → σ → Prop) :
    Program Op ε Unit → σ → Prop
  | .pure _, _ => True
  | .throw _, _ => False
  | .op operation next, store => needs operation store ∧ ∃ answer after,
      database.apply operation store = (.ok answer, after) ∧
        Provides database needs (next answer) after

/-- Such a run meets a guard that asks for no more. -/
theorem reaches_of_provides {database : Database Op σ ε} {program : ι → Program Op ε Unit}
    {guard : σ → Process Op ε ι → Process Op ε ι → Prop}
    {needs : {ρ : Type} → Op ρ → σ → Prop} {job : ι}
    (admits : ∀ {store : σ} {ρ : Type} {operation : Op ρ} {next : ρ → Program Op ε Unit}
      {log : List (Event Op)}, needs operation store →
        guard store ⟨job, .op operation next, log⟩
          (Process.resume ⟨job, .op operation next, log⟩ operation next
            (database.apply operation store).1))
    {store : σ} (provides : database.Provides needs (program job) store)
    (processes : List (Process Op ε ι)) :
    Reaches database program guard ⟨store, processes⟩ ⟨(database.run (program job) store).2,
      processes ++ [⟨job, .pure (), database.trace (program job) store⟩]⟩ := by
  have ran : ∀ (rest : Program Op ε Unit) (store : σ) (log : List (Event Op)),
      database.Provides needs rest store →
        Reaches database program guard ⟨store, processes ++ ⟨job, rest, log⟩ :: []⟩
          ⟨(database.run rest store).2,
            processes ++ [⟨job, .pure (), log ++ database.trace rest store⟩]⟩ := by
    intro rest
    induction rest with
    | pure value =>
        intro store log _
        rw [Database.run, Database.trace, List.append_nil]
    | throw => exact fun _ _ provides => provides.elim
    | op operation next ih =>
        rintro store log ⟨needed, answer, middle, applied, later⟩
        have allowed : guard store ⟨job, .op operation next, log⟩
            (Process.resume ⟨job, .op operation next, log⟩ operation next
              (database.apply operation store).1) := admits needed
        rw [applied] at allowed
        have rest := ih answer middle (log ++ [⟨operation, answer⟩]) later
        rw [List.append_assoc, List.singleton_append] at rest
        rw [Database.run, Database.trace, applied]
        exact .head (.move (.perform applied) allowed) rest
  exact .head (.launch job) (ran (program job) store [] provides)

/-! ## What the logs of a run tell -/

section Logs

variable {database : Database Op σ ε} {program : ι → Program Op ε Unit}
variable {guard : σ → Process Op ε ι → Process Op ε ι → Prop}
variable {start system later : System Op σ ε ι} {store store' : σ}

/-- A process that has not failed is where its log leads. -/
def Process.Led (program : ι → Program Op ε Unit) (process : Process Op ε ι) : Prop :=
  process.Failed ∨ (program process.job).Leads process.log process.program

theorem Moves.led {process process' : Process Op ε ι}
    (moves : Moves database store process store' process') (led : process.Led program) :
    process'.Led program := by
  cases moves with
  | perform applied =>
      rcases led with ⟨failure, threw⟩ | leads
      · cases threw
      · exact .inr (leads.snoc _)
  | reject | fault => exact .inl ⟨_, rfl⟩

theorem Reaches.led (reaches : Reaches database program guard (.initial store) system) :
    ∀ process ∈ system.processes, process.Led program :=
  Reaches.forall_processes (Process.Led program) reaches (fun _ member => nomatch member)
    (fun _ => .inr (.refl _)) fun _ _ _ _ moves _ led => moves.led led

/-- Between the two stores, at some point of the run, a process performed the event. -/
inductive Performed (database : Database Op σ ε) (program : ι → Program Op ε Unit)
    (guard : σ → Process Op ε ι → Process Op ε ι → Prop) (start system : System Op σ ε ι)
    (process : Process Op ε ι) (event : Event Op) : σ → σ → Prop where
  | intro {store store' : σ} {before after : List (Process Op ε ι)}
      {acting acting' : Process Op ε ι} {next : event.result → Program Op ε Unit}
      (reached : Reaches database program guard start ⟨store, before ++ acting :: after⟩)
      (running : acting.program = .op event.operation next) (job : acting.job = process.job)
      (allowed : guard store acting acting')
      (applied : database.apply event.operation store = (.ok event.answer, store'))
      (logged : acting'.log = acting.log ++ [event]) (kept : acting'.log <+: process.log)
      (later : Reaches database program guard ⟨store', before ++ acting' :: after⟩ system) :
      Performed database program guard start system process event store store'

/-- A run that goes on does not undo what was performed. -/
theorem Performed.tail {process process' : Process Op ε ι} {event : Event Op}
    (performed : Performed database program guard start system process event store store')
    (step : Step database program guard system later) (job : process.job = process'.job)
    (kept : process.log <+: process'.log) :
    Performed database program guard start later process' event store store' := by
  cases performed with
  | intro reached running same allowed applied logged earlier reaches =>
      exact .intro reached running (same.trans job) allowed applied logged (earlier.trans kept)
        (.tail reaches step)

/-- Every event in a log took place. -/
theorem Reaches.performed (reaches : Reaches database program guard (.initial store) system) :
    ∀ process ∈ system.processes, ∀ event ∈ process.log, ∃ before after,
      Performed database program guard (.initial store) system process event before after := by
  induction reaches with
  | refl => exact fun _ member => nomatch member
  | tail reached step ih =>
      have stays {process : Process Op ε ι} (held : ∀ event ∈ process.log, ∃ before after,
          Performed database program guard (.initial store) _ process event before after) :
          ∀ event ∈ process.log, ∃ before after,
            Performed database program guard (.initial store) _ process event before after :=
        fun event logged =>
          let ⟨before, after, performed⟩ := held event logged
          ⟨before, after, performed.tail step rfl List.prefix_rfl⟩
      cases step with
      | launch job =>
          refine List.forall_mem_append.mpr ⟨fun process member => stays (ih process member), ?_⟩
          exact List.forall_mem_singleton.mpr fun _ logged => nomatch logged
      | move moves allowed =>
          obtain ⟨earlier, rest⟩ := List.forall_mem_append.mp ih
          obtain ⟨here, others⟩ := List.forall_mem_cons.mp rest
          refine List.forall_mem_append.mpr ⟨fun process member => stays (earlier process member),
            List.forall_mem_cons.mpr ⟨fun event logged => ?_,
              fun process member => stays (others process member)⟩⟩
          cases moves with
          | perform applied =>
              rcases List.mem_append.mp logged with kept | new
              · obtain ⟨before, after, performed⟩ := here event kept
                exact ⟨before, after, performed.tail (.move (.perform applied) allowed) rfl
                  (List.prefix_append _ _)⟩
              · obtain rfl := List.mem_singleton.mp new
                exact ⟨_, _, .intro reached rfl rfl allowed applied rfl List.prefix_rfl .refl⟩
          | reject applied =>
              obtain ⟨before, after, performed⟩ := here event logged
              exact ⟨before, after, performed.tail (.move (.reject applied) allowed) rfl
                List.prefix_rfl⟩
          | fault failure failed =>
              obtain ⟨before, after, performed⟩ := here event logged
              exact ⟨before, after, performed.tail (.move (.fault failure failed) allowed) rfl
                List.prefix_rfl⟩

end Logs

end Atomic

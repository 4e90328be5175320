import DlmmIndexer.Worker

/-!
# Redelivery of finished jobs

A job that completed has left a marker: its `Instruction` row, or for the three
initializing kinds the document it would create.  The marker is looked up before
anything is written, and no operation removes it.  So whatever ran since, running
the job again completes and changes nothing.
-/

namespace DlmmIndexer

open Documents JavaScript Atomic

namespace Job

/-- The document whose presence makes a job return early. -/
def marker (job : Job) : Option (Coll × String) :=
  match job.payload with
  | .initializePair decoded => some (.pair, decoded.pair)
  | .initializeBinStepConfig decoded => some (.binStepConfig, decoded.binStepConfig)
  | .initializeBinArray decoded =>
      some (.bin, InitializeBinArray.firstBinDocumentId decoded)
  | _ => job.instructionId.map fun id => (.instruction, id)

/-- The marker of the job, if it has one, is in the store. -/
def Marked (job : Job) (store : Store) : Prop :=
  ∀ coll id, job.marker = some (coll, id) → (store coll).holds id = true

/-- The job gets past its decoder and its RPC calls. -/
def Accepted (rpc : Rpc) (job : Job) : Prop := ∀ failure, job.process rpc ≠ .throw failure

theorem marker_of_params {job : Job} {params : CheckAndInsertInstructionParams}
    (deduplicates : job.params = some params) :
    job.marker = some (.instruction, generateInstructionId params) := by
  rcases job with ⟨message, payload⟩
  cases payload <;> cases deduplicates <;> rfl

theorem marker_not_deletable {job : Job} {coll : Coll} {id : String}
    (marks : job.marker = some (coll, id)) : ¬coll.Deletable := by
  cases deduplicates : job.params with
  | some params =>
      rw [marker_of_params deduplicates] at marks
      cases marks
      simp [Coll.Deletable]
  | none =>
      rcases job with ⟨message, payload⟩
      cases payload with
      | initializePair | initializeBinStepConfig | initializeBinArray =>
          cases marks
          simp [Coll.Deletable]
      | rejected | ignored => cases marks
      | _ => cases deduplicates

/-- Some attempt of the job came to its end. -/
def Done (rpc : Rpc) (job : Job) (store : Store) : Prop := job.Accepted rpc ∧ job.Marked store

/-- A job that is done has nothing left to do. -/
theorem Done.settled {rpc : Rpc} {job : Job} {store : Store} (done : job.Done rpc store) :
    mongo.Completes (job.process rpc) store () store := by
  obtain ⟨accepted, marked⟩ := done
  cases deduplicates : job.params with
  | some params =>
      rcases process_deduplicated rpc deduplicates with ⟨failure, threw⟩ | ⟨work, same, -⟩
      · exact absurd threw (accepted failure)
      · rw [same]
        exact run_unlessProcessed_of_holds (marked _ _ (marker_of_params deduplicates))
  | none =>
      rcases job with ⟨message, payload⟩
      cases payload with
      | rejected failure => exact absurd rfl (accepted failure)
      | ignored => rfl
      | initializePair decoded =>
          obtain ⟨row, found⟩ := Option.isSome_iff_exists.mp (marked _ _ rfl)
          exact completes_found found (Database.completes_return.mpr ⟨rfl, rfl⟩)
      | initializeBinStepConfig decoded =>
          obtain ⟨row, found⟩ := Option.isSome_iff_exists.mp (marked _ _ rfl)
          exact completes_found found (Database.completes_return.mpr ⟨rfl, rfl⟩)
      | initializeBinArray decoded =>
          refine Database.completes_bind.mpr ⟨true, store, ?_, Database.completes_return.mpr
            ⟨rfl, rfl⟩⟩
          exact completes_existsId.mpr ⟨(marked _ _ rfl).symm, rfl⟩
      | _ => cases deduplicates

end Job

/-- The lookup that begins an initializing job either shows the marker or leads to
work that is checked on its own. -/
theorem establishes_after_findOne {coll : Coll} {id : String} {fact : Store → Prop}
    {rest : Option coll.Row → Action Unit}
    (there : ∀ store : Store, (store coll).holds id = true → fact store)
    (missing : (rest none).Establishes mongo fact) :
    (findOne coll id >>= rest).Establishes mongo fact := by
  intro store answer after applied
  cases applied
  cases found : (store coll).findOne id with
  | some row => exact .inl (there store (Collection.holds_of_findOne found))
  | none => exact .inr missing

theorem establishes_create {coll : Coll} {row : coll.Row} :
    (create coll row).Establishes mongo fun store => (store coll).holds (coll.id row) = true := by
  intro store answer after applied
  obtain ⟨rows, created, rfl⟩ := store_of_create applied
  refine .inl ?_
  change ((store.put coll rows) coll).holds (coll.id row) = true
  rw [Store.put_same]
  exact Collection.holds_of_findOne (Collection.findOne_create_self created)

theorem InitializeBinArray.establishes (decoded : InitializeBinArrayDecoded) :
    (processInitializeBinArray decoded).Establishes mongo fun store =>
      (store .bin).holds (firstBinDocumentId decoded) = true := by
  intro store answer after applied
  cases applied
  cases found : (store .bin).holds (firstBinDocumentId decoded) with
  | true => exact .inl found
  | false =>
      refine .inr fun store answer after applied => .inl ?_
      have done : mongo.Completes (insertMany .bin (binDocuments decoded)) store answer after :=
        Database.completes_perform.mpr applied
      obtain ⟨rows, inserted, rfl⟩ := completes_insertMany.mp done
      have first : binDocument decoded 0 ∈ rows :=
        (Collection.mem_insertMany inserted).mpr (.inr (binDocument_mem (by decide)))
      change ((store.put .bin rows) .bin).holds _ = true
      rw [Store.put_same]
      exact Collection.holds_iff.mpr ⟨_, first, id_binDocument_zero⟩

namespace Job

theorem establishes_marked {rpc : Rpc} {job : Job} :
    (job.process rpc).Establishes mongo fun store => job.Marked store := by
  have marks {coll : Coll} {id : String} (same : job.marker = some (coll, id)) (store : Store)
      (held : (store coll).holds id = true) : job.Marked store := by
    rintro _ _ equal
    rw [same] at equal
    cases equal
    exact held
  cases deduplicates : job.params with
  | some params =>
      rcases process_deduplicated rpc deduplicates with ⟨failure, threw⟩ | ⟨work, same, -⟩
      · rw [threw]
        trivial
      · rw [same]
        exact unlessProcessed_establishes.imp (marks (marker_of_params deduplicates))
  | none =>
      rcases job with ⟨message, payload⟩
      cases payload with
      | rejected => trivial
      | ignored => exact fun store coll id none => nomatch none
      | initializePair decoded =>
          refine establishes_after_findOne (marks rfl) ?_
          refine Program.establishes_bind_of_rest _ fun _ =>
            Program.establishes_bind_of_rest _ fun binStepConfig => ?_
          cases binStepConfig with
          | none => trivial
          | some binStepConfig =>
              refine Program.establishes_bind_of_rest _ fun _ =>
                Program.establishes_bind_of_rest _ fun _ => establishes_create.imp (marks rfl)
      | initializeBinStepConfig decoded =>
          exact establishes_after_findOne (marks rfl) (establishes_create.imp (marks rfl))
      | initializeBinArray decoded =>
          exact (InitializeBinArray.establishes decoded).imp (marks rfl)
      | _ => cases deduplicates

theorem establishes_done {rpc : Rpc} {job : Job} :
    (job.process rpc).Establishes mongo (job.Done rpc) := by
  by_cases accepted : job.Accepted rpc
  · exact establishes_marked.imp fun _ marked => ⟨accepted, marked⟩
  · obtain ⟨failure, threw⟩ := not_forall_not.mp accepted
    rw [threw]
    trivial

/-- Markers are never removed. -/
theorem stable_done (rpc : Rpc) (job : Job) : mongo.Stable (job.Done rpc) := by
  rintro ρ operation store ⟨accepted, marked⟩
  have kept coll id (same : job.marker = some (coll, id)) :=
    mongo_stable_holds (marker_not_deletable same) id operation store (marked coll id same)
  exact ⟨⟨accepted, fun coll id same => (kept coll id same).1⟩,
    fun after failed => ⟨accepted, fun coll id same => (kept coll id same).2 after failed⟩⟩

/-- A job that is done leaves the store alone, whatever the RPC answers. -/
theorem Done.store_eq {rpc : Rpc} {job : Job} {store : Store} (done : job.Done rpc store)
    (answers : Rpc) : (mongo.run (job.process answers) store).2 = store := by
  by_cases accepted : job.Accepted answers
  · have settled : mongo.run (job.process answers) store = (.ok (), store) :=
      Done.settled ⟨accepted, done.2⟩
    rw [settled]
  · obtain ⟨failure, threw⟩ := not_forall_not.mp accepted
    rw [threw]
    rfl

end Job

/-- Some launch like this one came to its end. -/
def Launch.Done (launch : Launch) : Store → Prop := launch.toJob.Done launch.rpc

theorem Launch.done_of_reaches {guard : Store → Process Op Failure Launch →
      Process Op Failure Launch → Prop} {start : Store} {system : System Op Store Failure Launch}
    (reaches : Reaches mongo Launch.process guard (.initial start) system)
    {attempt : Process Op Failure Launch} (member : attempt ∈ system.processes)
    (finished : attempt.Finished) : attempt.job.Done system.store :=
  Reaches.established (fun launch : Launch => launch.stable_done launch.rpc)
    (fun _ => Job.establishes_done) reaches attempt member finished

/-- In every store that any interleaving of launches reaches, with any disturbances, a
job of which some attempt completed normally can be run again: with the answers of that
attempt it completes, and with any answers it leaves every collection as it is. -/
theorem redelivery_idempotent {start : Store} {system : System Op Store Failure Launch}
    (reaches : Reaches mongo Launch.process Unguarded (.initial start) system)
    {process : Process Op Failure Launch} (member : process ∈ system.processes)
    (finished : process.Finished) :
    mongo.run process.job.process system.store = (.ok (), system.store) ∧
      ∀ rpc, (mongo.run (process.job.toJob.process rpc) system.store).2 = system.store :=
  have done := Launch.done_of_reaches reaches member finished
  ⟨done.settled, done.store_eq⟩

theorem redelivery_idempotent_badge :
    mongo.run (badgeJob.process silentRpc) (mongo.run (badgeJob.process silentRpc) .empty).2 =
        (.ok (), (mongo.run (badgeJob.process silentRpc) .empty).2) ∧
      ∀ rpc, (mongo.run (badgeJob.process rpc)
        (mongo.run (badgeJob.process silentRpc) .empty).2).2 =
          (mongo.run (badgeJob.process silentRpc) .empty).2 := by
  have completes : (mongo.run badgeJob.silent.process .empty).1 = .ok () := by decide
  have reached : Reaches mongo Launch.process Unguarded (.initial Store.empty) _ :=
    reaches_of_run badgeJob.silent Store.empty []
  exact redelivery_idempotent reached (List.mem_append_right _ List.mem_cons_self)
    (by rw [Process.Finished, completes]; rfl)

end DlmmIndexer

import DlmmIndexer.Schema
import DlmmIndexer.Library.Schedule

/-!
# Database operations

The Mongoose calls of the processors, one operation each.  Every operation is
atomic.  `mongo` says what an operation does when nothing disturbs it, and what a
disturbed one can leave behind: an `insertMany` any part of its batch, every other
operation the store as it was.
-/

namespace DlmmIndexer

open Documents JavaScript Atomic

/-- What a processor can throw. -/
inductive Failure where
  | error (message : String)
  | javascript (error : JavaScript.Error)
  | duplicateKey (coll : Coll)
  | unavailable
  deriving DecidableEq, Repr

/-- The operations, indexed by the type of their answers. -/
inductive Op : Type → Type where
  /-- `Model.findOne({ id })` -/
  | findOne (coll : Coll) (id : String) : Op (Option coll.Row)
  /-- `Model.find()` -/
  | find (coll : Coll) : Op (List coll.Row)
  /-- `Model.exists({ id })` -/
  | exists (coll : Coll) (id : String) : Op Bool
  /-- `Model.exists(filter)` -/
  | existsWhere (coll : Coll) (filter : coll.Row → Bool) : Op Bool
  /-- `Model.create(row)` -/
  | create (coll : Coll) (row : coll.Row) : Op Unit
  /-- `Model.insertMany(rows)`; only bins and shares, whose one unique index is `id` -/
  | insertMany (coll : Coll) (rows : List coll.Row) : Op Unit
  /-- `Model.updateOne({ id }, update)` -/
  | updateOne (coll : Coll) (id : String) (update : Update coll.id) : Op Unit
  /-- `Model.updateOne(filter, update)`, which updates the first match -/
  | updateWhere (coll : Coll) (filter : coll.Row → Bool) (update : Update coll.id) :
      Op Unit
  /-- `liquiditySharesModel.deleteMany({ positionId })`, with the deleted count -/
  | deleteShares (positionId : String) : Op ℕ
  /-- `positionModel.deleteOne({ id })`, with the deleted count -/
  | deletePosition (id : String) : Op ℕ

namespace Op

/-- Another position already has this `positionMintId`. -/
def mintTaken (positions : Collection Position.id) (row : Position) : Bool :=
  positions.rows.any fun other => other.id ≠ row.id && other.positionMintId = row.positionMintId

/-- The document clashes with another one under an index other than `id`. -/
def clashes (store : Store) : (coll : Coll) → coll.Row → Bool
  | .position, row => mintTaken (store .position) row
  | _, _ => false

/-- The operation when nothing disturbs it. -/
def apply {ρ : Type} : Op ρ → Store → Except Failure ρ × Store
  | .findOne coll id, store => (.ok ((store coll).findOne id), store)
  | .find coll, store => (.ok (store coll).rows, store)
  | .exists coll id, store => (.ok ((store coll).holds id), store)
  | .existsWhere coll filter, store => (.ok ((store coll).rows.any filter), store)
  | .create coll row, store =>
      match (store coll).create row, clashes store coll row with
      | some rows, false => (.ok (), store.put coll rows)
      | _, _ => (.error (.duplicateKey coll), store)
  | .insertMany coll batch, store =>
      match (store coll).insertMany batch with
      | (true, rows) => (.ok (), store.put coll rows)
      | (false, rows) => (.error (.duplicateKey coll), store.put coll rows)
  | .updateOne coll id update, store =>
      match ((store coll).findOne id).any fun row => clashes store coll (update.set row) with
      | false => (.ok (), store.put coll ((store coll).updateOne id update))
      | true => (.error (.duplicateKey coll), store)
  | .updateWhere coll filter update, store =>
      match (store coll).rows.find? filter with
      | none => (.ok (), store)
      | some row =>
          if clashes store coll (update.set row) then (.error (.duplicateKey coll), store)
          else (.ok (), store.put coll ((store coll).updateOne (coll.id row) update))
  | .deleteShares positionId, store =>
      (.ok ((store .liquidityShares).rows.countP fun row => row.positionId = positionId),
        store.put .liquidityShares
          ((store .liquidityShares).deleteWhere fun row => row.positionId = positionId))
  | .deletePosition id, store =>
      (.ok ((store .position).rows.countP fun row => row.id = id),
        store.put .position ((store .position).deleteWhere fun row => row.id = id))

/-- What a disturbed operation can leave behind. -/
def fails {ρ : Type} : Op ρ → Store → Store → Prop
  | .insertMany coll batch, store, after =>
      ∃ stored, stored.Sublist batch ∧ after = store.put coll ((store coll).insertFree stored)
  | _, store, after => after = store

/-- The collection an operation may write. -/
def target {ρ : Type} : Op ρ → Option Coll
  | .create coll _ => some coll
  | .insertMany coll _ => some coll
  | .updateOne coll _ _ => some coll
  | .updateWhere coll _ _ => some coll
  | .deleteShares _ => some .liquidityShares
  | .deletePosition _ => some .position
  | _ => none

end Op

/-- The document database. -/
def mongo : Database Op Store Failure := ⟨Op.apply, Op.fails⟩

/-- What the processors are written in. -/
abbrev Action := Program Op Failure

def findOne (coll : Coll) (id : String) : Action (Option coll.Row) :=
  .perform (.findOne coll id)

def find (coll : Coll) : Action (List coll.Row) := .perform (.find coll)

def existsId (coll : Coll) (id : String) : Action Bool := .perform (.exists coll id)

def existsWhere (coll : Coll) (filter : coll.Row → Bool) : Action Bool :=
  .perform (.existsWhere coll filter)

def create (coll : Coll) (row : coll.Row) : Action Unit := .perform (.create coll row)

def insertMany (coll : Coll) (rows : List coll.Row) : Action Unit :=
  .perform (.insertMany coll rows)

def updateOne (coll : Coll) (id : String) (update : Update coll.id) : Action Unit :=
  .perform (.updateOne coll id update)

def updateWhere (coll : Coll) (filter : coll.Row → Bool)
    (update : Update coll.id) : Action Unit :=
  .perform (.updateWhere coll filter update)

def deleteShares (positionId : String) : Action ℕ := .perform (.deleteShares positionId)

def deletePosition (id : String) : Action ℕ := .perform (.deletePosition id)

/-- `throw new Error(message)` -/
def fail {α : Type} (message : String) : Action α := .throw (.error message)

/-- A JavaScript computation inside a processor. -/
def compute {α : Type} (outcome : Except JavaScript.Error α) : Action α :=
  .ofExcept (outcome.mapError .javascript)

/-! ## Normal completion, operation by operation -/

section Completes

variable {store after : Store} {coll : Coll}

attribute [local simp] mongo Op.apply

@[simp] theorem completes_findOne {id : String} {row : Option coll.Row} :
    mongo.Completes (findOne coll id) store row after ↔
      row = (store coll).findOne id ∧ after = store := by
  rw [findOne, Database.completes_perform]
  simp [mongo, Op.apply, eq_comm]

@[simp] theorem completes_find {rows : List coll.Row} :
    mongo.Completes (find coll) store rows after ↔ rows = (store coll).rows ∧ after = store := by
  rw [find, Database.completes_perform]
  simp [mongo, Op.apply, eq_comm]

/-- A lookup that finds its row goes on with the row in the same store. -/
theorem completes_found {id : String} {row : coll.Row} {α : Type}
    {rest : Option coll.Row → Action α} {value : α} (found : (store coll).findOne id = some row)
    (finished : mongo.Completes (rest (some row)) store value after) :
    mongo.Completes (findOne coll id >>= rest) store value after :=
  Database.completes_bind.mpr ⟨some row, store, completes_findOne.mpr ⟨found.symm, rfl⟩, finished⟩

/-- What comes after a lookup goes on in the same store. -/
theorem completes_findOne_bind {id : String} {α : Type} {rest : Option coll.Row → Action α}
    {value : α} : mongo.Completes (findOne coll id >>= rest) store value after ↔
      mongo.Completes (rest ((store coll).findOne id)) store value after := by
  rw [Database.completes_bind]
  constructor
  · rintro ⟨_, _, found, finished⟩
    obtain ⟨rfl, rfl⟩ := completes_findOne.mp found
    exact finished
  · exact fun finished => ⟨_, _, completes_findOne.mpr ⟨rfl, rfl⟩, finished⟩

@[simp] theorem completes_existsId {id : String} {found : Bool} :
    mongo.Completes (existsId coll id) store found after ↔
      found = (store coll).holds id ∧ after = store := by
  rw [existsId, Database.completes_perform]
  simp [mongo, Op.apply, eq_comm]

@[simp] theorem completes_existsWhere {filter : coll.Row → Bool} {found : Bool} :
    mongo.Completes (existsWhere coll filter) store found after ↔
      found = (store coll).rows.any filter ∧ after = store := by
  rw [existsWhere, Database.completes_perform]
  simp [mongo, Op.apply, eq_comm]

@[simp] theorem completes_create {row : coll.Row} {answer : Unit} :
    mongo.Completes (create coll row) store answer after ↔
      ∃ rows, (store coll).create row = some rows ∧ Op.clashes store coll row = false ∧
        after = store.put coll rows := by
  rw [create, Database.completes_perform]
  simp only [mongo, Op.apply]
  cases (store coll).create row with
  | none => simp
  | some rows => cases Op.clashes store coll row <;> simp [eq_comm]

/-- An insertion that is carried out adds the row. -/
theorem store_of_create {row : coll.Row} {answer : Unit}
    (applied : mongo.apply (.create coll row) store = (.ok answer, after)) :
    ∃ rows, (store coll).create row = some rows ∧ after = store.put coll rows := by
  obtain ⟨rows, created, -, same⟩ :=
    completes_create.mp (Database.completes_perform.mpr applied)
  exact ⟨rows, created, same⟩

/-- A rejected insertion leaves the store as it was. -/
theorem store_of_create_error {row : coll.Row} {failure : Failure}
    (rejected : mongo.apply (.create coll row) store = (.error failure, after)) :
    after = store := by
  simp only [mongo, Op.apply] at rejected
  split at rejected <;> cases rejected
  rfl

@[simp] theorem completes_insertMany {batch : List coll.Row} {answer : Unit} :
    mongo.Completes (insertMany coll batch) store answer after ↔
      ∃ rows, (store coll).insertMany batch = (true, rows) ∧ after = store.put coll rows := by
  rw [insertMany, Database.completes_perform]
  simp only [mongo, Op.apply]
  rcases (store coll).insertMany batch with ⟨complete, rows⟩
  cases complete <;> simp [eq_comm]

@[simp] theorem completes_updateOne {id : String} {update : Update coll.id} {answer : Unit} :
    mongo.Completes (updateOne coll id update) store answer after ↔
      (∀ row, (store coll).findOne id = some row →
        Op.clashes store coll (update.set row) = false) ∧
      after = store.put coll ((store coll).updateOne id update) := by
  rw [updateOne, Database.completes_perform]
  simp only [mongo, Op.apply]
  cases (store coll).findOne id with
  | none => simp [eq_comm (a := after)]
  | some row =>
      cases clash : Op.clashes store coll (update.set row) <;> simp [clash, eq_comm (a := after)]

/-- An update whose filter matches nothing changes nothing. -/
theorem completes_updateWhere_of_unmatched {filter : coll.Row → Bool} {update : Update coll.id}
    {answer : Unit} (unmatched : ∀ row, filter row = false) :
    mongo.Completes (updateWhere coll filter update) store answer after ↔ after = store := by
  have none : (store coll).rows.find? filter = none :=
    List.find?_eq_none.mpr fun row _ => by rw [unmatched]; exact Bool.false_ne_true
  rw [updateWhere, Database.completes_perform]
  simp [mongo, Op.apply, none, eq_comm]

@[simp] theorem completes_deleteShares {positionId : String} {count : ℕ} :
    mongo.Completes (deleteShares positionId) store count after ↔
      count = (store .liquidityShares).rows.countP (fun row => row.positionId = positionId) ∧
      after = store.put .liquidityShares
        ((store .liquidityShares).deleteWhere fun row => row.positionId = positionId) := by
  rw [deleteShares, Database.completes_perform]
  simp [mongo, Op.apply, eq_comm]

@[simp] theorem completes_deletePosition {id : String} {count : ℕ} :
    mongo.Completes (deletePosition id) store count after ↔
      count = (store .position).rows.countP (fun row => row.id = id) ∧
      after = store.put .position ((store .position).deleteWhere fun row => row.id = id) := by
  rw [deletePosition, Database.completes_perform]
  simp [mongo, Op.apply, eq_comm]

@[simp] theorem not_completes_fail {α : Type} {message : String} {value : α} :
    ¬mongo.Completes (fail message) store value after :=
  Database.not_completes_throw

/-- A lookup whose row is needed has found it. -/
theorem of_completes_needed {id : String} {α : Type} {rest : Option coll.Row → Action α}
    {message : String} {value : α}
    (completes : mongo.Completes (findOne coll id >>= rest) store value after)
    (needed : rest none = fail message) :
    ∃ row, (store coll).findOne id = some row ∧
      mongo.Completes (rest (some row)) store value after := by
  have finished := completes_findOne_bind.mp completes
  cases found : (store coll).findOne id with
  | none =>
      rw [found, needed] at finished
      exact absurd finished not_completes_fail
  | some row => exact ⟨row, rfl, found ▸ finished⟩

@[simp] theorem completes_compute {α : Type} {outcome : Except JavaScript.Error α} {value : α} :
    mongo.Completes (compute outcome) store value after ↔
      outcome = .ok value ∧ after = store := by
  rw [compute, Database.completes_ofExcept]
  cases outcome <;> simp [Except.mapError]

end Completes

/-! ## Failures, operation by operation -/

section Throws

variable {store after : Store} {coll : Coll} {failure : Failure}

theorem not_throws_findOne {id : String} :
    ¬mongo.Throws (findOne coll id) store failure after := by
  rw [findOne, Database.throws_perform]
  simp [mongo, Op.apply]

theorem not_throws_existsId {id : String} :
    ¬mongo.Throws (existsId coll id) store failure after := by
  rw [existsId, Database.throws_perform]
  simp [mongo, Op.apply]

/-- A lookup does not fail, what comes after it may. -/
@[simp] theorem throws_findOne_bind {id : String} {α : Type}
    {rest : Option coll.Row → Action α} :
    mongo.Throws (findOne coll id >>= rest) store failure after ↔
      mongo.Throws (rest ((store coll).findOne id)) store failure after := by
  rw [Database.throws_bind, or_iff_right not_throws_findOne]
  constructor
  · rintro ⟨_, _, found, threw⟩
    obtain ⟨rfl, rfl⟩ := completes_findOne.mp found
    exact threw
  · exact fun threw => ⟨_, _, completes_findOne.mpr ⟨rfl, rfl⟩, threw⟩

/-- An insertion fails on a key that is taken only. -/
theorem of_throws_create {row : coll.Row}
    (threw : mongo.Throws (create coll row) store failure after) :
    failure = .duplicateKey coll ∧ after = store := by
  rw [create, Database.throws_perform] at threw
  simp only [mongo, Op.apply] at threw
  split at threw
  · cases threw
  · cases threw
    exact ⟨rfl, rfl⟩

theorem of_throws_updateOne {id : String} {update : Update coll.id}
    (threw : mongo.Throws (updateOne coll id update) store failure after) :
    failure = .duplicateKey coll ∧ after = store := by
  rw [updateOne, Database.throws_perform] at threw
  simp only [mongo, Op.apply] at threw
  split at threw
  · cases threw
  · cases threw
    exact ⟨rfl, rfl⟩

@[simp] theorem throws_fail {α : Type} {message : String} :
    mongo.Throws (fail message : Action α) store failure after ↔
      failure = .error message ∧ after = store :=
  Database.throws_throw

theorem of_throws_compute {α : Type} {outcome : Except JavaScript.Error α}
    (threw : mongo.Throws (compute outcome) store failure after) :
    ∃ error, failure = .javascript error ∧ after = store := by
  obtain ⟨failed, rfl⟩ := Database.throws_ofExcept.mp threw
  cases outcome with
  | ok => cases failed
  | error error =>
      cases failed
      exact ⟨error, rfl, rfl⟩

/-! `throw new Error` is not what JavaScript and the database throw, so of a program that
threw such an error the computations and the writes have passed. -/

section Passed

variable {α β : Type} {message : String} {rest : α → Action β}

theorem passed_compute {outcome : Except JavaScript.Error α}
    (threw : mongo.Throws (compute outcome >>= rest) store (.error message) after) :
    ∃ value, outcome = .ok value ∧ mongo.Throws (rest value) store (.error message) after := by
  rcases Database.throws_bind.mp threw with failed | ⟨value, _, computed, later⟩
  · obtain ⟨error, ⟨⟩, -⟩ := of_throws_compute failed
  · obtain ⟨same, rfl⟩ := completes_compute.mp computed
    exact ⟨value, same, later⟩

theorem passed_create {row : coll.Row} {rest : Unit → Action β}
    (threw : mongo.Throws (create coll row >>= rest) store (.error message) after) :
    ∃ rows, (store coll).create row = some rows ∧
      mongo.Throws (rest ()) (store.put coll rows) (.error message) after := by
  rcases Database.throws_bind.mp threw with failed | ⟨_, _, created, later⟩
  · cases (of_throws_create failed).1
  · obtain ⟨rows, same, -, rfl⟩ := completes_create.mp created
    exact ⟨rows, same, later⟩

theorem passed_updateOne {id : String} {update : Update coll.id} {rest : Unit → Action β}
    (threw : mongo.Throws (updateOne coll id update >>= rest) store (.error message) after) :
    mongo.Throws (rest ()) (store.put coll ((store coll).updateOne id update)) (.error message)
      after := by
  rcases Database.throws_bind.mp threw with failed | ⟨_, _, updated, later⟩
  · cases (of_throws_updateOne failed).1
  · obtain ⟨-, rfl⟩ := completes_updateOne.mp updated
    exact later

end Passed

end Throws

/-! ## Attempts that stop, operation by operation -/

section Stops

variable {store after : Store} {coll : Coll}

/-- A program that stops after a lookup has stopped there, or after it in the same store. -/
theorem of_stops_findOne_bind {id : String} {α : Type} {rest : Option coll.Row → Action α}
    (stops : mongo.Stops (findOne coll id >>= rest) store after) :
    after = store ∨ mongo.Stops (rest ((store coll).findOne id)) store after := by
  rcases Database.stops_bind.mp stops with first | ⟨_, _, found, later⟩
  · rcases Database.stops_perform.mp first with ⟨failure, applied⟩ | failed
    · cases applied
    · exact .inl failed
  · obtain ⟨rfl, rfl⟩ := completes_findOne.mp found
    exact .inr later

theorem of_stops_find_bind {α : Type} {rest : List coll.Row → Action α}
    (stops : mongo.Stops (find coll >>= rest) store after) :
    after = store ∨ mongo.Stops (rest (store coll).rows) store after := by
  rcases Database.stops_bind.mp stops with first | ⟨_, _, found, later⟩
  · rcases Database.stops_perform.mp first with ⟨failure, applied⟩ | failed
    · cases applied
    · exact .inl failed
  · obtain ⟨rfl, rfl⟩ := completes_find.mp found
    exact .inr later

/-- An insertion that stops has inserted nothing. -/
theorem of_stops_create {row : coll.Row} (stops : mongo.Stops (create coll row) store after) :
    after = store := by
  rcases Database.stops_perform.mp stops with ⟨failure, applied⟩ | failed
  · exact store_of_create_error applied
  · exact failed

end Stops

theorem obeys_compute {contract : Contract Op Store} {log : List (Event Op)} {α : Type}
    {outcome : Except JavaScript.Error α} {post : List (Event Op) → α → Prop}
    (computed : ∀ value, outcome = .ok value → post log value) :
    (compute outcome).Obeys mongo contract post log := by
  rw [compute, Program.obeys_ofExcept]
  cases outcome with
  | error failure => nofun
  | ok value =>
      rintro _ ⟨⟩
      exact computed value rfl

/-! ## What operations leave alone -/

/-- An operation that does not write a collection leaves it as it was, also when it
is disturbed. -/
theorem Op.frame {ρ : Type} {operation : Op ρ} {coll : Coll} (other : operation.target ≠ some coll)
    (store : Store) :
    (operation.apply store).2 coll = store coll ∧
      ∀ after, operation.fails store after → after coll = store coll := by
  cases operation with
  | findOne | find | «exists» | existsWhere =>
      exact ⟨rfl, fun after same => congrFun same coll⟩
  | create written row =>
      have different : coll ≠ written := fun same => other (congrArg some same.symm)
      refine ⟨?_, fun after same => congrFun same coll⟩
      simp only [apply]
      split <;> simp [different]
  | insertMany written batch =>
      have different : coll ≠ written := fun same => other (congrArg some same.symm)
      constructor
      · simp only [apply]
        split <;> simp [different]
      · rintro after ⟨stored, -, rfl⟩
        exact Store.put_other different
  | updateOne written id update =>
      have different : coll ≠ written := fun same => other (congrArg some same.symm)
      refine ⟨?_, fun after same => congrFun same coll⟩
      simp only [apply]
      split <;> simp [different]
  | updateWhere written filter update =>
      have different : coll ≠ written := fun same => other (congrArg some same.symm)
      refine ⟨?_, fun after same => congrFun same coll⟩
      simp only [apply]
      split
      · rfl
      · split <;> simp [different]
  | deleteShares positionId =>
      have different : coll ≠ .liquidityShares := fun same => other (congrArg some same.symm)
      exact ⟨Store.put_other different, fun after same => congrFun same coll⟩
  | deletePosition id =>
      have different : coll ≠ .position := fun same => other (congrArg some same.symm)
      exact ⟨Store.put_other different, fun after same => congrFun same coll⟩

/-- Inserting a document touches no other id. -/
theorem Op.findOne_apply_create {coll : Coll} {row : coll.Row} {id : String}
    (different : coll.id row ≠ id) (store : Store) :
    (((Op.create coll row).apply store).2 coll).findOne id = (store coll).findOne id := by
  simp only [apply]
  split
  next rows created _ =>
    dsimp only
    rw [Store.put_same, Collection.findOne_create_of_ne created different]
  · rfl

/-- Inserting a document touches no document that is there. -/
theorem Op.findOne_apply_create_of_found {coll : Coll} {row old : coll.Row} {id : String}
    {store : Store} (found : (store coll).findOne id = some old) :
    (((Op.create coll row).apply store).2 coll).findOne id = some old := by
  simp only [apply]
  split
  · next created _ => exact Store.findOne_put_create created found
  · exact found

/-- Assigning fields of a document touches no other id. -/
theorem Op.findOne_apply_updateOne {coll : Coll} {update : Update coll.id} {other id : String}
    (different : other ≠ id) (store : Store) :
    (((Op.updateOne coll other update).apply store).2 coll).findOne id =
      (store coll).findOne id := by
  simp only [apply]
  split
  · dsimp only
    rw [Store.put_same, Collection.findOne_updateOne, if_neg different]
  · rfl

/-- Documents are deleted from these two collections only. -/
def Coll.Deletable (coll : Coll) : Prop := coll = .liquidityShares ∨ coll = .position

/-- A document of any other collection stays under its id, whatever is done. -/
theorem mongo_stable_holds {coll : Coll} (kept : ¬coll.Deletable) (id : String) :
    mongo.Stable fun store => (store coll).holds id = true := by
  intro ρ operation store held
  by_cases writes : operation.target = some coll
  swap
  · have frame := Op.frame writes store
    refine ⟨?_, fun after failed => ?_⟩
    · change ((operation.apply store).2 coll).holds id = true
      rwa [frame.1]
    · change (after coll).holds id = true
      rwa [frame.2 after failed]
  cases operation with
  | findOne | find | «exists» | existsWhere => cases writes
  | create written row =>
      obtain rfl : written = coll := Option.some.inj writes
      refine ⟨?_, fun after same => by rw [show after = store from same]; exact held⟩
      simp only [mongo, Op.apply]
      split
      next rows created _ =>
          simpa only [Store.put_same] using Collection.holds_create created held
      · exact held
  | insertMany written batch =>
      obtain rfl : written = coll := Option.some.inj writes
      constructor
      · simp only [mongo, Op.apply]
        obtain ⟨row, member, rfl⟩ := Collection.holds_iff.mp held
        split
        all_goals
          next rows inserted =>
            simpa only [Store.put_same] using Collection.holds_iff.mpr
              ⟨row, Collection.mem_insertMany_of_mem inserted member, rfl⟩
      · rintro after ⟨stored, -, rfl⟩
        obtain ⟨row, member, rfl⟩ := Collection.holds_iff.mp held
        simpa only [Store.put_same] using Collection.holds_iff.mpr
          ⟨row, Collection.mem_insertFree_of_mem member, rfl⟩
  | updateOne written other update =>
      obtain rfl : written = coll := Option.some.inj writes
      refine ⟨?_, fun after same => by rw [show after = store from same]; exact held⟩
      simp only [mongo, Op.apply]
      split
      · simpa using held
      · exact held
  | updateWhere written filter update =>
      obtain rfl : written = coll := Option.some.inj writes
      refine ⟨?_, fun after same => by rw [show after = store from same]; exact held⟩
      simp only [mongo, Op.apply]
      split
      · exact held
      · split
        · exact held
        · simpa using held
  | deleteShares positionId => exact absurd (.inl (Option.some.inj writes).symm) kept
  | deletePosition other => exact absurd (.inr (Option.some.inj writes).symm) kept

/-! ## What a program writes -/

/-- The operation writes none but the listed collections. -/
def Op.Within (colls : List Coll) {ρ : Type} (operation : Op ρ) : Prop :=
  ∀ coll, operation.target = some coll → coll ∈ colls

/-- Every operation of the program writes none but the listed collections. -/
abbrev Action.Within {α : Type} (colls : List Coll) (program : Action α) : Prop :=
  Program.Every (fun {_} operation => Op.Within colls operation) program

section Within

variable {colls : List Coll} {coll : Coll} {α : Type}

theorem Action.Within.mono {larger : List Coll} (subset : colls ⊆ larger) {program : Action α}
    (within : program.Within colls) : program.Within larger :=
  Program.Every.imp (fun _ allowed coll written => subset (allowed coll written)) within

theorem within_findOne {id : String} : (findOne coll id).Within colls :=
  Program.every_perform fun _ written => nomatch written

theorem within_find : (find coll).Within colls :=
  Program.every_perform fun _ written => nomatch written

theorem within_existsId {id : String} : (existsId coll id).Within colls :=
  Program.every_perform fun _ written => nomatch written

theorem within_existsWhere {filter : coll.Row → Bool} : (existsWhere coll filter).Within colls :=
  Program.every_perform fun _ written => nomatch written

theorem within_create {row : coll.Row} (member : coll ∈ colls) : (create coll row).Within colls :=
  Program.every_perform fun _ written => Option.some.inj written ▸ member

theorem within_insertMany {rows : List coll.Row} (member : coll ∈ colls) :
    (insertMany coll rows).Within colls :=
  Program.every_perform fun _ written => Option.some.inj written ▸ member

theorem within_updateOne {id : String} {update : Update coll.id} (member : coll ∈ colls) :
    (updateOne coll id update).Within colls :=
  Program.every_perform fun _ written => Option.some.inj written ▸ member

theorem within_updateWhere {filter : coll.Row → Bool} {update : Update coll.id}
    (member : coll ∈ colls) : (updateWhere coll filter update).Within colls :=
  Program.every_perform fun _ written => Option.some.inj written ▸ member

theorem within_deleteShares {positionId : String} (member : .liquidityShares ∈ colls) :
    (deleteShares positionId).Within colls :=
  Program.every_perform fun _ written => Option.some.inj written ▸ member

theorem within_deletePosition {id : String} (member : .position ∈ colls) :
    (deletePosition id).Within colls :=
  Program.every_perform fun _ written => Option.some.inj written ▸ member

theorem within_fail {message : String} : (fail message : Action α).Within colls :=
  Program.every_throw _

theorem within_compute {outcome : Except JavaScript.Error α} : (compute outcome).Within colls :=
  Program.every_ofExcept _

/-- A program that does not write a collection leaves it as it was. -/
theorem Action.Within.completes {program : Action α} (within : program.Within colls)
    (absent : coll ∉ colls) {store after : Store} {value : α}
    (completes : mongo.Completes program store value after) : after coll = store coll := by
  refine Program.Every.completes (fun middle => middle coll = store coll)
    (fun operation middle answer last allowed applied kept => ?_) within completes rfl
  have untouched : operation.target ≠ some coll := fun written => absent (allowed coll written)
  have frame := (Op.frame untouched middle).1
  rw [show operation.apply middle = (.ok answer, last) from applied] at frame
  rw [← kept, ← frame]

end Within

end DlmmIndexer

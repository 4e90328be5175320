import DlmmIndexer.Library.Collection

/-!
# Tables

Seen from its index, a collection is a partial function from ids to documents.  Such a
table changes in two ways only: `fill` gives values to ids that have none, and `amend`
changes the values that are there.  Inserting and assigning documents are these two on
`findOne`, and a table may be seen through a projection of its values (`view`) and
through an injective naming of its ids (`under`).
-/

namespace Documents

universe u v w x

abbrev Table (κ : Type v) (β : Type u) := κ → Option β

namespace Table

variable {κ : Type v} {ι : Type x} {α : Type u} {β : Type w}

/-- The table with one value. -/
def single [DecidableEq κ] (id : κ) (value : α) : Table κ α :=
  fun other => if other = id then some value else none

/-- Values for the ids that have none. -/
def fill (table more : Table κ α) : Table κ α := fun id => (table id).or (more id)

/-- Change every value by what its id says. -/
def amend (table : Table κ α) (change : κ → α → α) : Table κ α :=
  fun id => (table id).map (change id)

/-- The change of one value. -/
def only [DecidableEq κ] (id : κ) (change : α → α) : κ → α → α :=
  fun other value => if other = id then change value else value

/-- The table through a projection of its values. -/
def view (table : Table κ α) (project : α → β) : Table κ β := fun id => (table id).map project

/-- The table under other names. -/
def under (table : Table κ α) (name : ι → κ) : Table ι α := fun id => table (name id)

theorem fill_of_known {table more : Table κ α}
    (known : ∀ id, (more id).isSome → (table id).isSome) : table.fill more = table := by
  funext id
  rw [fill]
  cases found : table id with
  | some value => rfl
  | none =>
      cases other : more id with
      | none => rfl
      | some value =>
          have held := known id (by rw [other]; rfl)
          rw [found] at held
          cases held

theorem fill_single_of_known [DecidableEq κ] {table : Table κ α} {id : κ} {value : α}
    (known : (table id).isSome) : table.fill (single id value) = table :=
  fill_of_known fun other given => by
    rw [single] at given
    split at given
    next here => rwa [here]
    · cases given

@[simp] theorem amend_id (table : Table κ α) : (table.amend fun _ value => value) = table :=
  funext fun _ => Option.map_id'

theorem amend_amend {table : Table κ α} {first second : κ → α → α} :
    (table.amend first).amend second = table.amend fun id value => second id (first id value) := by
  funext id
  simp only [amend, Option.map_map, Function.comp_def]

/-- Changes that commute value by value may be made in either order. -/
theorem amend_comm {table : Table κ α} {first second : κ → α → α}
    (commute : ∀ id value, second id (first id value) = first id (second id value)) :
    (table.amend first).amend second = (table.amend second).amend first := by
  simp only [amend_amend, commute]

@[simp] theorem view_fill {table more : Table κ α} {project : α → β} :
    (table.fill more).view project = (table.view project).fill (more.view project) := by
  funext id
  simp only [view, fill]
  cases table id <;> simp

theorem view_single [DecidableEq κ] {id : κ} {value : α} {project : α → β} :
    (single id value).view project = single id (project value) := by
  funext other
  simp only [view, single]
  split <;> rfl

/-- A change that the projection shows as a change of what is shown. -/
theorem view_amend {table : Table κ α} {project : α → β} {change : κ → α → α}
    {shown : κ → β → β}
    (shows : ∀ id value, table id = some value →
      project (change id value) = shown id (project value)) :
    (table.amend change).view project = (table.view project).amend shown := by
  funext id
  simp only [view, amend]
  cases found : table id with
  | none => rfl
  | some value => simp only [Option.map_some, shows id value found]

/-- A change that the projection does not show. -/
theorem view_amend_of_hidden {table : Table κ α} {project : α → β} {change : κ → α → α}
    (hidden : ∀ id value, table id = some value → project (change id value) = project value) :
    (table.amend change).view project = table.view project := by
  funext id
  simp only [view, amend]
  cases found : table id with
  | none => rfl
  | some value => simp only [Option.map_some, hidden id value found]

@[simp] theorem under_fill {table more : Table κ α} {name : ι → κ} :
    (table.fill more).under name = (table.under name).fill (more.under name) := rfl

@[simp] theorem under_amend {table : Table κ α} {name : ι → κ} {change : κ → α → α} :
    (table.amend change).under name = (table.under name).amend fun id => change (name id) := rfl

/-- The change of one value, under other names. -/
theorem under_amend_only [DecidableEq κ] [DecidableEq ι] {name : ι → κ}
    (injective : Function.Injective name) {table : Table κ α} {id : ι} {change : α → α} :
    (table.amend (only (name id) change)).under name =
      (table.under name).amend (only id change) := by
  funext other
  refine congrArg (Option.map · (table (name other))) (funext fun value => ?_)
  simp only [only, injective.eq_iff]

end Table

/-! ## Collections as tables -/

namespace Collection

variable {α : Type u} {κ : Type v} {key : α → κ} [DecidableEq κ]
variable {collection larger : Collection key}

theorem table_create {row : α} (created : collection.create row = some larger) :
    larger.findOne = Table.fill collection.findOne (.single (key row) row) := by
  funext id
  rw [Table.fill, Table.single]
  split
  next here =>
    rw [here, findOne_create_self created, fresh_of_create created, Option.none_or]
  next other =>
    rw [findOne_create_of_ne created (Ne.symm other), Option.or_none]

theorem table_insertMany {batch : List α}
    (inserted : collection.insertMany batch = (true, larger)) :
    larger.findOne =
      Table.fill collection.findOne fun id => batch.find? fun row => decide (key row = id) :=
  funext (findOne_insertMany inserted)

theorem table_updateOne {id : κ} {update : Update key} :
    (collection.updateOne id update).findOne =
      Table.amend collection.findOne (Table.only id update.set) := by
  funext other
  rw [findOne_updateOne, Table.amend]
  by_cases here : id = other
  · subst here
    rw [if_pos rfl]
    exact congrArg (Option.map · _) (funext fun _ => (if_pos rfl).symm)
  · have untouched : Table.only id update.set other = fun row => row :=
      funext fun _ => if_neg (Ne.symm here)
    rw [if_neg here, untouched, Option.map_id']

section View

variable {β : Type w} {project : α → β}

theorem view_create {row : α} (created : collection.create row = some larger) :
    Table.view larger.findOne project =
      Table.fill (Table.view collection.findOne project) (.single (key row) (project row)) := by
  rw [table_create created, Table.view_fill, Table.view_single]

/-- An assignment that the projection shows as a change. -/
theorem view_updateOne {id : κ} {update : Update key} {change : β → β}
    (shows : ∀ row, collection.findOne id = some row →
      project (update.set row) = change (project row)) :
    Table.view (collection.updateOne id update).findOne project =
      Table.amend (Table.view collection.findOne project) (Table.only id change) := by
  rw [table_updateOne]
  refine Table.view_amend fun other row found => ?_
  simp only [Table.only]
  split
  next here => exact shows row (here ▸ found)
  · rfl

end View

/-- Assignments to different documents are one change of the table. -/
theorem table_updateEach {β : Type w} {items : List β} {id : β → κ} {update : β → Update key}
    (distinct : (items.map id).Nodup) :
    (collection.updateEach items id update).findOne =
      Table.amend collection.findOne fun name row =>
        (items.find? fun item => decide (id item = name)).elim row fun item =>
          (update item).set row := by
  funext name
  rw [Table.amend]
  cases found : items.find? fun item => decide (id item = name) with
  | none =>
      have others : ∀ item ∈ items, id item ≠ name := fun item member same =>
        List.find?_eq_none.mp found item member (decide_eq_true same)
      rw [findOne_updateEach_of_ne others]
      exact Option.map_id'.symm
  | some item =>
      have named := List.find?_some found
      simp only [decide_eq_true_eq] at named
      subst named
      exact findOne_updateEach_of_mem distinct (List.mem_of_find?_eq_some found)

end Collection

end Documents

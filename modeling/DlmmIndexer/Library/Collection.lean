import Mathlib.Data.List.Nodup
import Mathlib.Algebra.BigOperators.Group.List.Basic
import Mathlib.Algebra.Ring.Int.Defs

/-!
# Collections with a unique index

A document collection is a list of documents in insertion order, no two of which
have the same value under the unique index.  The index is a function of the
document, so one development serves every document type and every index.

The operations are the ones a document store offers by index value: look up,
create, create in batch, assign fields, delete.  Assignments are restricted to
those that keep the indexed field, hence every operation stays inside the type.
`total` sums an integer over the documents, and each operation says how it moves.
-/

namespace Documents

universe u v w

variable {α : Type u} {κ : Type v}

/-- Documents in insertion order, pairwise different under the unique index. -/
structure Collection (key : α → κ) where
  rows : List α
  nodup : (rows.map key).Nodup

/-- An assignment of fields that leaves the indexed field alone. -/
structure Update (key : α → κ) where
  set : α → α
  key_set : ∀ row, key (set row) = key row := by intro row; rfl

namespace Collection

variable {key : α → κ}

/-- The collection without documents. -/
def empty (key : α → κ) : Collection key := ⟨[], List.nodup_nil⟩

instance : Membership α (Collection key) := ⟨fun collection row => row ∈ collection.rows⟩

theorem mem_rows {collection : Collection key} {row : α} :
    row ∈ collection.rows ↔ row ∈ collection := Iff.rfl

@[simp] theorem not_mem_empty (row : α) : row ∉ empty key := by
  simp [← mem_rows, empty]

@[ext] theorem ext {left right : Collection key} (equal : left.rows = right.rows) :
    left = right := by
  cases left; cases right; cases equal; rfl

/-- Two documents of one collection with the same index value are one document. -/
theorem eq_of_key_eq (collection : Collection key) {left right : α}
    (leftMem : left ∈ collection) (rightMem : right ∈ collection)
    (equal : key left = key right) : left = right :=
  List.inj_on_of_nodup_map collection.nodup leftMem rightMem equal

/-- Collections of the same documents differ in their order only. -/
theorem perm_of_mem_iff {left right : Collection key} (same : ∀ row, row ∈ left ↔ row ∈ right) :
    left.rows.Perm right.rows :=
  (List.perm_ext_iff_of_nodup left.nodup.of_map right.nodup.of_map).mpr same

/-- Delete every document that satisfies the filter. -/
def deleteWhere (collection : Collection key) (filter : α → Bool) : Collection key where
  rows := collection.rows.filter fun row => !filter row
  nodup := collection.nodup.sublist (List.filter_sublist.map key)

theorem mem_deleteWhere {collection : Collection key} {filter : α → Bool} {row : α} :
    row ∈ collection.deleteWhere filter ↔ row ∈ collection ∧ filter row = false := by
  simp [← mem_rows, deleteWhere]

/-- The collection without the documents under some ids. -/
def without (collection : Collection key) (ids : κ → Bool) : Collection key :=
  collection.deleteWhere fun row => ids (key row)

theorem rows_without {collection : Collection key} {ids : κ → Bool} :
    (collection.without ids).rows = collection.rows.filter fun row => !ids (key row) := rfl

theorem without_eq_self {collection : Collection key} {ids : κ → Bool}
    (none : ∀ id, ids id = false) : collection.without ids = collection := by
  ext1
  rw [rows_without, List.filter_eq_self]
  intro row _
  rw [none, Bool.not_false]

/-- The sum of an integer over all documents. -/
def total (collection : Collection key) (weight : α → ℤ) : ℤ :=
  (collection.rows.map weight).sum

theorem total_congr {collection : Collection key} {left right : α → ℤ}
    (equal : ∀ row ∈ collection, left row = right row) :
    collection.total left = collection.total right := by
  rw [total, total, List.map_congr_left equal]

variable [DecidableEq κ]

/-! ## Operations -/

/-- The document with the given index value. -/
def findOne (collection : Collection key) (id : κ) : Option α :=
  collection.rows.find? fun row => decide (key row = id)

/-- Whether some document has the given index value. -/
def holds (collection : Collection key) (id : κ) : Bool :=
  (collection.findOne id).isSome

/-- Add a document, unless its index value is taken. -/
def create (collection : Collection key) (row : α) : Option (Collection key) :=
  if fresh : key row ∉ collection.rows.map key then
    some ⟨collection.rows ++ [row], by
      rw [List.map_append, List.nodup_append]
      refine ⟨collection.nodup, List.nodup_singleton _, ?_⟩
      intro value valueMem other otherMem equal
      rw [List.map_singleton, List.mem_singleton] at otherMem
      exact fresh (otherMem ▸ equal ▸ valueMem)⟩
  else
    none

/-- Add documents in order up to the first whose index value is taken.  The flag
tells whether all of them were added. -/
def insertMany (collection : Collection key) : List α → Bool × Collection key
  | [] => (true, collection)
  | row :: rest =>
      match collection.create row with
      | none => (false, collection)
      | some larger => larger.insertMany rest

/-- Add the documents whose index value is free, skipping the others. -/
def insertFree (collection : Collection key) : List α → Collection key
  | [] => collection
  | row :: rest => ((collection.create row).getD collection).insertFree rest

/-- Assign fields of the document with the given index value. -/
def updateOne (collection : Collection key) (id : κ) (update : Update key) :
    Collection key where
  rows := collection.rows.map fun row => if key row = id then update.set row else row
  nodup := by
    have same : (collection.rows.map fun row =>
        if key row = id then update.set row else row).map key = collection.rows.map key := by
      rw [List.map_map]
      refine List.map_congr_left fun row _ => ?_
      by_cases found : key row = id <;> simp [found, update.key_set]
    rw [same]
    exact collection.nodup

/-! ## Membership and lookup -/

theorem findOne_eq_some {collection : Collection key} {id : κ} {row : α} :
    collection.findOne id = some row ↔ row ∈ collection ∧ key row = id := by
  constructor
  · intro found
    have accepted := List.find?_some found
    exact ⟨List.mem_of_find?_eq_some found, by simpa using accepted⟩
  · rintro ⟨member, rfl⟩
    cases found : collection.findOne (key row) with
    | none =>
        have absent := List.find?_eq_none.mp found row member
        simp at absent
    | some other =>
        have accepted := List.find?_some found
        have equal : key other = key row := by simpa using accepted
        rw [collection.eq_of_key_eq (List.mem_of_find?_eq_some found) member equal]

theorem findOne_of_mem {collection : Collection key} {row : α} (member : row ∈ collection) :
    collection.findOne (key row) = some row :=
  findOne_eq_some.mpr ⟨member, rfl⟩

theorem mem_iff_findOne {collection : Collection key} {row : α} :
    row ∈ collection ↔ collection.findOne (key row) = some row :=
  ⟨findOne_of_mem, fun found => (findOne_eq_some.mp found).1⟩

theorem findOne_eq_none {collection : Collection key} {id : κ} :
    collection.findOne id = none ↔ ∀ row ∈ collection, key row ≠ id := by
  simp [findOne, List.find?_eq_none, ← mem_rows]

theorem key_of_findOne {collection : Collection key} {id : κ} {row : α}
    (found : collection.findOne id = some row) : key row = id :=
  (findOne_eq_some.mp found).2

theorem mem_of_findOne {collection : Collection key} {id : κ} {row : α}
    (found : collection.findOne id = some row) : row ∈ collection :=
  (findOne_eq_some.mp found).1

@[simp] theorem findOne_empty (id : κ) : (empty key).findOne id = none := rfl

@[simp] theorem holds_empty (id : κ) : (empty key).holds id = false := rfl

theorem holds_iff {collection : Collection key} {id : κ} :
    collection.holds id = true ↔ ∃ row ∈ collection, key row = id := by
  rw [holds, Option.isSome_iff_exists]
  exact exists_congr fun row => findOne_eq_some

theorem holds_eq_false {collection : Collection key} {id : κ} :
    collection.holds id = false ↔ collection.findOne id = none := by
  rw [holds, Option.isSome_eq_false_iff, Option.isNone_iff_eq_none]

theorem holds_of_findOne {collection : Collection key} {id : κ} {row : α}
    (found : collection.findOne id = some row) : collection.holds id = true := by
  rw [holds, found, Option.isSome_some]

/-! ## Creating documents -/

theorem create_eq_none {collection : Collection key} {row : α} :
    collection.create row = none ↔ collection.holds (key row) = true := by
  rw [create, holds_iff]
  split
  next fresh => simpa [← mem_rows] using fresh
  next taken => simpa [← mem_rows] using taken

theorem rows_create {collection larger : Collection key} {row : α}
    (created : collection.create row = some larger) :
    larger.rows = collection.rows ++ [row] := by
  rw [create] at created
  split at created
  · cases created; rfl
  · cases created

theorem fresh_of_create {collection larger : Collection key} {row : α}
    (created : collection.create row = some larger) :
    collection.findOne (key row) = none := by
  rw [← holds_eq_false, ← Bool.not_eq_true, ← create_eq_none, created]
  exact Option.some_ne_none larger

/-- A document with a free index value can be created. -/
theorem exists_create {collection : Collection key} {row : α}
    (fresh : collection.findOne (key row) = none) :
    ∃ larger, collection.create row = some larger := by
  rw [← Option.ne_none_iff_exists', Ne, create_eq_none, holds_eq_false.mpr fresh]
  exact Bool.false_ne_true

theorem mem_create {collection larger : Collection key} {row other : α}
    (created : collection.create row = some larger) :
    other ∈ larger ↔ other ∈ collection ∨ other = row := by
  rw [← mem_rows, rows_create created, List.mem_append, List.mem_singleton, mem_rows]

theorem findOne_create {collection larger : Collection key} {row : α}
    (created : collection.create row = some larger) (id : κ) :
    larger.findOne id = if key row = id then some row else collection.findOne id := by
  have fresh := fresh_of_create created
  rw [findOne, rows_create created, List.find?_append]
  by_cases same : key row = id
  · subst same
    rw [findOne] at fresh
    simp [fresh]
  · simp [same, findOne]

theorem findOne_create_self {collection larger : Collection key} {row : α}
    (created : collection.create row = some larger) :
    larger.findOne (key row) = some row := by
  simp [findOne_create created]

theorem findOne_create_of_ne {collection larger : Collection key} {row : α} {id : κ}
    (created : collection.create row = some larger) (different : key row ≠ id) :
    larger.findOne id = collection.findOne id := by
  simp [findOne_create created, different]

/-- A row that is there stays. -/
theorem findOne_create_of_found {collection larger : Collection key} {row old : α} {id : κ}
    (created : collection.create row = some larger) (found : collection.findOne id = some old) :
    larger.findOne id = some old := by
  rw [findOne_create_of_ne created, found]
  rintro rfl
  rw [fresh_of_create created] at found
  cases found

theorem holds_create {collection larger : Collection key} {row : α} {id : κ}
    (created : collection.create row = some larger) (held : collection.holds id = true) :
    larger.holds id = true := by
  rw [holds, findOne_create created]
  split
  · rfl
  · exact held

theorem holds_create_iff {collection larger : Collection key} {row : α} {id : κ}
    (created : collection.create row = some larger) :
    larger.holds id = true ↔ collection.holds id = true ∨ key row = id := by
  rw [holds, findOne_create created]
  split
  next same => simp [same]
  next different => simp [holds, different]

/-! ## Creating documents in batch -/

/-- A whole batch starts with its first document. -/
theorem exists_create_of_insertMany {collection larger : Collection key} {row : α}
    {rest : List α} (inserted : collection.insertMany (row :: rest) = (true, larger)) :
    ∃ middle, collection.create row = some middle ∧
      middle.insertMany rest = (true, larger) := by
  rw [insertMany] at inserted
  split at inserted
  · cases inserted
  next middle created => exact ⟨middle, created, inserted⟩

theorem rows_insertMany {collection larger : Collection key} {batch : List α}
    (inserted : collection.insertMany batch = (true, larger)) :
    larger.rows = collection.rows ++ batch := by
  induction batch generalizing collection with
  | nil => cases inserted; simp
  | cons row rest ih =>
      obtain ⟨middle, created, inserted⟩ := exists_create_of_insertMany inserted
      rw [ih inserted, rows_create created, List.append_assoc, List.singleton_append]

theorem findOne_insertMany {collection larger : Collection key} {batch : List α}
    (inserted : collection.insertMany batch = (true, larger)) (id : κ) :
    larger.findOne id =
      (collection.findOne id).or (batch.find? fun row => decide (key row = id)) := by
  rw [findOne, rows_insertMany inserted, List.find?_append, ← findOne]

/-- A batch that went in whole was new and without repetitions. -/
theorem fresh_of_insertMany {collection larger : Collection key} {batch : List α}
    (inserted : collection.insertMany batch = (true, larger)) :
    (batch.map key).Nodup ∧ ∀ row ∈ batch, collection.findOne (key row) = none := by
  have distinct := larger.nodup
  rw [rows_insertMany inserted, List.map_append, List.nodup_append] at distinct
  refine ⟨distinct.2.1, fun row member => findOne_eq_none.mpr fun old held same => ?_⟩
  exact distinct.2.2 _ (List.mem_map_of_mem held) _ (List.mem_map_of_mem member) same

theorem mem_insertMany {collection larger : Collection key} {batch : List α} {row : α}
    (inserted : collection.insertMany batch = (true, larger)) :
    row ∈ larger ↔ row ∈ collection ∨ row ∈ batch := by
  rw [← mem_rows, rows_insertMany inserted, List.mem_append, mem_rows]

/-- Whatever became of the batch, documents that were there stay. -/
theorem mem_insertMany_of_mem {collection larger : Collection key} {batch : List α}
    {complete : Bool} {row : α}
    (inserted : collection.insertMany batch = (complete, larger)) (member : row ∈ collection) :
    row ∈ larger := by
  induction batch generalizing collection with
  | nil => cases inserted; exact member
  | cons head rest ih =>
      rw [insertMany] at inserted
      split at inserted
      · cases inserted; exact member
      next middle created => exact ih inserted ((mem_create created).mpr (.inl member))

theorem mem_insertFree_of_mem {collection : Collection key} {batch : List α} {row : α}
    (member : row ∈ collection) : row ∈ collection.insertFree batch := by
  induction batch generalizing collection with
  | nil => exact member
  | cons head rest ih =>
      apply ih
      cases created : collection.create head with
      | none => exact member
      | some larger => exact (mem_create created).mpr (.inl member)

/-- Whatever became of the batch, no other documents came in. -/
theorem mem_of_mem_insertMany {collection larger : Collection key} {batch : List α}
    {complete : Bool} {row : α}
    (inserted : collection.insertMany batch = (complete, larger)) (member : row ∈ larger) :
    row ∈ collection ∨ row ∈ batch := by
  induction batch generalizing collection with
  | nil => cases inserted; exact .inl member
  | cons head rest ih =>
      rw [insertMany] at inserted
      split at inserted
      · cases inserted; exact .inl member
      next middle created =>
        rcases ih inserted with old | new
        · rcases (mem_create created).mp old with old | rfl
          · exact .inl old
          · exact .inr List.mem_cons_self
        · exact .inr (List.mem_cons_of_mem head new)

theorem mem_of_mem_insertFree {collection : Collection key} {batch : List α} {row : α}
    (member : row ∈ collection.insertFree batch) : row ∈ collection ∨ row ∈ batch := by
  induction batch generalizing collection with
  | nil => exact .inl member
  | cons head rest ih =>
      rcases ih member with old | new
      · cases created : collection.create head with
        | none =>
            rw [created] at old
            exact .inl old
        | some larger =>
            rw [created] at old
            rcases (mem_create created).mp old with old | rfl
            · exact .inl old
            · exact .inr List.mem_cons_self
      · exact .inr (List.mem_cons_of_mem head new)

/-- A batch of fresh, pairwise different index values is added in full. -/
theorem insertMany_complete {collection : Collection key} {batch : List α}
    (distinct : (batch.map key).Nodup)
    (fresh : ∀ row ∈ batch, collection.findOne (key row) = none) :
    ∃ larger, collection.insertMany batch = (true, larger) := by
  induction batch generalizing collection with
  | nil => exact ⟨collection, rfl⟩
  | cons row rest ih =>
      obtain ⟨middle, created⟩ := exists_create (fresh row List.mem_cons_self)
      rw [List.map_cons, List.nodup_cons] at distinct
      obtain ⟨larger, inserted⟩ := @ih middle distinct.2 (by
        intro other otherMem
        rw [findOne_create_of_ne created]
        · exact fresh other (List.mem_cons_of_mem row otherMem)
        · intro equal
          exact distinct.1 (equal ▸ List.mem_map_of_mem otherMem))
      exact ⟨larger, by rw [insertMany, created]; exact inserted⟩

/-! ## Assigning fields -/

theorem mem_updateOne {collection : Collection key} {id : κ} {update : Update key} {row : α} :
    row ∈ collection.updateOne id update ↔
      (row ∈ collection ∧ key row ≠ id) ∨
        ∃ old, collection.findOne id = some old ∧ row = update.set old := by
  rw [← mem_rows]
  simp only [updateOne, List.mem_map]
  constructor
  · rintro ⟨old, oldMem, rfl⟩
    by_cases found : key old = id
    · exact .inr ⟨old, findOne_eq_some.mpr ⟨oldMem, found⟩, if_pos found⟩
    · rw [if_neg found]
      exact .inl ⟨oldMem, found⟩
  · rintro (⟨member, different⟩ | ⟨old, found, rfl⟩)
    · exact ⟨row, member, if_neg different⟩
    · exact ⟨old, mem_of_findOne found, if_pos (key_of_findOne found)⟩

/-- A property of documents that the assignment keeps holds after it. -/
theorem forall_mem_updateOne {collection : Collection key} {id : κ} {update : Update key}
    {kept : α → Prop} (held : ∀ row ∈ collection, kept row)
    (assigned : ∀ row, collection.findOne id = some row → kept row → kept (update.set row)) :
    ∀ row ∈ collection.updateOne id update, kept row := by
  intro row member
  rcases mem_updateOne.mp member with ⟨old, -⟩ | ⟨old, found, rfl⟩
  · exact held row old
  · exact assigned old found (held old (mem_of_findOne found))

theorem findOne_updateOne (collection : Collection key) (id other : κ) (update : Update key) :
    (collection.updateOne id update).findOne other =
      if id = other then (collection.findOne id).map update.set
      else collection.findOne other := by
  have keys : (fun row => decide (key row = other)) ∘
      (fun row => if key row = id then update.set row else row) =
        fun row => decide (key row = other) := by
    funext row
    by_cases found : key row = id <;> simp [found, update.key_set]
  rw [findOne, updateOne, List.find?_map, keys]
  by_cases same : id = other
  · subst same
    rw [if_pos rfl]
    cases found : collection.findOne id with
    | none => rw [findOne] at found; rw [found]; rfl
    | some row =>
        have accepted := key_of_findOne found
        rw [findOne] at found
        rw [found, Option.map_some, Option.map_some, if_pos accepted]
  · rw [if_neg same]
    cases found : collection.findOne other with
    | none => rw [findOne] at found; rw [found]; rfl
    | some row =>
        have accepted := key_of_findOne found
        rw [findOne] at found
        rw [found, Option.map_some, if_neg (fun equal => same (equal.symm.trans accepted))]

theorem findOne_updateOne_of_ne {collection : Collection key} {id other : κ}
    {update : Update key} (different : id ≠ other) :
    (collection.updateOne id update).findOne other = collection.findOne other := by
  rw [findOne_updateOne, if_neg different]

theorem findOne_updateOne_self {collection : Collection key} {id : κ} {update : Update key} :
    (collection.updateOne id update).findOne id = (collection.findOne id).map update.set := by
  rw [findOne_updateOne, if_pos rfl]

@[simp] theorem holds_updateOne (collection : Collection key) (id other : κ)
    (update : Update key) :
    (collection.updateOne id update).holds other = collection.holds other := by
  rw [holds, holds, findOne_updateOne]
  split
  next same => subst same; simp
  · rfl

/-- Assigning to an index value that is not there changes nothing. -/
theorem updateOne_of_absent {collection : Collection key} {id : κ} {update : Update key}
    (absent : collection.findOne id = none) : collection.updateOne id update = collection := by
  ext1
  have identity : ∀ row ∈ collection.rows,
      (if key row = id then update.set row else row) = row := fun row member =>
    if_neg (findOne_eq_none.mp absent row member)
  rw [updateOne]
  exact (List.map_congr_left identity).trans (List.map_id' _)

/-- Assignments that agree on the one document they reach are the same. -/
theorem updateOne_congr {collection : Collection key} {id : κ} {left right : Update key}
    (agree : ∀ row, collection.findOne id = some row → left.set row = right.set row) :
    collection.updateOne id left = collection.updateOne id right := by
  ext1
  refine List.map_congr_left fun row member => ?_
  by_cases named : key row = id
  · rw [if_pos named, if_pos named, agree row (findOne_eq_some.mpr ⟨member, named⟩)]
  · rw [if_neg named, if_neg named]

/-- An assignment leaves the collection as it was exactly when it does so with the one
document it reaches. -/
theorem updateOne_eq_self {collection : Collection key} {id : κ} {update : Update key} {row : α}
    (found : collection.findOne id = some row) :
    collection.updateOne id update = collection ↔ update.set row = row := by
  constructor
  · intro same
    have lookup := @findOne_updateOne_self _ _ _ _ collection id update
    rw [same, found, Option.map_some] at lookup
    exact (Option.some.inj lookup).symm
  · intro same
    ext1
    refine (List.map_congr_left fun other member => ?_).trans (List.map_id' _)
    by_cases named : key other = id
    · cases found.symm.trans (findOne_eq_some.mpr ⟨member, named⟩)
      rw [if_pos named, same]
    · exact if_neg named

/-! ## Assigning fields of several documents -/

/-- Assign fields of one document after another. -/
def updateEach {β : Type w} (collection : Collection key) (items : List β) (id : β → κ)
    (update : β → Update key) : Collection key :=
  items.foldl (fun collection item => collection.updateOne (id item) (update item)) collection

section UpdateEach

variable {β : Type w} {collection : Collection key} {items : List β} {id : β → κ}
  {update : β → Update key}

theorem updateEach_cons {item : β} :
    collection.updateEach (item :: items) id update =
      (collection.updateOne (id item) (update item)).updateEach items id update := rfl

theorem findOne_updateEach_of_ne {other : κ} (different : ∀ item ∈ items, id item ≠ other) :
    (collection.updateEach items id update).findOne other = collection.findOne other := by
  induction items generalizing collection with
  | nil => rfl
  | cons item rest ih =>
      obtain ⟨head, tail⟩ := List.forall_mem_cons.mp different
      rw [updateEach_cons, ih tail, findOne_updateOne_of_ne head]

/-- Among different index values every document is assigned once. -/
theorem findOne_updateEach_of_mem (distinct : (items.map id).Nodup) {item : β}
    (member : item ∈ items) :
    (collection.updateEach items id update).findOne (id item) =
      (collection.findOne (id item)).map (update item).set := by
  induction items generalizing collection with
  | nil => cases member
  | cons head rest ih =>
      obtain ⟨fresh, distinct⟩ := List.nodup_cons.mp distinct
      rw [updateEach_cons]
      rcases List.mem_cons.mp member with rfl | later
      · have unnamed : ∀ other ∈ rest, id other ≠ id item := fun other otherMem same =>
          fresh (same ▸ List.mem_map_of_mem otherMem)
        rw [findOne_updateEach_of_ne unnamed, findOne_updateOne_self]
      · have different : id head ≠ id item := fun same =>
          fresh (same ▸ List.mem_map_of_mem later)
        rw [ih distinct later, findOne_updateOne_of_ne different]

end UpdateEach

/-! ## Sums over a collection -/

theorem total_insertMany {collection larger : Collection key} {batch : List α}
    (inserted : collection.insertMany batch = (true, larger)) (weight : α → ℤ) :
    larger.total weight = collection.total weight + (batch.map weight).sum := by
  simp [total, rows_insertMany inserted]

private theorem sum_assign {rows : List α} (distinct : (rows.map key).Nodup) {old : α}
    (member : old ∈ rows) (update : Update key) (weight : α → ℤ) :
    ((rows.map fun row => if key row = key old then update.set row else row).map weight).sum =
      (rows.map weight).sum - weight old + weight (update.set old) := by
  induction rows with
  | nil => cases member
  | cons row rest ih =>
      rw [List.map_cons, List.nodup_cons] at distinct
      simp only [List.map_cons, List.sum_cons]
      rcases List.mem_cons.mp member with rfl | later
      · have untouched : ∀ other ∈ rest,
            (if key other = key old then update.set other else other) = other :=
          fun other otherMem => if_neg fun equal =>
            distinct.1 (List.mem_map.mpr ⟨other, otherMem, equal⟩)
        rw [if_pos rfl, List.map_congr_left untouched, List.map_id']
        omega
      · have different : key row ≠ key old := fun equal =>
          distinct.1 (List.mem_map.mpr ⟨old, later, equal.symm⟩)
        rw [if_neg different, ih distinct.2 later]
        omega

/-- An assignment moves a sum by the change of the one document it touches. -/
theorem total_updateOne {collection : Collection key} {id : κ} {old : α}
    (found : collection.findOne id = some old) (update : Update key) (weight : α → ℤ) :
    (collection.updateOne id update).total weight =
      collection.total weight - weight old + weight (update.set old) := by
  obtain ⟨member, rfl⟩ := findOne_eq_some.mp found
  exact sum_assign collection.nodup member update weight

/-! ## A value of one document -/

/-- An integer of the document with the given index value, and 0 without one. -/
def value (collection : Collection key) (id : κ) (weight : α → ℤ) : ℤ :=
  (collection.findOne id).elim 0 weight

theorem value_of_findOne {collection : Collection key} {id : κ} {row : α} {weight : α → ℤ}
    (found : collection.findOne id = some row) : collection.value id weight = weight row := by
  rw [value, found, Option.elim_some]

/-- Documents that count nothing can be created without moving a value. -/
theorem value_create_of_zero {collection larger : Collection key} {row : α} {weight : α → ℤ}
    (created : collection.create row = some larger) (zero : weight row = 0) (id : κ) :
    larger.value id weight = collection.value id weight := by
  rw [value, findOne_create created]
  split
  next same =>
    subst same
    rw [value, fresh_of_create created, Option.elim_some, zero, Option.elim_none]
  · rfl

theorem value_insertMany_of_zero {collection larger : Collection key} {batch : List α}
    {weight : α → ℤ} (inserted : collection.insertMany batch = (true, larger))
    (zero : ∀ row ∈ batch, weight row = 0) (id : κ) :
    larger.value id weight = collection.value id weight := by
  induction batch generalizing collection with
  | nil => cases inserted; rfl
  | cons row rest ih =>
      obtain ⟨middle, created, inserted⟩ := exists_create_of_insertMany inserted
      rw [ih inserted fun other member => zero other (List.mem_cons_of_mem row member),
        value_create_of_zero created (zero row List.mem_cons_self)]

/-- An assignment moves the value of its own document only. -/
theorem value_updateOne {collection : Collection key} {id : κ} {old : α} {update : Update key}
    {weight : α → ℤ} (found : collection.findOne id = some old) (delta : ℤ)
    (moved : weight (update.set old) = weight old + delta) (other : κ) :
    (collection.updateOne id update).value other weight =
      collection.value other weight + if id = other then delta else 0 := by
  rw [value, findOne_updateOne]
  by_cases same : id = other
  · subst same
    rw [if_pos rfl, if_pos rfl, value_of_findOne found, found, Option.map_some, Option.elim_some,
      moved]
  · rw [if_neg same, if_neg same, add_zero, value]

theorem value_updateOne_of_same {collection : Collection key} {id : κ} {update : Update key}
    (weight : α → ℤ) (same : ∀ row, weight (update.set row) = weight row) (other : κ) :
    (collection.updateOne id update).value other weight = collection.value other weight := by
  cases found : collection.findOne id with
  | none => rw [updateOne_of_absent found]
  | some old => rw [value_updateOne found 0 (by rw [same, add_zero]), ite_self, add_zero]

/-! ## Documents under other ids -/

theorem findOne_without {collection : Collection key} {ids : κ → Bool} {id : κ}
    (other : ids id = false) : (collection.without ids).findOne id = collection.findOne id := by
  rw [findOne, rows_without, List.find?_filter, findOne]
  congr 1
  funext row
  by_cases same : key row = id
  · simp [same, other]
  · simp [same]

/-- A document under one of the ids makes no difference. -/
theorem without_create_of_mem {collection larger : Collection key} {ids : κ → Bool} {row : α}
    (own : ids (key row) = true) (created : collection.create row = some larger) :
    larger.without ids = collection.without ids := by
  ext1
  rw [rows_without, rows_create created, List.filter_append, rows_without]
  simp [own]

/-- Creating a document under another id. -/
theorem create_without {collection : Collection key} {ids : κ → Bool} {row : α}
    (other : ids (key row) = false) : (collection.without ids).create row =
      (collection.create row).map fun larger => larger.without ids := by
  cases created : collection.create row with
  | none =>
      rw [Option.map_none, create_eq_none, holds, findOne_without other]
      exact create_eq_none.mp created
  | some larger =>
      have fresh : (collection.without ids).findOne (key row) = none :=
        (findOne_without other).trans (fresh_of_create created)
      obtain ⟨result, same⟩ := exists_create fresh
      rw [same, Option.map_some, Option.some_inj]
      ext1
      rw [rows_create same, rows_without, rows_without, rows_create created, List.filter_append]
      simp [other]

/-- Assigning fields of a document under another id. -/
theorem updateOne_without {collection : Collection key} {ids : κ → Bool} {id : κ}
    {update : Update key} : (collection.updateOne id update).without ids =
      (collection.without ids).updateOne id update := by
  ext1
  simp only [rows_without, updateOne, List.filter_map]
  congr 2
  funext row
  by_cases same : key row = id <;> simp [same, update.key_set]

end Collection

end Documents

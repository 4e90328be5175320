import DlmmIndexer.Library.StableSort

/-!
# Collections without a unique index

A collection that declares no index besides the `_id` accepts every document.  The
database gives each document an `_id` above those given before, so a query sorted by a
field and then by `_id` sorts by the field and keeps the order of insertion in ties.
-/

namespace Documents

open StableSort

universe u v

variable {α : Type u} {κ : Type v}

/-- A document as it is stored. -/
structure Stored (α : Type u) where
  _id : ℕ
  document : α
  deriving DecidableEq, Repr

/-- Documents in the order of insertion. -/
structure Unindexed (α : Type u) where
  rows : List (Stored α)
  ascending : rows.Pairwise fun earlier later => earlier._id < later._id

namespace Unindexed

/-- The collection without documents. -/
def empty : Unindexed α := ⟨[], List.Pairwise.nil⟩

/-- The stored documents in the order of insertion. -/
def documents (collection : Unindexed α) : List α := collection.rows.map (·.document)

/-- An `_id` above those of all rows. -/
def nextId : List (Stored α) → ℕ
  | [] => 0
  | row :: rest => max (row._id + 1) (nextId rest)

theorem lt_nextId {rows : List (Stored α)} : ∀ row ∈ rows, row._id < nextId rows := by
  induction rows with
  | nil => exact fun _ member => absurd member List.not_mem_nil
  | cons first rest ih =>
      intro row member
      rcases List.mem_cons.mp member with rfl | member
      · exact Nat.lt_of_succ_le (le_max_left _ _)
      · exact (ih row member).trans_le (le_max_right _ _)

/-- Store one document. -/
def insert (collection : Unindexed α) (document : α) : Unindexed α where
  rows := collection.rows ++ [⟨nextId collection.rows, document⟩]
  ascending := by
    refine List.pairwise_append.mpr ⟨collection.ascending, List.pairwise_singleton _ _, ?_⟩
    intro row member other last
    rw [List.mem_singleton.mp last]
    exact lt_nextId row member

/-- Store documents in their order. -/
def insertMany (collection : Unindexed α) (documents : List α) : Unindexed α :=
  documents.foldl insert collection

@[simp] theorem documents_insert (collection : Unindexed α) (document : α) :
    (collection.insert document).documents = collection.documents ++ [document] :=
  List.map_append

@[simp] theorem documents_insertMany (collection : Unindexed α) (documents : List α) :
    (collection.insertMany documents).documents = collection.documents ++ documents := by
  induction documents generalizing collection with
  | nil => exact (List.append_nil _).symm
  | cons document rest ih =>
      have later := ih (collection.insert document)
      rwa [documents_insert, List.append_assoc, List.singleton_append] at later

/-- `sort({ key: 1, _id: 1 })`. -/
def sort [LinearOrder κ] (key : α → κ) (collection : Unindexed α) : List (Stored α) :=
  sortByKey (fun row => toLex (key row.document, row._id)) collection.rows

/-- The sorted rows hold the documents by key, ties in the order of insertion. -/
theorem documents_sort [LinearOrder κ] (key : α → κ) (collection : Unindexed α) :
    (collection.sort key).map (·.document) = sortByKey key collection.documents := by
  have byKey : collection.sort key = sortByKey (fun row => key row.document) collection.rows :=
    sortByKey_lex collection.ascending
  rw [byKey]
  exact List.map_insertionSort _ _ _ _ fun _ _ _ _ => Iff.rfl

theorem nodup_ids (collection : Unindexed α) : (collection.rows.map (·._id)).Nodup :=
  (List.pairwise_map.mpr collection.ascending).imp Nat.ne_of_lt

/-- Rows with one `_id` are one row. -/
theorem row_eq_of_id {collection : Unindexed α} {row other : Stored α}
    (member : row ∈ collection.rows) (otherMember : other ∈ collection.rows)
    (same : row._id = other._id) : row = other :=
  List.inj_on_of_nodup_map collection.nodup_ids member otherMember same

/-! ## Assigning to one document -/

/-- Assign to the first row that the filter accepts. -/
def assignFirst (filter : α → Bool) (update : α → α) : List (Stored α) → List (Stored α)
  | [] => []
  | row :: rest =>
      if filter row.document then { row with document := update row.document } :: rest
      else row :: assignFirst filter update rest

theorem map_id_assignFirst (filter : α → Bool) (update : α → α) (rows : List (Stored α)) :
    (assignFirst filter update rows).map (·._id) = rows.map (·._id) := by
  induction rows with
  | nil => rfl
  | cons row rest ih =>
      rw [assignFirst]
      split
      · rfl
      · rw [List.map_cons, List.map_cons, ih]

theorem map_assignFirst {β : Type v} {filter : α → Bool} {update : α → α} {project : Stored α → β}
    (keeps : ∀ row : Stored α,
      project { row with document := update row.document } = project row)
    (rows : List (Stored α)) :
    (assignFirst filter update rows).map project = rows.map project := by
  induction rows with
  | nil => rfl
  | cons row rest ih =>
      rw [assignFirst]
      split
      · rw [List.map_cons, List.map_cons, keeps]
      · rw [List.map_cons, List.map_cons, ih]

theorem mem_assignFirst {filter : α → Bool} {update : α → α} {rows : List (Stored α)}
    {later : Stored α} (member : later ∈ assignFirst filter update rows) :
    later ∈ rows ∨ ∃ row ∈ rows, filter row.document = true ∧
      later = { row with document := update row.document } := by
  induction rows with
  | nil => cases member
  | cons row rest ih =>
      rw [assignFirst] at member
      split at member
      next matched =>
        rcases List.mem_cons.mp member with rfl | old
        · exact .inr ⟨row, List.mem_cons_self, matched, rfl⟩
        · exact .inl (List.mem_cons_of_mem _ old)
      · rcases List.mem_cons.mp member with rfl | found
        · exact .inl List.mem_cons_self
        · rcases ih found with old | ⟨source, listed, matched, same⟩
          · exact .inl (List.mem_cons_of_mem _ old)
          · exact .inr ⟨source, List.mem_cons_of_mem _ listed, matched, same⟩

/-- `updateOne(filter, update)`, which takes the first match in the order of insertion. -/
def updateOne (collection : Unindexed α) (filter : α → Bool) (update : α → α) : Unindexed α where
  rows := assignFirst filter update collection.rows
  ascending := by
    have ordered : (collection.rows.map (·._id)).Pairwise (· < ·) :=
      List.pairwise_map.mpr collection.ascending
    rw [← map_id_assignFirst filter update] at ordered
    exact List.pairwise_map.mp ordered

/-- The document with an `_id`. -/
def get? (collection : Unindexed α) (id : ℕ) : Option α :=
  (collection.rows.find? fun row => row._id = id).map (·.document)

/-- The first row that the filter accepts. -/
def first? (collection : Unindexed α) (filter : α → Bool) : Option (Stored α) :=
  collection.rows.find? fun row => filter row.document

theorem get?_of_mem {collection : Unindexed α} {row : Stored α} (member : row ∈ collection.rows) :
    collection.get? row._id = some row.document := by
  rw [get?]
  cases found : collection.rows.find? (fun other => other._id = row._id) with
  | none =>
      have absent := List.find?_eq_none.mp found row member
      simp at absent
  | some other =>
      have same : other._id = row._id := by simpa using List.find?_some found
      rw [row_eq_of_id (List.mem_of_find?_eq_some found) member same]
      rfl

/-- The update changes its first match and nothing else. -/
theorem get?_updateOne {collection : Unindexed α} {filter : α → Bool} {update : α → α}
    {first : Stored α} (found : collection.first? filter = some first) (id : ℕ) :
    (collection.updateOne filter update).get? id =
      if first._id = id then some (update first.document) else collection.get? id := by
  have assigned (rows : List (Stored α))
      (ascending : rows.Pairwise fun earlier later => earlier._id < later._id)
      (found : rows.find? (fun row => filter row.document) = some first) :
      ((assignFirst filter update rows).find? fun row => row._id = id).map (·.document) =
        if first._id = id then some (update first.document)
        else (rows.find? fun row => row._id = id).map (·.document) := by
    induction rows with
    | nil => cases found
    | cons row rest ih =>
        obtain ⟨below, ordered⟩ := List.pairwise_cons.mp ascending
        rw [assignFirst]
        by_cases matched : filter row.document = true
        · rw [List.find?_cons, matched] at found
          cases found
          rw [if_pos matched]
          by_cases here : first._id = id
          · simp [here]
          · simp [here]
        · rw [List.find?_cons, Bool.eq_false_iff.mpr matched] at found
          rw [if_neg matched]
          by_cases here : row._id = id
          · have later : first._id ≠ id := by
              have above := below first (List.mem_of_find?_eq_some found)
              omega
            simp [here, later]
          · rw [List.find?_cons_of_neg (by simpa using here),
              List.find?_cons_of_neg (by simpa using here)]
            exact ih ordered found
  exact assigned collection.rows collection.ascending found

/-! ## Queries and updates of many documents -/

/-- `find(filter)`, as the collection of the rows that the filter accepts. -/
def find (collection : Unindexed α) (filter : α → Bool) : Unindexed α where
  rows := collection.rows.filter fun row => filter row.document
  ascending := collection.ascending.sublist List.filter_sublist

/-- Assign to a row if it has one of the given `_id`s. -/
def assignAmong (ids : List ℕ) (update : α → α) (row : Stored α) : Stored α :=
  if row._id ∈ ids then { row with document := update row.document } else row

@[simp] theorem assignAmong_id (ids : List ℕ) (update : α → α) (row : Stored α) :
    (assignAmong ids update row)._id = row._id := by
  rw [assignAmong]
  split <;> rfl

theorem assignAmong_of_mem {ids : List ℕ} {row : Stored α} (update : α → α)
    (member : row._id ∈ ids) :
    assignAmong ids update row = { row with document := update row.document } := if_pos member

theorem assignAmong_of_not_mem {ids : List ℕ} {row : Stored α} (update : α → α)
    (other : row._id ∉ ids) : assignAmong ids update row = row := if_neg other

/-- `updateMany({ _id: { $in: ids } }, update)` -/
def updateMany (collection : Unindexed α) (ids : List ℕ) (update : α → α) : Unindexed α where
  rows := collection.rows.map (assignAmong ids update)
  ascending := by
    refine List.pairwise_map.mpr (collection.ascending.imp fun below => ?_)
    rwa [assignAmong_id, assignAmong_id]

theorem ext {first second : Unindexed α} (rows : first.rows = second.rows) : first = second := by
  cases first
  cases second
  cases rows
  rfl

theorem nextId_map_assignAmong (ids : List ℕ) (update : α → α) (rows : List (Stored α)) :
    nextId (rows.map (assignAmong ids update)) = nextId rows := by
  induction rows with
  | nil => rfl
  | cons row rest ih => rw [List.map_cons, nextId, nextId, assignAmong_id, ih]

@[simp] theorem updateMany_nil (collection : Unindexed α) (update : α → α) :
    collection.updateMany [] update = collection :=
  ext (List.map_id'' (fun _ => assignAmong_of_not_mem update List.not_mem_nil) _)

/-- Two updates are one when a second assignment changes nothing. -/
theorem updateMany_updateMany {update : α → α}
    (idempotent : ∀ document, update (update document) = update document)
    (collection : Unindexed α) (first second : List ℕ) :
    (collection.updateMany first update).updateMany second update =
      collection.updateMany (first ++ second) update := by
  refine ext ((List.map_map ..).trans (List.map_congr_left fun row _ => ?_))
  by_cases inFirst : row._id ∈ first <;> by_cases inSecond : row._id ∈ second <;>
    simp [assignAmong, inFirst, inSecond, idempotent]

/-- An insertion and an update of rows stored before it commute. -/
theorem insert_updateMany {collection : Unindexed α} {ids : List ℕ}
    (stored : ∀ id ∈ ids, ∃ row ∈ collection.rows, row._id = id) (update : α → α)
    (document : α) :
    (collection.updateMany ids update).insert document =
      (collection.insert document).updateMany ids update := by
  have fresh : nextId collection.rows ∉ ids := by
    intro member
    obtain ⟨row, rowMember, same⟩ := stored _ member
    exact (lt_nextId row rowMember).ne same
  refine ext (Eq.trans ?_ List.map_append.symm)
  have kept : assignAmong ids update ⟨nextId collection.rows, document⟩ =
      ⟨nextId collection.rows, document⟩ := assignAmong_of_not_mem update fresh
  rw [List.map_singleton, kept, ← nextId_map_assignAmong ids update]
  rfl

theorem insertMany_updateMany {collection : Unindexed α} {ids : List ℕ}
    (stored : ∀ id ∈ ids, ∃ row ∈ collection.rows, row._id = id) (update : α → α)
    (documents : List α) :
    (collection.updateMany ids update).insertMany documents =
      (collection.insertMany documents).updateMany ids update := by
  induction documents generalizing collection with
  | nil => rfl
  | cons document rest ih =>
      have later : ∀ id ∈ ids, ∃ row ∈ (collection.insert document).rows, row._id = id := by
        intro id member
        obtain ⟨row, rowMember, same⟩ := stored id member
        exact ⟨row, List.mem_append_left _ rowMember, same⟩
      have step := ih later
      rwa [← insert_updateMany stored] at step

/-- The rows stored by `insertMany` come last and hold the documents. -/
theorem rows_insertMany (collection : Unindexed α) (documents : List α) :
    ∃ inserted, (collection.insertMany documents).rows = collection.rows ++ inserted ∧
      inserted.map (·.document) = documents := by
  induction documents generalizing collection with
  | nil => exact ⟨[], (List.append_nil _).symm, rfl⟩
  | cons document rest ih =>
      obtain ⟨inserted, rows, held⟩ := ih (collection.insert document)
      refine ⟨⟨nextId collection.rows, document⟩ :: inserted, ?_, ?_⟩
      · exact rows.trans (List.append_cons _ _ _).symm
      · rw [List.map_cons, held]

/-- The update takes its rows out of a query that it makes false. -/
theorem rows_find_updateMany {filter : α → Bool} {update : α → α}
    (refuted : ∀ document, filter (update document) = false) (collection : Unindexed α)
    (ids : List ℕ) :
    ((collection.updateMany ids update).find filter).rows =
      (collection.find filter).rows.filter fun row => row._id ∉ ids := by
  have onRows (rows : List (Stored α)) :
      (rows.map (assignAmong ids update)).filter (fun row => filter row.document) =
        (rows.filter fun row => filter row.document).filter fun row => row._id ∉ ids := by
    induction rows with
    | nil => rfl
    | cons row rest ih =>
        by_cases member : row._id ∈ ids
        · rw [List.map_cons, assignAmong_of_mem update member,
            List.filter_cons_of_neg (by simp [refuted]), ih, List.filter_cons]
          split
          · rw [List.filter_cons_of_neg (by simp [member])]
          · rfl
        · rw [List.map_cons, assignAmong_of_not_mem update member, List.filter_cons,
            List.filter_cons, ih]
          split
          · rw [List.filter_cons_of_pos (by simp [member])]
          · rfl
  exact onRows collection.rows

end Unindexed

end Documents

import DlmmIndexer.Library.Collection

/-!
# Collections that only grow

A mask hides the fields of a document that may be assigned.  A collection has grown
into another one when the masked documents of the second are those of the first,
followed by those of some fresh documents: nothing was deleted or moved, and of the
old documents nothing but hidden fields has changed.  Growth is a preorder that
creations and masked assignments stay in.
-/

namespace Documents

universe u v w

variable {α : Type u} {κ : Type v} {β : Type w} {key : α → κ}

namespace Collection

/-- Up to hidden fields, fresh documents were added and nothing else happened. -/
def Grows (mask : α → β) (fresh : α → Prop) (before after : Collection key) : Prop :=
  ∃ added : List α, (∀ row ∈ added, fresh row) ∧
    after.rows.map mask = (before.rows ++ added).map mask

namespace Grows

variable {mask : α → β} {fresh : α → Prop} {before middle after : Collection key}

theorem refl : Grows mask fresh before before :=
  ⟨[], fun _ member => (List.not_mem_nil member).elim, by rw [List.append_nil]⟩

theorem trans (first : Grows mask fresh before middle) (second : Grows mask fresh middle after) :
    Grows mask fresh before after := by
  obtain ⟨added, freshAdded, grown⟩ := first
  obtain ⟨more, freshMore, grownMore⟩ := second
  refine ⟨added ++ more, List.forall_mem_append.mpr ⟨freshAdded, freshMore⟩, ?_⟩
  rw [grownMore, List.map_append, grown, ← List.map_append, List.append_assoc]

theorem mono {weaker : α → Prop} (grows : Grows mask fresh before after)
    (implied : ∀ row, fresh row → weaker row) : Grows mask weaker before after :=
  let ⟨added, freshAdded, grown⟩ := grows
  ⟨added, fun row member => implied row (freshAdded row member), grown⟩

/-- The old documents come first. -/
theorem isPrefix (grows : Grows mask fresh before after) :
    before.rows.map mask <+: after.rows.map mask := by
  obtain ⟨added, -, grown⟩ := grows
  rw [grown, List.map_append]
  exact List.prefix_append _ _

/-- A document that was there is still there, up to hidden fields. -/
theorem exists_mem (grows : Grows mask fresh before after) {row : α} (member : row ∈ before) :
    ∃ later ∈ after, mask later = mask row :=
  List.mem_map.mp (grows.isPrefix.subset (List.mem_map_of_mem member))

/-- A document that is there now was there before or came in fresh, up to hidden fields. -/
theorem origin (grows : Grows mask fresh before after) {row : α} (member : row ∈ after) :
    ∃ source, (source ∈ before ∨ fresh source) ∧ mask source = mask row := by
  obtain ⟨added, freshAdded, grown⟩ := grows
  have masked : mask row ∈ after.rows.map mask := List.mem_map_of_mem member
  rw [grown] at masked
  obtain ⟨source, listed, same⟩ := List.mem_map.mp masked
  exact ⟨source, (List.mem_append.mp listed).imp id (freshAdded source), same⟩

variable [DecidableEq κ]

/-- The index finds the document again when the mask does not hide the indexed field. -/
theorem findOne (shown : ∀ left right, mask left = mask right → key left = key right)
    (grows : Grows mask fresh before after) {id : κ} {row : α}
    (found : before.findOne id = some row) :
    ∃ later, after.findOne id = some later ∧ mask later = mask row := by
  obtain ⟨member, rfl⟩ := findOne_eq_some.mp found
  obtain ⟨later, stays, same⟩ := grows.exists_mem member
  exact ⟨later, findOne_eq_some.mpr ⟨stays, shown later row same⟩, same⟩

theorem create {row : α} (isFresh : fresh row) (created : before.create row = some after) :
    Grows mask fresh before after :=
  ⟨[row], List.forall_mem_singleton.mpr isFresh, by rw [rows_create created]⟩

theorem insertMany {batch : List α} {complete : Bool} (allFresh : ∀ row ∈ batch, fresh row)
    (inserted : before.insertMany batch = (complete, after)) : Grows mask fresh before after := by
  induction batch generalizing before with
  | nil =>
      cases inserted
      exact .refl
  | cons row rest ih =>
      obtain ⟨isFresh, restFresh⟩ := List.forall_mem_cons.mp allFresh
      rw [Collection.insertMany] at inserted
      split at inserted
      · cases inserted
        exact .refl
      next created => exact (Grows.create isFresh created).trans (ih restFresh inserted)

theorem insertFree {batch : List α} (allFresh : ∀ row ∈ batch, fresh row) :
    Grows mask fresh before (before.insertFree batch) := by
  induction batch generalizing before with
  | nil => exact .refl
  | cons row rest ih =>
      obtain ⟨isFresh, restFresh⟩ := List.forall_mem_cons.mp allFresh
      rw [Collection.insertFree]
      cases created : before.create row with
      | none => exact ih restFresh
      | some larger => exact (Grows.create isFresh created).trans (ih restFresh)

/-- An assignment of hidden fields. -/
theorem updateOne {id : κ} {update : Update key} (hides : ∀ row, mask (update.set row) = mask row) :
    Grows mask fresh before (before.updateOne id update) := by
  refine ⟨[], fun _ member => (List.not_mem_nil member).elim, ?_⟩
  rw [Collection.updateOne, List.append_nil, List.map_map]
  refine List.map_congr_left fun row _ => ?_
  by_cases here : key row = id <;> simp [here, hides]

end Grows

end Collection

end Documents

import DlmmIndexer.Database

/-!
# Stores that differ under some ids

Two stores that are the same but for the documents under some ids stay so, and answer the
same, when an operation that avoids those ids is applied to both.
-/

namespace DlmmIndexer

open Documents Atomic

/-- The stores are the same but for the documents under the ids. -/
def SameElsewhere (ids : Coll → String → Bool) (left right : Store) : Prop :=
  ∀ coll, (left coll).without (ids coll) = (right coll).without (ids coll)

namespace SameElsewhere

variable {ids : Coll → String → Bool} {left right : Store} {coll : Coll}

theorem findOne (same : SameElsewhere ids left right) {id : String} (other : ids coll id = false) :
    (left coll).findOne id = (right coll).findOne id := by
  rw [← Collection.findOne_without other, same coll, Collection.findOne_without other]

theorem holds (same : SameElsewhere ids left right) {id : String} (other : ids coll id = false) :
    (left coll).holds id = (right coll).holds id :=
  congrArg Option.isSome (same.findOne other)

/-- Collections without such ids are the same. -/
theorem coll_eq (same : SameElsewhere ids left right) (none : ∀ id, ids coll id = false) :
    left coll = right coll := by
  have equal := same coll
  rwa [Collection.without_eq_self none, Collection.without_eq_self none] at equal

theorem put (same : SameElsewhere ids left right) {leftRows rightRows : Collection coll.id}
    (rows : leftRows.without (ids coll) = rightRows.without (ids coll)) :
    SameElsewhere ids (left.put coll leftRows) (right.put coll rightRows) := by
  intro other
  by_cases here : other = coll
  · subst here
    rw [Store.put_same, Store.put_same, rows]
  · rw [Store.put_other here, Store.put_other here, same other]

/-- A document under such an id in one of the stores makes no difference. -/
theorem create (same : SameElsewhere ids left right) {row : coll.Row} {rows : Collection coll.id}
    (mine : ids coll (coll.id row) = true) (created : (right coll).create row = some rows) :
    SameElsewhere ids left (right.put coll rows) := by
  intro other
  by_cases here : other = coll
  · subst here
    rw [Store.put_same, Collection.without_create_of_mem mine created, same other]
  · rw [Store.put_other here, same other]

theorem clashes (same : SameElsewhere ids left right) (noPosition : ∀ id, ids .position id = false)
    (row : coll.Row) : Op.clashes left coll row = Op.clashes right coll row := by
  cases coll with
  | position => rw [Op.clashes, Op.clashes, same.coll_eq noPosition]
  | _ => rfl

end SameElsewhere

/-- The operation neither reads nor writes documents under the ids. -/
def Op.Avoids (ids : Coll → String → Bool) {ρ : Type} : Op ρ → Prop
  | .findOne coll id => ids coll id = false
  | .exists coll id => ids coll id = false
  | .create coll row => ids coll (coll.id row) = false
  | .updateOne coll id _ => ids coll id = false
  | .find coll => ∀ id, ids coll id = false
  | .existsWhere coll _ => ∀ id, ids coll id = false
  | .insertMany coll _ => ∀ id, ids coll id = false
  | .updateWhere coll _ _ => ∀ id, ids coll id = false
  | .deleteShares _ => ∀ id, ids .liquidityShares id = false
  | .deletePosition _ => ∀ id, ids .position id = false

/-- The operation does not change a document that is there under the id. -/
def Op.Spares (coll : Coll) (id : String) {ρ : Type} : Op ρ → Prop
  | .updateOne written other _ => written = coll → other ≠ id
  | .updateWhere written _ _ => written ≠ coll
  | .deleteShares _ => coll ≠ .liquidityShares
  | .deletePosition _ => coll ≠ .position
  | _ => True

section Avoids

variable {ids : Coll → String → Bool} {left right store : Store} {coll : Coll} {id : String}
variable {ρ : Type} {operation : Op ρ}

/-- On stores that are the same elsewhere, the operation does the same. -/
theorem SameElsewhere.apply (same : SameElsewhere ids left right)
    (noPosition : ∀ id, ids .position id = false) (avoids : operation.Avoids ids) :
    (operation.apply left).1 = (operation.apply right).1 ∧
      SameElsewhere ids (operation.apply left).2 (operation.apply right).2 := by
  cases operation with
  | findOne coll id => exact ⟨congrArg Except.ok (same.findOne avoids), same⟩
  | «exists» coll id => exact ⟨congrArg Except.ok (same.holds avoids), same⟩
  | find coll => exact ⟨by rw [Op.apply, Op.apply, same.coll_eq avoids], same⟩
  | existsWhere coll filter => exact ⟨by rw [Op.apply, Op.apply, same.coll_eq avoids], same⟩
  | create coll row =>
      have both : ((left coll).without (ids coll)).create row =
          ((right coll).without (ids coll)).create row := by rw [same coll]
      rw [Collection.create_without avoids, Collection.create_without avoids] at both
      simp only [Op.apply, same.clashes noPosition row]
      cases leftRows : (left coll).create row with
      | none =>
          rw [leftRows, Option.map_none, eq_comm, Option.map_eq_none_iff] at both
          rw [both]
          exact ⟨rfl, same⟩
      | some rows =>
          rw [leftRows, Option.map_some, eq_comm, Option.map_eq_some_iff] at both
          obtain ⟨rightRows, created, equal⟩ := both
          rw [created]
          cases Op.clashes right coll row with
          | true => exact ⟨rfl, same⟩
          | false => exact ⟨rfl, same.put equal.symm⟩
  | insertMany coll batch =>
      simp only [Op.apply, same.coll_eq avoids]
      rcases (right coll).insertMany batch with ⟨complete, rows⟩
      cases complete <;> exact ⟨rfl, same.put rfl⟩
  | updateOne coll id update =>
      have clash : (((left coll).findOne id).any fun row =>
          Op.clashes left coll (update.set row)) =
          ((right coll).findOne id).any fun row => Op.clashes right coll (update.set row) := by
        simp only [same.findOne avoids, same.clashes noPosition]
      simp only [Op.apply, clash]
      cases ((right coll).findOne id).any fun row => Op.clashes right coll (update.set row) with
      | true => exact ⟨rfl, same⟩
      | false =>
          refine ⟨rfl, same.put ?_⟩
          rw [Collection.updateOne_without, Collection.updateOne_without, same coll]
  | updateWhere coll filter update =>
      simp only [Op.apply, same.coll_eq avoids, same.clashes noPosition]
      cases (right coll).rows.find? filter with
      | none => exact ⟨rfl, same⟩
      | some row =>
          dsimp only
          split
          · exact ⟨rfl, same⟩
          · exact ⟨rfl, same.put rfl⟩
  | deleteShares positionId =>
      have equal := same.coll_eq avoids
      exact ⟨by rw [Op.apply, Op.apply, equal], same.put (by rw [equal])⟩
  | deletePosition id =>
      have equal := same.coll_eq avoids
      exact ⟨by rw [Op.apply, Op.apply, equal], same.put (by rw [equal])⟩

/-- An operation that avoids an id leaves what is there, or is not there, as it was. -/
theorem Op.Avoids.findOne_apply (avoids : operation.Avoids ids) (mine : ids coll id = true) :
    ((operation.apply store).2 coll).findOne id = (store coll).findOne id := by
  by_cases writes : operation.target = some coll
  swap
  · rw [(Op.frame writes store).1]
  have different {other : String} (avoided : ids coll other = false) : other ≠ id := by
    rintro rfl
    exact absurd mine (Bool.eq_false_iff.mp avoided)
  cases operation with
  | findOne | «exists» | find | existsWhere => cases writes
  | create written row =>
      obtain rfl : written = coll := Option.some.inj writes
      exact Op.findOne_apply_create (different avoids) store
  | updateOne written other update =>
      obtain rfl : written = coll := Option.some.inj writes
      exact Op.findOne_apply_updateOne (different avoids) store
  | insertMany written batch | updateWhere written filter update =>
      obtain rfl : written = coll := Option.some.inj writes
      exact absurd rfl (different (avoids id))
  | deleteShares positionId | deletePosition position =>
      obtain rfl := Option.some.inj writes
      exact absurd rfl (different (avoids id))

/-- An operation that spares a document leaves it as it was. -/
theorem Op.Spares.findOne_apply {row : coll.Row} (spares : operation.Spares coll id)
    (found : (store coll).findOne id = some row) :
    ((operation.apply store).2 coll).findOne id = some row := by
  by_cases writes : operation.target = some coll
  swap
  · rwa [(Op.frame writes store).1]
  cases operation with
  | findOne | «exists» | find | existsWhere => cases writes
  | create written added =>
      obtain rfl : written = coll := Option.some.inj writes
      exact Op.findOne_apply_create_of_found found
  | updateOne written other update =>
      obtain rfl : written = coll := Option.some.inj writes
      exact (Op.findOne_apply_updateOne (spares rfl) store).trans found
  | insertMany written batch =>
      obtain rfl : written = coll := Option.some.inj writes
      obtain ⟨member, named⟩ := Collection.findOne_eq_some.mp found
      rcases inserted : (store written).insertMany batch with ⟨complete, rows⟩
      have kept := Collection.mem_insertMany_of_mem inserted member
      simp only [Op.apply, inserted]
      have stays : (store.put written rows written).findOne id = some row := by
        rw [Store.put_same]
        exact Collection.findOne_eq_some.mpr ⟨kept, named⟩
      cases complete <;> exact stays
  | updateWhere written filter update => exact absurd (Option.some.inj writes) spares
  | deleteShares positionId | deletePosition position =>
      exact absurd (Option.some.inj writes).symm spares

end Avoids

end DlmmIndexer

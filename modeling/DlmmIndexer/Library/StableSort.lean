import Mathlib.Data.List.Sort
import Mathlib.Data.Prod.Lex

/-!
# Sorting by a key, ties in insertion order

A query that sorts rows by a field and then by insertion order is a stable sort of
the rows as they were inserted.  For every value of the key it keeps the rows with
that value in their order, and together with being sorted this determines the result.
-/

namespace StableSort

universe u v w

variable {α : Type u} {κ : Type v} [LinearOrder κ] {key : α → κ}

/-- Rows by key, and rows with one key in insertion order. -/
def sortByKey (key : α → κ) (rows : List α) : List α :=
  rows.insertionSort fun left right => key left ≤ key right

/-- Smaller keys come first. -/
def Ascending (key : α → κ) (rows : List α) : Prop :=
  rows.Pairwise fun left right => key left ≤ key right

theorem perm_sortByKey (key : α → κ) (rows : List α) : (sortByKey key rows).Perm rows :=
  List.perm_insertionSort _ rows

theorem mem_sortByKey (key : α → κ) {rows : List α} {row : α} :
    row ∈ sortByKey key rows ↔ row ∈ rows :=
  (perm_sortByKey key rows).mem_iff

theorem eq_nil_of_sortByKey {rows : List α} (empty : sortByKey key rows = []) : rows = [] :=
  List.perm_nil.mp (empty ▸ (perm_sortByKey key rows).symm)

theorem ascending_sortByKey (key : α → κ) (rows : List α) : Ascending key (sortByKey key rows) := by
  have total : Std.Total fun left right : α => key left ≤ key right :=
    ⟨fun left right => le_total (key left) (key right)⟩
  have trans : IsTrans α fun left right => key left ≤ key right := ⟨fun _ _ _ => le_trans⟩
  exact List.pairwise_insertionSort _ rows

/-- Rows with one key keep their order. -/
theorem filter_sortByKey (key : α → κ) (rows : List α) (value : κ) :
    (sortByKey key rows).filter (fun row => key row = value) =
      rows.filter fun row => key row = value := by
  have total : Std.Total fun left right : α => key left ≤ key right :=
    ⟨fun left right => le_total (key left) (key right)⟩
  have trans : IsTrans α fun left right => key left ≤ key right := ⟨fun _ _ _ => le_trans⟩
  have same : (rows.filter fun row => key row = value).Pairwise
      fun left right => key left ≤ key right := by
    refine List.pairwise_of_forall_mem_list fun left leftMem right rightMem => ?_
    have leftKey : key left = value := by simpa using (List.mem_filter.mp leftMem).2
    have rightKey : key right = value := by simpa using (List.mem_filter.mp rightMem).2
    exact (leftKey.trans rightKey.symm).le
  have kept := (List.sublist_insertionSort (r := fun left right => key left ≤ key right) same
    List.filter_sublist).filter fun row => decide (key row = value)
  rw [List.filter_filter, funext fun row => Bool.and_self _] at kept
  exact (kept.eq_of_length ((perm_sortByKey key rows).filter _).length_eq.symm).symm

/-- Ascending lists that agree on the rows of every key are equal. -/
theorem eq_of_filter_eq {left right : List α} (leftAscending : Ascending key left)
    (rightAscending : Ascending key right)
    (agree : ∀ value, left.filter (fun row => key row = value) =
      right.filter fun row => key row = value) : left = right := by
  have mem_of_mem {first second : List α} {row : α} (member : row ∈ first)
      (agree : ∀ value, first.filter (fun row => key row = value) =
        second.filter fun row => key row = value) : row ∈ second := by
    have here : row ∈ first.filter fun other => key other = key row :=
      List.mem_filter.mpr ⟨member, by simp⟩
    rw [agree] at here
    exact (List.mem_filter.mp here).1
  induction left generalizing right with
  | nil =>
      cases right with
      | nil => rfl
      | cons row rest =>
          have here : row ∈ ([] : List α) :=
            mem_of_mem List.mem_cons_self fun value => (agree value).symm
          cases here
  | cons row rest ih =>
      cases right with
      | nil =>
          have here : row ∈ ([] : List α) := mem_of_mem List.mem_cons_self agree
          cases here
      | cons row' rest' =>
          obtain ⟨least, restAscending⟩ := List.pairwise_cons.mp leftAscending
          obtain ⟨least', restAscending'⟩ := List.pairwise_cons.mp rightAscending
          have le : key row ≤ key row' := by
            rcases List.mem_cons.mp (mem_of_mem List.mem_cons_self fun value => (agree value).symm)
              with rfl | member
            · exact le_rfl
            · exact least row' member
          have ge : key row' ≤ key row := by
            rcases List.mem_cons.mp (mem_of_mem List.mem_cons_self agree) with rfl | member
            · exact le_rfl
            · exact least' row member
          have equal : key row' = key row := le_antisymm ge le
          have heads := agree (key row)
          rw [List.filter_cons_of_pos (by simp), List.filter_cons_of_pos (by simp [equal])] at heads
          obtain ⟨rfl, -⟩ := List.cons_eq_cons.mp heads
          rw [ih restAscending restAscending' fun value => ?_]
          have tails := agree value
          by_cases mine : key row = value
          · rw [List.filter_cons_of_pos (by simp [mine]), List.filter_cons_of_pos (by simp [mine])]
              at tails
            exact (List.cons_eq_cons.mp tails).2
          · rwa [List.filter_cons_of_neg (by simp [mine]), List.filter_cons_of_neg (by simp [mine])]
              at tails

/-- What the sorted rows are. -/
theorem sortByKey_eq_iff {rows sorted : List α} :
    sortByKey key rows = sorted ↔ Ascending key sorted ∧
      ∀ value, sorted.filter (fun row => key row = value) =
        rows.filter fun row => key row = value := by
  constructor
  · rintro rfl
    exact ⟨ascending_sortByKey key rows, filter_sortByKey key rows⟩
  · rintro ⟨ascending, agree⟩
    exact eq_of_filter_eq (ascending_sortByKey key rows) ascending fun value =>
      (filter_sortByKey key rows value).trans (agree value).symm

/-- A query of the rows sorts as it selects from the sorted ones. -/
theorem sortByKey_filter (selected : α → Bool) (rows : List α) :
    sortByKey key (rows.filter selected) = (sortByKey key rows).filter selected := by
  refine sortByKey_eq_iff.mpr
    ⟨(ascending_sortByKey key rows).sublist List.filter_sublist, fun value => ?_⟩
  rw [List.filter_comm, filter_sortByKey, List.filter_comm]

/-- Rows that are ordered by their key, and for every key by a second one, are ordered
by the two together. -/
theorem pairwise_lex {rows : List α} {order : α → α → Prop} (ascending : Ascending key rows)
    (ties : ∀ value, (rows.filter fun row => key row = value).Pairwise order) :
    rows.Pairwise fun left right =>
      key left < key right ∨ key left = key right ∧ order left right := by
  induction rows with
  | nil => exact List.Pairwise.nil
  | cons row rest ih =>
      obtain ⟨least, restAscending⟩ := List.pairwise_cons.mp ascending
      refine List.pairwise_cons.mpr ⟨fun other member => ?_, ih restAscending fun value => ?_⟩
      · rcases (least other member).lt_or_eq with below | equal
        · exact .inl below
        · have mine := ties (key row)
          rw [List.filter_cons_of_pos (by simp), List.pairwise_cons] at mine
          exact .inr ⟨equal, mine.1 other (List.mem_filter.mpr ⟨member, by simp [equal]⟩)⟩
      · exact (ties value).sublist ((List.sublist_cons_self row rest).filter _)

/-- Sorting by a key and then by the order of insertion, as a key of its own, is
sorting by the key. -/
theorem sortByKey_lex {ν : Type w} [LinearOrder ν] {inserted : α → ν} {rows : List α}
    (order : rows.Pairwise fun left right => inserted left < inserted right) :
    sortByKey (fun row => toLex (key row, inserted row)) rows = sortByKey key rows := by
  refine sortByKey_eq_iff.mpr ⟨?_, fun value => ?_⟩
  · have ties : ∀ value, ((sortByKey key rows).filter fun row => key row = value).Pairwise
        fun left right => inserted left < inserted right := by
      intro value
      rw [filter_sortByKey]
      exact order.sublist List.filter_sublist
    refine (pairwise_lex (ascending_sortByKey key rows) ties).imp ?_
    rintro left right (below | ⟨equal, before⟩)
    · exact Prod.Lex.toLex_le_toLex.mpr (.inl below)
    · exact Prod.Lex.toLex_le_toLex.mpr (.inr ⟨equal, before.le⟩)
  · have split : ∀ list : List α,
        list.filter (fun row => toLex (key row, inserted row) = value) =
          (list.filter fun row => key row = (ofLex value).1).filter
            fun row => inserted row = (ofLex value).2 := by
      intro list
      rw [List.filter_filter]
      refine List.filter_congr fun row _ => ?_
      simp [← ofLex_inj, Prod.ext_iff, Bool.and_comm]
    rw [split, split, filter_sortByKey]

/-- Rows inserted later with keys that are no smaller come last. -/
theorem sortByKey_append {rows later : List α} (ascending : Ascending key later)
    (above : ∀ row ∈ rows, ∀ other ∈ later, key row ≤ key other) :
    sortByKey key (rows ++ later) = sortByKey key rows ++ later := by
  refine sortByKey_eq_iff.mpr
    ⟨List.pairwise_append.mpr ⟨ascending_sortByKey key rows, ascending, ?_⟩, ?_⟩
  · exact fun row member other => above row ((mem_sortByKey key).mp member) other
  · intro value
    rw [List.filter_append, List.filter_append, filter_sortByKey]

/-- The last row is the last inserted among those with the largest key. -/
theorem getLast?_sortByKey {rows : List α} {row : α} :
    (sortByKey key rows).getLast? = some row ↔
      (∀ other ∈ rows, key other ≤ key row) ∧
        (rows.filter fun other => key other = key row).getLast? = some row := by
  have forward {row : α} (last : (sortByKey key rows).getLast? = some row) :
      (∀ other ∈ rows, key other ≤ key row) ∧
        (rows.filter fun other => key other = key row).getLast? = some row := by
    obtain ⟨before, shape⟩ := List.getLast?_eq_some_iff.mp last
    have ascending := ascending_sortByKey key rows
    rw [shape, Ascending, List.pairwise_append] at ascending
    constructor
    · intro other member
      rw [← mem_sortByKey key, shape, List.mem_append, List.mem_singleton] at member
      rcases member with old | rfl
      · exact ascending.2.2 other old row List.mem_cons_self
      · exact le_rfl
    · rw [← filter_sortByKey, shape, List.filter_append, List.filter_cons_of_pos (by simp)]
      simp
  refine ⟨forward, fun ⟨largest, last⟩ => ?_⟩
  have here : row ∈ rows := (List.mem_filter.mp (List.mem_of_getLast? last)).1
  cases found : (sortByKey key rows).getLast? with
  | none =>
      rw [eq_nil_of_sortByKey (List.getLast?_eq_none_iff.mp found)] at here
      cases here
  | some other =>
      obtain ⟨largest', last'⟩ := forward found
      have member : other ∈ rows := (List.mem_filter.mp (List.mem_of_getLast? last')).1
      have equal : key other = key row := le_antisymm (largest other member) (largest' row here)
      rw [equal, last] at last'
      exact last'.symm

/-- The first row is the first inserted among those with the smallest key. -/
theorem head?_sortByKey {rows : List α} {row : α} :
    (sortByKey key rows).head? = some row ↔
      (∀ other ∈ rows, key row ≤ key other) ∧
        (rows.filter fun other => key other = key row).head? = some row := by
  have forward {row : α} (first : (sortByKey key rows).head? = some row) :
      (∀ other ∈ rows, key row ≤ key other) ∧
        (rows.filter fun other => key other = key row).head? = some row := by
    obtain ⟨rest, shape⟩ := List.head?_eq_some_iff.mp first
    have ascending := ascending_sortByKey key rows
    rw [shape, Ascending, List.pairwise_cons] at ascending
    constructor
    · intro other member
      rw [← mem_sortByKey key, shape, List.mem_cons] at member
      rcases member with rfl | later
      · exact le_rfl
      · exact ascending.1 other later
    · rw [← filter_sortByKey, shape, List.filter_cons_of_pos (by simp), List.head?_cons]
  refine ⟨forward, fun ⟨smallest, first⟩ => ?_⟩
  have here : row ∈ rows := (List.mem_filter.mp (List.mem_of_head? first)).1
  cases found : (sortByKey key rows).head? with
  | none =>
      rw [eq_nil_of_sortByKey (List.head?_eq_none_iff.mp found)] at here
      cases here
  | some other =>
      obtain ⟨smallest', first'⟩ := forward found
      have member : other ∈ rows := (List.mem_filter.mp (List.mem_of_head? first')).1
      have equal : key other = key row := le_antisymm (smallest' row here) (smallest other member)
      rw [equal, first] at first'
      exact first'.symm

end StableSort

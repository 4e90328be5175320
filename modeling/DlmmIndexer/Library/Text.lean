import DlmmIndexer.Library.JavaScript

/-!
# Composite identifiers

Document ids are texts glued together with a separator.  A text that ends in a
component free of the separator determines that component and everything before
it, so ids can be taken apart from the right.
-/

namespace Text

/-- The characters before the last separator and those after it. -/
theorem append_cons_injective {left left' right right' : List Char} {separator : Char}
    (free : separator ∉ right) (free' : separator ∉ right')
    (equal : left ++ separator :: right = left' ++ separator :: right') :
    left = left' ∧ right = right' := by
  induction left generalizing left' with
  | nil =>
      cases left' with
      | nil => exact ⟨rfl, List.tail_eq_of_cons_eq equal⟩
      | cons head tail =>
          have rest := List.tail_eq_of_cons_eq equal
          exact absurd (rest ▸ List.mem_append_right tail List.mem_cons_self) free
  | cons head tail ih =>
      cases left' with
      | nil =>
          have rest := List.tail_eq_of_cons_eq equal
          exact absurd (rest ▸ List.mem_append_right tail List.mem_cons_self) free'
      | cons head' tail' =>
          obtain ⟨rfl, rest⟩ := List.cons_eq_cons.mp equal
          obtain ⟨rfl, same⟩ := ih rest
          exact ⟨rfl, same⟩

/-- Two texts with a separator between them. -/
def joined (left right : String) : String := left ++ "-" ++ right

theorem toList_joined (left right : String) :
    (joined left right).toList = left.toList ++ '-' :: right.toList := by
  simp [joined]

/-- The part after the separator decides where to cut. -/
theorem joined_injective {left left' right right' : String}
    (free : '-' ∉ right.toList) (free' : '-' ∉ right'.toList)
    (equal : joined left right = joined left' right') : left = left' ∧ right = right' := by
  have lists := congrArg String.toList equal
  rw [toList_joined, toList_joined] at lists
  obtain ⟨first, second⟩ := append_cons_injective free free' lists
  exact ⟨String.toList_inj.mp first, String.toList_inj.mp second⟩

/-- The part before the separator decides as well. -/
theorem joined_left_injective {left left' right right' : String}
    (free : '-' ∉ left.toList) (free' : '-' ∉ left'.toList)
    (equal : joined left right = joined left' right') : left = left' ∧ right = right' := by
  have lists := congrArg (fun text => text.toList.reverse) equal
  simp only [toList_joined, List.reverse_append, List.reverse_cons, List.append_assoc,
    List.singleton_append] at lists
  obtain ⟨second, first⟩ := append_cons_injective (List.mem_reverse.not.mpr free)
    (List.mem_reverse.not.mpr free') lists
  exact ⟨String.toList_inj.mp (List.reverse_inj.mp first),
    String.toList_inj.mp (List.reverse_inj.mp second)⟩

/-- After the same part the rest decides. -/
theorem joined_right_injective {left right right' : String}
    (equal : joined left right = joined left right') : right = right' := by
  have lists := congrArg String.toList equal
  rw [toList_joined, toList_joined, List.append_right_inj, List.cons_inj_right] at lists
  exact String.toList_inj.mp lists

/-- The part after the last separator is the given one. -/
def EndsIn (text part : String) : Prop := ∃ head, text = joined head part

theorem endsIn_joined_iff {left right part : String} (free : '-' ∉ right.toList)
    (free' : '-' ∉ part.toList) : EndsIn (joined left right) part ↔ right = part := by
  constructor
  · rintro ⟨head, same⟩
    exact (joined_injective free free' same).2
  · rintro rfl
    exact ⟨left, rfl⟩

theorem not_mem_decimal (value : ℕ) : '-' ∉ (JavaScript.decimal value).toList := by
  rw [JavaScript.toList_decimal_natCast]
  intro member
  have digit := Nat.isDigit_of_mem_toDigits (b := 10) (n := value) (by decide) (by decide) member
  cases digit

/-- An id that ends in a number determines the number and what precedes it. -/
theorem joined_decimal_injective {left left' : String} {value value' : ℕ}
    (equal : joined left (JavaScript.decimal value) = joined left' (JavaScript.decimal value')) :
    left = left' ∧ value = value' := by
  obtain ⟨first, second⟩ := joined_injective (not_mem_decimal value) (not_mem_decimal value') equal
  exact ⟨first, by exact_mod_cast JavaScript.decimal_injective second⟩

end Text

import Mathlib.Data.List.Nodup
import Mathlib.Data.List.Flatten

/-!
# Pages from the newest end

A log is a list, oldest entry first.  Readers that walk it backwards take the newest
`limit` entries, then the newest `limit` of the rest, and so on.  Each page lists its
entries oldest first, so the pages in reverse make up the log, while the pages in the
order of reading make it up only if nothing depends on the order across pages.
-/

namespace Paging

universe u v

variable {α : Type u} {limit : ℕ}

/-- The newest entries of a log, at most `limit`. -/
def newestPage (limit : ℕ) (log : List α) : List α := log.drop (log.length - limit)

/-- The entries before the newest page. -/
def olderEntries (limit : ℕ) (log : List α) : List α := log.take (log.length - limit)

theorem olderEntries_append_newestPage (limit : ℕ) (log : List α) :
    olderEntries limit log ++ newestPage limit log = log :=
  List.take_append_drop _ log

theorem mem_iff_older_or_newest {log : List α} {entry : α} :
    entry ∈ log ↔ entry ∈ olderEntries limit log ∨ entry ∈ newestPage limit log := by
  rw [← List.mem_append, olderEntries_append_newestPage]

theorem not_mem_newestPage_of_older {log : List α} (nodup : log.Nodup) {entry : α}
    (older : entry ∈ olderEntries limit log) : entry ∉ newestPage limit log := by
  rw [← olderEntries_append_newestPage limit log] at nodup
  exact fun newest => (List.nodup_append.mp nodup).2.2 entry older entry newest rfl

theorem newestPage_map {β : Type v} (limit : ℕ) (f : α → β) (log : List α) :
    newestPage limit (log.map f) = (newestPage limit log).map f := by
  rw [newestPage, newestPage, List.length_map, List.map_drop]

theorem olderEntries_map {β : Type v} (limit : ℕ) (f : α → β) (log : List α) :
    olderEntries limit (log.map f) = (olderEntries limit log).map f := by
  rw [olderEntries, olderEntries, List.length_map, List.map_take]

theorem newestPage_ne_nil (positive : 0 < limit) {log : List α} (nonempty : log ≠ []) :
    newestPage limit log ≠ [] := by
  have length := List.length_pos_of_ne_nil nonempty
  rw [newestPage, Ne, List.drop_eq_nil_iff]
  omega

@[simp] theorem newestPage_nil : newestPage limit ([] : List α) = [] := List.drop_nil

theorem newestPage_eq_nil_iff (positive : 0 < limit) {log : List α} :
    newestPage limit log = [] ↔ log = [] := by
  constructor
  · intro empty
    by_contra nonempty
    exact newestPage_ne_nil positive nonempty empty
  · rintro rfl
    exact newestPage_nil

theorem olderEntries_eq_nil {log : List α} (short : log.length ≤ limit) :
    olderEntries limit log = [] := by
  rw [olderEntries, Nat.sub_eq_zero_of_le short, List.take_zero]

theorem length_olderEntries_lt (positive : 0 < limit) {log : List α} (nonempty : log ≠ []) :
    (olderEntries limit log).length < log.length := by
  have entries := List.length_pos_of_ne_nil nonempty
  rw [olderEntries, List.length_take]
  omega

theorem newestPage_eq_self {log : List α} (short : log.length ≤ limit) :
    newestPage limit log = log := by
  rw [newestPage, Nat.sub_eq_zero_of_le short, List.drop_zero]

/-- The newest page as a reader receives it, newest entry first. -/
theorem reverse_newestPage (limit : ℕ) (log : List α) :
    (newestPage limit log).reverse = log.reverse.take limit := by
  rw [newestPage, List.take_reverse]

/-- All pages of a log, in the order of reading. -/
def pages (limit : ℕ) : List α → List (List α)
  | [] => []
  | entry :: rest =>
      if limit = 0 then []
      else
        newestPage limit (entry :: rest) :: pages limit (olderEntries limit (entry :: rest))
termination_by log => log.length
decreasing_by exact length_olderEntries_lt (by omega) (List.cons_ne_nil _ _)

@[simp] theorem pages_nil : pages limit ([] : List α) = [] := by rw [pages]

theorem pages_of_ne_nil (positive : 0 < limit) {log : List α} (nonempty : log ≠ []) :
    pages limit log = newestPage limit log :: pages limit (olderEntries limit log) := by
  cases log with
  | nil => exact absurd rfl nonempty
  | cons entry rest => rw [pages, if_neg (by omega)]

/-- A short log is its only page. -/
theorem pages_of_short (positive : 0 < limit) {log : List α} (nonempty : log ≠ [])
    (short : log.length ≤ limit) : pages limit log = [log] := by
  rw [pages_of_ne_nil positive nonempty, newestPage_eq_self short, olderEntries_eq_nil short,
    pages_nil]

/-- Induction along the pages of a log. -/
theorem page_induction {motive : List α → Prop} (positive : 0 < limit) (nil : motive [])
    (page : ∀ log, log ≠ [] → motive (olderEntries limit log) → motive log) (log : List α) :
    motive log := by
  induction length : log.length using Nat.strongRecOn generalizing log with
  | ind count ih =>
      by_cases empty : log = []
      · exact empty ▸ nil
      · have shorter := length_olderEntries_lt positive empty
        exact page log empty (ih _ (length ▸ shorter) _ rfl)

/-- The pages in reverse are the log. -/
theorem flatten_reverse_pages (positive : 0 < limit) (log : List α) :
    (pages limit log).reverse.flatten = log := by
  induction log using page_induction positive with
  | nil => simp
  | page log nonempty ih =>
      rw [pages_of_ne_nil positive nonempty, List.reverse_cons, List.flatten_append, ih,
        List.flatten_singleton, olderEntries_append_newestPage]

theorem perm_flatten_pages (positive : 0 < limit) (log : List α) :
    (pages limit log).flatten.Perm log := by
  conv_rhs => rw [← flatten_reverse_pages positive log]
  exact (List.reverse_perm _).symm.flatten

theorem mem_flatten_pages (positive : 0 < limit) {log : List α} {entry : α} :
    entry ∈ (pages limit log).flatten ↔ entry ∈ log :=
  (perm_flatten_pages positive log).mem_iff

theorem nodup_flatten_reverse {parts : List (List α)} :
    parts.reverse.flatten.Nodup ↔ parts.flatten.Nodup :=
  (List.reverse_perm parts).flatten.nodup_iff

/-- Reading parts forwards and backwards gives the same list exactly when one part has
all entries. -/
theorem flatten_eq_flatten_reverse_iff {parts : List (List α)} (distinct : parts.flatten.Nodup) :
    parts.flatten = parts.reverse.flatten ↔
      ∀ part ∈ parts, ∀ entry ∈ part, ∀ other ∈ parts.flatten, other ∈ part := by
  induction parts with
  | nil => simp
  | cons first rest ih =>
      rw [List.flatten_cons, List.nodup_append] at distinct
      obtain ⟨-, restDistinct, apart⟩ := distinct
      have fromReverse {entry : α} : entry ∈ rest.reverse.flatten ↔ entry ∈ rest.flatten :=
        (List.reverse_perm rest).flatten.mem_iff
      rw [List.reverse_cons, List.flatten_append, List.flatten_singleton, List.flatten_cons]
      cases shape : first with
      | nil =>
          subst shape
          rw [List.nil_append, List.append_nil, ih restDistinct]
          simp
      | cons entry tail =>
          subst shape
          by_cases empty : rest.flatten = []
          · have empty' : rest.reverse.flatten = [] :=
              List.eq_nil_iff_forall_not_mem.mpr fun other member => by
                rw [fromReverse, empty] at member
                cases member
            rw [empty, empty', List.append_nil, List.nil_append]
            refine iff_of_true rfl ?_
            rintro part member found inPart other here
            rcases List.mem_cons.mp member with rfl | later
            · exact here
            · have there : found ∈ rest.flatten := List.mem_flatten.mpr ⟨part, later, inPart⟩
              rw [empty] at there
              cases there
          · obtain ⟨other, here⟩ := List.exists_mem_of_ne_nil _ empty
            refine iff_of_false (fun same => ?_) fun all => ?_
            · cases backwards : rest.reverse.flatten with
              | nil =>
                  rw [← fromReverse, backwards] at here
                  cases here
              | cons head _ =>
                  rw [backwards, List.cons_append, List.cons_append] at same
                  have there : head ∈ rest.flatten := by
                    rw [← fromReverse, backwards]
                    exact List.mem_cons_self
                  exact apart entry List.mem_cons_self head there (List.cons_eq_cons.mp same).1
            · have both := all (entry :: tail) List.mem_cons_self entry List.mem_cons_self other
                (List.mem_append_right _ here)
              exact apart other both other here rfl

end Paging

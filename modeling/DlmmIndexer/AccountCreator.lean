import DlmmIndexer.Scanner.Chain
import Mathlib.Logic.Function.Iterate

/-!
# The creator of an account

`getAccountCreator` pages through the signatures of an account, newest first, until a page
is not full, and takes the fee payer of the oldest transaction.  A history whose length is a
multiple of the page limit ends with an empty page.
-/

namespace DlmmIndexer

open Paging

/-- What `getTransaction` answers, as far as it is read. -/
structure TransactionResponse where
  hasMeta : Bool
  accountKeys : List String

/-- The variables of the loop, and whether it goes on. -/
structure CreatorSearch where
  before : Option String
  oldestSignature : Option ConfirmedSignatureInfo
  running : Bool

/-- What `getAccountCreator` returns, and the signatures that it has looked up. -/
structure CreatorResult where
  creator : Option String
  lookups : List String

namespace CreatorSearch

def limit : ℕ := 1000

def start : CreatorSearch := ⟨none, none, true⟩

/-- One turn of the loop, with one call of `getSignaturesForAddress`. -/
def turn (history : History) (search : CreatorSearch) : CreatorSearch :=
  if !search.running then search
  else
    let signatures := history.getSignaturesForAddress limit search.before none
    match signatures.getLast? with
    | none => { search with running := false }
    | some oldest =>
        if signatures.length < limit then
          { search with oldestSignature := some oldest, running := false }
        else
          { search with oldestSignature := some oldest, before := some oldest.signature }

end CreatorSearch

/-- The fee payer of a transaction.  A key without characters counts as none. -/
def creatorOf : Option TransactionResponse → Option String
  | none => none
  | some transaction =>
      if !transaction.hasMeta then none
      else transaction.accountKeys.head?.filter fun creator => creator ≠ ""

/-- `none` while the loop has not ended after so many calls of `getSignaturesForAddress`. -/
def getAccountCreator (history : History) (getTransaction : String → Option TransactionResponse)
    (calls : ℕ) : Option CreatorResult :=
  let search := (CreatorSearch.turn history)^[calls] .start
  if search.running then none
  else
    match search.oldestSignature with
    | none => some ⟨none, []⟩
    | some oldest => some ⟨creatorOf (getTransaction oldest.signature), [oldest.signature]⟩

/-! ## The loop -/

namespace CreatorSearch

variable {history : History} {search : CreatorSearch}

/-- A loop that goes on has seen everything from its oldest signature on. -/
structure Searching (history : History) (search : CreatorSearch) : Prop where
  running : search.running = true
  seen : search.oldestSignature =
    history.transactions[(history.olderThan search.before).length]?

theorem searching_start : Searching history start where
  running := rfl
  seen := by
    rw [start, History.olderThan, History.upTo, List.take_length, List.getElem?_length]

theorem getLast?_signatures (history : History) (before : Option String) :
    (history.getSignaturesForAddress limit before none).getLast? =
      (newestPage limit (history.olderThan before)).head? := by
  rw [← History.reverse_signatures_before, List.head?_reverse]

theorem length_signatures (history : History) (before : Option String) :
    (history.getSignaturesForAddress limit before none).length =
      min limit (history.olderThan before).length := by
  rw [← List.length_reverse, History.reverse_signatures_before, newestPage, List.length_drop]
  omega

/-- A full page moves the cursor in front of it. -/
theorem turn_full (searching : Searching history search)
    (full : limit ≤ (history.olderThan search.before).length) :
    Searching history (turn history search) ∧
      (history.olderThan (turn history search).before).length =
        (history.olderThan search.before).length - limit := by
  cases page : newestPage limit (history.olderThan search.before) with
  | nil =>
      rw [newestPage_eq_nil_iff (by decide)] at page
      rw [page] at full
      cases full
  | cons oldest rest =>
      have older := History.olderThan_head_newestPage page
      have moved : turn history search =
          { search with oldestSignature := some oldest, before := some oldest.signature } := by
        rw [turn, searching.running]
        simp only [getLast?_signatures, length_signatures, page, List.head?_cons]
        rw [if_neg (by decide), if_neg (by omega)]
      have length : (olderEntries limit (history.olderThan search.before)).length =
          (history.olderThan search.before).length - limit := by
        rw [olderEntries, List.length_take, Nat.min_eq_left (Nat.sub_le _ _)]
      rw [moved]
      refine ⟨⟨searching.running, ?_⟩, by rw [older, length]⟩
      rw [older]
      conv_rhs => rw [History.split_newestPage page]
      rw [List.getElem?_append_right le_rfl, Nat.sub_self]
      rfl

/-- A page that is not full is the last one. -/
theorem turn_short (searching : Searching history search)
    (short : (history.olderThan search.before).length < limit) :
    (turn history search).running = false ∧
      (turn history search).oldestSignature = history.transactions.head? := by
  have whole := newestPage_eq_self short.le
  rw [turn, searching.running]
  simp only [getLast?_signatures, length_signatures, whole]
  rw [if_neg (by decide)]
  cases remaining : history.olderThan search.before with
  | nil =>
      have seen := searching.seen
      rw [remaining] at seen
      exact ⟨rfl, seen.trans List.head?_eq_getElem?.symm⟩
  | cons oldest rest =>
      rw [remaining] at short
      have first : history.transactions.head? = some oldest := by
        rw [← List.take_append_drop (history.upTo search.before) history.transactions]
        change (history.olderThan search.before ++ _).head? = _
        rw [remaining]
        rfl
      simp only [List.head?_cons]
      rw [if_pos (by omega)]
      exact ⟨rfl, first.symm⟩

theorem iterate_turn (history : History) {calls : ℕ}
    (full : calls * limit ≤ history.transactions.length) :
    Searching history ((turn history)^[calls] start) ∧
      (history.olderThan ((turn history)^[calls] start).before).length =
        history.transactions.length - calls * limit := by
  induction calls with
  | zero =>
      refine ⟨searching_start, ?_⟩
      rw [Nat.zero_mul, Nat.sub_zero]
      exact congrArg List.length List.take_length
  | succ calls ih =>
      rw [Nat.succ_mul] at full ⊢
      obtain ⟨searching, remaining⟩ := ih (by omega)
      rw [Function.iterate_succ_apply']
      obtain ⟨next, length⟩ := turn_full searching (by omega)
      exact ⟨next, by rw [length, remaining, Nat.sub_sub]⟩

end CreatorSearch

/-! ## The first transaction -/

/-- The loop ends after one call for every full page and one more.  What it then looks up is
the oldest signature, if there is one. -/
theorem account_creator_first_transaction (history : History)
    (getTransaction : String → Option TransactionResponse) :
    let calls := history.transactions.length / 1000 + 1
    (∀ fewer < calls, getAccountCreator history getTransaction fewer = none) ∧
      ∃ result, getAccountCreator history getTransaction calls = some result ∧
        result.lookups = (history.transactions.head?.map (·.signature)).toList ∧
        ((result.creator = none ∧ result.lookups = []) ↔ history.transactions.length = 0) := by
  intro calls
  have pages : history.transactions.length / 1000 * CreatorSearch.limit ≤
      history.transactions.length := Nat.div_mul_le_self _ _
  refine ⟨fun fewer below => ?_, ?_⟩
  · have full : fewer * CreatorSearch.limit ≤ history.transactions.length :=
      (Nat.mul_le_mul_right _ (Nat.lt_succ_iff.mp below)).trans pages
    exact if_pos (CreatorSearch.iterate_turn history full).1.running
  · obtain ⟨searching, remaining⟩ := CreatorSearch.iterate_turn history pages
    have short : history.transactions.length -
        history.transactions.length / 1000 * CreatorSearch.limit < CreatorSearch.limit := by
      rw [CreatorSearch.limit]
      omega
    rw [← remaining] at short
    obtain ⟨stopped, oldest⟩ := CreatorSearch.turn_short searching short
    rw [← Function.iterate_succ_apply' (CreatorSearch.turn history)] at stopped oldest
    cases first : history.transactions.head? with
    | none =>
        rw [first] at oldest
        refine ⟨⟨none, []⟩, ?_, rfl, ?_⟩
        · simp only [getAccountCreator, calls, stopped, oldest]
          rfl
        · rw [List.head?_eq_none_iff.mp first]
          exact ⟨fun _ => rfl, fun _ => ⟨rfl, rfl⟩⟩
    | some tx =>
        rw [first] at oldest
        refine ⟨⟨creatorOf (getTransaction tx.signature), [tx.signature]⟩, ?_, rfl, ?_⟩
        · simp only [getAccountCreator, calls, stopped, oldest]
          rfl
        · refine iff_of_false (fun nothing => List.cons_ne_nil _ _ nothing.2) fun empty => ?_
          rw [List.length_eq_zero_iff.mp empty] at first
          cases first

end DlmmIndexer

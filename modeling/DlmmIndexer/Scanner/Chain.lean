import Mathlib.Data.List.Infix
import Mathlib.Order.Monotone.Basic
import DlmmIndexer.Library.Paging

/-!
# The chain as the scanner sees it

The history of the program is the list of its transactions, oldest first.  The scanner
reads it through `getSignaturesForAddress` only, which answers newest first, between an
exclusive `before` and an exclusive `until`, and at most `limit` entries.
-/

namespace DlmmIndexer

open Paging

/-- An entry of `getSignaturesForAddress`; `err` tells whether the transaction failed.
The block time is left out. -/
structure ConfirmedSignatureInfo where
  signature : String
  slot : ℕ
  err : Bool
  deriving DecidableEq, Repr

/-- The transactions of an address, oldest first. -/
structure History where
  transactions : List ConfirmedSignatureInfo
  distinct : (transactions.map (·.signature)).Nodup
  ordered : transactions.Pairwise fun earlier later => earlier.slot ≤ later.slot

namespace History

variable (history : History)

/-- The place of a signature, from the oldest transaction on; an unknown signature comes
after all of them. -/
def position (signature : String) : ℕ := (history.transactions.map (·.signature)).idxOf signature

/-- Where the entries of a query end: at `before`, if it is given. -/
def upTo : Option String → ℕ
  | none => history.transactions.length
  | some signature => history.position signature

/-- Where the entries of a query begin: after `until`, if it is given. -/
def after : Option String → ℕ
  | none => 0
  | some signature => history.position signature + 1

/-- The transactions older than `before`. -/
def olderThan (before : Option String) : List ConfirmedSignatureInfo :=
  history.transactions.take (history.upTo before)

/-- The transactions newer than `until`. -/
def newerThan (untilSignature : Option String) : List ConfirmedSignatureInfo :=
  history.transactions.drop (history.after untilSignature)

/-- The answer of the RPC node: the newest entries in the range, newest first. -/
def getSignaturesForAddress (limit : ℕ) (before untilSignature : Option String) :
    List ConfirmedSignatureInfo :=
  ((history.olderThan before).drop (history.after untilSignature)).reverse.take limit

/-- The successful transactions in chain order. -/
def successful : List ConfirmedSignatureInfo := history.transactions.filter fun tx => !tx.err

/-- Later transactions are added at the end. -/
def Extends (history later : History) : Prop := history.transactions <+: later.transactions

variable {history}

/-! ## Positions -/

theorem nodup (history : History) : history.transactions.Nodup := history.distinct.of_map _

theorem position_getElem {index : ℕ} (inside : index < history.transactions.length) :
    history.position history.transactions[index].signature = index := by
  have found := history.distinct.idxOf_getElem index (by rwa [List.length_map])
  rwa [List.getElem_map] at found

theorem position_of_split {older newer : List ConfirmedSignatureInfo} {tx : ConfirmedSignatureInfo}
    (split : history.transactions = older ++ tx :: newer) :
    history.position tx.signature = older.length := by
  have inside : older.length < history.transactions.length := by
    rw [split, List.length_append, List.length_cons]
    omega
  have here : history.transactions[older.length] = tx := by simp [split]
  rw [← here, position_getElem]

theorem position_lt_length {tx : ConfirmedSignatureInfo} (member : tx ∈ history.transactions) :
    history.position tx.signature < history.transactions.length := by
  obtain ⟨index, inside, rfl⟩ := List.getElem_of_mem member
  rwa [position_getElem inside]

/-- Transactions stand in the order of their positions. -/
theorem pairwise_position (history : History) :
    history.transactions.Pairwise fun earlier later =>
      history.position earlier.signature < history.position later.signature := by
  rw [List.pairwise_iff_getElem]
  intro i j _ _ below
  rwa [position_getElem, position_getElem]

theorem eq_of_signature_eq {tx other : ConfirmedSignatureInfo} (member : tx ∈ history.transactions)
    (member' : other ∈ history.transactions) (same : tx.signature = other.signature) :
    tx = other :=
  List.inj_on_of_nodup_map history.distinct member member' same

/-- Later positions have no smaller slots. -/
theorem slot_le_of_position_le {tx other : ConfirmedSignatureInfo}
    (member : tx ∈ history.transactions) (member' : other ∈ history.transactions)
    (le : history.position tx.signature ≤ history.position other.signature) :
    tx.slot ≤ other.slot := by
  obtain ⟨i, inside, rfl⟩ := List.getElem_of_mem member
  obtain ⟨j, inside', rfl⟩ := List.getElem_of_mem member'
  rw [position_getElem, position_getElem] at le
  rcases le.lt_or_eq with below | rfl
  · exact List.pairwise_iff_getElem.mp history.ordered i j inside inside' below
  · exact le_rfl

theorem mem_newerThan {tx : ConfirmedSignatureInfo} {signature : String} :
    tx ∈ history.newerThan (some signature) ↔
      tx ∈ history.transactions ∧ history.position signature < history.position tx.signature := by
  rw [newerThan, after, List.mem_drop_iff_getElem]
  constructor
  · rintro ⟨index, inside, rfl⟩
    refine ⟨List.getElem_mem _, ?_⟩
    rw [position_getElem]
    omega
  · rintro ⟨member, below⟩
    obtain ⟨index, inside, rfl⟩ := List.getElem_of_mem member
    rw [position_getElem] at below
    refine ⟨index - (history.position signature + 1), by omega, ?_⟩
    congr 1
    omega

theorem position_lt_of_mem_olderThan {tx : ConfirmedSignatureInfo} {signature : String}
    (member : tx ∈ history.olderThan (some signature)) :
    history.position tx.signature < history.position signature := by
  obtain ⟨index, inside, rfl⟩ := List.mem_take_iff_getElem.mp member
  rw [position_getElem]
  exact (Nat.lt_min.mp inside).1

theorem olderThan_subset {before : Option String} :
    history.olderThan before ⊆ history.transactions :=
  List.take_subset _ _

/-! ## Pages -/

/-- The answer to a query with `before`, put in chain order. -/
theorem reverse_signatures_before (history : History) (limit : ℕ) (before : Option String) :
    (history.getSignaturesForAddress limit before none).reverse =
      newestPage limit (history.olderThan before) := by
  rw [getSignaturesForAddress, ← reverse_newestPage, List.reverse_reverse, after, List.drop_zero]

/-- The answer to a query with `until`, put in chain order. -/
theorem reverse_signatures_until (history : History) (limit : ℕ) (untilSignature : Option String) :
    (history.getSignaturesForAddress limit none untilSignature).reverse =
      newestPage limit (history.newerThan untilSignature) := by
  rw [getSignaturesForAddress, ← reverse_newestPage, List.reverse_reverse, olderThan, upTo,
    List.take_length, newerThan]

/-- The history around the oldest entry of a page. -/
theorem split_newestPage {limit : ℕ} {before : Option String} {tx : ConfirmedSignatureInfo}
    {rest : List ConfirmedSignatureInfo}
    (page : newestPage limit (history.olderThan before) = tx :: rest) :
    history.transactions = olderEntries limit (history.olderThan before) ++
      tx :: (rest ++ history.transactions.drop (history.upTo before)) := by
  rw [← List.cons_append, ← page, ← List.append_assoc, olderEntries_append_newestPage, olderThan,
    List.take_append_drop]

/-- The oldest entry of a page is the cursor of the entries before it. -/
theorem olderThan_head_newestPage {limit : ℕ} {before : Option String}
    {tx : ConfirmedSignatureInfo} {rest : List ConfirmedSignatureInfo}
    (page : newestPage limit (history.olderThan before) = tx :: rest) :
    history.olderThan (some tx.signature) = olderEntries limit (history.olderThan before) := by
  have split := split_newestPage page
  rw [olderThan, upTo, position_of_split split]
  conv_lhs => rw [split]
  exact List.take_left

/-! ## Growth -/

theorem Extends.refl (history : History) : history.Extends history := List.prefix_rfl

theorem Extends.mem {later : History} (extended : history.Extends later)
    {tx : ConfirmedSignatureInfo} (member : tx ∈ history.transactions) : tx ∈ later.transactions :=
  List.IsPrefix.mem member extended

theorem Extends.position_eq {later : History} (extended : history.Extends later)
    {tx : ConfirmedSignatureInfo} (member : tx ∈ history.transactions) :
    later.position tx.signature = history.position tx.signature :=
  ((List.IsPrefix.map ConfirmedSignatureInfo.signature extended).idxOf_eq_of_mem
    (List.mem_map_of_mem member)).symm

/-- What is new stands after everything known. -/
theorem Extends.mem_of_position_le {later : History} (extended : history.Extends later)
    {tx other : ConfirmedSignatureInfo} (member : tx ∈ later.transactions)
    (known : other ∈ history.transactions)
    (le : later.position tx.signature ≤ later.position other.signature) :
    tx ∈ history.transactions := by
  have bound := position_lt_length known
  rw [← extended.position_eq known] at bound
  obtain ⟨index, inside, rfl⟩ := List.getElem_of_mem member
  rw [position_getElem] at le
  rw [← List.IsPrefix.getElem extended (le.trans_lt bound)]
  exact List.getElem_mem _

/-! ## Sample histories -/

/-- Distinct signatures. -/
def sampleSignature (index : ℕ) : String := String.ofList (List.replicate (index + 1) '1')

theorem sampleSignature_injective : Function.Injective sampleSignature := by
  intro left right same
  have lengths := congrArg List.length (String.ofList_injective same)
  rw [List.length_replicate, List.length_replicate] at lengths
  exact Nat.succ_injective lengths

/-- A successful transaction. -/
def sampleTransaction (slot : ℕ → ℕ) (index : ℕ) : ConfirmedSignatureInfo :=
  ⟨sampleSignature index, slot index, false⟩

/-- A history of successful transactions in the given slots. -/
def sample {slot : ℕ → ℕ} (monotone : Monotone slot) (count : ℕ) : History where
  transactions := (List.range count).map (sampleTransaction slot)
  distinct := by
    rw [List.map_map]
    exact List.nodup_range.map sampleSignature_injective
  ordered := by
    refine List.pairwise_map.mpr (List.pairwise_lt_range.imp ?_)
    exact fun below => monotone (Nat.le_of_lt below)

theorem length_sample {slot : ℕ → ℕ} (monotone : Monotone slot) (count : ℕ) :
    (sample monotone count).transactions.length = count := by
  rw [sample, List.length_map, List.length_range]

theorem mem_sample {slot : ℕ → ℕ} {monotone : Monotone slot} {count : ℕ}
    {tx : ConfirmedSignatureInfo} :
    tx ∈ (sample monotone count).transactions ↔
      ∃ index < count, sampleTransaction slot index = tx := by
  simp [sample]

theorem position_sample {slot : ℕ → ℕ} (monotone : Monotone slot) {count index : ℕ}
    (inside : index < count) :
    (sample monotone count).position (sampleSignature index) = index := by
  have inside' : index < (sample monotone count).transactions.length := by rwa [length_sample]
  have place := position_getElem inside'
  have here : (sample monotone count).transactions[index] = sampleTransaction slot index := by
    simp [sample]
  rwa [here] at place

theorem newerThan_sample {slot : ℕ → ℕ} (monotone : Monotone slot) {count index : ℕ}
    (inside : index < count) :
    (sample monotone count).newerThan (some (sampleSignature index)) =
      ((List.range count).drop (index + 1)).map (sampleTransaction slot) := by
  rw [newerThan, after, position_sample monotone inside, sample, List.map_drop]

theorem sample_extends {slot : ℕ → ℕ} (monotone : Monotone slot) {count count' : ℕ}
    (le : count ≤ count') : (sample monotone count).Extends (sample monotone count') := by
  have known := List.take_prefix count (List.range count')
  rw [List.take_range, Nat.min_eq_left le] at known
  exact known.map (sampleTransaction slot)

end History

end DlmmIndexer

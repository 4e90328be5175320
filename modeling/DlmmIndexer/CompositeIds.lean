import DlmmIndexer.InstructionRow
import DlmmIndexer.Movement

/-!
# Composite ids

The ids of seven collections are glued together from numbers, a signature, account
addresses, the name of a processor and an inner index.  Only the separator decides where
to cut: numbers, addresses and names have none, and the star of an absent inner index is no
number.  A signature needs no such care, as it stands between a number and parts that are
cut off from the right.
-/

namespace DlmmIndexer

open JavaScript Text

/-! ## Parts -/

def base58Alphabet : List Char :=
  "123456789ABCDEFGHJKLMNPQRSTUVWXYZabcdefghijkmnopqrstuvwxyz".toList

/-- The text of a signature or an account address. -/
def IsBase58 (text : String) : Prop := ∀ char ∈ text.toList, char ∈ base58Alphabet

instance (text : String) : Decidable (IsBase58 text) :=
  List.decidableBAll (· ∈ base58Alphabet) text.toList

theorem IsBase58.not_mem {text : String} (base58 : IsBase58 text) : '-' ∉ text.toList :=
  fun member => absurd (base58 _ member) (by decide)

namespace InnerIndex

/-- The number of an inner index; `undefined` and `null` are alike. -/
def given : InnerIndex → Option ℕ
  | .undefined => none
  | .null => none
  | .at index => some index

theorem given_of_text {innerIndex other : InnerIndex} (same : innerIndex.text = other.text) :
    innerIndex.given = other.given := by
  have absent (star : innerIndex.text = "*") : innerIndex.given = none := by
    cases innerIndex with
    | undefined => rfl
    | null => rfl
    | «at» index => exact absurd star (text_at_ne_star index)
  cases other with
  | undefined => exact absent same
  | null => exact absent same
  | «at» index => rw [text_eq_decimal_iff.mp same]

end InnerIndex

/-! ## Components -/

/-- What an instruction id is made from. -/
def CheckAndInsertInstructionParams.components (params : CheckAndInsertInstructionParams) :
    ℕ × String × ProcessorName × ℕ × Option ℕ :=
  (params.blockNumber, params.signature, params.processorName, params.instructionIndex,
    params.innerInstructionIndex.given)

/-- What the ids of events take from a message besides the inner index. -/
def ParsedInstructionMessage.identity (message : ParsedInstructionMessage) : ℕ × String × ℕ :=
  (message.blockNumber, message.signature, message.instructionIndex)

/-- A number in front of the separator. -/
theorem decimal_joined_injective {number number' : ℕ} {rest rest' : String}
    (same : joined (decimal number) rest = joined (decimal number') rest') :
    number = number' ∧ rest = rest' := by
  obtain ⟨first, second⟩ := joined_left_injective (not_mem_decimal _) (not_mem_decimal _) same
  exact ⟨by exact_mod_cast decimal_injective first, second⟩

theorem binId_injective {pair pair' : String} {lbBinId lbBinId' : ℕ}
    (same : binId pair lbBinId = binId pair' lbBinId') : pair = pair' ∧ lbBinId = lbBinId' :=
  joined_decimal_injective same

theorem components_of_generateInstructionId {params params' : CheckAndInsertInstructionParams}
    (same : generateInstructionId params = generateInstructionId params') :
    params.components = params'.components := by
  have names := processorName_of_generateInstructionId same
  obtain ⟨index, inner⟩ := place_of_generateInstructionId same
  obtain ⟨outer, -⟩ := joined_injective (InnerIndex.not_mem_text _) (InnerIndex.not_mem_text _) same
  obtain ⟨outer, -⟩ := joined_decimal_injective outer
  obtain ⟨outer, -⟩ := joined_injective (ProcessorName.not_mem_text _)
    (ProcessorName.not_mem_text _) outer
  obtain ⟨block, signature⟩ := decimal_joined_injective outer
  rw [CheckAndInsertInstructionParams.components, block, signature, names, index,
    InnerIndex.given_of_text inner]
  rfl

theorem identity_of_getSwapEventId {message message' : ParsedInstructionMessage}
    {inner inner' : InnerIndex}
    (same : Swap.getSwapEventId message inner = Swap.getSwapEventId message' inner') :
    message.identity = message'.identity ∧ inner.given = inner'.given := by
  obtain ⟨outer, innerSame⟩ :=
    joined_injective (InnerIndex.not_mem_text _) (InnerIndex.not_mem_text _) same
  obtain ⟨outer, index⟩ := joined_decimal_injective outer
  obtain ⟨block, signature⟩ := decimal_joined_injective outer
  rw [ParsedInstructionMessage.identity, block, signature, index]
  exact ⟨rfl, InnerIndex.given_of_text innerSame⟩

/-- The id of a bin at the end of an event id is cut off in front of its pair. -/
theorem joined_binId_injective {front front' pair pair' : String} {lbBinId lbBinId' : ℕ}
    (base58 : IsBase58 pair) (base58' : IsBase58 pair')
    (same : joined front (binId pair lbBinId) = joined front' (binId pair' lbBinId')) :
    front = front' ∧ pair = pair' ∧ lbBinId = lbBinId' := by
  have shape (front pair : String) (lbBinId : ℕ) :
      joined front (binId pair lbBinId) = joined (joined front pair) (decimal lbBinId) := by
    simp only [joined, binId, String.append_assoc]
  rw [shape, shape] at same
  obtain ⟨outer, bins⟩ := joined_decimal_injective same
  obtain ⟨fronts, pairs⟩ := joined_injective base58.not_mem base58'.not_mem outer
  exact ⟨fronts, pairs, bins⟩

/-! ## Injectivity -/

/-- In each of the seven schemes equal ids have equal components. -/
theorem composite_ids_injective :
    (∀ params params' : CheckAndInsertInstructionParams,
      generateInstructionId params = generateInstructionId params' →
        params.components = params'.components) ∧
    (∀ (message message' : ParsedInstructionMessage) (inner inner' : InnerIndex),
      Swap.getSwapEventId message inner = Swap.getSwapEventId message' inner' →
        message.identity = message'.identity ∧ inner.given = inner'.given) ∧
    (∀ (message message' : ParsedInstructionMessage) (inner inner' : InnerIndex)
      (pair pair' : String) (lbBinId lbBinId' : ℕ), IsBase58 pair → IsBase58 pair' →
      Swap.getBinSwapEventId message inner (binId pair lbBinId) =
          Swap.getBinSwapEventId message' inner' (binId pair' lbBinId') →
        message.identity = message'.identity ∧ inner.given = inner'.given ∧
          pair = pair' ∧ lbBinId = lbBinId') ∧
    (∀ (message message' : ParsedInstructionMessage) (pair pair' : String) (lbBinId lbBinId' : ℕ),
      IsBase58 pair → IsBase58 pair' →
      CompositionFees.getCompositionFeesEventId message (binId pair lbBinId) =
          CompositionFees.getCompositionFeesEventId message' (binId pair' lbBinId') →
        message.identity = message'.identity ∧
          message.innerInstructionIndex.given = message'.innerInstructionIndex.given ∧
          pair = pair' ∧ lbBinId = lbBinId') ∧
    (∀ (params params' : CheckAndInsertInstructionParams) (movement movement' : Movement)
      (message message' : ParsedInstructionMessage) (bin bin' : BinMove),
      (movement.updateEvent message (generateInstructionId params) bin).id =
          (movement'.updateEvent message' (generateInstructionId params') bin').id →
        params.components = params'.components ∧ bin.lbBinId = bin'.lbBinId) ∧
    (∀ (position position' : String) (index index' : ℕ),
      liquidityShareId position index = liquidityShareId position' index' →
        position = position' ∧ index = index') ∧
    ∀ (pair pair' : String) (lbBinId lbBinId' : ℕ),
      binId pair lbBinId = binId pair' lbBinId' → pair = pair' ∧ lbBinId = lbBinId' := by
  refine ⟨fun _ _ => components_of_generateInstructionId, fun _ _ _ _ => identity_of_getSwapEventId,
    ?_, ?_, ?_, fun _ _ _ _ => joined_decimal_injective, fun _ _ _ _ => binId_injective⟩
  · intro message message' inner inner' pair pair' lbBinId lbBinId' base58 base58' same
    obtain ⟨front, bins⟩ := joined_binId_injective base58 base58' same
    exact ⟨(identity_of_getSwapEventId front).1, (identity_of_getSwapEventId front).2, bins⟩
  · intro message message' pair pair' lbBinId lbBinId' base58 base58' same
    obtain ⟨front, bins⟩ := joined_binId_injective base58 base58' same
    have identity : message.identity = message'.identity ∧
        message.innerInstructionIndex.given = message'.innerInstructionIndex.given :=
      identity_of_getSwapEventId front
    exact ⟨identity.1, identity.2, bins⟩
  · intro params params' movement movement' message message' bin bin' same
    obtain ⟨instruction, bins⟩ := joined_decimal_injective same
    exact ⟨components_of_generateInstructionId instruction, bins⟩

/-- The event of a bin under one id, with the inner index null or undefined. -/
theorem composite_ids_injective_absent :
    let message : ParsedInstructionMessage := ⟨7, "5sig", 0, false, .null⟩
    Swap.getBinSwapEventId message .null (binId "9pair" 3) =
        Swap.getBinSwapEventId message .undefined (binId "9pair" 3) ∧
      message.identity = message.identity ∧
        InnerIndex.null.given = InnerIndex.undefined.given ∧ "9pair" = "9pair" ∧ 3 = 3 := by
  have base58 : IsBase58 "9pair" := by decide
  exact ⟨rfl, composite_ids_injective.2.2.1 _ _ _ _ _ _ _ _ base58 base58 rfl⟩

end DlmmIndexer

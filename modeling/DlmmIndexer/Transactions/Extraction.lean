import DlmmIndexer.InstructionService

/-!
# Extraction

`TransactionParserService` takes the instructions of the program out of a parsed
transaction: first those of the transaction itself, then those that they called, set by
set.  Every message says where its instruction stands.

The RPC node parses the instructions of the programs that it knows; these have no `data`.
-/

namespace DlmmIndexer

structure PartiallyDecodedInstruction where
  programId : String
  accounts : List String
  data : String
  deriving DecidableEq, Repr

/-- An instruction of a transaction as the RPC node answers it. -/
inductive TransactionInstruction where
  | parsed (programId : String)
  | partiallyDecoded (instruction : PartiallyDecodedInstruction)
  deriving DecidableEq, Repr

/-- The instructions that the instruction at `index` called. -/
structure InnerInstructionSet where
  index : ℕ
  instructions : List TransactionInstruction
  deriving DecidableEq, Repr

/-- What is read of a `ParsedTransactionWithMeta`. -/
structure ParsedTransaction where
  signatures : List String
  slot : ℕ
  blockTime : Option ℤ
  instructions : List TransactionInstruction
  innerInstructions : Option (List InnerInstructionSet)
  deriving DecidableEq, Repr

/-- A message with the instruction that it is about. -/
structure InstructionMessage extends ParsedInstructionMessage where
  instruction : PartiallyDecodedInstruction
  blockTime : ℤ
  deriving DecidableEq, Repr

namespace ParsedTransaction

variable (programId : String) (transaction : ParsedTransaction)

/-- The message about an instruction at a place. -/
def message (instructionIndex : ℕ) (innerInstructionIndex : InnerIndex) (isInner : Bool)
    (instruction : PartiallyDecodedInstruction) : InstructionMessage where
  blockNumber := transaction.slot
  signature := transaction.signatures.head?.getD ""
  instruction := instruction
  instructionIndex := instructionIndex
  innerInstructionIndex := innerInstructionIndex
  isInner := isInner
  blockTime := transaction.blockTime.getD 0

/-- The body of both loops: an instruction is skipped unless it has `data` and is one of
the program. -/
def push (message : PartiallyDecodedInstruction → InstructionMessage) :
    TransactionInstruction → Option InstructionMessage
  | .parsed _ => none
  | .partiallyDecoded instruction =>
      if instruction.programId = programId then some (message instruction) else none

/-- One loop over instructions, from the message about an index. -/
def pushAll (message : ℕ → PartiallyDecodedInstruction → InstructionMessage)
    (instructions : List TransactionInstruction) : List InstructionMessage :=
  instructions.zipIdx.filterMap fun (instruction, index) =>
    push programId (message index) instruction

def topLevelInstructions : List InstructionMessage :=
  pushAll programId (fun i => transaction.message i .undefined false) transaction.instructions

def innerInstructionsOf (innerInstructionSet : InnerInstructionSet) : List InstructionMessage :=
  pushAll programId (fun j => transaction.message innerInstructionSet.index (.at j) true)
    innerInstructionSet.instructions

def extractLiquidityBookInstructions : List InstructionMessage :=
  transaction.topLevelInstructions programId ++
    (transaction.innerInstructions.getD []).flatMap (transaction.innerInstructionsOf programId)

end ParsedTransaction

/-! ## Places -/

/-- Where an instruction stands: its index, or that of its set, and its index in the set. -/
def InstructionMessage.key (message : InstructionMessage) : ℕ × InnerIndex :=
  (message.instructionIndex, message.innerInstructionIndex)

namespace ParsedTransaction

variable {programId : String} {transaction : ParsedTransaction}

/-- The instruction at a place. -/
def at? (transaction : ParsedTransaction) (instructionIndex : ℕ) :
    InnerIndex → Option TransactionInstruction
  | .undefined => transaction.instructions[instructionIndex]?
  | .at j =>
      ((transaction.innerInstructions.getD []).find? fun set => set.index = instructionIndex).bind
        (·.instructions[j]?)
  | .null => none

/-- No two inner sets are about the same instruction. -/
def DistinctSets (transaction : ParsedTransaction) : Prop :=
  ((transaction.innerInstructions.getD []).map InnerInstructionSet.index).Nodup

theorem push_eq_some {build : PartiallyDecodedInstruction → InstructionMessage}
    {instruction : TransactionInstruction} {message : InstructionMessage} :
    push programId build instruction = some message ↔
      ∃ decoded, instruction = .partiallyDecoded decoded ∧ decoded.programId = programId ∧
        message = build decoded := by
  cases instruction with
  | parsed => simp [push]
  | partiallyDecoded decoded =>
      rw [push]
      split
      next same => simp [same, eq_comm]
      next other => simp [other]

section Loop

variable {message : ℕ → PartiallyDecodedInstruction → InstructionMessage}
variable {instructions : List TransactionInstruction}

theorem mem_pushAll {pushed : InstructionMessage} :
    pushed ∈ pushAll programId message instructions ↔
      ∃ index decoded, instructions[index]? = some (.partiallyDecoded decoded) ∧
        decoded.programId = programId ∧ pushed = message index decoded := by
  simp only [pushAll, List.mem_filterMap, Prod.exists, push_eq_some,
    List.mk_mem_zipIdx_iff_getElem?]
  constructor
  · rintro ⟨_, index, found, decoded, rfl, own, same⟩
    exact ⟨index, decoded, found, own, same⟩
  · rintro ⟨index, decoded, found, own, same⟩
    exact ⟨_, index, found, decoded, rfl, own, same⟩

/-- The messages of one loop have different keys, if different indexes have. -/
theorem nodup_keys_pushAll (keyAt : ℕ → ℕ × InnerIndex) (injective : Function.Injective keyAt)
    (keys : ∀ index decoded, (message index decoded).key = keyAt index) :
    ((pushAll programId message instructions).map InstructionMessage.key).Nodup := by
  have kept (places : List (TransactionInstruction × ℕ)) :
      ((places.filterMap fun (instruction, index) =>
        push programId (message index) instruction).map InstructionMessage.key).Sublist
          ((places.map Prod.snd).map keyAt) := by
    induction places with
    | nil => exact .slnil
    | cons place rest ih =>
        rw [List.filterMap_cons, List.map_cons, List.map_cons]
        split
        · exact ih.cons _
        next pushed same =>
          obtain ⟨decoded, -, -, rfl⟩ := push_eq_some.mp same
          rw [List.map_cons, keys]
          exact ih.cons_cons _
  refine (kept instructions.zipIdx).nodup ?_
  rw [List.zipIdx_map_snd]
  exact List.Nodup.map injective List.nodup_range'

end Loop

theorem key_of_mem_innerInstructionsOf {set : InnerInstructionSet} {key : ℕ × InnerIndex}
    (member : key ∈ (transaction.innerInstructionsOf programId set).map InstructionMessage.key) :
    key.1 = set.index ∧ key.2 ≠ .undefined := by
  obtain ⟨message, pushed, rfl⟩ := List.mem_map.mp member
  obtain ⟨j, decoded, -, -, rfl⟩ := mem_pushAll.mp pushed
  exact ⟨rfl, nofun⟩

/-- No two messages are about the same place. -/
theorem nodup_keys (distinct : transaction.DistinctSets) :
    ((transaction.extractLiquidityBookInstructions programId).map
      InstructionMessage.key).Nodup := by
  rw [extractLiquidityBookInstructions, List.map_append, List.map_flatMap, List.nodup_append']
  refine ⟨?_, List.nodup_flatMap.mpr ⟨fun set _ => ?_, ?_⟩, ?_⟩
  · exact nodup_keys_pushAll (fun i => (i, .undefined)) (fun _ _ same => congrArg Prod.fst same)
      fun _ _ => rfl
  · exact nodup_keys_pushAll (fun j => (set.index, .at j))
      (fun _ _ same => InnerIndex.at.inj (congrArg Prod.snd same)) fun _ _ => rfl
  · refine (List.pairwise_map.mp distinct).imp fun different => ?_
    intro key left right
    exact different ((key_of_mem_innerInstructionsOf left).1.symm.trans
      (key_of_mem_innerInstructionsOf right).1)
  · intro key top inner
    obtain ⟨message, pushed, rfl⟩ := List.mem_map.mp top
    obtain ⟨i, decoded, -, -, rfl⟩ := mem_pushAll.mp pushed
    obtain ⟨set, -, here⟩ := List.mem_flatMap.mp inner
    exact (key_of_mem_innerInstructionsOf here).2 rfl

/-- With distinct indexes, a set is found under its own. -/
theorem find?_set (distinct : transaction.DistinctSets) {set : InnerInstructionSet}
    (listed : set ∈ transaction.innerInstructions.getD []) :
    (transaction.innerInstructions.getD []).find? (fun other => other.index = set.index) =
      some set := by
  cases found : (transaction.innerInstructions.getD []).find?
      (fun other => other.index = set.index) with
  | none =>
      have absent := List.find?_eq_none.mp found set listed
      simp at absent
  | some other =>
      have same : other.index = set.index := by simpa using List.find?_some found
      rw [List.inj_on_of_nodup_map distinct (List.mem_of_find?_eq_some found) listed same]

/-- The messages are those about the instructions of the program, from their places. -/
theorem mem_extractLiquidityBookInstructions (distinct : transaction.DistinctSets)
    {message : InstructionMessage} :
    message ∈ transaction.extractLiquidityBookInstructions programId ↔
      ∃ instructionIndex innerInstructionIndex decoded,
        transaction.at? instructionIndex innerInstructionIndex =
          some (.partiallyDecoded decoded) ∧
        decoded.programId = programId ∧
        message = transaction.message instructionIndex innerInstructionIndex
          (innerInstructionIndex != .undefined) decoded := by
  rw [extractLiquidityBookInstructions, List.mem_append, List.mem_flatMap]
  constructor
  · rintro (top | ⟨set, listed, inner⟩)
    · obtain ⟨i, decoded, found, own, rfl⟩ := mem_pushAll.mp top
      exact ⟨i, .undefined, decoded, found, own, rfl⟩
    · obtain ⟨j, decoded, found, own, rfl⟩ := mem_pushAll.mp inner
      exact ⟨set.index, .at j, decoded,
        Option.bind_eq_some_iff.mpr ⟨set, find?_set distinct listed, found⟩, own, rfl⟩
  · rintro ⟨i, inner, decoded, found, own, rfl⟩
    cases inner with
    | undefined => exact .inl (mem_pushAll.mpr ⟨i, decoded, found, own, rfl⟩)
    | null => cases found
    | «at» j =>
        obtain ⟨set, listed, here⟩ := Option.bind_eq_some_iff.mp found
        have same : set.index = i := by simpa using List.find?_some listed
        subst same
        exact .inr ⟨set, List.mem_of_find?_eq_some listed,
          mem_pushAll.mpr ⟨j, decoded, here, own, rfl⟩⟩

end ParsedTransaction

end DlmmIndexer

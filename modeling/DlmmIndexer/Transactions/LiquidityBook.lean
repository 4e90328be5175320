import DlmmIndexer.Library.Collection
import DlmmIndexer.Library.JavaScript

/-!
# The program's instructions and events

Instruction data begins with a discriminator of eight bytes.  Event data begins with the
common event identifier and has the discriminator after it.  The IDL lists both kinds
with their names, and no two entries of a list share a discriminator.

Base58 is third-party work, so everything starts from the decoded bytes.  Of the IDL
entries only names and discriminators are kept; accounts and arguments are read after a
processor has accepted the bytes.
-/

namespace DlmmIndexer

open Documents JavaScript

/-- The contents of a `Buffer`. -/
abbrev Bytes := List UInt8

/-- `buffer.subarray(start, end)` -/
def subarray (buffer : Bytes) (start stop : ℕ) : Bytes := (buffer.take stop).drop start

def splitAt (buffer : Bytes) (index : ℕ) : Except JavaScript.Error (Bytes × Bytes) :=
  if index > buffer.length then .error .rangeError
  else .ok (buffer.take index, buffer.drop index)

/-! ## The IDL -/

/-- An instruction or an event of the IDL. -/
structure IdlEntry where
  name : String
  discriminator : Bytes
  deriving DecidableEq, Repr

namespace LiquidityBookIdl

def instructions : Collection IdlEntry.discriminator where
  rows :=
    [⟨"accept_config_ownership", [6, 212, 14, 48, 229, 38, 62, 241]⟩,
      ⟨"close_position", [123, 134, 81, 0, 49, 68, 98, 98]⟩,
      ⟨"create_position", [48, 215, 197, 153, 96, 203, 180, 133]⟩,
      ⟨"decrease_position", [57, 125, 21, 59, 200, 137, 179, 108]⟩,
      ⟨"increase_position", [253, 234, 128, 104, 192, 188, 45, 91]⟩,
      ⟨"initialize_bin_array", [35, 86, 19, 185, 78, 212, 75, 211]⟩,
      ⟨"initialize_bin_step_config", [2, 168, 136, 251, 163, 9, 132, 255]⟩,
      ⟨"initialize_config", [208, 127, 21, 1, 194, 190, 196, 70]⟩,
      ⟨"initialize_pair", [177, 114, 226, 34, 186, 150, 5, 245]⟩,
      ⟨"initialize_quote_asset_badge", [115, 174, 34, 42, 176, 5, 229, 207]⟩,
      ⟨"set_hook", [175, 16, 187, 252, 19, 54, 111, 221]⟩,
      ⟨"swap", [248, 198, 158, 145, 225, 117, 135, 200]⟩,
      ⟨"transfer_config_ownership", [53, 124, 67, 226, 108, 130, 19, 12]⟩,
      ⟨"update_bin_step_config", [205, 204, 206, 220, 251, 239, 19, 238]⟩,
      ⟨"update_pair_static_fee_parameters", [20, 223, 186, 73, 199, 65, 45, 80]⟩,
      ⟨"update_quote_asset_badge", [42, 12, 208, 17, 29, 174, 196, 103]⟩,
      ⟨"withdraw_protocol_fees", [11, 68, 165, 98, 18, 208, 134, 73]⟩]
  nodup := by decide +kernel

def events : Collection IdlEntry.discriminator where
  rows :=
    [⟨"BinArrayInitializationEvent", [237, 158, 3, 184, 253, 238, 102, 71]⟩,
      ⟨"BinStepConfigInitializationEvent", [2, 138, 209, 132, 61, 232, 124, 57]⟩,
      ⟨"BinStepConfigUpdateEvent", [241, 69, 172, 53, 135, 27, 238, 248]⟩,
      ⟨"BinSwapEvent", [55, 42, 192, 194, 230, 243, 9, 72]⟩,
      ⟨"CompositionFeesEvent", [83, 234, 249, 47, 88, 125, 2, 86]⟩,
      ⟨"LiquidityBookConfigInitializationEvent", [90, 99, 66, 116, 24, 72, 145, 146]⟩,
      ⟨"LiquidityBookConfigTransferOwnershipEvent", [181, 131, 103, 224, 188, 170, 226, 65]⟩,
      ⟨"LiquidityBookConfigTransferOwnershipInitEvent", [69, 165, 109, 99, 223, 38, 229, 100]⟩,
      ⟨"PairInitializationEvent", [132, 133, 209, 222, 229, 215, 206, 245]⟩,
      ⟨"PairStaticFeeParametersUpdateEvent", [57, 109, 202, 252, 154, 9, 121, 131]⟩,
      ⟨"PositionCreationEvent", [97, 21, 205, 201, 62, 41, 111, 164]⟩,
      ⟨"PositionDecreaseEvent", [200, 116, 151, 126, 182, 237, 245, 254]⟩,
      ⟨"PositionIncreaseEvent", [247, 40, 58, 113, 28, 175, 60, 174]⟩,
      ⟨"ProtocolFeesCollectionEvent", [196, 36, 190, 66, 172, 52, 142, 15]⟩,
      ⟨"QuoteAssetBadgeInitializationEvent", [202, 110, 93, 186, 165, 96, 200, 27]⟩,
      ⟨"QuoteAssetBadgeUpdateEvent", [102, 149, 171, 236, 123, 73, 205, 194]⟩]
  nodup := by decide +kernel

/-- The names of the types. -/
def types : List String :=
  ["Bin", "BinArray", "BinArrayInitializationEvent", "BinLiquidityDistribution", "BinStepConfig",
    "BinStepConfigInitializationEvent", "BinStepConfigUpdateEvent", "BinSwapEvent",
    "CompositionFeesEvent", "ConfigAvailability", "ConfigStatus", "DynamicFeeParameters",
    "LiquidityBookConfig", "LiquidityBookConfigInitializationEvent",
    "LiquidityBookConfigTransferOwnershipEvent", "LiquidityBookConfigTransferOwnershipInitEvent",
    "Pair", "PairInitializationEvent", "PairStaticFeeParametersUpdateEvent", "Position",
    "PositionCreationEvent", "PositionDecreaseEvent", "PositionIncreaseEvent",
    "ProtocolFeesCollectionEvent", "QuoteAssetBadge", "QuoteAssetBadgeInitializationEvent",
    "QuoteAssetBadgeStatus", "QuoteAssetBadgeUpdateEvent", "StaticFeeParameters", "SwapType"]

end LiquidityBookIdl

/-! ## The library -/

namespace LiquidityBookLibrary

/-- The instruction of the IDL that the data begins with.  Decoding its arguments is left
to Anchor. -/
def decodeInstruction (dataBuffer : Bytes) : Option IdlEntry :=
  LiquidityBookIdl.instructions.findOne (subarray dataBuffer 0 8)

def getInstructionName (dataBuffer : Bytes) : Option String :=
  (LiquidityBookIdl.instructions.findOne (subarray dataBuffer 0 8)).map (·.name)

/-- The event whose discriminator follows the event identifier, which is not looked at. -/
def getEventName (dataBuffer : Bytes) : Option String :=
  (LiquidityBookIdl.events.findOne (subarray dataBuffer 8 16)).map (·.name)

/-- The type whose layout `decodeType` would apply to event data. -/
def decodeType (name : String) : Option String := LiquidityBookIdl.types.find? (· = name)

end LiquidityBookLibrary

/-! ## Constants -/

def eventIdentifier : Bytes := [228, 69, 165, 46, 81, 203, 154, 29]

namespace InstructionNames

def swap := "swap"
def createPosition := "create_position"
def closePosition := "close_position"
def compositionFees := "composition_fees"
def initializePair := "initialize_pair"
def initializeBinStepConfig := "initialize_bin_step_config"
def initializeBinArray := "initialize_bin_array"
def updatePairStaticFeeParameters := "update_pair_static_fee_parameters"

end InstructionNames

namespace EventNames

def binSwapEvent := "BinSwapEvent"
def compositionFeesEvent := "CompositionFeesEvent"
def quoteAssetBadgeInitializationEvent := "QuoteAssetBadgeInitializationEvent"
def quoteAssetBadgeUpdateEvent := "QuoteAssetBadgeUpdateEvent"
def positionCreationEvent := "PositionCreationEvent"
def positionIncreaseEvent := "PositionIncreaseEvent"
def positionDecreaseEvent := "PositionDecreaseEvent"

end EventNames

namespace TypeNames

def binSwapEvent := "BinSwapEvent"
def compositionFeesEvent := "CompositionFeesEvent"
def quoteAssetBadgeInitializationEvent := "QuoteAssetBadgeInitializationEvent"
def quoteAssetBadgeUpdateEvent := "QuoteAssetBadgeUpdateEvent"
def positionCreationEvent := "PositionCreationEvent"

end TypeNames

/-! ## Matching -/

theorem length_discriminator {entry : IdlEntry}
    (listed : entry ∈ LiquidityBookIdl.instructions ∨ entry ∈ LiquidityBookIdl.events) :
    entry.discriminator.length = 8 := by
  have all : ∀ entry ∈ LiquidityBookIdl.instructions.rows ++ LiquidityBookIdl.events.rows,
      entry.discriminator.length = 8 := by decide +kernel
  exact all entry (List.mem_append.mpr listed)

/-- The data begins with the instruction's discriminator. -/
def IdlEntry.MatchesInstruction (entry : IdlEntry) (dataBuffer : Bytes) : Prop :=
  entry ∈ LiquidityBookIdl.instructions ∧ subarray dataBuffer 0 8 = entry.discriminator

/-- The data has the event's discriminator behind the identifier. -/
def IdlEntry.MatchesEvent (entry : IdlEntry) (dataBuffer : Bytes) : Prop :=
  entry ∈ LiquidityBookIdl.events ∧ subarray dataBuffer 8 16 = entry.discriminator

/-- At most one instruction matches. -/
theorem IdlEntry.MatchesInstruction.unique {entry other : IdlEntry} {dataBuffer : Bytes}
    (first : entry.MatchesInstruction dataBuffer) (second : other.MatchesInstruction dataBuffer) :
    entry = other :=
  LiquidityBookIdl.instructions.eq_of_key_eq first.1 second.1 (first.2.symm.trans second.2)

/-- At most one event matches. -/
theorem IdlEntry.MatchesEvent.unique {entry other : IdlEntry} {dataBuffer : Bytes}
    (first : entry.MatchesEvent dataBuffer) (second : other.MatchesEvent dataBuffer) :
    entry = other :=
  LiquidityBookIdl.events.eq_of_key_eq first.1 second.1 (first.2.symm.trans second.2)

/-- Names are distinct as well. -/
theorem discriminator_of_name {entry : IdlEntry} {name : String} {discriminator : Bytes}
    {rows : List IdlEntry} (distinct : (rows.map IdlEntry.name).Nodup) (listed : entry ∈ rows)
    (constants : ⟨name, discriminator⟩ ∈ rows) (same : entry.name = name) :
    entry.discriminator = discriminator := by
  rw [List.inj_on_of_nodup_map distinct listed constants same]

theorem nodup_instruction_names : (LiquidityBookIdl.instructions.rows.map IdlEntry.name).Nodup := by
  decide +kernel

theorem nodup_event_names : (LiquidityBookIdl.events.rows.map IdlEntry.name).Nodup := by
  decide +kernel

theorem getInstructionName_eq_some {dataBuffer : Bytes} {name : String} :
    LiquidityBookLibrary.getInstructionName dataBuffer = some name ↔
      ∃ entry : IdlEntry, entry.MatchesInstruction dataBuffer ∧ entry.name = name := by
  rw [LiquidityBookLibrary.getInstructionName, Option.map_eq_some_iff]
  refine exists_congr fun entry => and_congr_left fun _ => ?_
  rw [Collection.findOne_eq_some, IdlEntry.MatchesInstruction, eq_comm (a := subarray _ _ _)]

theorem getEventName_eq_some {dataBuffer : Bytes} {name : String} :
    LiquidityBookLibrary.getEventName dataBuffer = some name ↔
      ∃ entry : IdlEntry, entry.MatchesEvent dataBuffer ∧ entry.name = name := by
  rw [LiquidityBookLibrary.getEventName, Option.map_eq_some_iff]
  refine exists_congr fun entry => and_congr_left fun _ => ?_
  rw [Collection.findOne_eq_some, IdlEntry.MatchesEvent, eq_comm (a := subarray _ _ _)]

/-- Data whose first eight bytes are known can be split behind them. -/
theorem splitAt_of_subarray {dataBuffer identifier : Bytes}
    (identified : subarray dataBuffer 0 8 = identifier) (full : identifier.length = 8) :
    splitAt dataBuffer 8 = .ok (identifier, dataBuffer.drop 8) := by
  subst identified
  rw [subarray, List.drop_zero, List.length_take] at full
  rw [splitAt, if_neg (by omega), subarray, List.drop_zero]

/-- The bytes of a discriminator behind the identifier. -/
theorem subarray_drop (dataBuffer : Bytes) :
    subarray (dataBuffer.drop 8) 0 8 = subarray dataBuffer 8 16 := by
  rw [subarray, subarray, List.drop_zero, List.take_drop]

end DlmmIndexer

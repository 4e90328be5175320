import DlmmIndexer.Library.Collection
import DlmmIndexer.Library.Text

/-!
# The collections of the indexer

One record per document schema, with the fields under their schema names.  The
block time and the two row timestamps are not kept: no handler reads them.  The
native and USD texts of the two event schemas are left out as well; they are
products of floating-point prices.

Every schema declares `id` unique, so a store is a family of collections keyed by
it.  `Position` declares `positionMintId` unique too; the database checks that
index where positions are written.
-/

namespace DlmmIndexer

open Documents JavaScript

/-! ## Enumerations -/

inductive ConfigAvailability where
  | Open
  | Closed
  deriving DecidableEq, Repr

inductive BinStepConfigStatus where
  | Active
  | Inactive
  deriving DecidableEq, Repr

inductive QuoteAssetStatus where
  | Enabled
  | Disabled
  deriving DecidableEq, Repr

inductive QuoteAssetType where
  | Native
  | Stable
  | Other
  deriving DecidableEq, Repr

inductive SwapType where
  | ExactInput
  | ExactOutput
  deriving DecidableEq, Repr

/-! ## Inner instruction indexes -/

/-- The optional `innerInstructionIndex` of a message. -/
inductive InnerIndex where
  | undefined
  | null
  | at (index : ℕ)
  deriving DecidableEq, Repr

namespace InnerIndex

/-- `innerIndex ?? '*'`, the last part of instruction and event ids. -/
def text : InnerIndex → String
  | .undefined => "*"
  | .null => "*"
  | .at index => decimal index

/-- What a schema with `default: -1` stores; Mongoose replaces `undefined` only. -/
def stored : InnerIndex → Option ℤ
  | .undefined => some (-1)
  | .null => none
  | .at index => some index

/-- `innerIndex || null`. -/
def orNull : InnerIndex → InnerIndex
  | .at (index + 1) => .at (index + 1)
  | _ => .null

/-- `Boolean(innerIndex)`. -/
def truthy : InnerIndex → Bool
  | .at (_ + 1) => true
  | _ => false

end InnerIndex

/-! ## Documents -/

structure Pair where
  id : String
  binStep : ℕ
  activeId : ℕ
  liquidityBookConfig : String
  binStepConfigId : String
  tokenMintXId : String
  tokenMintYId : String
  quoteAssetId : String
  name : String
  symbol : String
  baseFactor : ℕ
  filterPeriod : ℕ
  decayPeriod : ℕ
  reductionFactor : ℕ
  variableFeeControl : ℕ
  maxVolatilityAccumulator : ℕ
  protocolShare : ℕ
  volatilityAccumulator : ℕ
  volatilityReference : ℕ
  idReference : ℕ
  timeLastUpdated : ℕ
  protocolFeesX : String
  protocolFeesY : String
  reserveX : String
  reserveY : String
  deriving DecidableEq, Repr

structure Bin where
  id : String
  lbBinId : ℕ
  binArrayId : String
  pairId : String
  binArrayIndex : ℕ
  totalSupply : String
  reserveX : String
  reserveY : String
  deriving DecidableEq, Repr

structure BinStepConfig where
  id : String
  liquidityBookConfig : String
  status : BinStepConfigStatus
  availability : ConfigAvailability
  binStep : ℕ
  baseFactor : ℕ
  filterPeriod : ℕ
  decayPeriod : ℕ
  reductionFactor : ℕ
  variableFeeControl : ℕ
  maxVolatilityAccumulator : ℕ
  protocolShare : ℕ
  deriving DecidableEq, Repr

structure TokenMint where
  id : String
  supply : String
  decimals : ℕ
  name : String
  symbol : String
  deriving DecidableEq, Repr

structure Position where
  id : String
  pairId : String
  positionMintId : String
  ownerId : String
  lowerBinLbId : ℕ
  upperBinLbId : ℕ
  deriving DecidableEq, Repr

structure LiquidityShares where
  id : String
  positionId : String
  index : ℕ
  balance : String
  deriving DecidableEq, Repr

structure TokenAccount where
  id : String
  tokenMintId : String
  ownerId : String
  balance : String
  deriving DecidableEq, Repr

structure SwapEvent where
  id : String
  pairId : String
  swapType : SwapType
  tokenMintXId : String
  tokenMintYId : String
  binArrayLower : String
  binArrayUpper : String
  tokenVaultX : String
  tokenVaultY : String
  userVaultX : String
  userVaultY : String
  blockNumber : ℕ
  signature : String
  index : ℕ
  isInner : Bool
  innerIndex : Option ℤ
  deriving DecidableEq, Repr

structure BinSwapEvent where
  id : String
  pairId : String
  binId : String
  lbBinId : ℕ
  userVaultIn : String
  userVaultOut : String
  pairVaultIn : String
  pairVaultOut : String
  swapForY : Bool
  amountIn : String
  amountOut : String
  fees : String
  protocolFees : String
  volatilityAccumulator : ℕ
  blockNumber : ℕ
  signature : String
  index : ℕ
  innerIndex : Option ℤ
  deriving DecidableEq, Repr

structure PositionUpdateEvent where
  id : String
  pairId : String
  positionId : String
  binId : String
  lbBinId : ℕ
  deltaLiquidityBalance : String
  deltaAmountX : String
  deltaAmountY : String
  blockNumber : ℕ
  signature : String
  index : ℕ
  innerIndex : Option ℤ
  deriving DecidableEq, Repr

structure CompositionFeesEvent where
  id : String
  pairId : String
  binId : String
  lbBinId : ℕ
  compositionFeesX : String
  compositionFeesY : String
  protocolFeesX : String
  protocolFeesY : String
  blockNumber : ℕ
  signature : String
  index : ℕ
  innerIndex : Option ℤ
  deriving DecidableEq, Repr

structure QuoteAsset where
  id : String
  tokenMintId : String
  status : QuoteAssetStatus
  assetType : QuoteAssetType
  deriving DecidableEq, Repr

structure Instruction where
  id : String
  processorName : String
  blockNumber : ℕ
  signature : String
  index : ℕ
  innerIndex : Option ℤ
  isInner : Bool
  deriving DecidableEq, Repr

/-! ## Stores -/

/-- The collections that the processors write. -/
inductive Coll where
  | pair
  | bin
  | binStepConfig
  | tokenMint
  | position
  | liquidityShares
  | tokenAccount
  | swapEvent
  | binSwapEvent
  | positionUpdateEvent
  | compositionFeesEvent
  | quoteAsset
  | instruction
  deriving DecidableEq, Repr

namespace Coll

/-- The documents of a collection. -/
@[reducible] def Row : Coll → Type
  | .pair => Pair
  | .bin => Bin
  | .binStepConfig => BinStepConfig
  | .tokenMint => TokenMint
  | .position => Position
  | .liquidityShares => LiquidityShares
  | .tokenAccount => TokenAccount
  | .swapEvent => SwapEvent
  | .binSwapEvent => BinSwapEvent
  | .positionUpdateEvent => PositionUpdateEvent
  | .compositionFeesEvent => CompositionFeesEvent
  | .quoteAsset => QuoteAsset
  | .instruction => Instruction

/-- The field under the unique index of a collection. -/
@[reducible] def id : (coll : Coll) → coll.Row → String
  | .pair => Pair.id
  | .bin => Bin.id
  | .binStepConfig => BinStepConfig.id
  | .tokenMint => TokenMint.id
  | .position => Position.id
  | .liquidityShares => LiquidityShares.id
  | .tokenAccount => TokenAccount.id
  | .swapEvent => SwapEvent.id
  | .binSwapEvent => BinSwapEvent.id
  | .positionUpdateEvent => PositionUpdateEvent.id
  | .compositionFeesEvent => CompositionFeesEvent.id
  | .quoteAsset => QuoteAsset.id
  | .instruction => Instruction.id

/-- The collections other than the deduplication record. -/
def Business (coll : Coll) : Prop := coll ≠ .instruction

end Coll

/-- One collection per schema. -/
abbrev Store := (coll : Coll) → Collection coll.id

namespace Store

/-- The store without documents. -/
def empty : Store := fun coll => .empty coll.id

/-- Replace one collection. -/
def put (store : Store) (coll : Coll) (rows : Collection coll.id) : Store :=
  Function.update store coll rows

@[simp] theorem put_same (store : Store) (coll : Coll) (rows : Collection coll.id) :
    store.put coll rows coll = rows := by
  simp [put]

@[simp] theorem put_other {store : Store} {coll other : Coll} {rows : Collection coll.id}
    (different : other ≠ coll) : store.put coll rows other = store other := by
  simp [put, different]

/-- Inserting a document leaves every document that is there. -/
theorem findOne_put_create {store : Store} {coll : Coll} {row : coll.Row}
    {rows : Collection coll.id} (created : (store coll).create row = some rows) {other : Coll}
    {id : String} {old : other.Row} (found : (store other).findOne id = some old) :
    (store.put coll rows other).findOne id = some old := by
  by_cases here : other = coll
  · subst here
    rw [put_same]
    exact Collection.findOne_create_of_found created found
  · rwa [put_other here]

end Store

end DlmmIndexer

import DlmmIndexer.Processors.Position

/-!
# The pair, bin array, bin step config and quote asset processors

The three initializing processors do not use the `Instruction` collection: each
looks for the document it would create and returns when it is there.
-/

namespace DlmmIndexer

open Documents JavaScript Atomic Text

/-- Bins per bin array. -/
def binArraySize : ℕ := 256

/-- The static fee parameters of a pair or of a bin step config. -/
structure StaticFeeParameters where
  baseFactor : ℕ
  filterPeriod : ℕ
  decayPeriod : ℕ
  reductionFactor : ℕ
  variableFeeControl : ℕ
  maxVolatilityAccumulator : ℕ
  protocolShare : ℕ
  deriving DecidableEq, Repr

namespace InitializeBinStepConfig

structure InitializeBinStepConfigDecoded where
  binStep : ℕ
  availability : ConfigAvailability
  feeParameters : StaticFeeParameters
  liquidityBookConfig : String
  binStepConfig : String
  deriving DecidableEq, Repr

/-- The row of a bin step config. -/
def binStepConfigData (decoded : InitializeBinStepConfigDecoded) : BinStepConfig where
  id := decoded.binStepConfig
  liquidityBookConfig := decoded.liquidityBookConfig
  status := .Active
  availability := decoded.availability
  binStep := decoded.binStep
  baseFactor := decoded.feeParameters.baseFactor
  filterPeriod := decoded.feeParameters.filterPeriod
  decayPeriod := decoded.feeParameters.decayPeriod
  reductionFactor := decoded.feeParameters.reductionFactor
  variableFeeControl := decoded.feeParameters.variableFeeControl
  maxVolatilityAccumulator := decoded.feeParameters.maxVolatilityAccumulator
  protocolShare := decoded.feeParameters.protocolShare

def process (decoded : InitializeBinStepConfigDecoded) : Action Unit := do
  match ← findOne .binStepConfig decoded.binStepConfig with
  | some _ => pure ()
  | none => create .binStepConfig (binStepConfigData decoded)

theorem process_within {decoded : InitializeBinStepConfigDecoded} :
    (process decoded).Within [.binStepConfig] := by
  refine .bind within_findOne fun existingConfig => ?_
  cases existingConfig with
  | some => exact Program.every_return _
  | none => exact within_create (by simp)

end InitializeBinStepConfig

/-! ## Token mints -/

/-- What `fetchTokenInfo` returns; every field is optional. -/
structure TokenInfo where
  decimals : Option ℕ
  supply : Option String
  error : Option String
  deriving DecidableEq, Repr

/-- What `fetchTokenMetadata` returns. -/
structure TokenMetadata where
  name : Option String
  symbol : Option String
  deriving DecidableEq, Repr

/-- The RPC answers about token mints. -/
structure MintRpc where
  fetchTokenInfo : String → TokenInfo
  fetchTokenMetadata : String → TokenMetadata

/-- `text || fallback` -/
def orElseText (text : Option String) (fallback : String) : String :=
  match text with
  | some text => if text = "" then fallback else text
  | none => fallback

/-- `replace(/\0/g, '')` -/
def dropNulls (text : String) : String := String.ofList (text.toList.filter (· ≠ Char.ofNat 0))

namespace InitializePair

structure InitializePairDecoded where
  activeId : ℕ
  liquidityBookConfig : String
  tokenMintX : String
  tokenMintY : String
  binStepConfig : String
  quoteAssetBadge : String
  pair : String
  deriving DecidableEq, Repr

/-- The row of a token mint as the chain describes it. -/
def tokenMintData (rpc : MintRpc) (tokenMintId : String) : Except Failure TokenMint :=
  let tokenInfo := rpc.fetchTokenInfo tokenMintId
  let tokenMetadata := rpc.fetchTokenMetadata tokenMintId
  match tokenInfo.error.filter (· ≠ "") with
  | some error => .error (.error ("Failed to get token mint data: " ++ error))
  | none =>
      .ok
        { id := tokenMintId
          supply := orElseText tokenInfo.supply "0"
          decimals := tokenInfo.decimals.getD 0
          name := dropNulls (orElseText tokenMetadata.name "Unknown")
          symbol := dropNulls (orElseText tokenMetadata.symbol "UNKNOWN") }

/-- The mint's row, created when it is not there. -/
def handleTokenMint (rpc : MintRpc) (tokenMintId : String) : Action TokenMint := do
  match ← findOne .tokenMint tokenMintId with
  | some existingTokenMint => pure existingTokenMint
  | none => do
      let tokenMint ← .ofExcept (tokenMintData rpc tokenMintId)
      create .tokenMint tokenMint
      pure tokenMint

/-- The row of a pair. -/
def pairData (decoded : InitializePairDecoded) (binStepConfig : BinStepConfig)
    (tokenMintX tokenMintY : TokenMint) : Pair where
  id := decoded.pair
  binStep := binStepConfig.binStep
  activeId := decoded.activeId
  liquidityBookConfig := decoded.liquidityBookConfig
  binStepConfigId := decoded.binStepConfig
  tokenMintXId := decoded.tokenMintX
  tokenMintYId := decoded.tokenMintY
  quoteAssetId := decoded.quoteAssetBadge
  name := joined tokenMintX.name tokenMintY.name
  symbol := joined tokenMintX.symbol tokenMintY.symbol
  baseFactor := binStepConfig.baseFactor
  filterPeriod := binStepConfig.filterPeriod
  decayPeriod := binStepConfig.decayPeriod
  reductionFactor := binStepConfig.reductionFactor
  variableFeeControl := binStepConfig.variableFeeControl
  maxVolatilityAccumulator := binStepConfig.maxVolatilityAccumulator
  protocolShare := binStepConfig.protocolShare
  volatilityAccumulator := 0
  volatilityReference := 0
  idReference := 0
  timeLastUpdated := 0
  protocolFeesX := "0"
  protocolFeesY := "0"
  reserveX := "0"
  reserveY := "0"

def processInitializePair (rpc : MintRpc) (decoded : InitializePairDecoded) : Action Unit := do
  match ← findOne .pair decoded.pair with
  | some _ => pure ()
  | none => do
      let _binStepConfigs ← find .binStepConfig
      let some binStepConfig ← findOne .binStepConfig decoded.binStepConfig
        | fail ("Bin step config doesn't exist for pair " ++ decoded.pair)
      let tokenMintX ← handleTokenMint rpc decoded.tokenMintX
      let tokenMintY ← handleTokenMint rpc decoded.tokenMintY
      create .pair (pairData decoded binStepConfig tokenMintX tokenMintY)

theorem handleTokenMint_within {rpc : MintRpc} {tokenMintId : String} :
    (handleTokenMint rpc tokenMintId).Within [.tokenMint] := by
  refine .bind within_findOne fun existingTokenMint => ?_
  cases existingTokenMint with
  | some => exact Program.every_return _
  | none =>
      exact .bind (Program.every_ofExcept _) fun _ => .bind (within_create (by simp)) fun _ =>
        Program.every_return _

theorem processInitializePair_within {rpc : MintRpc} {decoded : InitializePairDecoded} :
    (processInitializePair rpc decoded).Within [.tokenMint, .pair] := by
  refine .bind within_findOne fun existingPair => ?_
  cases existingPair with
  | some => exact Program.every_return _
  | none =>
  refine .bind within_find fun _ => .bind within_findOne fun binStepConfig => ?_
  cases binStepConfig with
  | none => exact within_fail
  | some binStepConfig =>
  exact .bind (handleTokenMint_within.mono (by simp)) fun _ =>
    .bind (handleTokenMint_within.mono (by simp)) fun _ => within_create (by simp)

/-- A completed initialization found the pair, or created it with zero reserves. -/
theorem of_completes_processInitializePair {rpc : MintRpc} {decoded : InitializePairDecoded}
    {store after : Store}
    (completes : mongo.Completes (processInitializePair rpc decoded) store () after) :
    ((store .pair).holds decoded.pair = true ∧ after = store) ∨
    ∃ config mintX mintY rows,
      (store .pair).create (pairData decoded config mintX mintY) = some rows ∧
        after .pair = rows := by
  simp only [processInitializePair, Database.completes_bind] at completes
  obtain ⟨_, _, ⟨rfl, rfl⟩, completes⟩ := completes
  split at completes
  next existingPair found =>
    refine .inl ⟨?_, (Database.completes_return.mp completes).2⟩
    rw [Collection.holds, found, Option.isSome_some]
  obtain ⟨_, _, listed, configuring⟩ := Database.completes_bind.mp completes
  obtain ⟨-, rfl⟩ := completes_find.mp listed
  obtain ⟨config, -, inserting⟩ := of_completes_needed configuring rfl
  simp only [Database.completes_bind, completes_create] at inserting
  obtain ⟨mintX, first, minted, mintY, second, minted', rows, created, -, rfl⟩ := inserting
  rw [handleTokenMint_within.completes (by decide) minted',
    handleTokenMint_within.completes (by decide) minted] at created
  exact .inr ⟨config, mintX, mintY, rows, created, Store.put_same _ _ _⟩

end InitializePair

namespace InitializeBinArray

structure InitializeBinArrayDecoded where
  index : ℕ
  pair : String
  binArray : String
  deriving DecidableEq, Repr

/-- One bin of an array. -/
def binDocument (decoded : InitializeBinArrayDecoded) (binIndex : ℕ) : Bin :=
  let lbBinId := decoded.index * binArraySize + binIndex
  { id := binId decoded.pair lbBinId
    lbBinId := lbBinId
    binArrayId := decoded.binArray
    pairId := decoded.pair
    binArrayIndex := decoded.index
    totalSupply := "0"
    reserveX := "0"
    reserveY := "0" }

/-- The bins of an array. -/
def binDocuments (decoded : InitializeBinArrayDecoded) : List Bin :=
  (List.range binArraySize).map (binDocument decoded)

theorem binDocument_mem {decoded : InitializeBinArrayDecoded} {binIndex : ℕ}
    (inside : binIndex < binArraySize) : binDocument decoded binIndex ∈ binDocuments decoded := by
  rw [binDocuments]
  exact List.mem_map_of_mem (List.mem_range.mpr inside)

/-- A sum over the bins of an array that all count nothing. -/
theorem sum_binDocuments {decoded : InitializeBinArrayDecoded} {weight : Bin → ℤ}
    (zero : ∀ binIndex, weight (binDocument decoded binIndex) = 0) :
    ((binDocuments decoded).map weight).sum = 0 := by
  rw [binDocuments, List.map_map]
  exact List.sum_eq_zero fun value member =>
    let ⟨binIndex, _, same⟩ := List.mem_map.mp member
    same ▸ zero binIndex

/-- The id of the first bin of an array. -/
def firstBinDocumentId (decoded : InitializeBinArrayDecoded) : String :=
  binId decoded.pair (decoded.index * binArraySize)

theorem id_binDocument_zero {decoded : InitializeBinArrayDecoded} :
    (binDocument decoded 0).id = firstBinDocumentId decoded := by
  simp only [binDocument, firstBinDocumentId, Nat.add_zero]

def processInitializeBinArray (decoded : InitializeBinArrayDecoded) : Action Unit := do
  let existingBin ← existsId .bin (firstBinDocumentId decoded)
  if existingBin then pure ()
  else insertMany .bin (binDocuments decoded)

theorem processInitializeBinArray_within {decoded : InitializeBinArrayDecoded} :
    (processInitializeBinArray decoded).Within [.bin] := by
  refine .bind within_existsId fun existingBin => ?_
  cases existingBin with
  | true => exact Program.every_return _
  | false => exact within_insertMany (by simp)

theorem of_completes_processInitializeBinArray {decoded : InitializeBinArrayDecoded}
    {store after : Store}
    (completes : mongo.Completes (processInitializeBinArray decoded) store () after) :
    after = store ∨
    ∃ rows, (store .bin).insertMany (binDocuments decoded) = (true, rows) ∧
      after = store.put .bin rows := by
  simp only [processInitializeBinArray, Database.completes_bind, completes_existsId] at completes
  obtain ⟨_, _, ⟨rfl, rfl⟩, completes⟩ := completes
  split at completes
  · exact .inl (Database.completes_return.mp completes).2
  · exact .inr (completes_insertMany.mp completes)

/-- An array none of whose bins is there is inserted in full. -/
theorem completes_processInitializeBinArray {decoded : InitializeBinArrayDecoded} {store : Store}
    (fresh : ∀ binIndex < binArraySize,
      (store .bin).findOne (binDocument decoded binIndex).id = none) :
    ∃ rows, (store .bin).insertMany (binDocuments decoded) = (true, rows) ∧
      mongo.Completes (processInitializeBinArray decoded) store () (store.put .bin rows) := by
  have distinct : ((binDocuments decoded).map Bin.id).Nodup := by
    rw [binDocuments, List.map_map]
    refine List.Nodup.map (fun left right same => ?_) List.nodup_range
    obtain ⟨-, equal⟩ := joined_decimal_injective same
    omega
  obtain ⟨rows, inserted⟩ := Collection.insertMany_complete distinct fun row member =>
    have ⟨binIndex, inside, same⟩ := List.mem_map.mp member
    same ▸ fresh binIndex (List.mem_range.mp inside)
  have absent : (store .bin).holds (firstBinDocumentId decoded) = false := by
    rw [Collection.holds_eq_false, ← id_binDocument_zero]
    exact fresh 0 (by decide)
  refine ⟨rows, inserted, Database.completes_bind.mpr ⟨false, store, ?_, ?_⟩⟩
  · exact completes_existsId.mpr ⟨absent.symm, rfl⟩
  · exact completes_insertMany.mpr ⟨rows, inserted, rfl⟩

end InitializeBinArray

namespace UpdatePairStaticFeeParameters

structure UpdatePairStaticFeeParametersDecoded where
  feeParameters : StaticFeeParameters
  pair : String
  deriving DecidableEq, Repr

/-- Assign the seven static fee fields. -/
def setFees (feeParameters : StaticFeeParameters) : Update Pair.id where
  set row :=
    { row with
      baseFactor := feeParameters.baseFactor
      filterPeriod := feeParameters.filterPeriod
      decayPeriod := feeParameters.decayPeriod
      reductionFactor := feeParameters.reductionFactor
      variableFeeControl := feeParameters.variableFeeControl
      maxVolatilityAccumulator := feeParameters.maxVolatilityAccumulator
      protocolShare := feeParameters.protocolShare }

def processUpdatePairStaticFeeParameters (decoded : UpdatePairStaticFeeParametersDecoded) :
    Action Unit := do
  let some _existingPair ← findOne .pair decoded.pair
    | fail ("Processing update pair static fee instruction for non existent pair: "
        ++ decoded.pair)
  updateOne .pair decoded.pair (setFees decoded.feeParameters)

def process (message : ParsedInstructionMessage)
    (decoded : UpdatePairStaticFeeParametersDecoded) : Action Unit :=
  unlessProcessed (message.params .UpdatePairStaticFeeParametersProcessor) fun _ =>
    processUpdatePairStaticFeeParameters decoded

theorem processUpdatePairStaticFeeParameters_within
    {decoded : UpdatePairStaticFeeParametersDecoded} :
    (processUpdatePairStaticFeeParameters decoded).Within [.pair] := by
  refine .bind within_findOne fun existingPair => ?_
  cases existingPair with
  | none => exact within_fail
  | some => exact within_updateOne (by simp)

theorem of_completes_process {decoded : UpdatePairStaticFeeParametersDecoded}
    {store after : Store}
    (completes : mongo.Completes (processUpdatePairStaticFeeParameters decoded) store () after) :
    after = store.put .pair
      ((store .pair).updateOne decoded.pair (setFees decoded.feeParameters)) := by
  unfold processUpdatePairStaticFeeParameters at completes
  obtain ⟨existingPair, -, assigned⟩ := of_completes_needed completes rfl
  exact (completes_updateOne.mp assigned).2

end UpdatePairStaticFeeParameters

/-! ## Quote assets -/

namespace QuoteAssets

structure QuoteAssetBadgeInitializationEvent where
  quoteAssetBadge : String
  tokenMint : String
  deriving DecidableEq, Repr

/-- The variants of the decoded `status`. -/
inductive BadgeStatus where
  | Disabled
  | Enabled
  deriving DecidableEq, Repr

/-- What the code meets as a status: a text, or an object with one key. -/
inductive StatusValue where
  | text (value : String)
  | object (key : String)
  deriving DecidableEq, Repr

/-- `===` against a text, which an object never equals. -/
def StatusValue.strictlyEquals (constant : String) : StatusValue → Bool
  | .text value => value = constant
  | .object _ => false

/-- The decoder presents a variant as an object whose only key is the variant. -/
def BadgeStatus.value : BadgeStatus → StatusValue
  | .Disabled => .object "Disabled"
  | .Enabled => .object "Enabled"

structure QuoteAssetBadgeUpdateEvent where
  quoteAssetBadge : String
  status : BadgeStatus
  deriving DecidableEq, Repr

/-- `status === QuoteAssetBadgeStatus.Disabled` -/
def isDisabledText (status : BadgeStatus) : Bool := status.value.strictlyEquals "DISABLED"

/-- The object that stands for a variant is not the text that stands for it. -/
@[simp] theorem isDisabledText_eq_false (status : BadgeStatus) : isDisabledText status = false := by
  cases status <;> rfl

/-- Insert the asset of a badge, enabled. -/
def insertQuoteAsset (eventData : QuoteAssetBadgeInitializationEvent) : Action Unit := do
  let existing ← existsId .quoteAsset eventData.quoteAssetBadge
  if existing then pure ()
  else
    create .quoteAsset
      { id := eventData.quoteAssetBadge
        tokenMintId := eventData.tokenMint
        status := .Enabled
        assetType := .Other }

def processInitEvent (message : ParsedInstructionMessage)
    (eventData : QuoteAssetBadgeInitializationEvent) : Action Unit :=
  unlessProcessed (message.params .QuoteAssetProcessor) fun _ => insertQuoteAsset eventData

/-- Assign the status of an asset. -/
def updateStatus (eventData : QuoteAssetBadgeUpdateEvent) : Action Unit := do
  let existing ← existsId .quoteAsset eventData.quoteAssetBadge
  if existing then
    updateOne .quoteAsset eventData.quoteAssetBadge
      { set := fun row =>
          { row with
            status := if isDisabledText eventData.status then .Disabled else .Enabled } }
  else
    fail ("Error indexing quote asset update, non existent quote asset "
      ++ eventData.quoteAssetBadge)

def processUpdateEvent (message : ParsedInstructionMessage)
    (eventData : QuoteAssetBadgeUpdateEvent) : Action Unit :=
  unlessProcessed (message.params .QuoteAssetProcessor) fun _ => updateStatus eventData

theorem insertQuoteAsset_within {eventData : QuoteAssetBadgeInitializationEvent} :
    (insertQuoteAsset eventData).Within [.quoteAsset] := by
  refine .bind within_existsId fun existing => ?_
  cases existing with
  | true => exact Program.every_return _
  | false => exact within_create (by simp)

theorem updateStatus_within {eventData : QuoteAssetBadgeUpdateEvent} :
    (updateStatus eventData).Within [.quoteAsset] := by
  refine .bind within_existsId fun existing => ?_
  cases existing with
  | true => exact within_updateOne (by simp)
  | false => exact within_fail

end QuoteAssets

end DlmmIndexer

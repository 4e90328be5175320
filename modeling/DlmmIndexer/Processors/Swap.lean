import DlmmIndexer.BinMath
import DlmmIndexer.Library.StrictSchema
import DlmmIndexer.Processors.Position

/-!
# The swap and composition fee processors

A swap reaches the indexer as one `swap` instruction, which knows the vaults, and
one `BinSwapEvent` for every bin it crossed.  The two are separate jobs: the event
looks the vaults up, and the instruction writes them into event rows that came
first.
-/

namespace DlmmIndexer

open Documents JavaScript Atomic Text

namespace Swap

/-- The accounts and the direction of a `swap` instruction. -/
structure SwapDecoded where
  swapForY : Bool
  swapType : SwapType
  pair : String
  tokenMintX : String
  tokenMintY : String
  binArrayLower : String
  binArrayUpper : String
  tokenVaultX : String
  tokenVaultY : String
  userVaultX : String
  userVaultY : String
  deriving DecidableEq, Repr

structure BinSwapEventDecoded where
  pair : String
  swapForY : Bool
  protocolFee : ℕ
  binId : ℕ
  amountIn : ℕ
  amountOut : ℕ
  volatilityAccumulator : ℕ
  fee : ℕ
  deriving DecidableEq, Repr

/-- The four vault fields of an event row. -/
structure Vaults where
  userVaultIn : String
  userVaultOut : String
  pairVaultIn : String
  pairVaultOut : String
  deriving DecidableEq, Repr

/-- In is X and out is Y when the swap is for Y, the reverse otherwise. -/
def directed (swapForY : Bool) (userVaultX userVaultY tokenVaultX tokenVaultY : String) : Vaults :=
  if swapForY then
    { userVaultIn := userVaultX
      userVaultOut := userVaultY
      pairVaultIn := tokenVaultX
      pairVaultOut := tokenVaultY }
  else
    { userVaultIn := userVaultY
      userVaultOut := userVaultX
      pairVaultIn := tokenVaultY
      pairVaultOut := tokenVaultX }

/-- The values of an event row whose swap instruction is not there yet. -/
def dummyVaults : Vaults where
  userVaultIn := "dummy_user_vault_in"
  userVaultOut := "dummy_user_vault_out"
  pairVaultIn := "dummy_pair_vault_in"
  pairVaultOut := "dummy_pair_vault_out"

/-- `{blockNumber}-{signature}-{instructionIndex}-{innerIndex ?? '*'}` -/
def getSwapEventId (message : ParsedInstructionMessage) (innerInstructionIndex : InnerIndex) :
    String :=
  joined
    (joined (joined (decimal message.blockNumber) message.signature)
      (decimal message.instructionIndex))
    innerInstructionIndex.text

/-- The swap event id with the bin id after it. -/
def getBinSwapEventId (message : ParsedInstructionMessage) (innerInstructionIndex : InnerIndex)
    (binId : String) : String :=
  joined (getSwapEventId message innerInstructionIndex) binId

/-! ## The instruction -/

/-- What a row has under the paths of the event schema that hold numbers. -/
def numbers (row : BinSwapEvent) : Properties ℤ :=
  .literal [("lbBinId", some row.lbBinId),
    ("volatilityAccumulator", some row.volatilityAccumulator),
    ("blockNumber", some row.blockNumber), ("index", some row.index),
    ("innerIndex", row.innerIndex)]

/-- The filter of the vault update.  The schema calls the instruction index `index`. -/
def sameSwap (message : ParsedInstructionMessage) (pair : String) (row : BinSwapEvent) : Bool :=
  row.pairId = pair && (numbers row).get? "blockNumber" = some (message.blockNumber : ℤ) &&
    row.signature = message.signature &&
    (numbers row).get? "instructionIndex" = some (message.instructionIndex : ℤ)

/-- The row of a swap instruction. -/
def swapEventData (message : ParsedInstructionMessage) (decoded : SwapDecoded) : SwapEvent where
  id := getSwapEventId message message.innerInstructionIndex
  pairId := decoded.pair
  signature := message.signature
  swapType := decoded.swapType
  tokenMintXId := decoded.tokenMintX
  tokenMintYId := decoded.tokenMintY
  binArrayLower := decoded.binArrayLower
  binArrayUpper := decoded.binArrayUpper
  tokenVaultX := decoded.tokenVaultX
  tokenVaultY := decoded.tokenVaultY
  userVaultX := decoded.userVaultX
  userVaultY := decoded.userVaultY
  index := message.instructionIndex
  innerIndex := message.innerInstructionIndex.stored
  isInner := message.isInner
  blockNumber := message.blockNumber

/-- The vaults of a swap instruction. -/
def SwapDecoded.vaults (decoded : SwapDecoded) : Vaults :=
  directed decoded.swapForY decoded.userVaultX decoded.userVaultY decoded.tokenVaultX
    decoded.tokenVaultY

/-- Assign the four vault fields. -/
def setVaults (vaults : Vaults) : Update BinSwapEvent.id where
  set row :=
    { row with
      pairVaultIn := vaults.pairVaultIn
      pairVaultOut := vaults.pairVaultOut
      userVaultIn := vaults.userVaultIn
      userVaultOut := vaults.userVaultOut }

/-- The work on a decoded instruction; one that did not decode is skipped. -/
def insertSwapEvent (message : ParsedInstructionMessage) : Option SwapDecoded → Action Unit
  | none => pure ()
  | some decoded => do
      create .swapEvent (swapEventData message decoded)
      updateWhere .binSwapEvent (sameSwap message decoded.pair) (setVaults decoded.vaults)

theorem insertSwapEvent_within {message : ParsedInstructionMessage} {decoded : Option SwapDecoded} :
    (insertSwapEvent message decoded).Within [.swapEvent, .binSwapEvent] := by
  cases decoded with
  | none => exact Program.every_return _
  | some decoded =>
      exact .bind (within_create (by simp)) fun _ => within_updateWhere (by simp)

/-- No row has a value under a field that the schema does not have. -/
theorem sameSwap_eq_false (message : ParsedInstructionMessage) (pair : String)
    (row : BinSwapEvent) :
    sameSwap message pair row = false := by
  simp [sameSwap, numbers]

/-- A completed swap instruction has inserted its row and reached no event row. -/
theorem of_completes_insertSwapEvent {message : ParsedInstructionMessage} {decoded : SwapDecoded}
    {store after : Store}
    (completes : mongo.Completes (insertSwapEvent message (some decoded)) store () after) :
    ∃ rows, (store .swapEvent).create (swapEventData message decoded) = some rows ∧
      after = store.put .swapEvent rows := by
  simp only [insertSwapEvent, Database.completes_bind, completes_create] at completes
  obtain ⟨_, _, ⟨rows, created, -, rfl⟩, updated⟩ := completes
  exact ⟨rows, created,
    (completes_updateWhere_of_unmatched (sameSwap_eq_false message decoded.pair)).mp updated⟩

/-- Decoding comes after deduplication. -/
def processSwapInstruction (message : ParsedInstructionMessage) (decoded : Option SwapDecoded) :
    Action Unit :=
  unlessProcessed (message.params .SwapProcessor) fun _ => insertSwapEvent message decoded

/-! ## The events -/

/-- What the in side of the bin gains: a difference of numbers. -/
def BinSwapEventDecoded.gain (decoded : BinSwapEventDecoded) : String :=
  ((Number.ofInt decoded.amountIn).sub (.ofInt decoded.protocolFee)).toString

/-- What the out side of the bin loses: a negated BigInt. -/
def BinSwapEventDecoded.loss (decoded : BinSwapEventDecoded) : String :=
  decimal (-decoded.amountOut)

def BinSwapEventDecoded.updateX (decoded : BinSwapEventDecoded) : String :=
  if decoded.swapForY then decoded.gain else decoded.loss

def BinSwapEventDecoded.updateY (decoded : BinSwapEventDecoded) : String :=
  if decoded.swapForY then decoded.loss else decoded.gain

/-- The vaults of an event, given the swap row if there is one. -/
def vaultsOf (swapForY : Bool) : Option SwapEvent → Vaults
  | some swapEvent =>
      directed swapForY swapEvent.userVaultX swapEvent.userVaultY swapEvent.tokenVaultX
        swapEvent.tokenVaultY
  | none => dummyVaults

/-- The row of an event. -/
def binSwapEventData (message : ParsedInstructionMessage) (decoded : BinSwapEventDecoded)
    (vaults : Vaults) (tokenMintX tokenMintY : TokenMint) : BinSwapEvent :=
  let decimalsIn := if decoded.swapForY then tokenMintX.decimals else tokenMintY.decimals
  let decimalsOut := if decoded.swapForY then tokenMintY.decimals else tokenMintX.decimals
  { id := getBinSwapEventId message message.innerInstructionIndex (binId decoded.pair decoded.binId)
    signature := message.signature
    pairId := decoded.pair
    binId := binId decoded.pair decoded.binId
    lbBinId := decoded.binId
    userVaultIn := vaults.userVaultIn
    userVaultOut := vaults.userVaultOut
    pairVaultIn := vaults.pairVaultIn
    pairVaultOut := vaults.pairVaultOut
    swapForY := decoded.swapForY
    amountIn := BinMath.normalizeAmount decoded.amountIn decimalsIn
    amountOut := BinMath.normalizeAmount decoded.amountOut decimalsOut
    fees := BinMath.normalizeAmount decoded.fee decimalsIn
    protocolFees := BinMath.normalizeAmount decoded.protocolFee decimalsIn
    volatilityAccumulator := decoded.volatilityAccumulator
    index := message.instructionIndex
    innerIndex := match message.innerInstructionIndex with
      | .at index => some index
      | _ => some (-1)
    blockNumber := message.blockNumber }

/-- Move the reserves of the crossed bin and record the event. -/
def insertBinSwapEvent (message : ParsedInstructionMessage) :
    Option BinSwapEventDecoded → Action Unit
  | none => pure ()
  | some decoded => do
      let some pair ← findOne .pair decoded.pair
        | fail ("Processing bin swap event for non existent pair: " ++ decoded.pair)
      let some bin ← findOne .bin (binId decoded.pair decoded.binId)
        | fail ("Processing bin swap event for non existent bin: "
            ++ binId decoded.pair decoded.binId)
      let newReserveX ← compute (BinMath.add bin.reserveX decoded.updateX)
      let newReserveY ← compute (BinMath.add bin.reserveY decoded.updateY)
      updateOne .bin (binId decoded.pair decoded.binId)
        { set := fun row => { row with reserveX := newReserveX, reserveY := newReserveY } }
      let _price ← .ofExcept (BinMath.getPriceFromId pair.binStep decoded.binId)
      let tokenMintX ← findOne .tokenMint pair.tokenMintXId
      let tokenMintY ← findOne .tokenMint pair.tokenMintYId
      match tokenMintX, tokenMintY with
      | none, _ => fail ("Failed to get token mint " ++ pair.tokenMintXId)
      | some _, none => fail ("Failed to get token mint " ++ pair.tokenMintYId)
      | some tokenMintX, some tokenMintY => do
          let swapEvent ← findOne .swapEvent (getSwapEventId message .null)
          create .binSwapEvent
            (binSwapEventData message decoded (vaultsOf decoded.swapForY swapEvent) tokenMintX
              tokenMintY)

theorem insertBinSwapEvent_within {message : ParsedInstructionMessage}
    {decoded : Option BinSwapEventDecoded} :
    (insertBinSwapEvent message decoded).Within [.bin, .binSwapEvent] := by
  cases decoded with
  | none => exact Program.every_return _
  | some decoded =>
  refine .bind within_findOne fun pair => ?_
  cases pair with
  | none => exact within_fail
  | some pair =>
  refine .bind within_findOne fun bin => ?_
  cases bin with
  | none => exact within_fail
  | some bin =>
  refine .bind within_compute fun _ => .bind within_compute fun _ =>
    .bind (within_updateOne (by simp)) fun _ => .bind (Program.every_ofExcept _) fun _ =>
    .bind within_findOne fun tokenMintX => .bind within_findOne fun tokenMintY => ?_
  cases tokenMintX with
  | none => exact within_fail
  | some tokenMintX =>
  cases tokenMintY with
  | none => exact within_fail
  | some tokenMintY => exact .bind within_findOne fun _ => within_create (by simp)

/-- Decoding comes after deduplication and may throw. -/
def processBinSwapEvent (message : ParsedInstructionMessage)
    (decoded : Except Failure (Option BinSwapEventDecoded)) : Action Unit :=
  unlessProcessed (message.params .SwapProcessor) fun _ => do
    insertBinSwapEvent message (← .ofExcept decoded)

/-- What a completed swap event has read and written. -/
theorem of_completes_insertBinSwapEvent {message : ParsedInstructionMessage}
    {decoded : BinSwapEventDecoded} {store after : Store}
    (completes : mongo.Completes (insertBinSwapEvent message (some decoded)) store () after) :
    ∃ pair bin newReserveX newReserveY tokenMintX tokenMintY rows,
      (store .pair).findOne decoded.pair = some pair ∧
      (store .bin).findOne (binId decoded.pair decoded.binId) = some bin ∧
      BinMath.add bin.reserveX decoded.updateX = .ok newReserveX ∧
      BinMath.add bin.reserveY decoded.updateY = .ok newReserveY ∧
      (store .binSwapEvent).create (binSwapEventData message decoded
        (vaultsOf decoded.swapForY ((store .swapEvent).findOne (getSwapEventId message .null)))
        tokenMintX tokenMintY) = some rows ∧
      after = (store.put .bin ((store .bin).updateOne (binId decoded.pair decoded.binId)
        { set := fun row => { row with reserveX := newReserveX, reserveY := newReserveY } })).put
          .binSwapEvent rows := by
  unfold insertBinSwapEvent at completes
  obtain ⟨pair, found, completes⟩ := of_completes_needed completes rfl
  obtain ⟨bin, foundBin, completes⟩ := of_completes_needed completes rfl
  simp only [Database.completes_bind, completes_compute, completes_updateOne,
    Database.completes_ofExcept] at completes
  obtain ⟨newX, _, ⟨addedX, rfl⟩, newY, _, ⟨addedY, rfl⟩, _, _, ⟨-, rfl⟩, _, _, ⟨-, rfl⟩,
    _, _, ⟨rfl, rfl⟩, _, _, ⟨rfl, rfl⟩, completes⟩ := completes
  split at completes
  · exact absurd completes not_completes_fail
  · exact absurd completes not_completes_fail
  next tokenMintX tokenMintY _ _ =>
  simp only [Database.completes_bind, completes_create] at completes
  obtain ⟨_, _, ⟨rfl, rfl⟩, rows, created, -, rfl⟩ := completes
  exact ⟨pair, bin, newX, newY, tokenMintX, tokenMintY, rows, found, foundBin, addedX, addedY,
    created, rfl⟩

/-- A swap event whose prerequisites are there completes. -/
theorem completes_insertBinSwapEvent {message : ParsedInstructionMessage}
    {decoded : BinSwapEventDecoded} {store : Store} {pair : Pair} {bin : Bin}
    {newReserveX newReserveY : String} {price : ℕ} {tokenMintX tokenMintY : TokenMint}
    {rows : Collection BinSwapEvent.id}
    (foundPair : (store .pair).findOne decoded.pair = some pair)
    (foundBin : (store .bin).findOne (binId decoded.pair decoded.binId) = some bin)
    (addedX : BinMath.add bin.reserveX decoded.updateX = .ok newReserveX)
    (addedY : BinMath.add bin.reserveY decoded.updateY = .ok newReserveY)
    (priced : BinMath.getPriceFromId pair.binStep decoded.binId = .ok price)
    (foundX : (store .tokenMint).findOne pair.tokenMintXId = some tokenMintX)
    (foundY : (store .tokenMint).findOne pair.tokenMintYId = some tokenMintY)
    (created : (store .binSwapEvent).create (binSwapEventData message decoded
      (vaultsOf decoded.swapForY ((store .swapEvent).findOne (getSwapEventId message .null)))
      tokenMintX tokenMintY) = some rows) :
    mongo.Completes (insertBinSwapEvent message (some decoded)) store ()
      ((store.put .bin ((store .bin).updateOne (binId decoded.pair decoded.binId)
        { set := fun row => { row with reserveX := newReserveX, reserveY := newReserveY } })).put
          .binSwapEvent rows) := by
  rw [insertBinSwapEvent]
  refine completes_found foundPair ?_
  refine completes_found foundBin ?_
  refine Database.completes_bind.mpr ⟨_, _, completes_compute.mpr ⟨addedX, rfl⟩, ?_⟩
  refine Database.completes_bind.mpr ⟨_, _, completes_compute.mpr ⟨addedY, rfl⟩, ?_⟩
  refine Database.completes_bind.mpr ⟨(), _, completes_updateOne.mpr ⟨fun _ _ => rfl, rfl⟩, ?_⟩
  refine Database.completes_ofExcept_bind.mpr ⟨_, priced, ?_⟩
  refine completes_found (by rw [Store.put_other (by decide), foundX]) ?_
  refine completes_found (by rw [Store.put_other (by decide), foundY]) ?_
  refine Database.completes_bind.mpr ⟨_, _, completes_findOne.mpr ⟨rfl, rfl⟩, ?_⟩
  refine completes_create.mpr ⟨rows, ?_, rfl, rfl⟩
  rwa [Store.put_other (by decide), Store.put_other (by decide)]

end Swap

namespace CompositionFees

structure CompositionFeesEventDecoded where
  pair : String
  activeId : ℕ
  compositionFeesX : ℕ
  compositionFeesY : ℕ
  protocolFeesX : ℕ
  protocolFeesY : ℕ
  deriving DecidableEq, Repr

/-- The deduplication parameters, which take a zero inner index for none. -/
def params (message : ParsedInstructionMessage) : CheckAndInsertInstructionParams where
  blockNumber := message.blockNumber
  signature := message.signature
  processorName := .CompositionFeesProcessor
  instructionIndex := message.instructionIndex
  innerInstructionIndex := message.innerInstructionIndex.orNull
  isInner := message.innerInstructionIndex.truthy

/-- `{blockNumber}-{signature}-{instructionIndex}-{innerIndex}-{binId}` -/
def getCompositionFeesEventId (message : ParsedInstructionMessage) (binId : String) : String :=
  joined
    (joined
      (joined (joined (decimal message.blockNumber) message.signature)
        (decimal message.instructionIndex))
      message.innerInstructionIndex.text)
    binId

/-- `parseFloat(fees || '0') + protocolFees`, the fees decoded as a BN object.  An
object is added by its text. -/
def addProtocolFees (fees : String) (protocolFees : ℕ) : Except JavaScript.Error Value := do
  let number ← readFloat (if fees = "" then "0" else fees)
  Value.add (.number number) (.string (decimal protocolFees))

/-- Record the fees and move the active bin of the pair. -/
def recordFees (message : ParsedInstructionMessage) (decoded : CompositionFeesEventDecoded) :
    Action Unit := do
  let some pair ← findOne .pair decoded.pair
    | fail ("Processing composition fees event for non existent pair: " ++ decoded.pair)
  let tokenMintX ← findOne .tokenMint pair.tokenMintXId
  let tokenMintY ← findOne .tokenMint pair.tokenMintYId
  match tokenMintX, tokenMintY with
  | none, _ => fail ("Failed to get token mint " ++ pair.tokenMintXId)
  | some _, none => fail ("Failed to get token mint " ++ pair.tokenMintYId)
  | some _, some _ => do
      let _price ← .ofExcept (BinMath.getPriceFromId pair.binStep decoded.activeId)
      create .compositionFeesEvent
        { id := getCompositionFeesEventId message (binId decoded.pair decoded.activeId)
          signature := message.signature
          pairId := pair.id
          binId := binId decoded.pair decoded.activeId
          lbBinId := decoded.activeId
          compositionFeesX := decimal decoded.compositionFeesX
          compositionFeesY := decimal decoded.compositionFeesY
          protocolFeesX := decimal decoded.protocolFeesX
          protocolFeesY := decimal decoded.protocolFeesY
          blockNumber := message.blockNumber
          index := message.instructionIndex
          innerIndex := message.innerInstructionIndex.stored }
      let newProtocolFeesX ← compute (addProtocolFees pair.protocolFeesX decoded.protocolFeesX)
      let newProtocolFeesY ← compute (addProtocolFees pair.protocolFeesY decoded.protocolFeesY)
      updateOne .pair decoded.pair
        { set := fun row =>
            { row with
              activeId := decoded.activeId
              protocolFeesX := newProtocolFeesX.toString
              protocolFeesY := newProtocolFeesY.toString } }

def processCompositionFeesEvent (message : ParsedInstructionMessage)
    (decoded : CompositionFeesEventDecoded) : Action Unit :=
  unlessProcessed (params message) fun _ => recordFees message decoded

theorem recordFees_within {message : ParsedInstructionMessage}
    {decoded : CompositionFeesEventDecoded} :
    (recordFees message decoded).Within [.compositionFeesEvent, .pair] := by
  refine .bind within_findOne fun pair => ?_
  cases pair with
  | none => exact within_fail
  | some pair =>
  refine .bind within_findOne fun tokenMintX => .bind within_findOne fun tokenMintY => ?_
  cases tokenMintX with
  | none => exact within_fail
  | some tokenMintX =>
  cases tokenMintY with
  | none => exact within_fail
  | some tokenMintY =>
  exact .bind (Program.every_ofExcept _) fun _ => .bind (within_create (by simp)) fun _ =>
    .bind within_compute fun _ => .bind within_compute fun _ => within_updateOne (by simp)

/-- A completed composition fees event has added to the fees of the pair, moved its active
bin, and left the rest of it alone. -/
theorem of_completes_recordFees {message : ParsedInstructionMessage}
    {decoded : CompositionFeesEventDecoded} {store after : Store}
    (completes : mongo.Completes (recordFees message decoded) store () after) :
    ∃ pair newProtocolFeesX newProtocolFeesY,
      (store .pair).findOne decoded.pair = some pair ∧
      addProtocolFees pair.protocolFeesX decoded.protocolFeesX = .ok newProtocolFeesX ∧
      addProtocolFees pair.protocolFeesY decoded.protocolFeesY = .ok newProtocolFeesY ∧
      after .pair = (store .pair).updateOne decoded.pair
        { set := fun row =>
            { row with
              activeId := decoded.activeId
              protocolFeesX := newProtocolFeesX.toString
              protocolFeesY := newProtocolFeesY.toString } } := by
  unfold recordFees at completes
  obtain ⟨pair, found, completes⟩ := of_completes_needed completes rfl
  simp only [Database.completes_bind] at completes
  obtain ⟨_, _, ⟨rfl, rfl⟩, _, _, ⟨rfl, rfl⟩, completes⟩ := completes
  split at completes
  · exact absurd completes not_completes_fail
  · exact absurd completes not_completes_fail
  simp only [Database.completes_bind, completes_create, completes_compute, completes_updateOne,
    Database.completes_ofExcept] at completes
  obtain ⟨_, _, ⟨-, rfl⟩, _, _, ⟨rows, created, -, rfl⟩, newX, _, ⟨addedX, rfl⟩, newY, _,
    ⟨addedY, rfl⟩, -, rfl⟩ := completes
  exact ⟨pair, newX, newY, found, addedX, addedY, by
    rw [Store.put_same, Store.put_other (by decide)]⟩

end CompositionFees

end DlmmIndexer

import DlmmIndexer.InstructionService

/-!
# The position processors

Creating, increasing, decreasing and closing positions.  The decoded events and
accounts are the arguments; amounts come out of the decoder as the JavaScript
values the handlers compute with.
-/

namespace DlmmIndexer

open Documents JavaScript Atomic Text

/-- Bins per position, hence share rows per position. -/
def binPerPosition : ℕ := 64

/-- `{positionId}-{index}` -/
def liquidityShareId (positionId : String) (index : ℤ) : String := joined positionId (decimal index)

/-- `{pairId}-{lbBinId}` -/
def binId (pairId : String) (lbBinId : ℕ) : String := joined pairId (decimal lbBinId)

/-! ## Creating -/

/-- The RPC answers about accounts that the position processor asks for. -/
structure AccountRpc where
  getTokenAccount : String → Except Failure (Option String)
  getAccountCreator : String → Except Failure (Option String)

namespace CreatePosition

/-- The accounts of a `create_position` instruction. -/
structure CreatePositionDecoded where
  pair : String
  position : String
  positionMint : String
  positionTokenAccount : String
  deriving DecidableEq, Repr

structure PositionCreationEvent where
  pair : String
  position : String
  positionMint : String
  lowerBinId : ℕ
  upperBinId : ℕ
  deriving DecidableEq, Repr

/-- The owner of the token account, else the account's creator. -/
def positionTokenAccountOwner (rpc : AccountRpc) (account : String) : Except Failure String := do
  match ← rpc.getTokenAccount account with
  | some owner => return owner
  | none =>
      match ← rpc.getAccountCreator account with
      | some creator => return creator
      | none => .error (.error ("Failed to get position account creator " ++ account))

def liquiditySharesData (positionId : String) : List LiquidityShares :=
  (List.range binPerPosition).map fun (liquidityShareIndex : ℕ) =>
    { id := liquidityShareId positionId liquidityShareIndex
      positionId := positionId
      index := liquidityShareIndex
      balance := "0" }

/-- Insert the share rows of a position, then its own row. -/
def insertPosition (row : Position) : Action Unit := do
  insertMany .liquidityShares (liquiditySharesData row.id)
  create .position row

def ensureTokenAccount (row : TokenAccount) : Action Unit := do
  match ← findOne .tokenAccount row.id with
  | some _ => pure ()
  | none => create .tokenAccount row

/-- The instruction's part of a position: the real owner and the mint. -/
def settleInstruction (decoded : CreatePositionDecoded) (owner : String) : Action Unit := do
  ensureTokenAccount
    { id := decoded.positionTokenAccount
      ownerId := owner
      tokenMintId := decoded.positionMint
      balance := "1" }
  match ← findOne .position decoded.position with
  | none =>
      insertPosition
        { id := decoded.position
          pairId := decoded.pair
          positionMintId := decoded.positionMint
          ownerId := owner
          lowerBinLbId := 0
          upperBinLbId := 0 }
  | some _ =>
      updateOne .position decoded.position
        { set := fun row => { row with positionMintId := decoded.positionMint, ownerId := owner } }

/-- The RPC is asked before deduplication. -/
def processInstruction (rpc : AccountRpc) (message : ParsedInstructionMessage)
    (decoded : CreatePositionDecoded) : Action Unit := do
  let owner ← .ofExcept (positionTokenAccountOwner rpc decoded.positionTokenAccount)
  unlessProcessed (message.params .CreatePositionProcessor) fun _ =>
    settleInstruction decoded owner

/-- The event's part of a position: the bin range. -/
def settleEvent (decoded : PositionCreationEvent) : Action Unit := do
  match ← findOne .position decoded.position with
  | none =>
      insertPosition
        { id := decoded.position
          pairId := decoded.pair
          positionMintId := decoded.positionMint
          ownerId := "dummy-owner-id"
          lowerBinLbId := decoded.lowerBinId
          upperBinLbId := decoded.upperBinId }
  | some _ =>
      updateOne .position decoded.position
        { set := fun row =>
            { row with lowerBinLbId := decoded.lowerBinId, upperBinLbId := decoded.upperBinId } }

def processEvent (message : ParsedInstructionMessage) (decoded : PositionCreationEvent) :
    Action Unit :=
  unlessProcessed (message.params .CreatePositionProcessor) fun _ => settleEvent decoded

theorem insertPosition_within {row : Position} :
    (insertPosition row).Within [.liquidityShares, .position] :=
  .bind (within_insertMany (by simp)) fun _ => within_create (by simp)

theorem ensureTokenAccount_within {row : TokenAccount} :
    (ensureTokenAccount row).Within [.tokenAccount] := by
  refine .bind within_findOne fun existing => ?_
  cases existing with
  | some => exact Program.every_return _
  | none => exact within_create (by simp)

theorem settleInstruction_within {decoded : CreatePositionDecoded} {owner : String} :
    (settleInstruction decoded owner).Within [.tokenAccount, .liquidityShares, .position] := by
  refine .bind (ensureTokenAccount_within.mono (by simp)) fun _ => ?_
  refine .bind within_findOne fun existing => ?_
  cases existing with
  | none => exact insertPosition_within.mono (by simp)
  | some => exact within_updateOne (by simp)

theorem settleEvent_within {decoded : PositionCreationEvent} :
    (settleEvent decoded).Within [.liquidityShares, .position] := by
  refine .bind within_findOne fun existing => ?_
  cases existing with
  | none => exact insertPosition_within
  | some => exact within_updateOne (by simp)

theorem of_completes_insertPosition {row : Position} {store after : Store}
    (completes : mongo.Completes (insertPosition row) store () after) :
    ∃ shares positions,
      (store .liquidityShares).insertMany (liquiditySharesData row.id) = (true, shares) ∧
      (store .position).create row = some positions ∧
      after = (store.put .liquidityShares shares).put .position positions := by
  simp only [insertPosition, Database.completes_bind, completes_insertMany, completes_create]
    at completes
  obtain ⟨_, _, ⟨shares, inserted, rfl⟩, positions, created, -, rfl⟩ := completes
  rw [Store.put_other (by decide)] at created
  exact ⟨shares, positions, inserted, created, rfl⟩

theorem nodup_liquiditySharesData (positionId : String) :
    ((liquiditySharesData positionId).map LiquidityShares.id).Nodup := by
  rw [liquiditySharesData, List.map_map]
  refine List.Nodup.map (fun left right same => ?_) List.nodup_range
  exact (joined_decimal_injective same).2

/-- A position without rows of its own can be inserted. -/
theorem completes_insertPosition {row : Position} {store : Store}
    (noShares : ∀ index : ℕ,
      (store .liquidityShares).findOne (liquidityShareId row.id index) = none)
    (fresh : (store .position).findOne row.id = none)
    (mintFree : Op.mintTaken (store .position) row = false) :
    ∃ shares positions,
      (store .liquidityShares).insertMany (liquiditySharesData row.id) = (true, shares) ∧
      (store .position).create row = some positions ∧
      mongo.Completes (insertPosition row) store ()
        ((store.put .liquidityShares shares).put .position positions) := by
  have free : ∀ share ∈ liquiditySharesData row.id,
      (store .liquidityShares).findOne share.id = none := by
    intro share member
    obtain ⟨index, -, rfl⟩ := List.mem_map.mp member
    exact noShares index
  obtain ⟨shares, inserted⟩ :=
    Collection.insertMany_complete (nodup_liquiditySharesData row.id) free
  obtain ⟨positions, created⟩ := Collection.exists_create fresh
  refine ⟨shares, positions, inserted, created, Database.completes_bind.mpr
    ⟨(), _, completes_insertMany.mpr ⟨shares, inserted, rfl⟩, completes_create.mpr
      ⟨positions, ?_, ?_, rfl⟩⟩⟩
  · rwa [Store.put_other (by decide)]
  · rw [Op.clashes, Store.put_other (by decide)]
    exact mintFree

/-- A completed creation event inserted the position or assigned its range. -/
theorem of_completes_settleEvent {decoded : PositionCreationEvent} {store after : Store}
    (completes : mongo.Completes (settleEvent decoded) store () after) :
    ((store .position).findOne decoded.position = none ∧
      mongo.Completes (insertPosition
        { id := decoded.position
          pairId := decoded.pair
          positionMintId := decoded.positionMint
          ownerId := "dummy-owner-id"
          lowerBinLbId := decoded.lowerBinId
          upperBinLbId := decoded.upperBinId }) store () after) ∨
    ∃ row, (store .position).findOne decoded.position = some row ∧
      after = store.put .position ((store .position).updateOne decoded.position
        { set := fun row =>
            { row with
              lowerBinLbId := decoded.lowerBinId
              upperBinLbId := decoded.upperBinId } }) := by
  simp only [settleEvent, Database.completes_bind] at completes
  obtain ⟨_, _, ⟨rfl, rfl⟩, completes⟩ := completes
  split at completes
  next absent => exact .inl ⟨absent, completes⟩
  next row found => exact .inr ⟨row, found, (completes_updateOne.mp completes).2⟩

/-- A token account that was not there is created. -/
theorem of_completes_ensureTokenAccount {row : TokenAccount} {store after : Store}
    (completes : mongo.Completes (ensureTokenAccount row) store () after) :
    (∃ existing, (store .tokenAccount).findOne row.id = some existing ∧ after = store) ∨
    ((store .tokenAccount).findOne row.id = none ∧
      ∃ rows, (store .tokenAccount).create row = some rows ∧
        after = store.put .tokenAccount rows) := by
  simp only [ensureTokenAccount, Database.completes_bind] at completes
  obtain ⟨_, _, ⟨rfl, rfl⟩, completes⟩ := completes
  split at completes
  next existing found => exact .inl ⟨existing, found, (Database.completes_return.mp completes).2⟩
  next absent =>
    obtain ⟨rows, created, -, rfl⟩ := completes_create.mp completes
    exact .inr ⟨absent, rows, created, rfl⟩

/-- A completed `create_position` inserted the position or assigned mint and owner. -/
theorem of_completes_settleInstruction {decoded : CreatePositionDecoded} {owner : String}
    {store after : Store}
    (completes : mongo.Completes (settleInstruction decoded owner) store () after) :
    ∃ middle, (∀ coll ≠ .tokenAccount, middle coll = store coll) ∧
      mongo.Completes (ensureTokenAccount
        { id := decoded.positionTokenAccount
          ownerId := owner
          tokenMintId := decoded.positionMint
          balance := "1" }) store () middle ∧
      (((store .position).findOne decoded.position = none ∧
        mongo.Completes (insertPosition
          { id := decoded.position
            pairId := decoded.pair
            positionMintId := decoded.positionMint
            ownerId := owner
            lowerBinLbId := 0
            upperBinLbId := 0 }) middle () after) ∨
      ∃ row, (store .position).findOne decoded.position = some row ∧
        after = middle.put .position ((middle .position).updateOne decoded.position
          { set := fun row =>
              { row with positionMintId := decoded.positionMint, ownerId := owner } })) := by
  simp only [settleInstruction, Database.completes_bind] at completes
  obtain ⟨_, middle, ensured, _, _, ⟨rfl, rfl⟩, completes⟩ := completes
  have frame (coll : Coll) (other : coll ≠ .tokenAccount) : middle coll = store coll :=
    ensureTokenAccount_within.completes (by simpa using other) ensured
  refine ⟨middle, frame, ensured, ?_⟩
  rw [← frame .position (by decide)]
  split at completes
  next absent => exact .inl ⟨absent, completes⟩
  next row found => exact .inr ⟨row, found, (completes_updateOne.mp completes).2⟩

end CreatePosition

/-! ## Increasing and decreasing

The two processors differ in one word of their messages, in the operator between
the stored amount and the event's, and in the sign of the recorded deltas. -/

/-- One round of the loop over `bin_ids`: the bin and the list elements at its index. -/
structure BinEntry where
  lbBinId : ℕ
  amountX : Value
  amountY : Value
  liquidity : Value
  deriving DecidableEq, Repr

/-- What tells an increase from a decrease. -/
structure PositionChange where
  verb : String
  operator : Value → Value → Except JavaScript.Error Value
  delta : Value → Except JavaScript.Error Value

namespace PositionChange

/-- `BigInt(text)` combined with an operand. -/
def combine (change : PositionChange) (text : String) (operand : Value) :
    Except JavaScript.Error Value :=
  match bigInt text with
  | some value => change.operator (.bigint value) operand
  | none => .error .syntaxError

/-- Change the share row and the bin row of one round. -/
def processBin (change : PositionChange) (pair position : String) (positionLowerBinId : ℕ)
    (entry : BinEntry) : Action Unit := do
  let liquidityShareIndex : ℤ := entry.lbBinId - positionLowerBinId
  if liquidityShareIndex < 0 ∨ binPerPosition ≤ liquidityShareIndex then
    fail ("Error indexing " ++ change.verb ++ " position liquidity_share_index out of bounds: "
      ++ position ++ " with index " ++ decimal liquidityShareIndex)
  else do
    let shareId := liquidityShareId position liquidityShareIndex
    let some existingLiquidityShare ← findOne .liquidityShares shareId
      | fail ("Error indexing " ++ change.verb
          ++ " position, non existent liquidity share for position " ++ position)
    let newBalance ← compute (change.combine existingLiquidityShare.balance entry.liquidity)
    updateOne .liquidityShares shareId
      { set := fun row => { row with balance := newBalance.toString } }
    let some existingBin ← findOne .bin (binId pair entry.lbBinId)
      | fail ("Error indexing " ++ change.verb ++ " position, non existent bin for pair " ++ pair)
    let newReserveX ← compute (change.combine existingBin.reserveX entry.amountX)
    let newReserveY ← compute (change.combine existingBin.reserveY entry.amountY)
    let newTotalSupply ← compute (change.combine existingBin.totalSupply entry.liquidity)
    updateOne .bin (binId pair entry.lbBinId)
      { set := fun row =>
          { row with
            reserveX := newReserveX.toString
            reserveY := newReserveY.toString
            totalSupply := newTotalSupply.toString } }

/-- Record one round. -/
def createEvent (change : PositionChange) (message : ParsedInstructionMessage)
    (instructionId pair position : String) (entry : BinEntry) : Action Unit := do
  let deltaLiquidityBalance ← compute (change.delta entry.liquidity)
  let deltaAmountX ← compute (change.delta entry.amountX)
  let deltaAmountY ← compute (change.delta entry.amountY)
  create .positionUpdateEvent
    { id := joined instructionId (decimal entry.lbBinId)
      signature := message.signature
      pairId := pair
      positionId := position
      binId := binId pair entry.lbBinId
      lbBinId := entry.lbBinId
      deltaLiquidityBalance := deltaLiquidityBalance.toString
      deltaAmountX := deltaAmountX.toString
      deltaAmountY := deltaAmountY.toString
      index := message.instructionIndex
      innerIndex := message.innerInstructionIndex.stored
      blockNumber := message.blockNumber }

/-- The loop over the bins, with the totals it accumulates. -/
def processBins (change : PositionChange) (message : ParsedInstructionMessage)
    (instructionId pair position : String) (positionLowerBinId : ℕ) :
    List BinEntry → Value → Value → Action (Value × Value)
  | [], totalAmountX, totalAmountY => pure (totalAmountX, totalAmountY)
  | entry :: rest, totalAmountX, totalAmountY => do
      change.processBin pair position positionLowerBinId entry
      let totalAmountX ← compute (Value.add totalAmountX entry.amountX)
      let totalAmountY ← compute (Value.add totalAmountY entry.amountY)
      change.createEvent message instructionId pair position entry
      change.processBins message instructionId pair position positionLowerBinId rest totalAmountX
        totalAmountY

/-- The pair row is read before the loop and written after it. -/
def processPosition (change : PositionChange) (message : ParsedInstructionMessage)
    (instructionId pair position : String) (entries : List BinEntry) : Action Unit := do
  let some existingPair ← findOne .pair pair
    | fail ("Processing position " ++ change.verb ++ "d event for non existent pair: " ++ pair)
  let some existingPosition ← findOne .position position
    | fail ("Error indexing " ++ change.verb ++ " position for non existent position: " ++ position)
  let (totalAmountX, totalAmountY) ←
    change.processBins message instructionId pair position existingPosition.lowerBinLbId entries
      (.bigint 0) (.bigint 0)
  let newPairReserveX ← compute (change.combine existingPair.reserveX totalAmountX)
  let newPairReserveY ← compute (change.combine existingPair.reserveY totalAmountY)
  updateOne .pair pair
    { set := fun row =>
        { row with reserveX := newPairReserveX.toString, reserveY := newPairReserveY.toString } }

/-- The collections both processors write. -/
def writes : List Coll := [.liquidityShares, .bin, .positionUpdateEvent, .pair]

theorem processBin_within {change : PositionChange} {pair position : String} {lower : ℕ}
    {entry : BinEntry} : (change.processBin pair position lower entry).Within writes := by
  unfold processBin
  dsimp only
  split
  · exact within_fail
  refine .bind within_findOne fun share => ?_
  cases share with
  | none => exact within_fail
  | some share =>
  refine .bind within_compute fun balance => .bind (within_updateOne (by decide)) fun _ => ?_
  refine .bind within_findOne fun bin => ?_
  cases bin with
  | none => exact within_fail
  | some bin =>
  exact .bind within_compute fun _ => .bind within_compute fun _ => .bind within_compute fun _ =>
    within_updateOne (by decide)

theorem createEvent_within {change : PositionChange} {message : ParsedInstructionMessage}
    {instructionId pair position : String} {entry : BinEntry} :
    (change.createEvent message instructionId pair position entry).Within writes :=
  .bind within_compute fun _ => .bind within_compute fun _ => .bind within_compute fun _ =>
    within_create (by decide)

theorem processBins_within {change : PositionChange} {message : ParsedInstructionMessage}
    {instructionId pair position : String} {lower : ℕ} {entries : List BinEntry} {x y : Value} :
    (change.processBins message instructionId pair position lower entries x y).Within writes := by
  induction entries generalizing x y with
  | nil => exact Program.every_return _
  | cons entry rest ih =>
      exact .bind processBin_within fun _ => .bind within_compute fun _ =>
        .bind within_compute fun _ => .bind createEvent_within fun _ => ih

theorem processPosition_within {change : PositionChange} {message : ParsedInstructionMessage}
    {instructionId pair position : String} {entries : List BinEntry} :
    (change.processPosition message instructionId pair position entries).Within writes := by
  refine .bind within_findOne fun existingPair => ?_
  cases existingPair with
  | none => exact within_fail
  | some existingPair =>
  refine .bind within_findOne fun existingPosition => ?_
  cases existingPosition with
  | none => exact within_fail
  | some existingPosition =>
  exact .bind processBins_within fun _ => .bind within_compute fun _ =>
    .bind within_compute fun _ => within_updateOne (by decide)

/-! ### Normal completion -/

/-- What one round of the loop has found and written when it completes. -/
theorem of_completes_processBin {change : PositionChange} {pair position : String} {lower : ℕ}
    {entry : BinEntry} {store after : Store}
    (completes : mongo.Completes (change.processBin pair position lower entry) store () after) :
    ∃ share bin newBalance newReserveX newReserveY newTotalSupply,
      (lower ≤ entry.lbBinId ∧ entry.lbBinId < lower + binPerPosition) ∧
      (store .liquidityShares).findOne
        (liquidityShareId position (entry.lbBinId - lower : ℤ)) = some share ∧
      (store .bin).findOne (binId pair entry.lbBinId) = some bin ∧
      change.combine share.balance entry.liquidity = .ok newBalance ∧
      change.combine bin.reserveX entry.amountX = .ok newReserveX ∧
      change.combine bin.reserveY entry.amountY = .ok newReserveY ∧
      change.combine bin.totalSupply entry.liquidity = .ok newTotalSupply ∧
      after =
        (store.put .liquidityShares ((store .liquidityShares).updateOne
          (liquidityShareId position (entry.lbBinId - lower : ℤ))
          { set := fun row => { row with balance := newBalance.toString } })).put .bin
            ((store .bin).updateOne (binId pair entry.lbBinId)
              { set := fun row =>
                  { row with
                    reserveX := newReserveX.toString
                    reserveY := newReserveY.toString
                    totalSupply := newTotalSupply.toString } }) := by
  unfold processBin at completes
  dsimp only at completes
  split at completes
  · exact absurd completes not_completes_fail
  next inside =>
  obtain ⟨share, found, completes⟩ := of_completes_needed completes rfl
  obtain ⟨newBalance, _, computed, assigning⟩ := Database.completes_bind.mp completes
  obtain ⟨combined, rfl⟩ := completes_compute.mp computed
  obtain ⟨_, _, assigned, looking⟩ := Database.completes_bind.mp assigning
  obtain ⟨-, rfl⟩ := completes_updateOne.mp assigned
  obtain ⟨bin, foundBin, completes⟩ := of_completes_needed looking rfl
  simp only [Database.completes_bind, completes_compute, completes_updateOne] at completes
  obtain ⟨newX, _, ⟨combinedX, rfl⟩, newY, _, ⟨combinedY, rfl⟩, newSupply, _,
    ⟨combinedSupply, rfl⟩, -, rfl⟩ := completes
  rw [Store.put_other (by decide)] at foundBin ⊢
  exact ⟨share, bin, newBalance, newX, newY, newSupply, by omega, found, foundBin, combined,
    combinedX, combinedY, combinedSupply, rfl⟩

theorem of_completes_createEvent {change : PositionChange} {message : ParsedInstructionMessage}
    {instructionId pair position : String} {entry : BinEntry} {store after : Store}
    (completes : mongo.Completes (change.createEvent message instructionId pair position entry)
      store () after) {coll : Coll} (other : coll ≠ .positionUpdateEvent) :
    after coll = store coll := by
  have within : (change.createEvent message instructionId pair position entry).Within
      [.positionUpdateEvent] :=
    .bind within_compute fun _ => .bind within_compute fun _ => .bind within_compute fun _ =>
      within_create (by simp)
  exact within.completes (by simpa using other) completes

/-- What a completed change of a position has read and written. -/
theorem of_completes_processPosition {change : PositionChange} {message : ParsedInstructionMessage}
    {instructionId pair position : String} {entries : List BinEntry} {store after : Store}
    (completes : mongo.Completes
      (change.processPosition message instructionId pair position entries) store () after) :
    ∃ existingPair existingPosition totalX totalY middle newPairReserveX newPairReserveY,
      (store .pair).findOne pair = some existingPair ∧
      (store .position).findOne position = some existingPosition ∧
      mongo.Completes (change.processBins message instructionId pair position
        existingPosition.lowerBinLbId entries (.bigint 0) (.bigint 0)) store (totalX, totalY)
        middle ∧
      change.combine existingPair.reserveX totalX = .ok newPairReserveX ∧
      change.combine existingPair.reserveY totalY = .ok newPairReserveY ∧
      after = middle.put .pair ((middle .pair).updateOne pair
        { set := fun row =>
            { row with
              reserveX := newPairReserveX.toString
              reserveY := newPairReserveY.toString } }) := by
  unfold processPosition at completes
  obtain ⟨existingPair, found, completes⟩ := of_completes_needed completes rfl
  obtain ⟨existingPosition, foundPosition, completes⟩ := of_completes_needed completes rfl
  simp only [Database.completes_bind, completes_compute, completes_updateOne] at completes
  obtain ⟨⟨totalX, totalY⟩, middle, looped, newX, _, ⟨combinedX, rfl⟩, newY, _, ⟨combinedY, rfl⟩,
    -, rfl⟩ := completes
  exact ⟨existingPair, existingPosition, totalX, totalY, _, newX, newY, found, foundPosition,
    looped, combinedX, combinedY, rfl⟩

/-! ### Progress -/

/-- A round whose rows are there completes. -/
theorem completes_processBin {change : PositionChange} {pair position : String} {lower : ℕ}
    {entry : BinEntry} {store : Store} {share : LiquidityShares} {bin : Bin}
    {newBalance newReserveX newReserveY newTotalSupply : Value}
    (inside : lower ≤ entry.lbBinId ∧ entry.lbBinId < lower + binPerPosition)
    (found : (store .liquidityShares).findOne
      (liquidityShareId position (entry.lbBinId - lower : ℤ)) = some share)
    (foundBin : (store .bin).findOne (binId pair entry.lbBinId) = some bin)
    (combined : change.combine share.balance entry.liquidity = .ok newBalance)
    (combinedX : change.combine bin.reserveX entry.amountX = .ok newReserveX)
    (combinedY : change.combine bin.reserveY entry.amountY = .ok newReserveY)
    (combinedSupply : change.combine bin.totalSupply entry.liquidity = .ok newTotalSupply) :
    mongo.Completes (change.processBin pair position lower entry) store ()
      ((store.put .liquidityShares ((store .liquidityShares).updateOne
        (liquidityShareId position (entry.lbBinId - lower : ℤ))
        { set := fun row => { row with balance := newBalance.toString } })).put .bin
          ((store .bin).updateOne (binId pair entry.lbBinId)
            { set := fun row =>
                { row with
                  reserveX := newReserveX.toString
                  reserveY := newReserveY.toString
                  totalSupply := newTotalSupply.toString } })) := by
  unfold processBin
  dsimp only
  rw [if_neg (by omega)]
  refine completes_found found ?_
  refine Database.completes_bind.mpr ⟨_, _, completes_compute.mpr ⟨combined, rfl⟩, ?_⟩
  refine Database.completes_bind.mpr ⟨(), _, completes_updateOne.mpr ⟨fun _ _ => rfl, rfl⟩, ?_⟩
  refine completes_found (by rw [Store.put_other (by decide), foundBin]) ?_
  refine Database.completes_bind.mpr ⟨_, _, completes_compute.mpr ⟨combinedX, rfl⟩, ?_⟩
  refine Database.completes_bind.mpr ⟨_, _, completes_compute.mpr ⟨combinedY, rfl⟩, ?_⟩
  refine Database.completes_bind.mpr ⟨_, _, completes_compute.mpr ⟨combinedSupply, rfl⟩, ?_⟩
  refine completes_updateOne.mpr ⟨fun _ _ => rfl, ?_⟩
  rw [Store.put_other (by decide)]

/-- A change whose rows are there and whose loop completes does so as well. -/
theorem completes_processPosition {change : PositionChange} {message : ParsedInstructionMessage}
    {instructionId pair position : String} {entries : List BinEntry} {store middle : Store}
    {existingPair : Pair} {existingPosition : Position}
    {totalX totalY newPairReserveX newPairReserveY : Value}
    (foundPair : (store .pair).findOne pair = some existingPair)
    (foundPosition : (store .position).findOne position = some existingPosition)
    (looped : mongo.Completes (change.processBins message instructionId pair position
      existingPosition.lowerBinLbId entries (.bigint 0) (.bigint 0)) store (totalX, totalY) middle)
    (combinedX : change.combine existingPair.reserveX totalX = .ok newPairReserveX)
    (combinedY : change.combine existingPair.reserveY totalY = .ok newPairReserveY) :
    mongo.Completes (change.processPosition message instructionId pair position entries) store ()
      (middle.put .pair ((middle .pair).updateOne pair
        { set := fun row =>
            { row with
              reserveX := newPairReserveX.toString
              reserveY := newPairReserveY.toString } })) := by
  unfold processPosition
  refine completes_found foundPair ?_
  refine completes_found foundPosition ?_
  refine Database.completes_bind.mpr ⟨(totalX, totalY), _, looped, ?_⟩
  refine Database.completes_bind.mpr ⟨_, _, completes_compute.mpr ⟨combinedX, rfl⟩, ?_⟩
  refine Database.completes_bind.mpr ⟨_, _, completes_compute.mpr ⟨combinedY, rfl⟩, ?_⟩
  exact completes_updateOne.mpr ⟨fun _ _ => rfl, rfl⟩

/-- The loop as a sum: a quantity that each round moves by its own amount is moved by
their sum. -/
theorem processBins_sum {change : PositionChange} {message : ParsedInstructionMessage}
    {instructionId pair position : String} {lower : ℕ} (quantity : Store → ℤ)
    (weight : BinEntry → ℤ) (kept : Store → Prop)
    {entries : List BinEntry} (round : ∀ entry ∈ entries, ∀ store after, kept store →
      mongo.Completes (change.processBin pair position lower entry) store () after →
        quantity after = quantity store + weight entry ∧ kept after)
    (event : ∀ store after : Store, (∀ coll ≠ .positionUpdateEvent, after coll = store coll) →
      quantity after = quantity store ∧ (kept store → kept after))
    {x y : Value} {totals : Value × Value} {store after : Store}
    (completes : mongo.Completes (change.processBins message instructionId pair position lower
      entries x y) store totals after) (held : kept store) :
    quantity after = quantity store + (entries.map weight).sum ∧ kept after := by
  induction entries generalizing x y store with
  | nil =>
      obtain ⟨-, rfl⟩ := Database.completes_return.mp completes
      simp [held]
  | cons entry rest ih =>
      simp only [processBins, Database.completes_bind, completes_compute] at completes
      obtain ⟨_, first, changed, _, _, ⟨-, rfl⟩, _, _, ⟨-, rfl⟩, _, second, created, later⟩ :=
        completes
      obtain ⟨moved, held⟩ := round entry List.mem_cons_self store _ held changed
      obtain ⟨same, keeps⟩ :=
        event _ second fun coll other => of_completes_createEvent created other
      obtain ⟨total, held⟩ :=
        ih (fun entry member => round entry (List.mem_cons_of_mem _ member)) later (keeps held)
      refine ⟨?_, held⟩
      rw [total, same, moved, List.map_cons, List.sum_cons]
      omega

end PositionChange

/-- The rounds of the loop, given how the decoder presents the list elements. -/
def binEntries (element : ℕ → Value) (binIds amountsX amountsY liquidity : List ℕ) :
    List BinEntry :=
  let elementAt (list : List ℕ) (index : ℕ) : Value := list[index]?.elim .undefined element
  binIds.zipIdx.map fun (lbBinId, index) =>
    { lbBinId := lbBinId
      amountX := elementAt amountsX index
      amountY := elementAt amountsY index
      liquidity := elementAt liquidity index }

/-- What holds of `undefined` and of every element holds of the values of a round. -/
theorem forall_mem_binEntries {element : ℕ → Value} {binIds amountsX amountsY liquidity : List ℕ}
    (valid : Value → Prop) (missing : valid .undefined) (present : ∀ amount, valid (element amount))
    {entry : BinEntry} (member : entry ∈ binEntries element binIds amountsX amountsY liquidity) :
    valid entry.amountX ∧ valid entry.amountY ∧ valid entry.liquidity := by
  have both (list : List ℕ) (index : ℕ) : valid (list[index]?.elim .undefined element) := by
    cases list[index]? with
    | none => exact missing
    | some amount => exact present amount
  obtain ⟨⟨lbBinId, index⟩, -, rfl⟩ := List.mem_map.mp member
  exact ⟨both _ _, both _ _, both _ _⟩

namespace IncreasePosition

structure PositionIncreaseEventDecoded where
  pair : String
  position : String
  binIds : List ℕ
  amountsX : List ℕ
  amountsY : List ℕ
  liquidityMinted : List ℕ
  deriving DecidableEq, Repr

/-- Added amounts, recorded as they are. -/
def change : PositionChange := ⟨"increase", Value.add, .ok⟩

/-- An element of a list of BigInts, or past its end. -/
def FromBigints (value : Value) : Prop := value = .undefined ∨ ∃ amount, value = .bigint amount

/-- A completed addition adds integers. -/
theorem of_combine {text : String} {operand result : Value} (fromBigints : FromBigints operand)
    (combined : change.combine text operand = .ok result) :
    bigInt text = some (amount text) ∧ operand = .bigint operand.integer ∧
      result = .bigint (amount text + operand.integer) := by
  rw [PositionChange.combine] at combined
  cases read : bigInt text with
  | none =>
      rw [read] at combined
      cases combined
  | some value =>
      rw [read] at combined
      rcases fromBigints with rfl | ⟨added, rfl⟩
      · cases combined
      · cases combined
        simp [amount, read, Value.integer]

/-- A completed addition to a total adds an integer. -/
theorem of_add {total : ℤ} {operand result : Value} (fromBigints : FromBigints operand)
    (sum : Value.add (.bigint total) operand = .ok result) :
    result = .bigint (total + operand.integer) := by
  rcases fromBigints with rfl | ⟨value, rfl⟩
  · cases sum
  · exact (Except.ok.inj sum).symm

theorem combine_zero (added : ℤ) : change.combine "0" (.bigint added) = .ok (.bigint added) := by
  have read : bigInt "0" = some 0 := by decide
  rw [PositionChange.combine, read]
  change Except.ok (Value.bigint (0 + added)) = _
  rw [zero_add]

/-- The decoder maps the lists with `BigInt`. -/
def PositionIncreaseEventDecoded.entries (decoded : PositionIncreaseEventDecoded) :
    List BinEntry :=
  binEntries (fun amount => .bigint amount) decoded.binIds decoded.amountsX decoded.amountsY
    decoded.liquidityMinted

theorem fromBigints_of_mem_entries {decoded : PositionIncreaseEventDecoded} {entry : BinEntry}
    (member : entry ∈ decoded.entries) :
    FromBigints entry.amountX ∧ FromBigints entry.amountY ∧ FromBigints entry.liquidity :=
  forall_mem_binEntries FromBigints (.inl rfl) (fun amount => .inr ⟨amount, rfl⟩) member

/-- The totals of a completed loop are the sums of the amounts. -/
theorem totals_of_completes {message : ParsedInstructionMessage}
    {instructionId pair position : String} {lower : ℕ} {entries : List BinEntry}
    (fromBigints : ∀ entry ∈ entries, FromBigints entry.amountX ∧ FromBigints entry.amountY)
    {x y : ℤ} {totals : Value × Value} {store after : Store}
    (completes : mongo.Completes (change.processBins message instructionId pair position lower
      entries (.bigint x) (.bigint y)) store totals after) :
    totals = (.bigint (x + (entries.map fun entry => entry.amountX.integer).sum),
      .bigint (y + (entries.map fun entry => entry.amountY.integer).sum)) := by
  induction entries generalizing x y store with
  | nil =>
      obtain ⟨rfl, -⟩ := Database.completes_return.mp completes
      simp
  | cons entry rest ih =>
      simp only [PositionChange.processBins, Database.completes_bind, completes_compute]
        at completes
      obtain ⟨_, _, -, _, _, ⟨addedX, -⟩, _, _, ⟨addedY, -⟩, _, _, -, later⟩ := completes
      obtain ⟨bigintX, bigintY⟩ := fromBigints entry List.mem_cons_self
      rw [of_add bigintX addedX, of_add bigintY addedY] at later
      rw [ih (fun entry member => fromBigints entry (List.mem_cons_of_mem _ member)) later,
        List.map_cons, List.map_cons, List.sum_cons, List.sum_cons, add_assoc, add_assoc]

def processIncreasePosition (message : ParsedInstructionMessage) (instructionId : String)
    (decoded : PositionIncreaseEventDecoded) : Action Unit :=
  change.processPosition message instructionId decoded.pair decoded.position decoded.entries

def process (message : ParsedInstructionMessage) (decoded : PositionIncreaseEventDecoded) :
    Action Unit :=
  unlessProcessed (message.params .IncreasePositionProcessor) fun instructionCreated =>
    processIncreasePosition message instructionCreated.id decoded

end IncreasePosition

namespace DecreasePosition

structure PositionDecreaseEventDecoded where
  pair : String
  position : String
  binIds : List ℕ
  amountsX : List ℕ
  amountsY : List ℕ
  liquidityBurned : List ℕ
  deriving DecidableEq, Repr

/-- Subtracted amounts, recorded negated. -/
def change : PositionChange := ⟨"decrease", Value.sub, Value.neg⟩

/-- The decoder maps the lists with `toString`, so the elements are texts. -/
def PositionDecreaseEventDecoded.entries (decoded : PositionDecreaseEventDecoded) :
    List BinEntry :=
  binEntries (fun amount => .string (decimal amount)) decoded.binIds decoded.amountsX
    decoded.amountsY decoded.liquidityBurned

/-- A text or `undefined` is never subtracted from a BigInt. -/
theorem combine_ne_ok {decoded : PositionDecreaseEventDecoded} {entry : BinEntry}
    (member : entry ∈ decoded.entries) {text : String} {result : Value} :
    change.combine text entry.liquidity ≠ .ok result := by
  have element : entry.liquidity = .undefined ∨ ∃ text, entry.liquidity = .string text :=
    (forall_mem_binEntries (fun value => value = .undefined ∨ ∃ text, value = .string text)
      (.inl rfl) (fun amount => .inr ⟨_, rfl⟩) member).2.2
  intro combined
  rw [PositionChange.combine] at combined
  rcases element with missing | ⟨burned, present⟩
  · rw [missing] at combined
    split at combined <;> cases combined
  · rw [present] at combined
    split at combined <;> cases combined

/-- A completed decrease had no bins. -/
theorem entries_eq_nil_of_completes {decoded : PositionDecreaseEventDecoded}
    {message : ParsedInstructionMessage} {instructionId pair position : String} {lower : ℕ}
    {x y : Value} {totals : Value × Value} {store after : Store}
    (completes : mongo.Completes (change.processBins message instructionId pair position lower
      decoded.entries x y) store totals after) : decoded.entries = [] := by
  cases shape : decoded.entries with
  | nil => rfl
  | cons entry rest =>
      rw [shape] at completes
      simp only [PositionChange.processBins, Database.completes_bind] at completes
      obtain ⟨_, middle, changed, -⟩ := completes
      obtain ⟨share, bin, balance, newX, newY, newSupply, -, -, -, combined, -⟩ :=
        PositionChange.of_completes_processBin changed
      exact absurd combined (combine_ne_ok (shape ▸ List.mem_cons_self))

def processDecreasePosition (message : ParsedInstructionMessage) (instructionId : String)
    (decoded : PositionDecreaseEventDecoded) : Action Unit :=
  change.processPosition message instructionId decoded.pair decoded.position decoded.entries

def process (message : ParsedInstructionMessage) (decoded : PositionDecreaseEventDecoded) :
    Action Unit :=
  unlessProcessed (message.params .DecreasePositionProcessor) fun instructionCreated =>
    processDecreasePosition message instructionCreated.id decoded

end DecreasePosition

/-! ## Closing -/

namespace ClosePosition

/-- The accounts of a `close_position` instruction. -/
structure ClosePositionDecoded where
  pair : String
  position : String
  deriving DecidableEq, Repr

/-- The query for the decrease event of the same transaction.  It asks for the
processor name as the enumeration spells it. -/
def isDecreasePosition (message : ParsedInstructionMessage) (row : Instruction) : Bool :=
  row.signature = message.signature &&
    row.processorName = ProcessorName.DecreasePositionProcessor.text &&
    row.index = message.instructionIndex && row.blockNumber = message.blockNumber

def processClosePosition (message : ParsedInstructionMessage) (decoded : ClosePositionDecoded) :
    Action Unit := do
  let isIndexedDecreasePosition ← existsWhere .instruction (isDecreasePosition message)
  if isIndexedDecreasePosition then do
    let some existingPosition ← findOne .position decoded.position
      | fail "Processing Close Position for non-existent position"
    if existingPosition.pairId = decoded.pair then do
      let _deletedShares ← deleteShares decoded.position
      let deletedPosition ← deletePosition decoded.position
      if deletedPosition = 0 then fail ("Failed to delete position: " ++ decoded.position)
      else pure ()
    else
      fail ("Processing Close Position for non-matching position " ++ decoded.position
        ++ " and pair_id " ++ decoded.pair)
  else
    fail ("Indexing Close Position before Decrease Position event for txn: " ++ message.signature)

theorem processClosePosition_within {message : ParsedInstructionMessage}
    {decoded : ClosePositionDecoded} :
    (processClosePosition message decoded).Within [.liquidityShares, .position] := by
  refine .bind within_existsWhere fun isIndexed => ?_
  cases isIndexed with
  | false => exact within_fail
  | true =>
  refine .bind within_findOne fun existingPosition => ?_
  cases existingPosition with
  | none => exact within_fail
  | some existingPosition =>
  dsimp only
  split
  · refine .bind (within_deleteShares (by simp)) fun _ => ?_
    refine .bind (within_deletePosition (by simp)) fun deleted => ?_
    split
    · exact within_fail
    · exact Program.every_return _
  · exact within_fail

def process (message : ParsedInstructionMessage) (decoded : ClosePositionDecoded) : Action Unit :=
  unlessProcessed (message.params .ClosePositionProcessor) fun _ =>
    processClosePosition message decoded

/-- A close completes only past an `Instruction` row that spells the processor name
as the enumeration does. -/
theorem of_completes_processClosePosition {message : ParsedInstructionMessage}
    {decoded : ClosePositionDecoded} {store after : Store}
    (completes : mongo.Completes (processClosePosition message decoded) store () after) :
    ∃ row ∈ store .instruction,
      row.processorName = ProcessorName.DecreasePositionProcessor.text := by
  simp only [processClosePosition, Database.completes_bind, completes_existsWhere] at completes
  obtain ⟨_, _, ⟨rfl, rfl⟩, completes⟩ := completes
  split at completes
  next indexed =>
    obtain ⟨row, member, matched⟩ := List.any_eq_true.mp indexed
    simp only [isDecreasePosition, Bool.and_eq_true, decide_eq_true_eq] at matched
    exact ⟨row, member, matched.1.1.2⟩
  · exact absurd completes not_completes_fail

end ClosePosition

end DlmmIndexer

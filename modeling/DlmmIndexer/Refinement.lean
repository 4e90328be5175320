import Mathlib.Data.List.Find
import DlmmIndexer.Market

/-!
# The store as a market

A store shows a market: its rows through the index, amounts read from their texts.  When
a job completes, undisturbed, the market that is shown moves by the step of that job, and
after any jobs one at a time it is what the steps make of the empty market.
-/

namespace DlmmIndexer

open Documents JavaScript Atomic Text

/-! ## What rows show -/

def BinStepConfig.terms (row : BinStepConfig) : ConfigTerms where
  binStep := row.binStep
  fees :=
    { baseFactor := row.baseFactor
      filterPeriod := row.filterPeriod
      decayPeriod := row.decayPeriod
      reductionFactor := row.reductionFactor
      variableFeeControl := row.variableFeeControl
      maxVolatilityAccumulator := row.maxVolatilityAccumulator
      protocolShare := row.protocolShare }

def Pair.terms (row : Pair) : PairTerms where
  binStep := row.binStep
  activeId := row.activeId
  fees :=
    { baseFactor := row.baseFactor
      filterPeriod := row.filterPeriod
      decayPeriod := row.decayPeriod
      reductionFactor := row.reductionFactor
      variableFeeControl := row.variableFeeControl
      maxVolatilityAccumulator := row.maxVolatilityAccumulator
      protocolShare := row.protocolShare }
  depositX := amount row.reserveX
  depositY := amount row.reserveY

def Bin.balances (row : Bin) : BinBalance where
  reserveX := amount row.reserveX
  reserveY := amount row.reserveY
  supply := amount row.totalSupply

def Position.terms (row : Position) : PositionTerms where
  pair := row.pairId
  mint := row.positionMintId
  owner := row.ownerId
  lower := row.lowerBinLbId
  upper := row.upperBinLbId

/-- The id of the row of a bin. -/
def binName (place : String × ℕ) : String := binId place.1 place.2

/-- The id of the row of a share. -/
def shareName (place : String × ℕ) : String := liquidityShareId place.1 place.2

theorem binName_injective : Function.Injective binName := by
  rintro ⟨pair, lbBinId⟩ ⟨pair', lbBinId'⟩ same
  obtain ⟨rfl, rfl⟩ := joined_decimal_injective same
  rfl

theorem shareName_injective : Function.Injective shareName := by
  rintro ⟨position, index⟩ ⟨position', index'⟩ same
  obtain ⟨rfl, rfl⟩ := joined_decimal_injective same
  rfl

def showConfigs (rows : Collection BinStepConfig.id) : Table String ConfigTerms :=
  Table.view rows.findOne BinStepConfig.terms

def showPairs (rows : Collection Pair.id) : Table String PairTerms :=
  Table.view rows.findOne Pair.terms

def showBins (rows : Collection Bin.id) : Table (String × ℕ) BinBalance :=
  Table.under (Table.view rows.findOne Bin.balances) binName

def showPositions (rows : Collection Position.id) : Table String PositionTerms :=
  Table.view rows.findOne Position.terms

def showShares (rows : Collection LiquidityShares.id) : Table (String × ℕ) ℤ :=
  Table.under (Table.view rows.findOne fun row => amount row.balance) shareName

/-- The market that a store shows. -/
def Store.market (store : Store) : Market where
  configs := showConfigs (store .binStepConfig)
  pairs := showPairs (store .pair)
  bins := showBins (store .bin)
  positions := showPositions (store .position)
  shares := showShares (store .liquidityShares)
  seen := (store .instruction).holds

/-- Where the collections show the market, the store does. -/
theorem Store.market_eq {store : Store} {market : Market}
    (configs : showConfigs (store .binStepConfig) = market.configs)
    (pairs : showPairs (store .pair) = market.pairs) (bins : showBins (store .bin) = market.bins)
    (positions : showPositions (store .position) = market.positions)
    (shares : showShares (store .liquidityShares) = market.shares)
    (seen : (store .instruction).holds = market.seen) : store.market = market :=
  Market.ext configs pairs bins positions shares seen

theorem showBins_updateOne {rows : Collection Bin.id} {update : Update Bin.id}
    (place : String × ℕ) (change : BinBalance → BinBalance)
    (shows : ∀ row, rows.findOne (binName place) = some row →
      (update.set row).balances = change row.balances) :
    showBins (rows.updateOne (binName place) update) =
      (showBins rows).amend (Table.only place change) := by
  rw [showBins, Collection.view_updateOne shows, Table.under_amend_only binName_injective, showBins]

/-! ## Movements -/

namespace Market

variable {movement : Movement}

/-- The bins of the movement, seen by their places. -/
theorem showBins_updateEach {rows : Collection Bin.id}
    (distinct : (movement.bins.map (binId movement.pair ·.lbBinId)).Nodup) :
    showBins (rows.updateEach movement.bins (binId movement.pair ·.lbBinId) BinMove.addToBin) =
      (showBins rows).amend (onBin movement) := by
  have moved (place : String × ℕ) :
      movement.bins.find? (fun move => decide (binId movement.pair move.lbBinId = binName place)) =
        if place.1 = movement.pair then moveOf movement place.2 else none := by
    split
    next here =>
      refine List.find?_congr fun move _ => ?_
      rw [← here, binName, decide_eq_decide]
      exact ⟨fun same => (joined_decimal_injective same).2, fun same => by rw [same]⟩
    next other =>
      refine List.find?_eq_none.mpr fun move _ same => other ?_
      exact (joined_decimal_injective (of_decide_eq_true same)).1.symm
  have shows : showBins (rows.updateEach movement.bins (binId movement.pair ·.lbBinId)
      BinMove.addToBin) = (Table.amend (Table.view rows.findOne Bin.balances) fun name bin =>
        (movement.bins.find? fun move => decide (binId movement.pair move.lbBinId = name)).elim bin
          fun move => shift move bin).under binName := by
    rw [showBins, Collection.table_updateEach distinct]
    congr 1
    refine Table.view_amend fun name row _ => ?_
    cases movement.bins.find? fun move => decide (binId movement.pair move.lbBinId = name) with
    | none => rfl
    | some move => simp only [Option.elim, Bin.balances, BinMove.addToBin, amount_decimal, shift]
  rw [shows, Table.under_amend]
  refine congrArg (Table.amend (showBins rows)) (funext fun place => funext fun bin => ?_)
  rw [moved, onBin]
  split <;> rfl

/-- The shares of the movement, seen by their places. -/
theorem showShares_updateEach {rows : Collection LiquidityShares.id}
    (range : ∀ move ∈ movement.bins, movement.lowerBinLbId ≤ move.lbBinId)
    (distinct : (movement.bins.map movement.shareId).Nodup) :
    showShares (rows.updateEach movement.bins movement.shareId BinMove.addToShare) =
      (showShares rows).amend (onShare movement) := by
  have named (move : BinMove) (member : move ∈ movement.bins) :
      movement.shareId move =
        shareName (movement.position, move.lbBinId - movement.lowerBinLbId) := by
    rw [Movement.shareId, shareName, Nat.cast_sub (range move member)]
  have moved (place : String × ℕ) :
      movement.bins.find? (fun move => decide (movement.shareId move = shareName place)) =
        if place.1 = movement.position then moveOf movement (movement.lowerBinLbId + place.2)
        else none := by
    split
    next here =>
      refine List.find?_congr fun move member => ?_
      have inside := range move member
      rw [named move member, decide_eq_decide, shareName_injective.eq_iff, ← here, Prod.ext_iff]
      simp only [true_and]
      omega
    next other =>
      refine List.find?_eq_none.mpr fun move member same => other ?_
      have same := of_decide_eq_true same
      rw [named move member] at same
      rw [← shareName_injective same]
  have shows : showShares (rows.updateEach movement.bins movement.shareId BinMove.addToShare) =
      (Table.amend (Table.view rows.findOne fun row => amount row.balance) fun name balance =>
        (movement.bins.find? fun move => decide (movement.shareId move = name)).elim balance
          fun move => balance + move.liquidity).under shareName := by
    rw [showShares, Collection.table_updateEach distinct]
    congr 1
    refine Table.view_amend fun name row _ => ?_
    cases movement.bins.find? fun move => decide (movement.shareId move = name) with
    | none => rfl
    | some move => simp only [Option.elim, BinMove.addToShare, amount_decimal]
  rw [shows, Table.under_amend]
  refine congrArg (Table.amend (showShares rows)) (funext fun place => funext fun balance => ?_)
  rw [moved, onShare]
  split <;> rfl

end Market

/-! ## Jobs, one kind after another -/

section Work

variable {store after : Store}

/-- A completed increase adds its movement to the market. -/
theorem market_of_increase {message : ParsedInstructionMessage} {instructionId : String}
    {decoded : IncreasePosition.PositionIncreaseEventDecoded}
    (completes : mongo.Completes (IncreasePosition.processIncreasePosition message instructionId
      decoded) store () after) :
    ∃ position, (store .position).findOne decoded.position = some position ∧
      after.market = store.market.deposit (decoded.movement position.lowerBinLbId) := by
  obtain ⟨existingPair, existingPosition, totalX, totalY, middle, newX, newY, foundPair,
    foundPosition, looping, combinedX, combinedY, rfl⟩ :=
    PositionChange.of_completes_processPosition completes
  have elements := fun entry member =>
    @IncreasePosition.fromBigints_of_mem_entries decoded entry member
  have totals := IncreasePosition.totals_of_completes
    (fun entry member => ⟨(elements entry member).1, (elements entry member).2.1⟩) looping
  obtain ⟨integral, looped⟩ := IncreasePosition.looped_of_completes elements looping
  have moves := IncreasePosition.moves_entries (IncreasePosition.covered_of_integral integral)
    existingPosition.lowerBinLbId
  rw [moves] at looped
  rw [zero_add, zero_add, Prod.mk.injEq] at totals
  obtain ⟨rfl, rfl⟩ := totals
  obtain ⟨-, printedX⟩ := IncreasePosition.reserve_of_combine combinedX
  obtain ⟨-, printedY⟩ := IncreasePosition.reserve_of_combine combinedY
  have pairs : middle .pair = store .pair := looped.others .pair (by decide)
  have sums (part : BinMove → ℤ) : ((decoded.movement existingPosition.lowerBinLbId).bins.map
      part).sum = (decoded.entries.map fun entry => part entry.move).sum := by
    rw [← moves, List.map_map]
    rfl
  refine ⟨existingPosition, foundPosition, Store.market_eq ?_ ?_ ?_ ?_ ?_ ?_⟩
  · rw [Store.put_other (by decide), looped.others .binStepConfig (by decide)]
    rfl
  · rw [Store.put_same, pairs]
    refine Collection.view_updateOne fun row found => ?_
    cases foundPair.symm.trans found
    simp only [Pair.terms, Market.onPair, printedX, printedY, amount_decimal, sums]
    rfl
  · rw [Store.put_other (by decide), looped.bins]
    exact Market.showBins_updateEach looped.distinct_bins
  · rw [Store.put_other (by decide), looped.others .position (by decide)]
    rfl
  · rw [Store.put_other (by decide), looped.shares]
    exact Market.showShares_updateEach (fun move member => (looped.range move member).1)
      looped.distinct_shares
  · rw [Store.put_other (by decide), looped.others .instruction (by decide)]
    rfl

/-- A decrease that completes had no bins, and the market stays. -/
theorem market_of_decrease {message : ParsedInstructionMessage} {instructionId : String}
    {decoded : DecreasePosition.PositionDecreaseEventDecoded}
    (completes : mongo.Completes (DecreasePosition.processDecreasePosition message instructionId
      decoded) store () after) : after.market = store.market := by
  obtain ⟨_, _, _, _, _, _, _, -, -, looped, -⟩ :=
    PositionChange.of_completes_processPosition completes
  rw [DecreasePosition.processDecreasePosition,
    DecreasePosition.entries_eq_nil_of_completes looped] at completes
  obtain ⟨row, _, x, y, found, -, readX, readY, rfl⟩ :=
    (PositionChange.completes_processPosition_nil DecreasePosition.neutral).mp completes
  refine Store.market_eq ?_ ?_ ?_ ?_ ?_ ?_
  · rw [Store.put_other (by decide)]
    rfl
  · rw [Store.put_same, showPairs, Collection.table_updateOne]
    refine Table.view_amend_of_hidden fun id pair held => ?_
    simp only [Table.only]
    split
    next here =>
      rw [here] at held
      cases found.symm.trans held
      simp only [Pair.terms, amount_decimal]
      rw [amount, readX, amount, readY]
      rfl
    · rfl
  all_goals
    rw [Store.put_other (by decide)]
    rfl

/-- A completed swap event moves its bin by its net amounts. -/
theorem market_of_cross {message : ParsedInstructionMessage} {decoded : Swap.BinSwapEventDecoded}
    (wellFormed : ∀ bin ∈ store .bin, bin.WellFormed) (inSmall : decoded.amountIn < 2 ^ 53)
    (feeSmall : decoded.protocolFee < 2 ^ 53) (outSmall : decoded.amountOut < 2 ^ 53)
    (binSmall : ∀ bin, (store .bin).findOne (binId decoded.pair decoded.binId) = some bin →
      ∀ side : Side, (amount (side.ofBin bin)).natAbs < 2 ^ 53 ∧
        (amount (side.ofBin bin) + decoded.net side).natAbs < 2 ^ 53)
    (completes : mongo.Completes (Swap.insertBinSwapEvent message (some decoded)) store () after) :
    after.market = store.market.cross decoded := by
  obtain ⟨_, bin, newX, newY, _, _, rows, -, found, addedX, addedY, -, rfl⟩ :=
    Swap.of_completes_insertBinSwapEvent completes
  have canonical := (wellFormed bin (Collection.mem_of_findOne found)).canonical
  obtain ⟨rfl, rfl⟩ := Swap.BinSwapEventDecoded.newReserves_eq inSmall feeSmall outSmall
    (binSmall bin found) canonical addedX addedY
  refine Store.market_eq ?_ ?_ ?_ ?_ ?_ ?_
  · rw [Store.put_other (by decide), Store.put_other (by decide)]
    rfl
  · rw [Store.put_other (by decide), Store.put_other (by decide)]
    rfl
  · rw [Store.put_other (by decide), Store.put_same]
    refine showBins_updateOne (decoded.pair, decoded.binId) _ fun row held => ?_
    cases found.symm.trans held
    simp only [Bin.balances, amount_decimal]
  all_goals
    rw [Store.put_other (by decide), Store.put_other (by decide)]
    rfl

/-! ### Positions -/

/-- The empty shares of a new position. -/
theorem view_liquiditySharesData {position : String} {place : String × ℕ} :
    ((CreatePosition.liquiditySharesData position).find? fun row =>
        decide (row.id = shareName place)).map (fun row => amount row.balance) =
      if place.1 = position ∧ place.2 < binPerPosition then some 0 else none := by
  cases found : (CreatePosition.liquiditySharesData position).find? fun row =>
      decide (row.id = shareName place) with
  | some row =>
      have named := List.find?_some found
      simp only [decide_eq_true_eq] at named
      obtain ⟨index, inside, rfl⟩ := List.mem_map.mp (List.mem_of_find?_eq_some found)
      have same : (position, index) = place := shareName_injective named
      rw [← same, if_pos ⟨rfl, List.mem_range.mp inside⟩, Option.map_some]
      exact congrArg some amount_zero
  | none =>
      rw [if_neg, Option.map_none]
      rintro ⟨rfl, inside⟩
      have member := List.mem_map_of_mem (f := fun (index : ℕ) => ({
        id := liquidityShareId place.1 index
        positionId := place.1
        index := index
        balance := "0" } : LiquidityShares)) (List.mem_range.mpr inside)
      exact List.find?_eq_none.mp found _ member (decide_eq_true rfl)

/-- Opening a position opens its 64 shares. -/
theorem market_of_insertPosition {row : Position} {settle : PositionTerms → PositionTerms}
    (fresh : (store .position).findOne row.id = none)
    (completes : mongo.Completes (CreatePosition.insertPosition row) store () after) :
    after.market = store.market.place row.id row.terms settle := by
  obtain ⟨shares, positions, inserted, created, rfl⟩ :=
    CreatePosition.of_completes_insertPosition completes
  have unknown : (store.market.positions row.id).isSome = false := by
    change ((((store .position).findOne row.id).map Position.terms)).isSome = false
    rw [fresh]
    rfl
  rw [Market.place, unknown, if_neg Bool.false_ne_true]
  refine Store.market_eq ?_ ?_ ?_ ?_ ?_ ?_
  iterate 3
    rw [Store.put_other (by decide), Store.put_other (by decide)]
    rfl
  · rw [Store.put_same]
    exact Collection.view_create created
  · rw [Store.put_other (by decide), Store.put_same, showShares,
      Collection.table_insertMany inserted, Table.view_fill, Table.under_fill]
    exact congrArg (Table.fill (showShares (store .liquidityShares)))
      (funext fun place => view_liquiditySharesData)
  · rw [Store.put_other (by decide), Store.put_other (by decide)]
    rfl

/-- Settling some terms of a position that is there. -/
theorem market_of_settle {position : String} {terms : PositionTerms} {row : Position}
    {update : Update Position.id} {settle : PositionTerms → PositionTerms}
    (found : (store .position).findOne position = some row)
    (shows : ∀ row, (update.set row).terms = settle row.terms) :
    (store.put .position ((store .position).updateOne position update)).market =
      store.market.place position terms settle := by
  have known : (store.market.positions position).isSome = true := by
    change ((((store .position).findOne position).map Position.terms)).isSome = true
    rw [found]
    rfl
  rw [Market.place, if_pos known]
  refine Store.market_eq ?_ ?_ ?_ ?_ ?_ ?_
  iterate 3
    rw [Store.put_other (by decide)]
    rfl
  · rw [Store.put_same]
    exact Collection.view_updateOne fun row _ => shows row
  all_goals
    rw [Store.put_other (by decide)]
    rfl

theorem market_of_settleEvent {decoded : CreatePosition.PositionCreationEvent}
    (completes : mongo.Completes (CreatePosition.settleEvent decoded) store () after) :
    after.market = store.market.place decoded.position
      ⟨decoded.pair, decoded.positionMint, "dummy-owner-id", decoded.lowerBinId,
        decoded.upperBinId⟩
      fun terms => { terms with lower := decoded.lowerBinId, upper := decoded.upperBinId } := by
  rcases CreatePosition.of_completes_settleEvent completes with
    ⟨fresh, inserted⟩ | ⟨row, found, rfl⟩
  · exact market_of_insertPosition fresh inserted
  · exact market_of_settle found fun _ => rfl

theorem market_of_settleInstruction {decoded : CreatePosition.CreatePositionDecoded}
    {owner : String}
    (completes : mongo.Completes (CreatePosition.settleInstruction decoded owner) store ()
      after) :
    after.market = store.market.place decoded.position
      ⟨decoded.pair, decoded.positionMint, owner, 0, 0⟩
      fun terms => { terms with mint := decoded.positionMint, owner := owner } := by
  obtain ⟨middle, same, -, settled⟩ := CreatePosition.of_completes_settleInstruction completes
  have unmoved : middle.market = store.market := by
    simp only [Store.market, same .binStepConfig (by decide), same .pair (by decide),
      same .bin (by decide), same .position (by decide), same .liquidityShares (by decide),
      same .instruction (by decide)]
  rw [← unmoved]
  rw [← same .position (by decide)] at settled
  rcases settled with ⟨fresh, inserted⟩ | ⟨row, found, rfl⟩
  · exact market_of_insertPosition fresh inserted
  · exact market_of_settle found fun _ => rfl

/-! ### Configs, pairs and bin arrays -/

theorem market_of_config
    {decoded : InitializeBinStepConfig.InitializeBinStepConfigDecoded}
    (completes : mongo.Completes (InitializeBinStepConfig.process decoded) store () after) :
    after.market =
      { store.market with
        configs := store.market.configs.fill
          (.single decoded.binStepConfig ⟨decoded.binStep, decoded.feeParameters⟩) } := by
  have completes := completes_findOne_bind.mp completes
  split at completes
  next row found =>
    have unmoved := (Database.completes_return.mp completes).2
    have known : (store.market.configs decoded.binStepConfig).isSome := by
      change (((store .binStepConfig).findOne decoded.binStepConfig).map _).isSome
      rw [found]
      rfl
    rw [unmoved, Table.fill_single_of_known known]
  next =>
    obtain ⟨rows, created, -, rfl⟩ := completes_create.mp completes
    refine Store.market_eq ?_ ?_ ?_ ?_ ?_ ?_
    · rw [Store.put_same]
      exact Collection.view_create created
    all_goals
      rw [Store.put_other (by decide)]
      rfl

/-- A completed initialization found the pair, or created it by its config. -/
theorem pair_of_completes {rpc : MintRpc} {decoded : InitializePair.InitializePairDecoded}
    (completes : mongo.Completes (InitializePair.processInitializePair rpc decoded) store ()
      after) :
    ((store .pair).holds decoded.pair = true ∧ after = store) ∨
    ∃ config mintX mintY rows,
      (store .binStepConfig).findOne decoded.binStepConfig = some config ∧
      (store .pair).create (InitializePair.pairData decoded config mintX mintY) = some rows ∧
        after .pair = rows := by
  simp only [InitializePair.processInitializePair, Database.completes_bind] at completes
  obtain ⟨_, _, ⟨rfl, rfl⟩, completes⟩ := completes
  split at completes
  next existingPair found =>
    exact .inl ⟨Collection.holds_of_findOne found, (Database.completes_return.mp completes).2⟩
  obtain ⟨_, _, listed, configuring⟩ := Database.completes_bind.mp completes
  obtain ⟨-, rfl⟩ := completes_find.mp listed
  obtain ⟨config, configured, inserting⟩ := of_completes_needed configuring rfl
  simp only [Database.completes_bind, completes_create] at inserting
  obtain ⟨mintX, first, minted, mintY, second, minted', rows, created, -, rfl⟩ := inserting
  rw [InitializePair.handleTokenMint_within.completes (by decide) minted',
    InitializePair.handleTokenMint_within.completes (by decide) minted] at created
  exact .inr ⟨config, mintX, mintY, rows, configured, created, Store.put_same _ _ _⟩

theorem market_of_pair {rpc : Rpc} {message : ParsedInstructionMessage}
    {decoded : InitializePair.InitializePairDecoded}
    (completes : mongo.Completes
      (InitializePair.processInitializePair rpc.toMintRpc decoded) store () after) :
    after.market = store.market.work rpc ⟨message, .initializePair decoded⟩ := by
  have frame (coll : Coll) (other : coll ∉ [.tokenMint, .pair]) : after coll = store coll :=
    InitializePair.processInitializePair_within.completes other completes
  simp only [Market.work]
  rcases pair_of_completes completes with
    ⟨held, unmoved⟩ | ⟨config, mintX, mintY, rows, found, created, inserted⟩
  · have known : (store.market.pairs decoded.pair).isSome := by
      change (((store .pair).findOne decoded.pair).map _).isSome
      rw [Option.isSome_map]
      exact held
    rw [unmoved]
    split
    · rfl
    · rw [Table.fill_single_of_known known]
  · have configured : store.market.configs decoded.binStepConfig = some config.terms := by
      change ((store .binStepConfig).findOne decoded.binStepConfig).map _ = _
      rw [found, Option.map_some]
    rw [configured]
    refine Store.market_eq ?_ ?_ ?_ ?_ ?_ ?_
    · rw [frame .binStepConfig (by decide)]
      rfl
    · rw [inserted]
      refine (Collection.view_create created).trans ?_
      have shown : (InitializePair.pairData decoded config mintX mintY).terms =
          ⟨config.binStep, decoded.activeId, config.terms.fees, 0, 0⟩ := by
        simp only [InitializePair.pairData, Pair.terms, BinStepConfig.terms, amount_zero]
      rw [shown]
      rfl
    · rw [frame .bin (by decide)]
      rfl
    · rw [frame .position (by decide)]
      rfl
    · rw [frame .liquidityShares (by decide)]
      rfl
    · rw [frame .instruction (by decide)]
      rfl

/-- The empty bins of an array. -/
theorem view_binDocuments {decoded : InitializeBinArray.InitializeBinArrayDecoded}
    {place : String × ℕ} :
    ((InitializeBinArray.binDocuments decoded).find? fun row =>
        decide (row.id = binName place)).map Bin.balances =
      if place.1 = decoded.pair ∧ place.2 / binArraySize = decoded.index then some ⟨0, 0, 0⟩
      else none := by
  cases found : (InitializeBinArray.binDocuments decoded).find? fun row =>
      decide (row.id = binName place) with
  | some row =>
      have named := List.find?_some found
      simp only [decide_eq_true_eq] at named
      obtain ⟨binIndex, inside, rfl⟩ := List.mem_map.mp (List.mem_of_find?_eq_some found)
      have same : (decoded.pair, decoded.index * binArraySize + binIndex) = place :=
        binName_injective named
      have within := List.mem_range.mp inside
      rw [← same, if_pos, Option.map_some]
      · simp only [Bin.balances, InitializeBinArray.binDocument, amount_zero]
      · refine ⟨rfl, ?_⟩
        change (decoded.index * binArraySize + binIndex) / binArraySize = decoded.index
        rw [Nat.mul_comm, Nat.mul_add_div (by decide), Nat.div_eq_of_lt within, Nat.add_zero]
  | none =>
      rw [if_neg, Option.map_none]
      rintro ⟨pair, index⟩
      have inside : place.2 % binArraySize < binArraySize := Nat.mod_lt _ (by decide)
      refine List.find?_eq_none.mp found _ (InitializeBinArray.binDocument_mem inside)
        (decide_eq_true ?_)
      change binId decoded.pair (decoded.index * binArraySize + place.2 % binArraySize) =
        binId place.1 place.2
      rw [← pair, ← index, Nat.div_add_mod']

theorem market_of_binArray {decoded : InitializeBinArray.InitializeBinArrayDecoded}
    (completes : mongo.Completes (InitializeBinArray.processInitializeBinArray decoded) store ()
      after) :
    after.market = store.market.openBins decoded.pair decoded.index := by
  obtain ⟨existing, first, looked, completes⟩ := Database.completes_bind.mp completes
  obtain ⟨answered, same⟩ := completes_existsId.mp looked
  rw [answered, same] at completes
  have known : (store.market.bins (decoded.pair, decoded.index * binArraySize)).isSome =
      (store .bin).holds (InitializeBinArray.firstBinDocumentId decoded) := Option.isSome_map
  rw [Market.openBins, known]
  split at completes
  next held => rw [(Database.completes_return.mp completes).2, if_pos held]
  next absent =>
    obtain ⟨rows, inserted, rfl⟩ := completes_insertMany.mp completes
    rw [if_neg absent]
    refine Store.market_eq ?_ ?_ ?_ ?_ ?_ ?_
    iterate 2
      rw [Store.put_other (by decide)]
      rfl
    · rw [Store.put_same, showBins, Collection.table_insertMany inserted, Table.view_fill,
        Table.under_fill]
      exact congrArg (Table.fill (showBins (store .bin))) (funext fun place => view_binDocuments)
    all_goals
      rw [Store.put_other (by decide)]
      rfl

/-! ### Fees -/

/-- Assigning terms of a pair. -/
theorem market_of_pairs {pairs : Table String PairTerms}
    (frame : ∀ coll ∉ [Coll.pair, .compositionFeesEvent], after coll = store coll)
    (shown : showPairs (after .pair) = pairs) : after.market = { store.market with pairs } := by
  refine Store.market_eq ?_ shown ?_ ?_ ?_ ?_
  · rw [frame .binStepConfig (by decide)]
    rfl
  · rw [frame .bin (by decide)]
    rfl
  · rw [frame .position (by decide)]
    rfl
  · rw [frame .liquidityShares (by decide)]
    rfl
  · rw [frame .instruction (by decide)]
    rfl

theorem market_of_recordFees {message : ParsedInstructionMessage}
    {decoded : CompositionFees.CompositionFeesEventDecoded}
    (completes : mongo.Completes (CompositionFees.recordFees message decoded) store () after) :
    after.market =
      { store.market with
        pairs := store.market.pairs.amend
          (Table.only decoded.pair fun pair => { pair with activeId := decoded.activeId }) } := by
  obtain ⟨_, feesX, feesY, -, -, -, pairs⟩ := CompositionFees.of_completes_recordFees completes
  refine market_of_pairs (fun coll other =>
    CompositionFees.recordFees_within.completes (by simpa [and_comm] using other) completes) ?_
  rw [pairs]
  exact Collection.view_updateOne fun _ _ => rfl

theorem market_of_fees
    {decoded : UpdatePairStaticFeeParameters.UpdatePairStaticFeeParametersDecoded}
    (completes : mongo.Completes
      (UpdatePairStaticFeeParameters.processUpdatePairStaticFeeParameters decoded) store ()
      after) :
    after.market =
      { store.market with
        pairs := store.market.pairs.amend
          (Table.only decoded.pair fun pair => { pair with fees := decoded.feeParameters }) } := by
  obtain rfl := UpdatePairStaticFeeParameters.of_completes_process completes
  refine market_of_pairs (fun coll other => Store.put_other (by simp_all)) ?_
  rw [Store.put_same]
  exact Collection.view_updateOne fun _ _ => rfl

end Work

/-! ## Any job -/

namespace Market

/-- What a job says does not depend on the instructions seen. -/
theorem work_seen {rpc : Rpc} {job : Job} {market : Market} {seen : String → Bool} :
    work rpc job { market with seen } = { work rpc job market with seen } := by
  rcases job with ⟨message, payload⟩
  cases payload with
  | initializePair decoded =>
      simp only [work]
      split <;> rfl
  | initializeBinArray decoded =>
      simp only [work, openBins]
      split <;> rfl
  | createPosition decoded =>
      simp only [work]
      split
      · rfl
      · simp only [place]
        split <;> rfl
  | positionCreationEvent decoded =>
      simp only [work, place]
      split <;> rfl
  | increasePosition decoded =>
      simp only [work]
      split <;> rfl
  | binSwapEvent decoded =>
      rcases decoded with failure | decoded
      · rfl
      · cases decoded <;> rfl
  | _ => rfl

end Market

namespace Job

variable {rpc : Rpc} {job : Job} {store after : Store}

/-- The work of a job that completes moves the market by what the job says. -/
theorem market_of_work (wellFormed : ∀ bin ∈ store .bin, bin.WellFormed) (small : job.Small store)
    (completes : mongo.Completes (job.work rpc) store () after)
    (opens : ∀ decoded, job.payload ≠ .closePosition decoded) :
    after.market = store.market.work rpc job := by
  -- payloads that write no collection of the market
  have quiet (unwritten : ∀ coll ∈ [Coll.binStepConfig, .pair, .bin, .position, .liquidityShares],
      coll ∉ job.payload.writes) : after.market = store.market := by
    have frame (coll : Coll) (other : coll ∉ job.payload.writes) : after coll = store coll :=
      (job.work_within rpc).completes other completes
    simp only [Store.market, frame _ (unwritten .binStepConfig (by decide)),
      frame _ (unwritten .pair (by decide)), frame _ (unwritten .bin (by decide)),
      frame _ (unwritten .position (by decide)), frame _ (unwritten .liquidityShares (by decide)),
      frame _ job.instruction_not_mem_writes]
  rcases job with ⟨message, payload⟩
  cases payload with
  | rejected | ignored | swap | quoteAssetBadgeInitialization | quoteAssetBadgeUpdate =>
      exact quiet (by simp [Payload.writes])
  | closePosition decoded => exact absurd rfl (opens decoded)
  | binSwapEvent decoded =>
      obtain ⟨decoded, rfl, inserted⟩ := Database.completes_ofExcept_bind.mp completes
      cases decoded with
      | none => rw [(Database.completes_return.mp inserted).2]; rfl
      | some decoded =>
          obtain ⟨inSmall, feeSmall, outSmall, binSmall⟩ := small decoded rfl
          exact market_of_cross wellFormed inSmall feeSmall outSmall binSmall inserted
  | createPosition decoded =>
      obtain ⟨owner, answered, settled⟩ := Database.completes_ofExcept_bind.mp completes
      simp only [Market.work, answered]
      exact market_of_settleInstruction settled
  | positionCreationEvent decoded => exact market_of_settleEvent completes
  | increasePosition decoded =>
      obtain ⟨position, found, moved⟩ := market_of_increase completes
      have known : store.market.positions decoded.position = some position.terms := by
        change ((store .position).findOne decoded.position).map _ = _
        rw [found, Option.map_some]
      simp only [Market.work, known]
      exact moved
  | decreasePosition decoded => exact market_of_decrease completes
  | compositionFees decoded => exact market_of_recordFees completes
  | initializePair decoded => exact market_of_pair completes
  | initializeBinStepConfig decoded => exact market_of_config completes
  | initializeBinArray decoded => exact market_of_binArray completes
  | updatePairStaticFeeParameters decoded => exact market_of_fees completes

/-- A job that completes makes one step of the market. -/
theorem market_of_completes (wellFormed : ∀ bin ∈ store .bin, bin.WellFormed)
    (small : job.Small store) (completes : mongo.Completes (job.process rpc) store () after)
    (closes : ∀ decoded middle, job.payload = .closePosition decoded →
      ¬mongo.Completes (job.work rpc) middle () after) :
    after.market = store.market.step rpc job := by
  rcases job.completes_process completes with
    ⟨id, identified, held, unmoved⟩ | ⟨params, rows, deduplicates, created, worked⟩ |
      ⟨plain, worked⟩
  · rw [unmoved, Market.step, identified]
    exact (if_pos held).symm
  · have identified : job.instructionId = some (generateInstructionId params) := by
      rw [instructionId, deduplicates, Option.map_some]
    have recorded : (store.put .instruction rows).market =
        { store.market with
          seen := fun other =>
            other = generateInstructionId params || store.market.seen other } := by
      refine Store.market_eq ?_ ?_ ?_ ?_ ?_ ?_
      iterate 5
        rw [Store.put_other (by decide)]
        rfl
      · rw [Store.put_same]
        funext other
        rw [Bool.eq_iff_iff, Collection.holds_create_iff created, Bool.or_eq_true,
          decide_eq_true_eq, or_comm, eq_comm]
        rfl
    have fresh : store.market.seen (generateInstructionId params) = false :=
      unrecorded_of_create created
    have bins : (store.put .instruction rows) .bin = store .bin := Store.put_other (by decide)
    have moved := market_of_work (bins ▸ wellFormed) (by rwa [Small, bins]) worked
      fun decoded same => closes decoded _ same worked
    rw [moved, recorded, Market.work_seen, Market.step, identified]
    simp only [fresh, Bool.false_eq_true, if_false]
  · have identified : job.instructionId = none := by rw [instructionId, plain, Option.map_none]
    rw [market_of_work wellFormed small worked fun decoded same => closes decoded _ same worked,
      Market.step, identified]

end Job

/-- The run lemma: `Balanced` keeps the bins readable, and no job closes a position. -/
theorem shows_of_sequence {launches : List Launch} {store : Store}
    (ran : Sequence mongo Launch.process Launch.Small Store.empty launches store) :
    Balanced launches store ∧ store.market = launches.foldl Market.next .empty := by
  refine ran.invariant
    (fun done store => Balanced done store ∧ store.market = done.foldl Market.next .empty)
    ⟨balanced_empty, rfl⟩ fun done launch rest store after _ small completes ⟨balanced, shown⟩ => ?_
  have later := balanced.step small completes
  refine ⟨later, ?_⟩
  rw [List.foldl_append, List.foldl_cons, List.foldl_nil, ← shown]
  exact Job.market_of_completes balanced.wellFormed small completes
    fun decoded middle closes worked => later.recorded.not_close closes worked

/-- After any jobs that ran one at a time from the empty store, each to its end, the store
shows the market that their steps make of the empty one. -/
theorem market_indexed {launches : List Launch} {store : Store}
    (ran : Sequence mongo Launch.process Launch.Small Store.empty launches store) :
    store.market = launches.foldl Market.next .empty := (shows_of_sequence ran).2

/-- The swap of 10 X against 9 Y, seen as a market. -/
theorem market_indexed_crossed :
    ∃ store, Sequence mongo Launch.process Launch.Small Store.empty crossLaunches store ∧
      store.market = crossLaunches.foldl Market.next .empty := by
  obtain ⟨store, ran⟩ := crossed
  exact ⟨store, ran, market_indexed ran⟩

end DlmmIndexer

import DlmmIndexer.Worker

/-!
# What the events of a position move

An increase or a decrease is to move the shares and the bins that it names, the reserves
of its pair by the sums, to record every bin, and to leave everything else alone.  The
opposite movement restores all amounts.

The decoder of the decrease hands texts to arithmetic on BigInts, which throws at the first
bin.  So a decrease does what it is to do only when it has no bins.
-/

namespace DlmmIndexer

open Documents JavaScript Atomic Text

/-- What an event adds to the rows of one bin. -/
structure BinMove where
  lbBinId : ℕ
  amountX : ℤ
  amountY : ℤ
  liquidity : ℤ
  deriving DecidableEq, Repr

def BinMove.neg (bin : BinMove) : BinMove :=
  ⟨bin.lbBinId, -bin.amountX, -bin.amountY, -bin.liquidity⟩

/-- The bins that an event moves. -/
structure Movement where
  pair : String
  position : String
  lowerBinLbId : ℕ
  bins : List BinMove
  deriving DecidableEq, Repr

namespace Movement

def neg (movement : Movement) : Movement := { movement with bins := movement.bins.map .neg }

def shareId (movement : Movement) (bin : BinMove) : String :=
  liquidityShareId movement.position (bin.lbBinId - movement.lowerBinLbId : ℤ)

def updateEvent (movement : Movement) (message : ParsedInstructionMessage)
    (instructionId : String) (bin : BinMove) : PositionUpdateEvent where
  id := joined instructionId (decimal bin.lbBinId)
  pairId := movement.pair
  positionId := movement.position
  binId := binId movement.pair bin.lbBinId
  lbBinId := bin.lbBinId
  deltaLiquidityBalance := decimal bin.liquidity
  deltaAmountX := decimal bin.amountX
  deltaAmountY := decimal bin.amountY
  blockNumber := message.blockNumber
  signature := message.signature
  index := message.instructionIndex
  innerIndex := message.innerInstructionIndex.stored

end Movement

/-- The shares, bins and pairs after a movement. -/
structure Moved (movement : Movement) (store after : Store) : Prop where
  shares : ∀ bin ∈ movement.bins,
    (after .liquidityShares).findOne (movement.shareId bin) =
      ((store .liquidityShares).findOne (movement.shareId bin)).map fun share =>
        { share with balance := decimal (amount share.balance + bin.liquidity) }
  otherShares : ∀ id, (∀ bin ∈ movement.bins, movement.shareId bin ≠ id) →
    (after .liquidityShares).findOne id = (store .liquidityShares).findOne id
  bins : ∀ bin ∈ movement.bins,
    (after .bin).findOne (binId movement.pair bin.lbBinId) =
      ((store .bin).findOne (binId movement.pair bin.lbBinId)).map fun row =>
        { row with
          reserveX := decimal (amount row.reserveX + bin.amountX)
          reserveY := decimal (amount row.reserveY + bin.amountY)
          totalSupply := decimal (amount row.totalSupply + bin.liquidity) }
  otherBins : ∀ id, (∀ bin ∈ movement.bins, binId movement.pair bin.lbBinId ≠ id) →
    (after .bin).findOne id = (store .bin).findOne id
  pair : (after .pair).findOne movement.pair =
    ((store .pair).findOne movement.pair).map fun row =>
      { row with
        reserveX := decimal (amount row.reserveX + (movement.bins.map (·.amountX)).sum)
        reserveY := decimal (amount row.reserveY + (movement.bins.map (·.amountY)).sum) }
  otherPairs : ∀ id, id ≠ movement.pair → (after .pair).findOne id = (store .pair).findOne id

/-- All that the job of a movement does. -/
structure CarriedOut (movement : Movement) (message : ParsedInstructionMessage)
    (processorName : ProcessorName) (store after : Store) : Prop
    extends Moved movement store after where
  events : (after .positionUpdateEvent).rows = (store .positionUpdateEvent).rows ++
    movement.bins.map
      (movement.updateEvent message (generateInstructionId (message.params processorName)))
  instruction : (after .instruction).rows =
    (store .instruction).rows ++ [instructionData (message.params processorName)]
  others : ∀ coll ∉ .instruction :: PositionChange.writes, after coll = store coll

/-! ## Opposite movements -/

/-- The amounts of two stores are the same. -/
structure SameAmounts (store after : Store) : Prop where
  shares : ∀ id, ((after .liquidityShares).findOne id).map (amount ·.balance) =
    ((store .liquidityShares).findOne id).map (amount ·.balance)
  bins : ∀ id, ((after .bin).findOne id).map
      (fun row => (amount row.reserveX, amount row.reserveY, amount row.totalSupply)) =
    ((store .bin).findOne id).map
      fun row => (amount row.reserveX, amount row.reserveY, amount row.totalSupply)
  pairs : ∀ id, ((after .pair).findOne id).map
      (fun row => (amount row.reserveX, amount row.reserveY)) =
    ((store .pair).findOne id).map fun row => (amount row.reserveX, amount row.reserveY)

theorem sum_map_neg (bins : List BinMove) (part opposite : BinMove → ℤ)
    (neg : ∀ bin : BinMove, opposite bin.neg = -part bin) :
    ((bins.map .neg).map opposite).sum = -(bins.map part).sum := by
  induction bins with
  | nil => rfl
  | cons bin rest ih =>
      rw [List.map_cons, List.map_cons, List.sum_cons, ih, neg, List.map_cons, List.sum_cons]
      omega

/-- A movement and then the opposite one restore every amount. -/
theorem Moved.undo {movement : Movement} {store middle after : Store}
    (forth : Moved movement store middle) (back : Moved movement.neg middle after) :
    SameAmounts store after where
  shares id := by
    rcases Decidable.em (∃ bin ∈ movement.bins, movement.shareId bin = id) with
      ⟨bin, member, rfl⟩ | unnamed
    · have moved := back.shares bin.neg (List.mem_map_of_mem member)
      rw [show movement.neg.shareId bin.neg = movement.shareId bin from rfl,
        forth.shares bin member] at moved
      rw [moved, Option.map_map, Option.map_map]
      simp [Function.comp_def, BinMove.neg]
    · have others : ∀ bin ∈ movement.bins, movement.shareId bin ≠ id := by
        simpa using unnamed
      rw [back.otherShares id (List.forall_mem_map.mpr others), forth.otherShares id others]
  bins id := by
    rcases Decidable.em (∃ bin ∈ movement.bins, binId movement.pair bin.lbBinId = id) with
      ⟨bin, member, rfl⟩ | unnamed
    · have moved := back.bins bin.neg (List.mem_map_of_mem member)
      rw [show binId movement.neg.pair bin.neg.lbBinId = binId movement.pair bin.lbBinId from rfl,
        forth.bins bin member] at moved
      rw [moved, Option.map_map, Option.map_map]
      simp [Function.comp_def, BinMove.neg]
    · have others : ∀ bin ∈ movement.bins, binId movement.pair bin.lbBinId ≠ id := by
        simpa using unnamed
      rw [back.otherBins id (List.forall_mem_map.mpr others), forth.otherBins id others]
  pairs id := by
    by_cases named : id = movement.pair
    · have moved := back.pair
      rw [show movement.neg.pair = movement.pair from rfl, forth.pair,
        show movement.neg.bins = movement.bins.map .neg from rfl,
        sum_map_neg _ (·.amountX) (·.amountX) fun _ => rfl,
        sum_map_neg _ (·.amountY) (·.amountY) fun _ => rfl] at moved
      rw [named, moved, Option.map_map, Option.map_map]
      simp [Function.comp_def]
    · rw [back.otherPairs id named, forth.otherPairs id named]

/-! ## Events without bins -/

namespace PositionChange

variable {change : PositionChange} {message : ParsedInstructionMessage}
  {instructionId pair position : String} {store after : Store}

/-- The change leaves a BigInt that it combines with 0 as it is. -/
def Neutral (change : PositionChange) : Prop :=
  ∀ value, change.operator (.bigint value) (.bigint 0) = .ok (.bigint value)

theorem combine_zero_eq_ok (neutral : change.Neutral) {text : String} {result : Value} :
    change.combine text (.bigint 0) = .ok result ↔
      ∃ value, bigInt text = some value ∧ result = .bigint value := by
  rw [combine]
  cases bigInt text with
  | none => simp
  | some value => simp [neutral value, eq_comm]

/-- Without bins the reserves of the pair are read and written back. -/
theorem completes_processPosition_nil (neutral : change.Neutral) :
    mongo.Completes (change.processPosition message instructionId pair position []) store () after ↔
      ∃ existingPair existingPosition x y,
        (store .pair).findOne pair = some existingPair ∧
        (store .position).findOne position = some existingPosition ∧
        bigInt existingPair.reserveX = some x ∧ bigInt existingPair.reserveY = some y ∧
        after = store.put .pair ((store .pair).updateOne pair
          { set := fun row => { row with reserveX := decimal x, reserveY := decimal y } }) := by
  constructor
  · intro completes
    obtain ⟨existingPair, existingPosition, _, _, _, _, _, foundPair, foundPosition, looped,
      combinedX, combinedY, rfl⟩ := of_completes_processPosition completes
    obtain ⟨totals, rfl⟩ := Database.completes_return.mp looped
    cases totals
    obtain ⟨x, readX, rfl⟩ := (combine_zero_eq_ok neutral).mp combinedX
    obtain ⟨y, readY, rfl⟩ := (combine_zero_eq_ok neutral).mp combinedY
    exact ⟨existingPair, existingPosition, x, y, foundPair, foundPosition, readX, readY, rfl⟩
  · rintro ⟨existingPair, existingPosition, x, y, foundPair, foundPosition, readX, readY, rfl⟩
    exact completes_processPosition foundPair foundPosition
      (Database.completes_return.mpr ⟨rfl, rfl⟩)
      ((combine_zero_eq_ok neutral).mpr ⟨x, readX, rfl⟩)
      ((combine_zero_eq_ok neutral).mpr ⟨y, readY, rfl⟩)

/-- A job without bins that completes has done what it is to do. -/
theorem carriedOut_nil (neutral : change.Neutral) {processorName : ProcessorName}
    {instructions : Collection Instruction.id} (lowerBinLbId : ℕ)
    (recorded : (store .instruction).create (instructionData (message.params processorName)) =
      some instructions)
    (completes : mongo.Completes (change.processPosition message instructionId pair position [])
      (store.put .instruction instructions) () after) :
    CarriedOut ⟨pair, position, lowerBinLbId, []⟩ message processorName store after := by
  obtain ⟨existingPair, existingPosition, x, y, foundPair, -, readX, readY, rfl⟩ :=
    (completes_processPosition_nil neutral).mp completes
  rw [Store.put_other (by decide)] at foundPair ⊢
  have same (coll : Coll) (notPair : coll ≠ .pair) (notInstruction : coll ≠ .instruction)
      (pairs : Collection Pair.id) :
      ((store.put .instruction instructions).put .pair pairs) coll = store coll := by
    rw [Store.put_other notPair, Store.put_other notInstruction]
  refine ⟨⟨fun _ member => absurd member List.not_mem_nil, fun _ _ => ?_,
    fun _ member => absurd member List.not_mem_nil, fun _ _ => ?_, ?_, fun id other => ?_⟩,
    ?_, ?_, fun coll unwritten => ?_⟩
  · rw [same _ (by decide) (by decide)]
  · rw [same _ (by decide) (by decide)]
  · have readX : amount existingPair.reserveX = x := by rw [amount, readX, Option.getD_some]
    have readY : amount existingPair.reserveY = y := by rw [amount, readY, Option.getD_some]
    rw [Store.put_same, Collection.findOne_updateOne_self, foundPair, Option.map_some,
      Option.map_some]
    simp [readX, readY]
  · rw [Store.put_same, Collection.findOne_updateOne_of_ne (Ne.symm other)]
  · rw [same _ (by decide) (by decide)]
    exact (List.append_nil _).symm
  · rw [Store.put_other (by decide), Store.put_same]
    exact Collection.rows_create recorded
  · simp only [writes, List.mem_cons, List.not_mem_nil, not_or] at unwritten
    exact same coll unwritten.2.2.2.2.1 unwritten.1 _

end PositionChange

/-! ## Decreases -/

theorem IncreasePosition.neutral : change.Neutral :=
  fun value => congrArg (fun sum : ℤ => Except.ok (Value.bigint sum)) (add_zero value)

namespace DecreasePosition

variable {message : ParsedInstructionMessage} {decoded : PositionDecreaseEventDecoded}
  {existingPair : Pair} {existingPosition : Position} {store after : Store}

theorem neutral : change.Neutral :=
  fun value => congrArg (fun difference : ℤ => Except.ok (Value.bigint difference)) (sub_zero value)

/-- What a decrease is to do: the amounts are taken away. -/
def PositionDecreaseEventDecoded.movement (decoded : PositionDecreaseEventDecoded)
    (lowerBinLbId : ℕ) : Movement where
  pair := decoded.pair
  position := decoded.position
  lowerBinLbId := lowerBinLbId
  bins := (decoded.binIds.zip
    (decoded.amountsX.zip (decoded.amountsY.zip decoded.liquidityBurned))).map
      fun (lbBinId, amountX, amountY, liquidity) => ⟨lbBinId, -amountX, -amountY, -liquidity⟩

/-- The increase with the same lists. -/
def PositionDecreaseEventDecoded.increase (decoded : PositionDecreaseEventDecoded) :
    IncreasePosition.PositionIncreaseEventDecoded where
  pair := decoded.pair
  position := decoded.position
  binIds := decoded.binIds
  amountsX := decoded.amountsX
  amountsY := decoded.amountsY
  liquidityMinted := decoded.liquidityBurned

/-- The event fits the store and was not processed before. -/
structure Applicable (store : Store) (message : ParsedInstructionMessage)
    (decoded : PositionDecreaseEventDecoded) (existingPair : Pair) (existingPosition : Position) :
    Prop where
  amountsX : decoded.amountsX.length = decoded.binIds.length
  amountsY : decoded.amountsY.length = decoded.binIds.length
  liquidityBurned : decoded.liquidityBurned.length = decoded.binIds.length
  distinct : decoded.binIds.Nodup
  pair : (store .pair).findOne decoded.pair = some existingPair
  position : (store .position).findOne decoded.position = some existingPosition
  shares : ∀ lbBinId ∈ decoded.binIds, (store .liquidityShares).holds
    (liquidityShareId decoded.position (lbBinId - existingPosition.lowerBinLbId : ℤ)) = true
  bins : ∀ lbBinId ∈ decoded.binIds, (store .bin).holds (binId decoded.pair lbBinId) = true
  range : ∀ lbBinId ∈ decoded.binIds, existingPosition.lowerBinLbId ≤ lbBinId ∧
    lbBinId < existingPosition.lowerBinLbId + binPerPosition
  fresh : (store .instruction).holds
    (generateInstructionId (message.params .DecreasePositionProcessor)) = false

/-- The job completes and does what it is to do, and after an increase with the same lists
it restores all amounts. -/
structure Exact (store : Store) (message : ParsedInstructionMessage)
    (decoded : PositionDecreaseEventDecoded) (lowerBinLbId : ℕ) : Prop where
  carriedOut : ∃ after, mongo.Completes (process message decoded) store () after ∧
    CarriedOut (decoded.movement lowerBinLbId) message .DecreasePositionProcessor store after
  restores : ∀ message' middle,
    (store .instruction).holds
        (generateInstructionId (message'.params .IncreasePositionProcessor)) = false →
      mongo.Completes (IncreasePosition.process message' decoded.increase) store () middle →
        ∃ after, mongo.Completes (process message decoded) middle () after ∧
          SameAmounts store after

theorem entries_eq_nil_iff : decoded.entries = [] ↔ decoded.binIds = [] := by
  rw [PositionDecreaseEventDecoded.entries, binEntries, List.map_eq_nil_iff, List.zipIdx_eq_nil_iff]

theorem movement_nil (noBins : decoded.binIds = []) (lowerBinLbId : ℕ) :
    decoded.movement lowerBinLbId = ⟨decoded.pair, decoded.position, lowerBinLbId, []⟩ := by
  rw [PositionDecreaseEventDecoded.movement, noBins]
  rfl

/-- A job that was not processed before records itself and then changes the position. -/
theorem completes_process (fresh : (store .instruction).holds
      (generateInstructionId (message.params .DecreasePositionProcessor)) = false) :
    mongo.Completes (process message decoded) store () after ↔
      ∃ instructions, (store .instruction).create
          (instructionData (message.params .DecreasePositionProcessor)) = some instructions ∧
        mongo.Completes (change.processPosition message
            (generateInstructionId (message.params .DecreasePositionProcessor)) decoded.pair
            decoded.position decoded.entries)
          (store.put .instruction instructions) () after := by
  refine completes_unlessProcessed.trans (or_iff_right fun ⟨held, _⟩ => ?_)
  rw [fresh] at held
  cases held

/-- A decrease that completes had no bins, and the reserves of its pair could be read. -/
theorem of_completes (applicable : Applicable store message decoded existingPair existingPosition)
    (completes : mongo.Completes (process message decoded) store () after) :
    decoded.binIds = [] ∧ (bigInt existingPair.reserveX).isSome = true ∧
      (bigInt existingPair.reserveY).isSome = true := by
  obtain ⟨instructions, -, changed⟩ := (completes_process applicable.fresh).mp completes
  obtain ⟨_, _, _, _, _, _, _, -, -, looped, -⟩ :=
    PositionChange.of_completes_processPosition changed
  have none : decoded.entries = [] := entries_eq_nil_of_completes looped
  rw [none] at changed
  obtain ⟨_, _, x, y, found, -, readX, readY, -⟩ :=
    (PositionChange.completes_processPosition_nil neutral).mp changed
  rw [Store.put_other (by decide)] at found
  cases applicable.pair.symm.trans found
  exact ⟨entries_eq_nil_iff.mp none, by rw [readX]; rfl, by rw [readY]; rfl⟩

/-- A decrease without bins completes. -/
theorem completes_nil (noBins : decoded.binIds = [])
    (fresh : (store .instruction).holds
      (generateInstructionId (message.params .DecreasePositionProcessor)) = false)
    (foundPair : (store .pair).findOne decoded.pair = some existingPair)
    (foundPosition : (store .position).findOne decoded.position = some existingPosition)
    (readableX : (bigInt existingPair.reserveX).isSome = true)
    (readableY : (bigInt existingPair.reserveY).isSome = true) (lowerBinLbId : ℕ) :
    ∃ after, mongo.Completes (process message decoded) store () after ∧
      CarriedOut (decoded.movement lowerBinLbId) message .DecreasePositionProcessor store
        after := by
  obtain ⟨instructions, recorded⟩ : ∃ rows, (store .instruction).create
      (instructionData (message.params .DecreasePositionProcessor)) = some rows :=
    Collection.exists_create (Collection.holds_eq_false.mp fresh)
  obtain ⟨x, readX⟩ := Option.isSome_iff_exists.mp readableX
  obtain ⟨y, readY⟩ := Option.isSome_iff_exists.mp readableY
  obtain ⟨after, changed⟩ : ∃ after, mongo.Completes (change.processPosition message
      (generateInstructionId (message.params .DecreasePositionProcessor)) decoded.pair
      decoded.position []) (store.put .instruction instructions) () after :=
    ⟨_, (PositionChange.completes_processPosition_nil neutral).mpr
      ⟨existingPair, existingPosition, x, y, by rwa [Store.put_other (by decide)],
        by rwa [Store.put_other (by decide)], readX, readY, rfl⟩⟩
  refine ⟨after, (completes_process fresh).mpr ⟨instructions, recorded, ?_⟩, ?_⟩
  · rwa [entries_eq_nil_iff.mpr noBins]
  · rw [movement_nil noBins]
    exact PositionChange.carriedOut_nil neutral lowerBinLbId recorded changed

/-- An increase without bins that completes leaves a store in which the decrease with the
same lists completes, with the amounts of before. -/
theorem restores_nil (noBins : decoded.binIds = [])
    (fresh : (store .instruction).holds
      (generateInstructionId (message.params .DecreasePositionProcessor)) = false)
    (foundPair : (store .pair).findOne decoded.pair = some existingPair)
    (foundPosition : (store .position).findOne decoded.position = some existingPosition)
    {message' : ParsedInstructionMessage} {middle : Store}
    (fresh' : (store .instruction).holds
      (generateInstructionId (message'.params .IncreasePositionProcessor)) = false)
    (increased : mongo.Completes (IncreasePosition.process message' decoded.increase) store ()
      middle) :
    ∃ after, mongo.Completes (process message decoded) middle () after ∧
      SameAmounts store after := by
  obtain ⟨held, -⟩ | ⟨instructions, recorded, changed⟩ := completes_unlessProcessed.mp increased
  · rw [fresh'] at held
    cases held
  have none : decoded.increase.entries = [] := by
    rw [IncreasePosition.PositionIncreaseEventDecoded.entries, binEntries, List.map_eq_nil_iff,
      List.zipIdx_eq_nil_iff]
    exact noBins
  rw [IncreasePosition.processIncreasePosition, none] at changed
  have forth := PositionChange.carriedOut_nil IncreasePosition.neutral
    existingPosition.lowerBinLbId recorded changed
  have rows : middle .instruction = instructions :=
    Collection.ext (forth.instruction.trans (Collection.rows_create recorded).symm)
  have stillFresh : (middle .instruction).holds
      (generateInstructionId (message.params .DecreasePositionProcessor)) = false := by
    rw [rows, ← Bool.not_eq_true, Collection.holds_create_iff recorded]
    rintro (held | same)
    · rw [fresh] at held
      cases held
    · have names : ProcessorName.IncreasePositionProcessor = .DecreasePositionProcessor :=
        processorName_of_generateInstructionId same
      cases names
  have foundPair' := forth.pair
  change (middle .pair).findOne decoded.pair = ((store .pair).findOne decoded.pair).map _
    at foundPair'
  rw [foundPair, Option.map_some] at foundPair'
  have foundPosition' : (middle .position).findOne decoded.position = some existingPosition := by
    rw [forth.others .position (by decide)]
    exact foundPosition
  obtain ⟨after, completes, back⟩ := completes_nil noBins stillFresh foundPair' foundPosition'
    (by rw [bigInt_decimal]; rfl) (by rw [bigInt_decimal]; rfl) existingPosition.lowerBinLbId
  rw [movement_nil noBins] at back
  exact ⟨after, completes, forth.toMoved.undo back.toMoved⟩

/-- A decrease whose rows are there does what it is to do, and undoes the increase with the
same lists, exactly when it has no bins and the reserves of its pair can be read. -/
theorem exact_iff (applicable : Applicable store message decoded existingPair existingPosition) :
    Exact store message decoded existingPosition.lowerBinLbId ↔
      decoded.binIds = [] ∧ (bigInt existingPair.reserveX).isSome = true ∧
        (bigInt existingPair.reserveY).isSome = true := by
  constructor
  · rintro ⟨⟨after, completes, -⟩, -⟩
    exact of_completes applicable completes
  · rintro ⟨noBins, readableX, readableY⟩
    exact ⟨completes_nil noBins applicable.fresh applicable.pair applicable.position readableX
      readableY _, fun message' middle fresh increased =>
        restores_nil noBins applicable.fresh applicable.pair applicable.position fresh increased⟩

/-- A store in which a position has 7 shares of a bin. -/
def sampleStore : Store :=
  ((pairStore.put .bin ((Collection.empty _).insertFree [sampleBin])).put .position
    ((Collection.empty _).insertFree
      [⟨"position", "pair", "mint", "owner", 8388608, 8388671⟩])).put .liquidityShares
        ((Collection.empty _).insertFree [⟨liquidityShareId "position" 0, "position", 0, "7"⟩])

def sampleMessage : ParsedInstructionMessage := ⟨9, "sig", 0, true, .at 1⟩

/-- All 7 shares are burned. -/
def sampleDecrease : PositionDecreaseEventDecoded :=
  ⟨"pair", "position", [8388608], [0], [0], [7]⟩

def emptyDecrease : PositionDecreaseEventDecoded := ⟨"pair", "position", [], [], [], []⟩

theorem sample_applicable : ∃ existingPair, existingPair.reserveX = "0" ∧
    existingPair.reserveY = "0" ∧
    Applicable sampleStore sampleMessage sampleDecrease existingPair
      ⟨"position", "pair", "mint", "owner", 8388608, 8388671⟩ ∧
    Applicable sampleStore sampleMessage emptyDecrease existingPair
      ⟨"position", "pair", "mint", "owner", 8388608, 8388671⟩ := by
  obtain ⟨existingPair, found, reserveX, reserveY⟩ : ∃ pair,
      (sampleStore .pair).findOne "pair" = some pair ∧ pair.reserveX = "0" ∧
        pair.reserveY = "0" := ⟨_, rfl, rfl, rfl⟩
  exact ⟨existingPair, reserveX, reserveY,
    ⟨rfl, rfl, rfl, by decide, found, rfl, by decide +kernel, by decide +kernel, by decide, rfl⟩,
    ⟨rfl, rfl, rfl, by decide, found, rfl, by decide, by decide, by decide, rfl⟩⟩

theorem exact_iff_sample :
    ¬Exact sampleStore sampleMessage sampleDecrease 8388608 ∧
      Exact sampleStore sampleMessage emptyDecrease 8388608 := by
  obtain ⟨existingPair, reserveX, reserveY, applicable, applicable'⟩ := sample_applicable
  constructor
  · intro exactly
    cases ((exact_iff applicable).mp exactly).1
  · exact (exact_iff applicable').mpr ⟨rfl, by rw [reserveX]; decide, by rw [reserveY]; decide⟩

/-- The first subtraction throws. -/
theorem decrease_throws :
    (∃ existingPair existingPosition,
      Applicable sampleStore sampleMessage sampleDecrease existingPair existingPosition) ∧
    (mongo.run (process sampleMessage sampleDecrease) sampleStore).1 =
      .error (.javascript .typeError) ∧
    ¬Exact sampleStore sampleMessage sampleDecrease 8388608 := by
  obtain ⟨existingPair, -, -, applicable, -⟩ := sample_applicable
  refine ⟨⟨existingPair, _, applicable⟩, by decide +kernel, fun exactly => ?_⟩
  obtain ⟨after, completes, -⟩ := exactly.carriedOut
  cases (of_completes applicable completes).1

end DecreasePosition

end DlmmIndexer

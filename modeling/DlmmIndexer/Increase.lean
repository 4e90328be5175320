import DlmmIndexer.Movement

/-!
# What an increase does

The loop over the bins assigns one share row and one bin row a round and records the
round, and the pair row is written after it.  An increase that completes has carried out
the movement of its event: the records keep the bins apart, so every row is assigned once.
-/

namespace DlmmIndexer

open Documents JavaScript Atomic Text

/-- The amounts of a round. -/
def BinEntry.move (entry : BinEntry) : BinMove where
  lbBinId := entry.lbBinId
  amountX := entry.amountX.integer
  amountY := entry.amountY.integer
  liquidity := entry.liquidity.integer

/-- The values of the round are BigInts. -/
structure BinEntry.Integral (entry : BinEntry) : Prop where
  amountX : entry.amountX = .bigint entry.move.amountX
  amountY : entry.amountY = .bigint entry.move.amountY
  liquidity : entry.liquidity = .bigint entry.move.liquidity

namespace BinMove

def addToShare (bin : BinMove) : Update LiquidityShares.id where
  set share := { share with balance := decimal (amount share.balance + bin.liquidity) }

def addToBin (bin : BinMove) : Update Bin.id where
  set row :=
    { row with
      reserveX := decimal (amount row.reserveX + bin.amountX)
      reserveY := decimal (amount row.reserveY + bin.amountY)
      totalSupply := decimal (amount row.totalSupply + bin.liquidity) }

end BinMove

/-- The rows that a movement names are there and their texts can be read. -/
structure Readable (movement : Movement) (store : Store) : Prop where
  shares : ∀ bin ∈ movement.bins, ∃ share,
    (store .liquidityShares).findOne (movement.shareId bin) = some share ∧
      (bigInt share.balance).isSome = true
  bins : ∀ bin ∈ movement.bins, ∃ row,
    (store .bin).findOne (binId movement.pair bin.lbBinId) = some row ∧
      (bigInt row.reserveX).isSome = true ∧ (bigInt row.reserveY).isSome = true ∧
      (bigInt row.totalSupply).isSome = true

/-- Rows that are readable after a round were so before it. -/
theorem Readable.cons {pair position : String} {lower : ℕ} {bin : BinMove} {bins : List BinMove}
    {store after : Store} (here : Readable ⟨pair, position, lower, [bin]⟩ store)
    (later : Readable ⟨pair, position, lower, bins⟩ after)
    (shares : after .liquidityShares = (store .liquidityShares).updateOne
      (liquidityShareId position (bin.lbBinId - lower : ℤ)) bin.addToShare)
    (bins' : after .bin =
      (store .bin).updateOne (binId pair bin.lbBinId) bin.addToBin) :
    Readable ⟨pair, position, lower, bin :: bins⟩ store := by
  have share := here.shares bin List.mem_cons_self
  have row := here.bins bin List.mem_cons_self
  refine ⟨List.forall_mem_cons.mpr ⟨share, fun other member => ?_⟩,
    List.forall_mem_cons.mpr ⟨row, fun other member => ?_⟩⟩
  · obtain ⟨found, lookup, readable⟩ := later.shares other member
    rw [shares, Collection.findOne_updateOne] at lookup
    split at lookup
    next same => exact same ▸ share
    · exact ⟨found, lookup, readable⟩
  · obtain ⟨found, lookup, readable⟩ := later.bins other member
    rw [bins', Collection.findOne_updateOne] at lookup
    split at lookup
    next same => exact same ▸ row
    · exact ⟨found, lookup, readable⟩

/-- What a completed loop has written. -/
structure Looped (movement : Movement) (message : ParsedInstructionMessage)
    (instructionId : String) (store after : Store) : Prop where
  range : ∀ bin ∈ movement.bins,
    movement.lowerBinLbId ≤ bin.lbBinId ∧ bin.lbBinId < movement.lowerBinLbId + binPerPosition
  readable : Readable movement store
  shares : after .liquidityShares =
    (store .liquidityShares).updateEach movement.bins movement.shareId BinMove.addToShare
  bins : after .bin =
    (store .bin).updateEach movement.bins (binId movement.pair ·.lbBinId) BinMove.addToBin
  events : (after .positionUpdateEvent).rows = (store .positionUpdateEvent).rows ++
    movement.bins.map (movement.updateEvent message instructionId)
  others : ∀ coll ∉ [.liquidityShares, .bin, .positionUpdateEvent], after coll = store coll

namespace Looped

variable {movement : Movement} {message : ParsedInstructionMessage} {instructionId : String}
  {store after : Store}

/-- The records of a loop have ids of their own, so its bins are different. -/
theorem distinct (looped : Looped movement message instructionId store after) :
    (movement.bins.map (·.lbBinId)).Nodup := by
  have ids := (after .positionUpdateEvent).nodup
  rw [looped.events, List.map_append, List.map_map] at ids
  have recorded := (List.nodup_append.mp ids).2.1
  have split : Coll.positionUpdateEvent.id ∘ movement.updateEvent message instructionId =
      (fun lbBinId : ℕ => joined instructionId (decimal lbBinId)) ∘ (·.lbBinId) := rfl
  rw [split, ← List.map_map] at recorded
  exact recorded.of_map _

theorem distinct_shares (looped : Looped movement message instructionId store after) :
    (movement.bins.map movement.shareId).Nodup := by
  have split : movement.shareId = (fun lbBinId : ℕ => liquidityShareId movement.position
      (lbBinId - movement.lowerBinLbId : ℤ)) ∘ (·.lbBinId) := rfl
  rw [split, ← List.map_map]
  refine looped.distinct.map fun left right same => ?_
  have equal := decimal_injective (joined_right_injective same)
  omega

theorem distinct_bins (looped : Looped movement message instructionId store after) :
    (movement.bins.map (binId movement.pair ·.lbBinId)).Nodup := by
  have split : (fun bin : BinMove => binId movement.pair bin.lbBinId) =
      (fun lbBinId : ℕ => binId movement.pair lbBinId) ∘ (·.lbBinId) := rfl
  rw [split, ← List.map_map]
  exact looped.distinct.map fun left right same => (joined_decimal_injective same).2

/-- After the record of its instruction, a loop and the write of the pair carry out the
movement. -/
theorem carriedOut {processorName : ProcessorName} {instructions : Collection Instruction.id}
    (recorded : (store .instruction).create (instructionData (message.params processorName)) =
      some instructions)
    (looped : Looped movement message (generateInstructionId (message.params processorName))
      (store.put .instruction instructions) after)
    {row : Pair} (found : (store .pair).findOne movement.pair = some row) {x y : String}
    (newX : x = decimal (amount row.reserveX + (movement.bins.map (·.amountX)).sum))
    (newY : y = decimal (amount row.reserveY + (movement.bins.map (·.amountY)).sum)) :
    CarriedOut movement message processorName store
      (after.put .pair ((after .pair).updateOne movement.pair
        { set := fun row => { row with reserveX := x, reserveY := y } })) := by
  have pairs : after .pair = store .pair := by
    rw [looped.others .pair (by decide), Store.put_other (by decide)]
  refine ⟨⟨fun bin member => ?_, fun id unnamed => ?_, fun bin member => ?_, fun id unnamed => ?_,
    ?_, fun id other => ?_⟩, ?_, ?_, fun coll unwritten => ?_⟩
  · rw [Store.put_other (by decide), looped.shares, Store.put_other (by decide)]
    exact Collection.findOne_updateEach_of_mem looped.distinct_shares member
  · rw [Store.put_other (by decide), looped.shares, Store.put_other (by decide)]
    exact Collection.findOne_updateEach_of_ne unnamed
  · rw [Store.put_other (by decide), looped.bins, Store.put_other (by decide)]
    exact Collection.findOne_updateEach_of_mem looped.distinct_bins member
  · rw [Store.put_other (by decide), looped.bins, Store.put_other (by decide)]
    exact Collection.findOne_updateEach_of_ne unnamed
  · rw [Store.put_same, Collection.findOne_updateOne_self, pairs, found, Option.map_some,
      Option.map_some, newX, newY]
  · rw [Store.put_same, Collection.findOne_updateOne_of_ne (Ne.symm other), pairs]
  · rw [Store.put_other (by decide), looped.events, Store.put_other (by decide)]
  · rw [Store.put_other (by decide), looped.others _ (by decide), Store.put_same]
    exact Collection.rows_create recorded
  · simp only [PositionChange.writes, List.mem_cons, List.not_mem_nil, or_false, not_or]
      at unwritten
    obtain ⟨notInstruction, notShares, notBin, notEvent, notPair⟩ := unwritten
    rw [Store.put_other notPair, looped.others coll (by simp [notShares, notBin, notEvent]),
      Store.put_other notInstruction]

end Looped

namespace IncreasePosition

variable {message : ParsedInstructionMessage} {instructionId pair position : String} {lower : ℕ}
  {entry : BinEntry} {entries : List BinEntry} {store after : Store}

/-- One round finds its rows and adds to them. -/
theorem of_completes_round (bigintX : FromBigints entry.amountX)
    (bigintY : FromBigints entry.amountY) (bigintL : FromBigints entry.liquidity)
    (completes : mongo.Completes (change.processBin pair position lower entry) store () after) :
    (lower ≤ entry.lbBinId ∧ entry.lbBinId < lower + binPerPosition) ∧ entry.Integral ∧
    Readable ⟨pair, position, lower, [entry.move]⟩ store ∧
    after = (store.put .liquidityShares ((store .liquidityShares).updateOne
      (liquidityShareId position (entry.lbBinId - lower : ℤ)) entry.move.addToShare)).put .bin
        ((store .bin).updateOne (binId pair entry.lbBinId) entry.move.addToBin) := by
  obtain ⟨share, bin, newBalance, newX, newY, newSupply, inside, foundShare, foundBin, combined,
    combinedX, combinedY, combinedSupply, rfl⟩ := PositionChange.of_completes_processBin completes
  obtain ⟨readBalance, integral, rfl⟩ := of_combine bigintL combined
  obtain ⟨readX, integralX, rfl⟩ := of_combine bigintX combinedX
  obtain ⟨readY, integralY, rfl⟩ := of_combine bigintY combinedY
  obtain ⟨readSupply, -, rfl⟩ := of_combine bigintL combinedSupply
  refine ⟨inside, ⟨integralX, integralY, integral⟩, ⟨?_, ?_⟩, ?_⟩
  · refine List.forall_mem_singleton.mpr ⟨share, foundShare, ?_⟩
    rw [readBalance]
    rfl
  · refine List.forall_mem_singleton.mpr ⟨bin, foundBin, ?_⟩
    rw [readX, readY, readSupply]
    exact ⟨rfl, rfl, rfl⟩
  · congr 1
    · congr 1
      refine Collection.updateOne_congr fun row found => ?_
      cases foundShare.symm.trans found
      rfl
    · refine Collection.updateOne_congr fun row found => ?_
      cases foundBin.symm.trans found
      rfl

/-- The record of a round. -/
theorem of_completes_record (integral : entry.Integral)
    (completes : mongo.Completes (change.createEvent message instructionId pair position entry)
      store () after) (lower : ℕ) (bins : List BinMove) :
    ∃ rows, (store .positionUpdateEvent).create (Movement.updateEvent
        ⟨pair, position, lower, bins⟩ message instructionId entry.move) = some rows ∧
      after = store.put .positionUpdateEvent rows := by
  simp only [PositionChange.createEvent, Database.completes_bind, completes_compute,
    completes_create] at completes
  obtain ⟨_, _, ⟨deltaL, rfl⟩, _, _, ⟨deltaX, rfl⟩, _, _, ⟨deltaY, rfl⟩, rows, created, -, rfl⟩ :=
    completes
  cases deltaL
  cases deltaX
  cases deltaY
  rw [integral.amountX, integral.amountY, integral.liquidity] at created
  exact ⟨rows, created, rfl⟩

/-- The loop adds to the rows of one bin after another. -/
theorem looped_of_completes (fromBigints : ∀ entry ∈ entries,
      FromBigints entry.amountX ∧ FromBigints entry.amountY ∧ FromBigints entry.liquidity)
    {x y : Value} {totals : Value × Value}
    (completes : mongo.Completes (change.processBins message instructionId pair position lower
      entries x y) store totals after) :
    (∀ entry ∈ entries, entry.Integral) ∧
      Looped ⟨pair, position, lower, entries.map BinEntry.move⟩ message instructionId store
        after := by
  induction entries generalizing x y store with
  | nil =>
      obtain ⟨-, rfl⟩ := Database.completes_return.mp completes
      exact ⟨nofun, nofun, ⟨nofun, nofun⟩, rfl, rfl, (List.append_nil _).symm, fun _ _ => rfl⟩
  | cons entry rest ih =>
      simp only [PositionChange.processBins, Database.completes_bind, completes_compute]
        at completes
      obtain ⟨_, first, changed, _, _, ⟨-, rfl⟩, _, _, ⟨-, rfl⟩, _, second, recorded, later⟩ :=
        completes
      obtain ⟨⟨bigintX, bigintY, bigintL⟩, fromBigints⟩ := List.forall_mem_cons.mp fromBigints
      obtain ⟨inside, integral, readable, rfl⟩ :=
        of_completes_round bigintX bigintY bigintL changed
      obtain ⟨rows, created, rfl⟩ :=
        of_completes_record integral recorded lower (rest.map BinEntry.move)
      obtain ⟨integrals, looped⟩ := ih fromBigints later
      refine ⟨List.forall_mem_cons.mpr ⟨integral, integrals⟩,
        List.forall_mem_cons.mpr ⟨inside, looped.range⟩, readable.cons looped.readable rfl rfl,
        looped.shares, looped.bins, ?_, fun coll unwritten => ?_⟩
      · rw [looped.events, Store.put_same, Collection.rows_create created, List.append_assoc]
        rfl
      · rw [looped.others coll unwritten]
        simp only [List.mem_cons, List.not_mem_nil, or_false, not_or] at unwritten
        rw [Store.put_other unwritten.2.2, Store.put_other unwritten.2.1,
          Store.put_other unwritten.1]

/-! ## The event as a movement -/

/-- What an increase is to do: the amounts are added. -/
def PositionIncreaseEventDecoded.movement (decoded : PositionIncreaseEventDecoded)
    (lowerBinLbId : ℕ) : Movement where
  pair := decoded.pair
  position := decoded.position
  lowerBinLbId := lowerBinLbId
  bins := (decoded.binIds.zip
    (decoded.amountsX.zip (decoded.amountsY.zip decoded.liquidityMinted))).map
      fun (lbBinId, amountX, amountY, liquidity) => ⟨lbBinId, amountX, amountY, liquidity⟩

variable {decoded : PositionIncreaseEventDecoded}

/-- The other lists have an element for every bin. -/
structure PositionIncreaseEventDecoded.Covered (decoded : PositionIncreaseEventDecoded) : Prop where
  amountsX : decoded.binIds.length ≤ decoded.amountsX.length
  amountsY : decoded.binIds.length ≤ decoded.amountsY.length
  liquidityMinted : decoded.binIds.length ≤ decoded.liquidityMinted.length

/-- Only lists that are long enough give a BigInt in every round. -/
theorem length_le_of_integral {element : ℕ → Value} {binIds list : List ℕ}
    (integral : ∀ index < binIds.length, ∃ value,
      list[index]?.elim .undefined element = .bigint value) : binIds.length ≤ list.length := by
  by_contra short
  obtain ⟨value, present⟩ := integral list.length (by omega)
  rw [List.getElem?_eq_none (le_refl _)] at present
  cases present

theorem length_entries : decoded.entries.length = decoded.binIds.length := by
  rw [PositionIncreaseEventDecoded.entries, binEntries, List.length_map, List.length_zipIdx]

/-- The round at an index. -/
theorem getElem_entries (index : ℕ) (inside : index < decoded.binIds.length)
    (inside' : index < decoded.entries.length) :
    decoded.entries[index] =
      { lbBinId := decoded.binIds[index]
        amountX := decoded.amountsX[index]?.elim .undefined fun amount => .bigint amount
        amountY := decoded.amountsY[index]?.elim .undefined fun amount => .bigint amount
        liquidity :=
          decoded.liquidityMinted[index]?.elim .undefined fun amount => .bigint amount } := by
  simp only [PositionIncreaseEventDecoded.entries, binEntries, List.getElem_map,
    List.getElem_zipIdx, Nat.zero_add]

theorem covered_of_integral (integral : ∀ entry ∈ decoded.entries, entry.Integral) :
    decoded.Covered := by
  have round (index : ℕ) (inside : index < decoded.binIds.length) := by
    have inside' : index < decoded.entries.length := length_entries ▸ inside
    exact getElem_entries index inside inside' ▸ integral _ (List.getElem_mem inside')
  exact ⟨length_le_of_integral fun index inside => ⟨_, (round index inside).amountX⟩,
    length_le_of_integral fun index inside => ⟨_, (round index inside).amountY⟩,
    length_le_of_integral fun index inside => ⟨_, (round index inside).liquidity⟩⟩

/-- The rounds of an event are the bins of its movement. -/
theorem moves_entries (covered : decoded.Covered) (lower : ℕ) :
    decoded.entries.map BinEntry.move = (decoded.movement lower).bins := by
  have coveredX := covered.amountsX
  have coveredY := covered.amountsY
  have coveredL := covered.liquidityMinted
  refine List.ext_getElem ?_ fun index left right => ?_
  · simp only [length_entries, PositionIncreaseEventDecoded.movement, List.length_map,
      List.length_zip]
    omega
  · rw [List.length_map] at left
    have inside : index < decoded.binIds.length := length_entries ▸ left
    have insideX : index < decoded.amountsX.length := by omega
    have insideY : index < decoded.amountsY.length := by omega
    have insideL : index < decoded.liquidityMinted.length := by omega
    rw [List.getElem_map, getElem_entries index inside left]
    simp only [PositionIncreaseEventDecoded.movement, List.getElem_map, List.getElem_zip,
      List.getElem?_eq_getElem, insideX, insideY, insideL]
    rfl

theorem binIds_movement (covered : decoded.Covered) (lower : ℕ) :
    (decoded.movement lower).bins.map (·.lbBinId) = decoded.binIds := by
  have coveredX := covered.amountsX
  have coveredY := covered.amountsY
  have coveredL := covered.liquidityMinted
  have enough : decoded.binIds.length ≤
      (decoded.amountsX.zip (decoded.amountsY.zip decoded.liquidityMinted)).length := by
    simp only [List.length_zip]
    omega
  rw [PositionIncreaseEventDecoded.movement, List.map_map]
  exact List.map_fst_zip enough

/-! ## The whole event -/

/-- The event fitted the store, and everything it says has been done. -/
structure Increased (decoded : PositionIncreaseEventDecoded) (message : ParsedInstructionMessage)
    (existingPosition : Position) (store after : Store) : Prop where
  covered : decoded.Covered
  range : ∀ lbBinId ∈ decoded.binIds, existingPosition.lowerBinLbId ≤ lbBinId ∧
    lbBinId < existingPosition.lowerBinLbId + binPerPosition
  distinct : decoded.binIds.Nodup
  bins : (decoded.movement existingPosition.lowerBinLbId).bins.map (·.lbBinId) = decoded.binIds
  readable : Readable (decoded.movement existingPosition.lowerBinLbId) store
  pair : ∃ row, (store .pair).findOne decoded.pair = some row ∧
    (bigInt row.reserveX).isSome = true ∧ (bigInt row.reserveY).isSome = true
  carriedOut : CarriedOut (decoded.movement existingPosition.lowerBinLbId) message
    .IncreasePositionProcessor store after

/-- Totals that are combined with a text are added to its integer. -/
theorem reserve_of_combine {text : String} {total : ℤ} {result : Value}
    (combined : change.combine text (.bigint total) = .ok result) :
    (bigInt text).isSome = true ∧ result.toString = decimal (amount text + total) := by
  obtain ⟨read, -, rfl⟩ := of_combine (.inr ⟨total, rfl⟩) combined
  exact ⟨by rw [read]; rfl, rfl⟩

/-- A store in which a position has 7 shares of one bin and 2 of the next. -/
def sampleStore : Store :=
  (DecreasePosition.sampleStore.put .bin ((Collection.empty _).insertFree
    [sampleBin, InitializeBinArray.binDocument ⟨32768, "pair", "array"⟩ 1])).put .liquidityShares
      ((Collection.empty _).insertFree
        [⟨liquidityShareId "position" 0, "position", 0, "7"⟩,
          ⟨liquidityShareId "position" 1, "position", 1, "2"⟩])

/-- 7 shares of the one bin are minted for 5 and 3, and 9 of the other for 6 and 0. -/
def sampleIncrease : PositionIncreaseEventDecoded :=
  ⟨"pair", "position", [8388608, 8388609], [5, 6], [3, 0], [7, 9]⟩

/-- An increase that was not processed before and completes has done all that it is to do. -/
theorem increase_exact
    (fresh : (store .instruction).holds
      (generateInstructionId (message.params .IncreasePositionProcessor)) = false)
    (completes : mongo.Completes (process message decoded) store () after) :
    ∃ existingPosition, (store .position).findOne decoded.position = some existingPosition ∧
      Increased decoded message existingPosition store after := by
  obtain ⟨held, -⟩ | ⟨instructions, recorded, changed⟩ := completes_unlessProcessed.mp completes
  · rw [fresh] at held
    cases held
  obtain ⟨existingPair, existingPosition, totalX, totalY, middle, newX, newY, foundPair,
    foundPosition, looping, combinedX, combinedY, rfl⟩ :=
    PositionChange.of_completes_processPosition changed
  have elements := fun entry member => @fromBigints_of_mem_entries decoded entry member
  have totals := totals_of_completes
    (fun entry member => ⟨(elements entry member).1, (elements entry member).2.1⟩) looping
  obtain ⟨integral, looped⟩ := looped_of_completes elements looping
  have covered := covered_of_integral integral
  have moves := moves_entries covered existingPosition.lowerBinLbId
  rw [moves] at looped
  have sums : totalX = .bigint ((decoded.movement existingPosition.lowerBinLbId).bins.map
        (·.amountX)).sum ∧
      totalY = .bigint ((decoded.movement existingPosition.lowerBinLbId).bins.map
        (·.amountY)).sum := by
    rw [zero_add, zero_add, Prod.mk.injEq] at totals
    rw [← moves, List.map_map, List.map_map]
    exact totals
  rw [sums.1] at combinedX
  rw [sums.2] at combinedY
  obtain ⟨readX, printedX⟩ := reserve_of_combine combinedX
  obtain ⟨readY, printedY⟩ := reserve_of_combine combinedY
  rw [Store.put_other (by decide)] at foundPair foundPosition
  have names := binIds_movement covered existingPosition.lowerBinLbId
  refine ⟨existingPosition, foundPosition, covered, ?_, names ▸ looped.distinct, names, ?_,
    ⟨existingPair, foundPair, readX, readY⟩,
    looped.carriedOut recorded foundPair printedX printedY⟩
  · rw [← names]
    exact List.forall_mem_map.mpr looped.range
  · have readable := looped.readable
    refine ⟨fun bin member => ?_, fun bin member => ?_⟩
    · have found := readable.shares bin member
      rwa [Store.put_other (by decide)] at found
    · have found := readable.bins bin member
      rwa [Store.put_other (by decide)] at found

theorem increase_exact_sample : ∃ after existingPosition,
    mongo.Completes (process DecreasePosition.sampleMessage sampleIncrease) sampleStore ()
      after ∧
    Increased sampleIncrease DecreasePosition.sampleMessage existingPosition sampleStore after ∧
    (after .liquidityShares).rows.map (·.balance) = ["14", "11"] := by
  have completes : mongo.Completes (process DecreasePosition.sampleMessage sampleIncrease)
      sampleStore () _ :=
    Database.completes_of_run (by decide +kernel)
  obtain ⟨existingPosition, -, increased⟩ := increase_exact rfl completes
  exact ⟨_, existingPosition, completes, increased, by decide +kernel⟩

end IncreasePosition

end DlmmIndexer

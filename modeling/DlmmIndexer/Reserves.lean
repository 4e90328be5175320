import Mathlib.Data.List.Induction
import DlmmIndexer.Worker

/-!
# Reserves of pairs and of their bins

A pair row keeps the reserves of the pair, and every bin row those of the bin.
Increases move both by the same amounts.  A bin swap event moves the bin and leaves
the pair alone, so the two drift apart by the net amounts of the swaps.

Jobs run one at a time here.  A job whose instruction id an earlier job of the run
has is skipped, so what counts is the first delivery of every instruction.
-/

namespace DlmmIndexer

open Documents JavaScript Atomic Text

/-- The two tokens of a pair. -/
inductive Side where
  | X
  | Y
  deriving DecidableEq, Repr

namespace Side

def ofPair : Side → Pair → String
  | .X => Pair.reserveX
  | .Y => Pair.reserveY

def ofBin : Side → Bin → String
  | .X => Bin.reserveX
  | .Y => Bin.reserveY

def ofEntry : Side → BinEntry → Value
  | .X => BinEntry.amountX
  | .Y => BinEntry.amountY

end Side

/-- The sum of the reserves of the bins of a pair. -/
def binReserve (side : Side) (pair : String) (bins : Collection Bin.id) : ℤ :=
  bins.total fun bin => if bin.pairId = pair then amount (side.ofBin bin) else 0

/-- The reserve that the row of a pair keeps, and 0 without a row. -/
def pairReserve (side : Side) (pair : String) (pairs : Collection Pair.id) : ℤ :=
  pairs.value pair fun row => amount (side.ofPair row)

/-- Every pair row keeps the sum of the reserves of its bins. -/
def ReservesAgree (store : Store) : Prop :=
  ∀ row ∈ store .pair, ∀ side : Side,
    amount (side.ofPair row) = binReserve side row.id (store .bin)

/-- By how much the bins of a pair exceed its row. -/
def imbalance (side : Side) (pair : String) (store : Store) : ℤ :=
  binReserve side pair (store .bin) - pairReserve side pair (store .pair)

/-- What a swap event adds to one side of its bin. -/
def Swap.BinSwapEventDecoded.net (decoded : BinSwapEventDecoded) : Side → ℤ
  | .X => if decoded.swapForY then decoded.amountIn - decoded.protocolFee else -decoded.amountOut
  | .Y => if decoded.swapForY then -decoded.amountOut else decoded.amountIn - decoded.protocolFee

namespace Job

/-- What a job adds to the bins of a pair and not to the pair's row. -/
def net (side : Side) (pair : String) (job : Job) : ℤ :=
  match job.payload with
  | .binSwapEvent (.ok (some decoded)) => if decoded.pair = pair then decoded.net side else 0
  | _ => 0

/-- The amounts of a swap event, and the reserves of its bin before and after, are
below 2^53. -/
def Small (store : Store) (job : Job) : Prop :=
  ∀ decoded, job.payload = .binSwapEvent (.ok (some decoded)) →
    decoded.amountIn < 2 ^ 53 ∧ decoded.protocolFee < 2 ^ 53 ∧ decoded.amountOut < 2 ^ 53 ∧
    ∀ bin, (store .bin).findOne (binId decoded.pair decoded.binId) = some bin → ∀ side : Side,
      (amount (side.ofBin bin)).natAbs < 2 ^ 53 ∧
      (amount (side.ofBin bin) + decoded.net side).natAbs < 2 ^ 53

end Job

abbrev Launch.Small (store : Store) (launch : Launch) : Prop := launch.toJob.Small store

/-- The launches that are the first of their instruction id. -/
def deliveries (launches : List Launch) : List Launch :=
  launches.foldl
    (fun first launch =>
      if launch.instructionId ∈ first.map (·.instructionId) then first else first ++ [launch]) []

/-- The net amount that the swap events of a run add to one side of a pair. -/
def swapNet (side : Side) (pair : String) (launches : List Launch) : ℤ :=
  ((deliveries launches).map (·.net side pair)).sum

theorem deliveries_concat (done : List Launch) (launch : Launch) :
    deliveries (done ++ [launch]) =
      if launch.instructionId ∈ (deliveries done).map (·.instructionId) then deliveries done
      else deliveries done ++ [launch] := by
  simp [deliveries]

/-- The deliveries have the instruction ids of the run. -/
theorem mem_deliveries_instructionId {launches : List Launch} {id : Option String} :
    id ∈ (deliveries launches).map (·.instructionId) ↔ id ∈ launches.map (·.instructionId) := by
  induction launches using List.reverseRecOn with
  | nil => rfl
  | append_singleton done launch ih =>
      rw [deliveries_concat, List.map_append, List.mem_append, ← ih, List.map_singleton,
        List.mem_singleton]
      split
      next known =>
        exact ⟨.inl, fun either => either.elim (fun here => here) fun same => same ▸ known⟩
      · rw [List.map_append, List.mem_append, List.map_singleton, List.mem_singleton]

theorem swapNet_concat (side : Side) (pair : String) (done : List Launch) (launch : Launch) :
    swapNet side pair (done ++ [launch]) = swapNet side pair done +
      if launch.instructionId ∈ done.map (·.instructionId) then 0 else launch.net side pair := by
  rw [swapNet, deliveries_concat]
  simp only [mem_deliveries_instructionId]
  split
  · rw [add_zero, swapNet]
  · rw [List.map_append, List.sum_append, List.map_singleton, List.sum_singleton, swapNet]

/-! ## Sums of reserves -/

namespace Bin

/-- The id names the pair and the bin, and the reserves are texts of integers. -/
structure WellFormed (bin : Bin) : Prop where
  named : bin.id = binId bin.pairId bin.lbBinId
  canonical : ∀ side : Side, side.ofBin bin = decimal (amount (side.ofBin bin))

end Bin

/-- An assignment to the bin of a pair moves the sum of that pair only. -/
theorem binReserve_updateOne {side : Side} {bins : Collection Bin.id} {pairId : String}
    {lbBinId : ℕ} {old : Bin} (found : bins.findOne (binId pairId lbBinId) = some old)
    (wellFormed : old.WellFormed) {update : Update Bin.id}
    (keeps : (update.set old).pairId = old.pairId) (delta : ℤ)
    (moved : amount (side.ofBin (update.set old)) = amount (side.ofBin old) + delta)
    (pair : String) :
    binReserve side pair (bins.updateOne (binId pairId lbBinId) update) =
      binReserve side pair bins + if pairId = pair then delta else 0 := by
  have named : binId old.pairId old.lbBinId = binId pairId lbBinId :=
    wellFormed.named ▸ Collection.key_of_findOne found
  obtain ⟨rfl, -⟩ := joined_decimal_injective named
  rw [binReserve, Collection.total_updateOne found, keeps, moved, binReserve]
  split <;> omega

/-- An assignment to other fields than the reserves keeps them. -/
theorem pairReserve_updateOne_of_same {side : Side} {pairs : Collection Pair.id} {id : String}
    {update : Update Pair.id} (same : ∀ row, side.ofPair (update.set row) = side.ofPair row)
    (pair : String) :
    pairReserve side pair (pairs.updateOne id update) = pairReserve side pair pairs :=
  Collection.value_updateOne_of_same (fun row => amount (side.ofPair row))
    (fun row => congrArg amount (same row)) pair

/-! ## What the work of a job does -/

/-- The bins stay well formed and every imbalance moves by the given amount. -/
structure Drifts (store after : Store) (delta : Side → String → ℤ) : Prop where
  wellFormed : ∀ bin ∈ after .bin, bin.WellFormed
  imbalance : ∀ side pair, imbalance side pair after = imbalance side pair store + delta side pair

/-- Work that keeps the bins and the reserves of the pair rows. -/
theorem drifts_zero {store after : Store} (wellFormed : ∀ bin ∈ store .bin, bin.WellFormed)
    (bins : after .bin = store .bin)
    (pairs : ∀ side pair,
      pairReserve side pair (after .pair) = pairReserve side pair (store .pair)) :
    Drifts store after fun _ _ => 0 :=
  ⟨bins ▸ wellFormed, fun side pair => by rw [imbalance, bins, pairs, add_zero, imbalance]⟩

/-- A round of an increase moves the bin by the amounts of the round. -/
theorem drifts_processBin {pairId position : String} {lower : ℕ} {entry : BinEntry}
    (fromBigints : IncreasePosition.FromBigints entry.amountX ∧
      IncreasePosition.FromBigints entry.amountY) {store after : Store}
    (wellFormed : ∀ bin ∈ store .bin, bin.WellFormed)
    (completes : mongo.Completes (IncreasePosition.change.processBin pairId position lower entry)
      store () after) :
    Drifts store after
        (fun side pair => if pairId = pair then (side.ofEntry entry).integer else 0) ∧
      after .pair = store .pair := by
  obtain ⟨share, bin, balance, newX, newY, newSupply, -, -, found, -, combinedX, combinedY, -,
    rfl⟩ := PositionChange.of_completes_processBin completes
  obtain ⟨-, -, rfl⟩ := IncreasePosition.of_combine fromBigints.1 combinedX
  obtain ⟨-, -, rfl⟩ := IncreasePosition.of_combine fromBigints.2 combinedY
  refine ⟨⟨?_, fun side pair => ?_⟩,
    by rw [Store.put_other (by decide), Store.put_other (by decide)]⟩
  · rw [Store.put_same]
    refine Collection.forall_mem_updateOne wellFormed fun row _ held => ⟨held.named, fun side => ?_⟩
    cases side <;> exact congrArg decimal (amount_decimal _).symm
  · rw [imbalance, Store.put_same, Store.put_other (by decide), Store.put_other (by decide),
      binReserve_updateOne found (wellFormed bin (Collection.mem_of_findOne found)) rfl
        (side.ofEntry entry).integer _ pair, imbalance]
    · omega
    · cases side <;> exact amount_decimal _

/-- An increase moves the bins and the row of its pair by the same amounts. -/
theorem drifts_increase {message : ParsedInstructionMessage} {instructionId : String}
    {decoded : IncreasePosition.PositionIncreaseEventDecoded} {store after : Store}
    (wellFormed : ∀ bin ∈ store .bin, bin.WellFormed)
    (completes : mongo.Completes (IncreasePosition.processIncreasePosition message instructionId
      decoded) store () after) : Drifts store after fun _ _ => 0 := by
  obtain ⟨existingPair, existingPosition, totalX, totalY, middle, newX, newY, found, -, looped,
    combinedX, combinedY, rfl⟩ := PositionChange.of_completes_processPosition completes
  have fromBigints : ∀ entry ∈ decoded.entries, IncreasePosition.FromBigints entry.amountX ∧
      IncreasePosition.FromBigints entry.amountY := fun entry member =>
    let ⟨bigintX, bigintY, _⟩ := IncreasePosition.fromBigints_of_mem_entries member
    ⟨bigintX, bigintY⟩
  have totals := IncreasePosition.totals_of_completes fromBigints looped
  simp only [Prod.mk.injEq, zero_add] at totals
  obtain ⟨rfl, rfl⟩ := totals
  obtain ⟨-, -, rfl⟩ := IncreasePosition.of_combine (.inr ⟨_, rfl⟩) combinedX
  obtain ⟨-, -, rfl⟩ := IncreasePosition.of_combine (.inr ⟨_, rfl⟩) combinedY
  have moved (side : Side) (pair : String) :=
    PositionChange.processBins_sum (imbalance side pair)
      (fun entry => if decoded.pair = pair then (side.ofEntry entry).integer else 0)
      (fun middle => (∀ bin ∈ middle .bin, bin.WellFormed) ∧ middle .pair = store .pair)
      (fun entry member _ _ kept changed =>
        have ⟨drifts, same⟩ := drifts_processBin (fromBigints entry member) kept.1 changed
        ⟨drifts.imbalance side pair, drifts.wellFormed, same.trans kept.2⟩)
      (fun _ _ same => by
        rw [imbalance, imbalance, same .bin (by decide), same .pair (by decide)]
        exact ⟨rfl, id⟩)
      looped ⟨wellFormed, rfl⟩
  obtain ⟨wellFormed', samePair⟩ := (moved .X decoded.pair).2
  refine ⟨by rwa [Store.put_other (by decide)], fun side pair => ?_⟩
  have sum := (moved side pair).1
  rw [imbalance, Store.put_same, Store.put_other (by decide), samePair,
    pairReserve, Collection.value_updateOne found
      (decoded.entries.map fun entry => (side.ofEntry entry).integer).sum _ pair]
  · rw [imbalance, samePair, pairReserve] at sum
    by_cases same : decoded.pair = pair
    · simp only [same, if_true] at sum ⊢
      omega
    · simp only [same, if_false, List.map_const', List.sum_replicate, nsmul_zero] at sum ⊢
      omega
  · cases side <;> exact amount_decimal _

/-- A decrease that completes had no bins, so it moves nothing. -/
theorem drifts_decrease {message : ParsedInstructionMessage} {instructionId : String}
    {decoded : DecreasePosition.PositionDecreaseEventDecoded} {store after : Store}
    (wellFormed : ∀ bin ∈ store .bin, bin.WellFormed)
    (completes : mongo.Completes (DecreasePosition.processDecreasePosition message instructionId
      decoded) store () after) : Drifts store after fun _ _ => 0 := by
  obtain ⟨existingPair, existingPosition, totalX, totalY, middle, newX, newY, found, -, looped,
    combinedX, combinedY, rfl⟩ := PositionChange.of_completes_processPosition completes
  rw [DecreasePosition.entries_eq_nil_of_completes looped] at looped
  obtain ⟨totals, rfl⟩ := Database.completes_return.mp looped
  cases totals
  have minus {text : String} {result : Value}
      (combined : DecreasePosition.change.combine text (.bigint 0) = .ok result) :
      amount result.toString = amount text := by
    rw [PositionChange.combine] at combined
    split at combined
    next value read =>
      cases combined
      rw [Value.toString, amount_decimal, amount, read, sub_zero]
      rfl
    · cases combined
  refine drifts_zero wellFormed (Store.put_other (by decide)) fun side pair => ?_
  rw [Store.put_same, pairReserve, Collection.value_updateOne found 0, ite_self, add_zero,
    pairReserve]
  rw [add_zero]
  cases side
  · exact minus combinedX
  · exact minus combinedY

namespace Swap

/-- Below 2^53 the in side gains the difference of the amounts. -/
theorem BinSwapEventDecoded.gain_eq {decoded : BinSwapEventDecoded}
    (inSmall : decoded.amountIn < 2 ^ 53) (feeSmall : decoded.protocolFee < 2 ^ 53) :
    decoded.gain = decimal (decoded.amountIn - decoded.protocolFee) := by
  have bound : ((decoded.amountIn : ℤ) - decoded.protocolFee).natAbs < 2 ^ 53 := by omega
  rw [gain, Number.ofInt_of_lt (by omega), Number.ofInt_of_lt (by omega), Number.sub,
    Number.ofInt_of_lt bound, Number.toString_finite bound]

/-- Below 2^53 the event's handler computes the sums of the reserves and the net amounts. -/
theorem BinSwapEventDecoded.newReserves_eq {decoded : BinSwapEventDecoded} {bin : Bin}
    {newX newY : String} (inSmall : decoded.amountIn < 2 ^ 53)
    (feeSmall : decoded.protocolFee < 2 ^ 53) (outSmall : decoded.amountOut < 2 ^ 53)
    (binSmall : ∀ side : Side, (amount (side.ofBin bin)).natAbs < 2 ^ 53 ∧
      (amount (side.ofBin bin) + decoded.net side).natAbs < 2 ^ 53)
    (canonical : ∀ side : Side, side.ofBin bin = decimal (amount (side.ofBin bin)))
    (addedX : BinMath.add bin.reserveX decoded.updateX = .ok newX)
    (addedY : BinMath.add bin.reserveY decoded.updateY = .ok newY) :
    newX = decimal (amount bin.reserveX + decoded.net .X) ∧
      newY = decimal (amount bin.reserveY + decoded.net .Y) := by
  have netSmall (side : Side) : (decoded.net side).natAbs < 2 ^ 53 := by
    cases side <;> rw [BinSwapEventDecoded.net] <;> split <;> omega
  have texts : decoded.updateX = decimal (decoded.net .X) ∧
      decoded.updateY = decimal (decoded.net .Y) := by
    rw [BinSwapEventDecoded.updateX, BinSwapEventDecoded.updateY, BinSwapEventDecoded.net,
      BinSwapEventDecoded.net, BinSwapEventDecoded.gain_eq inSmall feeSmall,
      BinSwapEventDecoded.loss]
    constructor <;> split <;> rfl
  have exact (side : Side) := BinMath.add_decimal (binSmall side).1 (netSmall side)
    (binSmall side).2
  rw [texts.1, show bin.reserveX = _ from canonical .X] at addedX
  rw [texts.2, show bin.reserveY = _ from canonical .Y] at addedY
  exact ⟨Except.ok.inj (addedX.symm.trans (exact .X)), Except.ok.inj (addedY.symm.trans (exact .Y))⟩

/-- A swap event moves its bin by its net amounts. -/
theorem drifts_insertBinSwapEvent {message : ParsedInstructionMessage}
    {decoded : BinSwapEventDecoded} {store after : Store}
    (wellFormed : ∀ bin ∈ store .bin, bin.WellFormed)
    (inSmall : decoded.amountIn < 2 ^ 53) (feeSmall : decoded.protocolFee < 2 ^ 53)
    (outSmall : decoded.amountOut < 2 ^ 53)
    (binSmall : ∀ bin, (store .bin).findOne (binId decoded.pair decoded.binId) = some bin →
      ∀ side : Side, (amount (side.ofBin bin)).natAbs < 2 ^ 53 ∧
        (amount (side.ofBin bin) + decoded.net side).natAbs < 2 ^ 53)
    (completes : mongo.Completes (insertBinSwapEvent message (some decoded)) store () after) :
    Drifts store after fun side pair => if decoded.pair = pair then decoded.net side else 0 := by
  obtain ⟨_, bin, newX, newY, _, _, rows, -, found, addedX, addedY, -, rfl⟩ :=
    of_completes_insertBinSwapEvent completes
  have old := wellFormed bin (Collection.mem_of_findOne found)
  obtain ⟨rfl, rfl⟩ := BinSwapEventDecoded.newReserves_eq inSmall feeSmall outSmall
    (binSmall bin found) old.canonical addedX addedY
  refine ⟨?_, fun side pair => ?_⟩
  · rw [Store.put_other (by decide), Store.put_same]
    refine Collection.forall_mem_updateOne wellFormed fun row _ held => ⟨held.named, fun side => ?_⟩
    cases side <;> exact congrArg decimal (amount_decimal _).symm
  · rw [imbalance, Store.put_other (by decide), Store.put_same, Store.put_other (by decide),
      Store.put_other (by decide), binReserve_updateOne found old rfl
        (decoded.net side) _ pair, imbalance]
    · omega
    · cases side <;> exact amount_decimal _

end Swap

/-- A bin array adds empty bins. -/
theorem drifts_binArray {decoded : InitializeBinArray.InitializeBinArrayDecoded}
    {store after : Store} (wellFormed : ∀ bin ∈ store .bin, bin.WellFormed)
    (completes : mongo.Completes (InitializeBinArray.processInitializeBinArray decoded) store ()
      after) : Drifts store after fun _ _ => 0 := by
  rcases InitializeBinArray.of_completes_processInitializeBinArray completes with
    rfl | ⟨rows, inserted, rfl⟩
  · exact drifts_zero wellFormed rfl fun _ _ => rfl
  refine ⟨fun bin member => ?_, fun side pair => ?_⟩
  · rw [Store.put_same] at member
    rcases (Collection.mem_insertMany inserted).mp member with old | new
    · exact wellFormed bin old
    · obtain ⟨binIndex, -, rfl⟩ := List.mem_map.mp new
      exact ⟨rfl, fun side => by cases side <;> exact decimal_amount_zero.symm⟩
  · have zero (binIndex : ℕ) :
        amount (side.ofBin (InitializeBinArray.binDocument decoded binIndex)) = 0 := by
      cases side <;> exact amount_zero
    rw [imbalance, Store.put_same, Store.put_other (by decide), binReserve,
      Collection.total_insertMany inserted, InitializeBinArray.sum_binDocuments, add_zero, add_zero,
      imbalance, binReserve]
    exact fun binIndex => by rw [zero, ite_self]

/-- A new pair starts with empty reserves. -/
theorem drifts_pair {rpc : MintRpc} {decoded : InitializePair.InitializePairDecoded}
    {store after : Store} (wellFormed : ∀ bin ∈ store .bin, bin.WellFormed)
    (completes : mongo.Completes (InitializePair.processInitializePair rpc decoded) store ()
      after) :
    Drifts store after fun _ _ => 0 := by
  refine drifts_zero wellFormed
    (InitializePair.processInitializePair_within.completes (by decide) completes)
    fun side pair => ?_
  rcases InitializePair.of_completes_processInitializePair completes with
    ⟨-, rfl⟩ | ⟨config, mintX, mintY, rows, created, rfl⟩
  · rfl
  exact Collection.value_create_of_zero created (by cases side <;> exact amount_zero) pair

namespace Job

/-- The work of a job moves every imbalance by the job's net amount. -/
theorem drifts_work {rpc : Rpc} {job : Job} {store after : Store}
    (wellFormed : ∀ bin ∈ store .bin, bin.WellFormed) (small : job.Small store)
    (completes : mongo.Completes (job.work rpc) store () after) :
    Drifts store after fun side pair => job.net side pair := by
  have quiet (bins : Coll.bin ∉ job.payload.writes) (pairs : Coll.pair ∉ job.payload.writes) :
      Drifts store after fun _ _ => 0 := by
    have within := job.work_within rpc
    refine drifts_zero wellFormed (within.completes bins completes) fun side pair => ?_
    rw [within.completes pairs completes]
  rcases job with ⟨message, payload⟩
  cases payload with
  | rejected | ignored | swap | createPosition | positionCreationEvent | closePosition
  | initializeBinStepConfig | quoteAssetBadgeInitialization | quoteAssetBadgeUpdate =>
      exact quiet (by simp [Payload.writes]) (by simp [Payload.writes])
  | binSwapEvent decoded =>
      obtain ⟨decoded, rfl, inserted⟩ := Database.completes_ofExcept_bind.mp completes
      cases decoded with
      | none =>
          obtain ⟨-, rfl⟩ := Database.completes_return.mp inserted
          exact drifts_zero wellFormed rfl fun _ _ => rfl
      | some decoded =>
          obtain ⟨inSmall, feeSmall, outSmall, binSmall⟩ := small decoded rfl
          exact
            Swap.drifts_insertBinSwapEvent wellFormed inSmall feeSmall outSmall binSmall inserted
  | increasePosition decoded => exact drifts_increase wellFormed completes
  | decreasePosition decoded => exact drifts_decrease wellFormed completes
  | compositionFees decoded =>
      obtain ⟨_, feesX, feesY, -, -, -, pairs⟩ :=
        CompositionFees.of_completes_recordFees completes
      have bins : after .bin = store .bin :=
        CompositionFees.recordFees_within.completes (by decide) completes
      refine drifts_zero wellFormed bins fun side pair => ?_
      rw [pairs, pairReserve_updateOne_of_same]
      exact fun row => by cases side <;> rfl
  | initializePair decoded => exact drifts_pair wellFormed completes
  | initializeBinArray decoded => exact drifts_binArray wellFormed completes
  | updatePairStaticFeeParameters decoded =>
      obtain rfl := UpdatePairStaticFeeParameters.of_completes_process completes
      refine drifts_zero wellFormed (Store.put_other (by decide)) fun side pair => ?_
      rw [Store.put_same, pairReserve_updateOne_of_same]
      exact fun row => by cases side <;> rfl

/-- A job with a net amount found the row of its pair. -/
theorem pair_holds_of_net {rpc : Rpc} {job : Job} {store after : Store} {side : Side}
    {pair : String} (completes : mongo.Completes (job.work rpc) store () after)
    (moves : job.net side pair ≠ 0) : (store .pair).holds pair = true := by
  rcases job with ⟨message, payload⟩
  cases payload with
  | binSwapEvent decoded =>
      obtain ⟨decoded, rfl, inserted⟩ := Database.completes_ofExcept_bind.mp completes
      cases decoded with
      | none => exact absurd rfl moves
      | some decoded =>
          obtain ⟨row, _, _, _, _, _, _, found, -⟩ := Swap.of_completes_insertBinSwapEvent inserted
          by_cases same : decoded.pair = pair
          · exact same ▸ Collection.holds_of_findOne found
          · exact absurd (if_neg same) moves
  | _ => exact absurd rfl moves

end Job

/-- A job that does not deduplicate has no net amount. -/
theorem Job.net_of_plain {job : Job} (plain : job.params = none) (side : Side) (pair : String) :
    job.net side pair = 0 := by
  rcases job with ⟨message, payload⟩
  cases payload <;> first | rfl | cases plain

/-! ## Runs -/

/-- What holds after the jobs `done`, run one at a time from the empty store. -/
structure Balanced (done : List Launch) (store : Store) : Prop where
  recorded : Recorded done store
  wellFormed : ∀ bin ∈ store .bin, bin.WellFormed
  imbalance : ∀ side pair, imbalance side pair store = swapNet side pair done
  known : ∀ side pair, swapNet side pair done ≠ 0 → (store .pair).holds pair = true

theorem balanced_empty : Balanced [] .empty where
  recorded := recorded_empty
  wellFormed bin member := absurd member (Collection.not_mem_empty bin)
  imbalance _ _ := rfl
  known _ _ moves := absurd rfl moves

/-- One more job that completes. -/
theorem Balanced.step {done : List Launch} {launch : Launch} {store after : Store}
    (balanced : Balanced done store) (small : launch.Small store)
    (completes : mongo.Completes launch.process store () after) :
    Balanced (done ++ [launch]) after := by
  have recorded := balanced.recorded.step completes
  rcases balanced.recorded.cases completes with
    ⟨id, identified, known, rfl⟩ | ⟨middle, same, worked, fresh⟩
  · have unchanged (side : Side) (pair : String) :
        swapNet side pair (done ++ [launch]) = swapNet side pair done := by
      rw [swapNet_concat, identified, if_pos known, add_zero]
    exact ⟨recorded, balanced.wellFormed,
      fun side pair => unchanged side pair ▸ balanced.imbalance side pair,
      fun side pair => unchanged side pair ▸ balanced.known side pair⟩
  have bins : middle .bin = store .bin := same .bin (by decide)
  have pairs : middle .pair = store .pair := same .pair (by decide)
  have smallMiddle : launch.Small middle := by
    rw [Launch.Small, Job.Small, bins]
    exact small
  have drifts := Job.drifts_work (bins ▸ balanced.wellFormed) smallMiddle worked
  have moved (side : Side) (pair : String) :
      swapNet side pair (done ++ [launch]) = swapNet side pair done + launch.net side pair := by
    rw [swapNet_concat]
    split
    next repeated =>
      rw [Job.net_of_plain (fresh.resolve_right fun absent => absent repeated)]
    · rfl
  refine ⟨recorded, drifts.wellFormed, fun side pair => ?_, fun side pair moves => ?_⟩
  · rw [drifts.imbalance, moved, ← balanced.imbalance side pair, DlmmIndexer.imbalance,
      DlmmIndexer.imbalance, bins, pairs]
  · have permanent : ¬Coll.Deletable .pair := by simp [Coll.Deletable]
    have stays : (store .pair).holds pair = true → (after .pair).holds pair = true :=
      Database.Stable.completes (mongo_stable_holds permanent pair) completes
    rw [moved] at moves
    by_cases old : swapNet side pair done = 0
    · rw [old, zero_add] at moves
      exact stays (pairs ▸ Job.pair_holds_of_net worked moves)
    · exact stays (balanced.known side pair old)

theorem balanced_of_sequence {launches : List Launch} {store : Store}
    (ran : Sequence mongo Launch.process Launch.Small Store.empty launches store) :
    Balanced launches store :=
  ran.invariant Balanced balanced_empty fun _ _ _ _ _ _ small completes balanced =>
    balanced.step small completes

/-! ### A swap in a new bin -/

/-- A swap of 10 X against 9 Y in a bin of `arrayJob`. -/
def crossJob : Job where
  message := ⟨8, "sig", 1, true, .at 1⟩
  payload := .binSwapEvent (.ok (some ⟨"pair", true, 0, 8388608, 10, 9, 0, 0⟩))

/-- The jobs up to that swap. -/
def crossLaunches : List Launch :=
  [configJob.silent, pairJob.silent, arrayJob.silent, crossJob.silent]

theorem crossed :
    ∃ store, Sequence mongo Launch.process Launch.Small Store.empty crossLaunches store := by
  obtain ⟨bins, foundBin, binned⟩ := completes_arrayJob
  obtain ⟨pair, foundPair, binStep, mintX, mintY⟩ : ∃ pair,
      (pairStore .pair).findOne "pair" = some pair ∧ pair.binStep = 10 ∧
        pair.tokenMintXId = "mintX" ∧ pair.tokenMintYId = "mintY" := ⟨_, rfl, rfl, rfl, rfl⟩
  obtain ⟨instructions, recorded⟩ : ∃ rows, (pairStore .instruction).create
      (instructionData (crossJob.message.params .SwapProcessor)) = some rows := ⟨_, rfl⟩
  have foundX : ∃ mint, (pairStore .tokenMint).findOne "mintX" = some mint := ⟨_, rfl⟩
  have foundY : ∃ mint, (pairStore .tokenMint).findOne "mintY" = some mint := ⟨_, rfl⟩
  obtain ⟨price, priced⟩ : ∃ price, BinMath.getPriceFromId 10 8388608 = .ok price := ⟨_, rfl⟩
  have small : crossJob.Small (pairStore.put .bin bins) := by
    intro decoded same
    cases same
    refine ⟨by decide, by decide, by decide, fun bin found side => ?_⟩
    rw [Store.put_same, foundBin] at found
    cases found
    cases side <;> decide
  obtain ⟨mintRowX, foundX⟩ := foundX
  obtain ⟨mintRowY, foundY⟩ := foundY
  have addedX : BinMath.add "0" "10" = .ok "10" :=
    @BinMath.add_decimal 0 10 (by decide) (by decide) (by decide)
  have addedY : BinMath.add "0" "-9" = .ok "-9" := rfl
  have create (row : BinSwapEvent) : ∃ rows, (pairStore .binSwapEvent).create row = some rows :=
    Collection.exists_create rfl
  have before (coll : Coll) (notBin : coll ≠ .bin) (notRecord : coll ≠ .instruction) :
      ((pairStore.put .bin bins).put .instruction instructions) coll = pairStore coll := by
    rw [Store.put_other notRecord, Store.put_other notBin]
  obtain ⟨rows, created⟩ := create (Swap.binSwapEventData crossJob.message
    ⟨"pair", true, 0, 8388608, 10, 9, 0, 0⟩ (Swap.vaultsOf true none) mintRowX mintRowY)
  have crosses : mongo.Completes (Swap.insertBinSwapEvent crossJob.message
      (some ⟨"pair", true, 0, 8388608, 10, 9, 0, 0⟩))
      ((pairStore.put .bin bins).put .instruction instructions) () _ :=
    Swap.completes_insertBinSwapEvent
      (by rw [before .pair (by decide) (by decide)]; exact foundPair)
      (by rw [Store.put_other (by decide), Store.put_same]; exact foundBin)
      addedX addedY
      (by rw [binStep]; exact priced)
      (by rw [before .tokenMint (by decide) (by decide), mintX]; exact foundX)
      (by rw [before .tokenMint (by decide) (by decide), mintY]; exact foundY)
      (by rw [before .binSwapEvent (by decide) (by decide),
            before .swapEvent (by decide) (by decide)]; exact created)
  refine ⟨_, .cons nofun completes_configJob (.cons nofun completes_pairJob
    (.cons nofun binned (.cons small (completes_unlessProcessed.mpr (.inr ⟨instructions, ?_,
      Database.completes_ofExcept_bind.mpr ⟨_, rfl, crosses⟩⟩))
        (.nil _))))⟩
  rw [Store.put_other (by decide)]
  exact recorded

/-! ### When rows and bins agree -/

/-- Where the rows agree with the bins, no pair that has a row is out of balance. -/
theorem imbalance_of_agree {store : Store} (agree : ReservesAgree store) {side : Side}
    {pair : String} (held : (store .pair).holds pair = true) : imbalance side pair store = 0 := by
  obtain ⟨row, member, rfl⟩ := Collection.holds_iff.mp held
  have found : (store .pair).findOne row.id = some row := Collection.findOne_of_mem member
  rw [imbalance, pairReserve, Collection.value_of_findOne found, agree row member side, sub_self]

/-- After any jobs run one at a time from the empty store, the pair rows keep the sums
of their bins exactly when the swap events delivered to every pair add up to nothing. -/
theorem reserves_agree_iff {launches : List Launch} {store : Store}
    (ran : Sequence mongo Launch.process Launch.Small Store.empty launches store) :
    ReservesAgree store ↔ ∀ side pair, swapNet side pair launches = 0 := by
  have balanced := balanced_of_sequence ran
  constructor
  · intro agree side pair
    by_contra moves
    exact moves ((balanced.imbalance side pair).symm.trans
      (imbalance_of_agree agree (balanced.known side pair moves)))
  · intro none row member side
    have found : (store .pair).findOne row.id = some row := Collection.findOne_of_mem member
    have equal : pairReserve side row.id (store .pair) = amount (side.ofPair row) :=
      Collection.value_of_findOne found
    have zero := (balanced.imbalance side row.id).trans (none side row.id)
    rw [imbalance, equal] at zero
    omega

theorem reserves_agree_iff_crossed :
    ∃ store, Sequence mongo Launch.process Launch.Small Store.empty crossLaunches store ∧
      (ReservesAgree store ↔ ∀ side pair, swapNet side pair crossLaunches = 0) :=
  let ⟨store, ran⟩ := crossed
  ⟨store, ran, reserves_agree_iff ran⟩

/-- A pair whose row keeps "0" although its bin took in 10 X and gave out 9 Y. -/
theorem swap_not_in_pair :
    ∃ store, Sequence mongo Launch.process Launch.Small Store.empty crossLaunches store ∧
      ¬ReservesAgree store := by
  obtain ⟨store, ran⟩ := crossed
  refine ⟨store, ran, fun agree => ?_⟩
  have balanced := balanced_of_sequence ran
  have net : swapNet .X "pair" crossLaunches = 10 := by decide
  have held : (store .pair).holds "pair" = true := balanced.known .X "pair" (by rw [net]; decide)
  have zero : imbalance .X "pair" store = 0 := imbalance_of_agree agree held
  rw [balanced.imbalance, net] at zero
  cases zero

end DlmmIndexer

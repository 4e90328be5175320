import DlmmIndexer.Reserves

/-!
# Reserves of bins that swaps move

A bin row keeps its reserves as texts of integers.  A bin swap event adds to them by way
of doubles, while increases and decreases use exact integers.  The two ways agree when
rounding the operands does not change the rounded sum, and the sum is what its double
prints.
-/

namespace DlmmIndexer

open Documents JavaScript Atomic

namespace Swap

namespace BinSwapEventDecoded

variable (decoded : BinSwapEventDecoded)

/-- The side that the event takes tokens from. -/
def outSide : Side := if decoded.swapForY then .Y else .X

/-- The double that stands for what the in side gains. -/
def gainRounded : ℤ :=
  JavaScript.round (JavaScript.round decoded.amountIn - JavaScript.round decoded.protocolFee)

/-- The double that stands for what the out side loses. -/
def lossRounded : ℤ := JavaScript.round decoded.amountOut

/-- What the event adds to one side of its bin, in doubles. -/
def netRounded : Side → ℤ
  | .X => if decoded.swapForY then decoded.gainRounded else -decoded.lossRounded
  | .Y => if decoded.swapForY then -decoded.lossRounded else decoded.gainRounded

/-- The fields of the event and the reserves of its bin are token amounts, and the bin
holds what leaves it. -/
structure InRange (bin : Bin) : Prop where
  canonical : ∀ side : Side, ∃ reserve : ℕ, side.ofBin bin = decimal reserve ∧ reserve < 2 ^ 64
  amountIn : decoded.amountIn < 2 ^ 64
  amountOut : decoded.amountOut < 2 ^ 64
  fee : decoded.protocolFee ≤ decoded.amountIn
  held : decoded.amountOut ≤ amount (decoded.outSide.ofBin bin)

/-- The reserve of one side after the event, as doubles have it: the operands are rounded
first, which leads to the double nearest the sum, and that double prints as the sum. -/
structure ExactOn (side : Side) (reserve : ℤ) : Prop where
  nearest : JavaScript.round (JavaScript.round reserve + decoded.netRounded side) =
    JavaScript.round (reserve + decoded.net side)
  printed : (Number.shortest (roundNat (reserve + decoded.net side).toNat) : ℤ) =
    reserve + decoded.net side

variable {decoded} {bin : Bin}

/-- Amounts below 2^53 are exact. -/
theorem exactOn_of_small {side : Side} {reserve : ℤ} (inSmall : decoded.amountIn < 2 ^ 53)
    (fee : decoded.protocolFee ≤ decoded.amountIn) (outSmall : decoded.amountOut < 2 ^ 53)
    (small : reserve.natAbs < 2 ^ 53) (nonneg : 0 ≤ reserve + decoded.net side)
    (sumSmall : (reserve + decoded.net side).natAbs < 2 ^ 53) : decoded.ExactOn side reserve := by
  have gained : decoded.gainRounded = decoded.amountIn - decoded.protocolFee := by
    rw [gainRounded, @round_of_lt decoded.amountIn (by omega),
      @round_of_lt decoded.protocolFee (by omega), round_of_lt (by omega)]
  have lost : decoded.lossRounded = decoded.amountOut := round_of_lt (by omega)
  have same : decoded.netRounded side = decoded.net side := by
    cases side <;> rw [netRounded, net, gained, lost]
  refine ⟨by rw [same, round_of_lt small], ?_⟩
  rw [roundNat_of_lt (by omega), Number.shortest_of_lt (by omega), Int.toNat_of_nonneg nonneg]

/-- No side falls below zero. -/
theorem InRange.nonneg (inRange : decoded.InRange bin) (side : Side) :
    0 ≤ amount (side.ofBin bin) + decoded.net side := by
  have reserve : 0 ≤ amount (side.ofBin bin) := by
    obtain ⟨reserve, text, -⟩ := inRange.canonical side
    rw [text, amount_decimal]
    exact Int.natCast_nonneg reserve
  have held := inRange.held
  have fee := inRange.fee
  rw [outSide] at held
  by_cases forY : decoded.swapForY = true
  · rw [if_pos forY] at held
    cases side <;> rw [net, if_pos forY]
    · omega
    · exact Int.sub_nonneg_of_le held
  · rw [if_neg forY] at held
    cases side <;> rw [net, if_neg forY]
    · exact Int.sub_nonneg_of_le held
    · omega

theorem InRange.natAbs_difference (inRange : decoded.InRange bin) :
    (JavaScript.round decoded.amountIn - JavaScript.round decoded.protocolFee).natAbs ≤ 2 ^ 65 := by
  have bound := inRange.amountIn
  have fee := inRange.fee
  have first : (JavaScript.round decoded.amountIn).natAbs ≤ 2 ^ 64 :=
    natAbs_round_le (by decide) (by omega)
  have second : (JavaScript.round decoded.protocolFee).natAbs ≤ 2 ^ 64 :=
    natAbs_round_le (by decide) (by omega)
  omega

theorem InRange.natAbs_netRounded (inRange : decoded.InRange bin) (side : Side) :
    (decoded.netRounded side).natAbs ≤ 2 ^ 65 := by
  have gained : decoded.gainRounded.natAbs ≤ 2 ^ 65 :=
    natAbs_round_le (by decide) inRange.natAbs_difference
  have bound := inRange.amountOut
  have lost : decoded.lossRounded.natAbs ≤ 2 ^ 64 := natAbs_round_le (by decide) (by omega)
  cases side <;> rw [netRounded] <;> split <;> omega

theorem round_netRounded (side : Side) :
    JavaScript.round (decoded.netRounded side) = decoded.netRounded side := by
  have gained : JavaScript.round decoded.gainRounded = decoded.gainRounded := round_round _
  have lost : JavaScript.round (-decoded.lossRounded) = -decoded.lossRounded := by
    rw [round_neg, lossRounded, round_round]
  cases side <;> rw [netRounded] <;> split <;> assumption

/-- The texts of the changes are read as doubles. -/
theorem parseFloat_update (inRange : decoded.InRange bin) :
    parseFloat decoded.updateX = some (.finite (decoded.netRounded .X)) ∧
      parseFloat decoded.updateY = some (.finite (decoded.netRounded .Y)) := by
  have inBound := inRange.amountIn
  have outBound := inRange.amountOut
  have fee := inRange.fee
  have gain : parseFloat decoded.gain = some (.finite decoded.gainRounded) := by
    rw [BinSwapEventDecoded.gain, @Number.ofInt_of_le _ 64 (by decide) (by decide) (by omega),
      @Number.ofInt_of_le _ 64 (by decide) (by decide) (by omega), Number.sub,
      Number.ofInt_of_le (by decide) (by decide) inRange.natAbs_difference]
    refine Number.parseFloat_toString (round_round _) (le_trans ?_ (by decide : 2 ^ 65 ≤ 2 ^ 68))
    exact natAbs_round_le (by decide) inRange.natAbs_difference
  have loss : parseFloat decoded.loss = some (.finite (-decoded.lossRounded)) := by
    rw [BinSwapEventDecoded.loss, @Number.parseFloat_decimal_of_le _ 64 (by decide)
      (by decide) (by omega), round_neg, lossRounded]
  rw [BinSwapEventDecoded.updateX, BinSwapEventDecoded.updateY, netRounded, netRounded]
  split
  · exact ⟨gain, loss⟩
  · exact ⟨loss, gain⟩

/-- One side of the event is exact exactly when its doubles are. -/
theorem add_eq_decimal_iff {side : Side} {update newReserve : String}
    (inRange : decoded.InRange bin)
    (read : parseFloat update = some (.finite (decoded.netRounded side)))
    (added : BinMath.add (side.ofBin bin) update = .ok newReserve) :
    newReserve = decimal (amount (side.ofBin bin) + decoded.net side) ↔
      decoded.ExactOn side (amount (side.ofBin bin)) := by
  obtain ⟨sum, same⟩ := Int.eq_ofNat_of_zero_le (inRange.nonneg side)
  obtain ⟨reserve, text, small⟩ := inRange.canonical side
  have value : amount (side.ofBin bin) = reserve := by rw [text, amount_decimal]
  have bound : (JavaScript.round (reserve : ℤ)).natAbs ≤ 2 ^ 64 :=
    natAbs_round_le (by decide) (by omega)
  have change := inRange.natAbs_netRounded side
  have readReserve : parseFloat (side.ofBin bin) = some (.finite (JavaScript.round reserve)) := by
    rw [text, Number.parseFloat_decimal_natCast (by decide) (by decide) small.le]
  rw [BinMath.add_of_read readReserve read (round_round _) (round_netRounded side) (by omega)
    change] at added
  cases added
  have total :
      (JavaScript.round (JavaScript.round reserve + decoded.netRounded side)).natAbs ≤ 2 ^ 66 :=
    natAbs_round_le (by decide) (by omega)
  rw [same, Number.toString_eq_decimal_iff (round_round _) (total.trans (by decide))]
  constructor
  · rintro ⟨nearest, printed⟩
    refine ⟨?_, ?_⟩
    · rw [value, nearest, ← value, same]
    · rw [same, Int.toNat_natCast, printed]
  · rintro ⟨nearest, printed⟩
    rw [same, value] at nearest
    rw [same, Int.toNat_natCast] at printed
    exact ⟨nearest, Int.ofNat.inj printed⟩

end BinSwapEventDecoded

/-- The row of the bin has the exact sums of its reserves and the amounts of the event. -/
def ReservesSettled (decoded : BinSwapEventDecoded) (bin : Bin) (store : Store) : Prop :=
  ∃ row, (store .bin).findOne (binId decoded.pair decoded.binId) = some row ∧
    ∀ side : Side, side.ofBin row = decimal (amount (side.ofBin bin) + decoded.net side)

/-! ## A bin that a swap crosses -/

/-- The sample bin with some of both tokens. -/
def reserveBin (reserveX : ℕ) : Bin :=
  { sampleBin with reserveX := decimal reserveX, reserveY := "50" }

/-- A store with that bin, its pair and the mints. -/
def reserveStore (reserveX : ℕ) : Store :=
  pairStore.put .bin ⟨[reserveBin reserveX], List.nodup_singleton _⟩

/-- An event that takes 3, of which 2 is the protocol's, and gives 9. -/
def sampleEvent : BinSwapEventDecoded :=
  { pair := "pair"
    swapForY := true
    volatilityAccumulator := 0
    binId := 8388608
    amountIn := 3
    amountOut := 9
    fee := 2
    protocolFee := 2 }

theorem sampleEvent_inRange {reserveX : ℕ} (bound : reserveX < 2 ^ 64) :
    sampleEvent.InRange (reserveBin reserveX) where
  canonical
    | .X => ⟨reserveX, rfl, bound⟩
    | .Y => ⟨50, rfl, by decide⟩
  amountIn := by decide
  amountOut := by decide
  fee := by decide
  held := by
    have reserve : amount (decimal 50) = 50 := amount_decimal 50
    exact reserve.symm ▸ (by decide)

theorem sampleEvent_exactOn (side : Side) :
    sampleEvent.ExactOn side (amount (side.ofBin (reserveBin 100))) := by
  cases side <;> exact BinSwapEventDecoded.exactOn_of_small (by decide) (by decide) (by decide)
    (by decide +kernel) (by decide +kernel) (by decide +kernel)

def sampleEventJob : Job where
  message := ⟨8, "sig", 1, true, .at 1⟩
  payload := .binSwapEvent (.ok (some sampleEvent))

theorem sampleEventJob_ran (reserveX : ℕ) (answered : (mongo.run
      (sampleEventJob.process silentRpc) (reserveStore reserveX)).1 = .ok ()) :
    mongo.Completes (processBinSwapEvent sampleEventJob.message (.ok (some sampleEvent)))
      (reserveStore reserveX) () (storeAfter silentRpc (reserveStore reserveX) [sampleEventJob]) :=
  Database.completes_of_run answered

/-- A bin swap event that is not skipped and completes leaves the exact reserves exactly
when, on both sides, its doubles lead to the exact sum. -/
theorem swap_reserves_exact_iff {message : ParsedInstructionMessage}
    {decoded : BinSwapEventDecoded} {bin : Bin} {store after : Store}
    (found : (store .bin).findOne (binId decoded.pair decoded.binId) = some bin)
    (inRange : decoded.InRange bin)
    (fresh : (store .instruction).holds
      (generateInstructionId (message.params .SwapProcessor)) = false)
    (completes : mongo.Completes (processBinSwapEvent message (.ok (some decoded))) store ()
      after) :
    ReservesSettled decoded bin after ↔
      ∀ side : Side, decoded.ExactOn side (amount (side.ofBin bin)) := by
  rcases completes_unlessProcessed.mp completes with ⟨held, -⟩ | ⟨rows, -, worked⟩
  · rw [fresh] at held
    cases held
  obtain ⟨_, answered, inserted⟩ := Database.completes_ofExcept_bind.mp worked
  cases answered
  obtain ⟨_, bin', newX, newY, _, _, events, -, found', addedX, addedY, -, rfl⟩ :=
    of_completes_insertBinSwapEvent inserted
  rw [Store.put_other (by decide)] at found'
  cases found.symm.trans found'
  obtain ⟨readX, readY⟩ := BinSwapEventDecoded.parseFloat_update inRange
  have exactX := @BinSwapEventDecoded.add_eq_decimal_iff decoded bin .X _ _ inRange readX addedX
  have exactY := @BinSwapEventDecoded.add_eq_decimal_iff decoded bin .Y _ _ inRange readY addedY
  have settled : ((((store.put .instruction rows).put .bin
      (((store.put .instruction rows) .bin).updateOne (binId decoded.pair decoded.binId)
        { set := fun row => { row with reserveX := newX, reserveY := newY } })).put
          .binSwapEvent events) .bin).findOne (binId decoded.pair decoded.binId) =
      some { bin with reserveX := newX, reserveY := newY } := by
    rw [Store.put_other (by decide), Store.put_same, Collection.findOne_updateOne_self,
      Store.put_other (by decide), found]
    rfl
  constructor
  · rintro ⟨row, found', sums⟩ side
    cases settled.symm.trans found'
    cases side with
    | X => exact exactX.mp (sums .X)
    | Y => exact exactY.mp (sums .Y)
  · intro exact'
    refine ⟨_, settled, fun side => ?_⟩
    cases side with
    | X => exact exactX.mpr (exact' .X)
    | Y => exact exactY.mpr (exact' .Y)

theorem swap_reserves_exact_iff_sample : ReservesSettled sampleEvent (reserveBin 100)
    (storeAfter silentRpc (reserveStore 100) [sampleEventJob]) :=
  (swap_reserves_exact_iff rfl (sampleEvent_inRange (by decide)) rfl
    (sampleEventJob_ran 100 (by decide +kernel))).mpr sampleEvent_exactOn

/-- A reserve of 2^53 that gains 1 stays as it is. -/
theorem swap_reserves_rounded :
    (sampleEvent.InRange (reserveBin (2 ^ 53)) ∧
      mongo.Completes (processBinSwapEvent sampleEventJob.message (.ok (some sampleEvent)))
        (reserveStore (2 ^ 53)) ()
        (storeAfter silentRpc (reserveStore (2 ^ 53)) [sampleEventJob])) ∧
    ((storeAfter silentRpc (reserveStore (2 ^ 53)) [sampleEventJob] .bin).findOne
      (binId "pair" 8388608)).map (·.reserveX) = some "9007199254740992" ∧
    ¬ReservesSettled sampleEvent (reserveBin (2 ^ 53))
      (storeAfter silentRpc (reserveStore (2 ^ 53)) [sampleEventJob]) := by
  have stored : ((storeAfter silentRpc (reserveStore (2 ^ 53)) [sampleEventJob] .bin).findOne
      (binId "pair" 8388608)).map (·.reserveX) = some "9007199254740992" := by decide +kernel
  refine ⟨⟨sampleEvent_inRange (by decide), sampleEventJob_ran _ (by decide +kernel)⟩, stored, ?_⟩
  rintro ⟨row, found, sums⟩
  rw [show (storeAfter silentRpc (reserveStore (2 ^ 53)) [sampleEventJob] .bin).findOne
    (binId "pair" 8388608) = some row from found, Option.map_some, Option.some_inj] at stored
  have sum : row.reserveX = decimal (amount (decimal (2 ^ 53)) + 1) := sums .X
  rw [amount_decimal, stored] at sum
  exact absurd sum (by decide)

end Swap

end DlmmIndexer

import DlmmIndexer.Increase
import DlmmIndexer.Library.Tables
import DlmmIndexer.Reserves

/-!
# The market

What the indexer is to know: the pairs, bins and positions of the program, with integers
for amounts and tables under the chain's names.  Documents, texts and the ids of rows do
not occur.  A job moves the market by what its instruction or event says (`Market.work`),
once for every instruction (`Market.step`).

The deposits of a pair are what increases brought in; swaps move the bins.
-/

namespace DlmmIndexer

open Documents

structure ConfigTerms where
  binStep : ℕ
  fees : StaticFeeParameters

structure PairTerms where
  binStep : ℕ
  activeId : ℕ
  fees : StaticFeeParameters
  depositX : ℤ
  depositY : ℤ

structure BinBalance where
  reserveX : ℤ
  reserveY : ℤ
  supply : ℤ

structure PositionTerms where
  pair : String
  mint : String
  owner : String
  lower : ℕ
  upper : ℕ

/-- Bins go by their pair and number, shares by their position and index. -/
@[ext] structure Market where
  configs : Table String ConfigTerms
  pairs : Table String PairTerms
  bins : Table (String × ℕ) BinBalance
  positions : Table String PositionTerms
  shares : Table (String × ℕ) ℤ
  /-- the instructions that were carried out -/
  seen : String → Bool

namespace Market

def empty : Market where
  configs _ := none
  pairs _ := none
  bins _ := none
  positions _ := none
  shares _ := none
  seen _ := false

/-! ## Moves -/

def shift (move : BinMove) (bin : BinBalance) : BinBalance where
  reserveX := bin.reserveX + move.amountX
  reserveY := bin.reserveY + move.amountY
  supply := bin.supply + move.liquidity

/-- The move of a bin, if there is one. -/
def moveOf (movement : Movement) (lbBinId : ℕ) : Option BinMove :=
  movement.bins.find? fun move => decide (move.lbBinId = lbBinId)

/-- What the movement does to the bins. -/
def onBin (movement : Movement) (place : String × ℕ) (bin : BinBalance) : BinBalance :=
  if place.1 = movement.pair then
    (moveOf movement place.2).elim bin fun move => shift move bin
  else bin

/-- What the movement does to the shares of its position. -/
def onShare (movement : Movement) (place : String × ℕ) (balance : ℤ) : ℤ :=
  if place.1 = movement.position then
    (moveOf movement (movement.lowerBinLbId + place.2)).elim balance fun move =>
      balance + move.liquidity
  else balance

/-- What the movement does to its pair. -/
def onPair (movement : Movement) (pair : PairTerms) : PairTerms :=
  { pair with
    depositX := pair.depositX + (movement.bins.map (·.amountX)).sum
    depositY := pair.depositY + (movement.bins.map (·.amountY)).sum }

def deposit (movement : Movement) (market : Market) : Market :=
  { market with
    pairs := market.pairs.amend (Table.only movement.pair (onPair movement))
    bins := market.bins.amend (onBin movement)
    shares := market.shares.amend (onShare movement) }

/-- A swap moves one bin by its net amounts. -/
def cross (decoded : Swap.BinSwapEventDecoded) (market : Market) : Market :=
  { market with
    bins := market.bins.amend (Table.only (decoded.pair, decoded.binId) fun bin =>
      { bin with
        reserveX := bin.reserveX + decoded.net .X
        reserveY := bin.reserveY + decoded.net .Y }) }

/-- A position is opened with 64 empty shares, or some of its terms are settled. -/
def place (position : String) (terms : PositionTerms) (settle : PositionTerms → PositionTerms)
    (market : Market) : Market :=
  if (market.positions position).isSome then
    { market with positions := market.positions.amend (Table.only position settle) }
  else
    { market with
      positions := market.positions.fill (.single position terms)
      shares := market.shares.fill fun place =>
        if place.1 = position ∧ place.2 < binPerPosition then some 0 else none }

/-- The bins of an array are opened together. -/
def openBins (pair : String) (index : ℕ) (market : Market) : Market :=
  if (market.bins (pair, index * binArraySize)).isSome then market
  else
    { market with
      bins := market.bins.fill fun place =>
        if place.1 = pair ∧ place.2 / binArraySize = index then some ⟨0, 0, 0⟩ else none }

/-! ## Jobs -/

/-- What the instruction or event of a job says. -/
def work (rpc : Rpc) (job : Job) (market : Market) : Market :=
  match job.payload with
  | .initializeBinStepConfig decoded =>
      { market with
        configs := market.configs.fill
          (.single decoded.binStepConfig ⟨decoded.binStep, decoded.feeParameters⟩) }
  | .initializePair decoded =>
      match market.configs decoded.binStepConfig with
      | none => market
      | some config =>
          { market with
            pairs := market.pairs.fill
              (.single decoded.pair ⟨config.binStep, decoded.activeId, config.fees, 0, 0⟩) }
  | .initializeBinArray decoded => market.openBins decoded.pair decoded.index
  | .createPosition decoded =>
      match CreatePosition.positionTokenAccountOwner rpc.toAccountRpc
        decoded.positionTokenAccount with
      | .error _ => market
      | .ok owner =>
          market.place decoded.position ⟨decoded.pair, decoded.positionMint, owner, 0, 0⟩
            fun terms => { terms with mint := decoded.positionMint, owner := owner }
  | .positionCreationEvent decoded =>
      market.place decoded.position
        ⟨decoded.pair, decoded.positionMint, "dummy-owner-id", decoded.lowerBinId,
          decoded.upperBinId⟩
        fun terms => { terms with lower := decoded.lowerBinId, upper := decoded.upperBinId }
  | .increasePosition decoded =>
      match market.positions decoded.position with
      | none => market
      | some terms => market.deposit (decoded.movement terms.lower)
  | .binSwapEvent (.ok (some decoded)) => market.cross decoded
  | .compositionFees decoded =>
      { market with
        pairs := market.pairs.amend
          (Table.only decoded.pair fun pair => { pair with activeId := decoded.activeId }) }
  | .updatePairStaticFeeParameters decoded =>
      { market with
        pairs := market.pairs.amend
          (Table.only decoded.pair fun pair => { pair with fees := decoded.feeParameters }) }
  | _ => market

/-- A job moves the market unless its instruction was carried out before. -/
def step (rpc : Rpc) (market : Market) (job : Job) : Market :=
  match job.instructionId with
  | none => market.work rpc job
  | some id =>
      if market.seen id then market
      else { market.work rpc job with seen := fun other => other = id || market.seen other }

/-- One step with the answers of the launch. -/
def next (market : Market) (launch : Launch) : Market := market.step launch.rpc launch.toJob

end Market

end DlmmIndexer

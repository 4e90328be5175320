import DlmmIndexer.Ledger
import DlmmIndexer.SwapVaults

/-!
# Lost updates

The workers run several jobs at once, so between a job's reading of a row and its
assignment other jobs may assign the same row.  The amounts of bins and pairs then
lose what those jobs added.  An increase reads its pair before the loop over the bins
and assigns it after the loop, which leaves the widest gap.

Each handler is shown to meet the contract of `Ledger`: whatever other jobs do, it
assigns what it read plus its own amounts, and ends having added its contribution.
Where every assignment is fresh the contributions of all jobs end up in the rows.
-/

namespace DlmmIndexer

open Documents JavaScript Atomic

section Handlers

variable {job : Job} {log longer last : List (Event Op)}

/-! ## Operations that move no amount -/

/-- The operation neither reads nor assigns an amount. -/
def Silent (event : Event Op) : Prop :=
  ∀ (account : Account) (id : String) (posting : Posting account.coll),
    account.post id posting event = posting

theorem silent_findOne {coll : Coll} {id : String} {row : Option coll.Row} (bins : coll ≠ .bin)
    (pairs : coll ≠ .pair) : Silent ⟨.findOne coll id, row⟩ :=
  fun _ _ _ => Account.post_findOne_other fun same => Account.ne_coll bins pairs same.1

theorem silent_updateOne {coll : Coll} {id : String} {update : Update coll.id}
    (bins : coll ≠ .bin) (pairs : coll ≠ .pair) : Silent ⟨.updateOne coll id update, ()⟩ :=
  fun _ _ _ => Account.post_updateOne_other fun same => Account.ne_coll bins pairs same.1

theorem silent_create {coll : Coll} {row : coll.Row} : Silent ⟨.create coll row, ()⟩ :=
  fun _ _ _ => rfl

/-! ## The rounds of an increase -/

/-- The log has gained the bin assignments of these entries, and no reading or
assignment of a pair. -/
structure Rounds (pair : String) (entries : List BinEntry) (log longer : List (Event Op)) :
    Prop where
  bins : ∀ (account : Account) (id : String), account.coll = .bin →
    (account.posting id longer).added = (account.posting id log).added +
      (entries.map fun entry =>
        if account.rowId pair entry.lbBinId = id then (account.ofEntry entry).integer else 0).sum
  pairs : ∀ (side : Side) (id : String),
    (Account.pairReserve side).posting id longer = (Account.pairReserve side).posting id log

namespace Rounds

variable {pair : String} {entries more : List BinEntry}

theorem refl : Rounds pair [] log log := ⟨fun _ _ _ => (add_zero _).symm, fun _ _ => rfl⟩

theorem trans (first : Rounds pair entries log longer) (second : Rounds pair more longer last) :
    Rounds pair (entries ++ more) log last where
  bins account id bins := by
    rw [second.bins account id bins, first.bins account id bins, List.map_append, List.sum_append,
      add_assoc]
  pairs side id := (second.pairs side id).trans (first.pairs side id)

theorem silent (rounds : Rounds pair entries log longer) {event : Event Op}
    (silent : Silent event) : Rounds pair entries log (longer ++ [event]) where
  bins account id bins := by rw [Account.posting_concat, silent, rounds.bins account id bins]
  pairs side id := by rw [Account.posting_concat, silent, rounds.pairs side id]

/-- What went before without moving an amount may be counted in. -/
theorem after {before : List (Event Op)} (rounds : Rounds pair entries log longer)
    (same : ∀ (account : Account) (id : String),
      account.posting id log = account.posting id before) : Rounds pair entries before longer where
  bins account id bins := by rw [rounds.bins account id bins, same]
  pairs side id := by rw [rounds.pairs side id, same]

/-- A round reads its bin and assigns what it read plus its own amounts. -/
theorem assign {entry : BinEntry} {bin : Bin} {update : Update Bin.id}
    (adds : ∀ account : Account, (same : .bin = account.coll) →
      account.Adds (same ▸ update) (same ▸ bin) (account.ofEntry entry).integer) :
    Rounds pair [entry] log (log ++ [⟨.findOne .bin (binId pair entry.lbBinId), some bin⟩] ++
      [⟨.updateOne .bin (binId pair entry.lbBinId) update, ()⟩]) where
  bins account id bins := by
    cases account with
    | binReserve | totalSupply =>
        rw [(adds _ rfl).added (Account.read_findOne rfl), Account.added_findOne,
          List.map_singleton, List.sum_singleton]
        rfl
    | pairReserve => cases bins
  pairs side id := by
    have pairs : Coll.bin ≠ (Account.pairReserve side).coll := nofun
    rw [Account.posting_concat, Account.posting_concat,
      Account.post_updateOne_other fun both => pairs both.1,
      Account.post_findOne_other fun both => pairs both.1]

end Rounds

namespace IncreasePosition

variable {message : ParsedInstructionMessage} {decoded : PositionIncreaseEventDecoded}

/-- One round of the loop. -/
theorem obeys_processBin {position : String} {lower : ℕ} {entry : BinEntry}
    (fromBigints : FromBigints entry.amountX ∧ FromBigints entry.amountY ∧
      FromBigints entry.liquidity) :
    (change.processBin decoded.pair position lower entry).Obeys mongo
      (Job.contract ⟨message, .increasePosition decoded⟩)
      (fun longer _ => Rounds decoded.pair [entry] log longer) log := by
  unfold PositionChange.processBin
  dsimp only
  split
  · trivial
  refine Program.obeys_bind.mpr (obeys_findOne fun store _ _ => ?_)
  cases (store .liquidityShares).findOne _ with
  | none => trivial
  | some share =>
  refine Program.obeys_bind.mpr (obeys_compute fun newBalance _ => ?_)
  refine Program.obeys_bind.mpr (obeys_updateOne (fun account same => ?_) ?_)
  · exact absurd same (Account.ne_coll (by decide) (by decide))
  refine Program.obeys_bind.mpr (obeys_findOne fun store _ _ => ?_)
  cases (store .bin).findOne _ with
  | none => trivial
  | some bin =>
  refine Program.obeys_bind.mpr (obeys_compute fun newX combinedX => ?_)
  refine Program.obeys_bind.mpr (obeys_compute fun newY combinedY => ?_)
  refine Program.obeys_bind.mpr (obeys_compute fun newSupply combinedSupply => ?_)
  obtain ⟨-, -, rfl⟩ := of_combine fromBigints.1 combinedX
  obtain ⟨-, -, rfl⟩ := of_combine fromBigints.2.1 combinedY
  obtain ⟨-, -, rfl⟩ := of_combine fromBigints.2.2 combinedSupply
  have adds (account : Account) (same : .bin = account.coll) :
      account.Adds (same ▸ ⟨fun row : Bin =>
        { row with
          reserveX := (Value.bigint (amount bin.reserveX + entry.amountX.integer)).toString
          reserveY := (Value.bigint (amount bin.reserveY + entry.amountY.integer)).toString
          totalSupply :=
            (Value.bigint (amount bin.totalSupply + entry.liquidity.integer)).toString },
        fun _ => rfl⟩) (same ▸ bin) (account.ofEntry entry).integer := by
    rcases account with (_ | _) | _ | _ <;> first | exact fun _ => rfl | cases same
  refine obeys_updateOne
    (fun account same => (adds account same).assigned (Account.read_findOne same) rfl) ?_
  refine (Rounds.assign adds).after fun account id => ?_
  rw [Account.posting_concat, Account.posting_concat, silent_updateOne (by decide) (by decide),
    silent_findOne (by decide) (by decide)]

/-- The loop posts its entries and adds up their amounts. -/
theorem obeys_processBins {instructionId position : String} {lower : ℕ} {entries : List BinEntry}
    (fromBigints : ∀ entry ∈ entries, FromBigints entry.amountX ∧ FromBigints entry.amountY ∧
      FromBigints entry.liquidity) {x y : ℤ} :
    (change.processBins message instructionId decoded.pair position lower entries (.bigint x)
      (.bigint y)).Obeys mongo (Job.contract ⟨message, .increasePosition decoded⟩)
      (fun longer totals => Rounds decoded.pair entries log longer ∧
        totals = (.bigint (x + (entries.map fun entry => entry.amountX.integer).sum),
          .bigint (y + (entries.map fun entry => entry.amountY.integer).sum))) log := by
  induction entries generalizing x y log with
  | nil => exact ⟨.refl, by simp⟩
  | cons entry rest ih =>
      obtain ⟨bigintX, bigintY, bigintSupply⟩ := fromBigints entry List.mem_cons_self
      refine Program.obeys_bind.mpr ((obeys_processBin ⟨bigintX, bigintY, bigintSupply⟩).mono ?_)
      intro middle _ round
      refine Program.obeys_bind.mpr (obeys_compute fun totalX addedX => ?_)
      refine Program.obeys_bind.mpr (obeys_compute fun totalY addedY => ?_)
      rw [of_add bigintX addedX, of_add bigintY addedY]
      refine Program.obeys_bind.mpr ?_
      refine Program.obeys_bind.mpr (obeys_compute fun _ _ => ?_)
      refine Program.obeys_bind.mpr (obeys_compute fun _ _ => ?_)
      refine Program.obeys_bind.mpr (obeys_compute fun _ _ => ?_)
      refine obeys_create (by decide) (by decide) ?_
      refine (ih fun entry member => fromBigints entry (List.mem_cons_of_mem _ member)).mono ?_
      rintro longer totals ⟨rounds, rfl⟩
      refine ⟨(round.silent silent_create).trans rounds, ?_⟩
      simp only [List.map_cons, List.sum_cons, add_assoc]

/-- The work of an increase adds its contribution. -/
theorem obeys_processIncreasePosition {instructionId : String} :
    (processIncreasePosition message instructionId decoded).Obeys mongo
      (Job.contract ⟨message, .increasePosition decoded⟩)
      (fun longer _ => ∀ (account : Account) (id : String),
        (account.posting id longer).added = (account.posting id log).added +
          Job.contribution account id ⟨message, .increasePosition decoded⟩) log := by
  unfold processIncreasePosition PositionChange.processPosition
  refine Program.obeys_bind.mpr (obeys_findOne fun store _ _ => ?_)
  cases (store .pair).findOne decoded.pair with
  | none => trivial
  | some existingPair =>
  refine Program.obeys_bind.mpr (obeys_findOne fun store _ _ => ?_)
  cases (store .position).findOne decoded.position with
  | none => trivial
  | some existingPosition =>
  refine Program.obeys_bind.mpr
    ((obeys_processBins fun _ member => fromBigints_of_mem_entries member).mono ?_)
  rintro longer _ ⟨rounds, rfl⟩
  refine Program.obeys_bind.mpr (obeys_compute fun newX combinedX => ?_)
  refine Program.obeys_bind.mpr (obeys_compute fun newY combinedY => ?_)
  obtain ⟨-, -, rfl⟩ := of_combine (.inr ⟨_, rfl⟩) combinedX
  obtain ⟨-, -, rfl⟩ := of_combine (.inr ⟨_, rfl⟩) combinedY
  -- the loop left the pair as it was read at the start
  have read (side : Side) :
      ((Account.pairReserve side).posting decoded.pair longer).read = some existingPair := by
    rw [rounds.pairs, Account.posting_concat, silent_findOne (by decide) (by decide),
      Account.read_findOne rfl]
  have adds (side : Side) : (Account.pairReserve side).Adds
      ⟨fun row : Pair =>
        { row with
          reserveX := decimal (amount existingPair.reserveX +
            (0 + (decoded.entries.map fun entry => entry.amountX.integer).sum))
          reserveY := decimal (amount existingPair.reserveY +
            (0 + (decoded.entries.map fun entry => entry.amountY.integer).sum)) }, fun _ => rfl⟩
      existingPair (0 + (decoded.entries.map fun entry => (side.ofEntry entry).integer).sum) := by
    cases side <;> exact fun _ => rfl
  refine obeys_updateOne (fun account same => ?_) fun account id => ?_
  · rcases account with _ | _ | side
    · cases same
    · cases same
    · exact (adds side).assigned (read side) rfl
  have reads (account : Account) (id : String) : (account.posting id
      (log ++ [⟨.findOne .pair decoded.pair, some existingPair⟩] ++
        [⟨.findOne .position decoded.position, some existingPosition⟩])).added =
          (account.posting id log).added := by
    rw [Account.added_findOne, Account.added_findOne]
  cases account with
  | binReserve | totalSupply =>
      rw [Account.posting_concat, Account.added_post (by simp [Op.target]), rounds.bins _ _ rfl,
        reads]
      rfl
  | pairReserve side =>
      refine ((adds side).added (read side) id).trans ?_
      rw [rounds.pairs, reads, zero_add]
      congr 1
      change _ = (decoded.entries.map fun entry =>
        if decoded.pair = id then (side.ofEntry entry).integer else 0).sum
      by_cases here : decoded.pair = id <;> simp [here]

end IncreasePosition

namespace Swap

variable {message : ParsedInstructionMessage} {decoded : BinSwapEventDecoded}

/-- The work of a swap event adds its contribution. -/
theorem obeys_insertBinSwapEvent :
    (insertBinSwapEvent message (some decoded)).Obeys mongo
      (Job.contract ⟨message, .binSwapEvent (.ok (some decoded))⟩)
      (fun longer _ => ∀ (account : Account) (id : String),
        (account.posting id longer).added = (account.posting id log).added +
          Job.contribution account id ⟨message, .binSwapEvent (.ok (some decoded))⟩) log := by
  unfold insertBinSwapEvent
  refine Program.obeys_bind.mpr (obeys_findOne fun store _ _ => ?_)
  cases (store .pair).findOne decoded.pair with
  | none => trivial
  | some pair =>
  refine Program.obeys_bind.mpr (obeys_findOne fun store integers small => ?_)
  cases found : (store .bin).findOne (binId decoded.pair decoded.binId) with
  | none => trivial
  | some bin =>
  refine Program.obeys_bind.mpr (obeys_compute fun newX addedX => ?_)
  refine Program.obeys_bind.mpr (obeys_compute fun newY addedY => ?_)
  obtain ⟨inSmall, feeSmall, outSmall, binSmall⟩ := small decoded rfl
  obtain ⟨rfl, rfl⟩ := BinSwapEventDecoded.newReserves_eq inSmall feeSmall outSmall
    (binSmall bin found) (integers bin (Collection.mem_of_findOne found)) addedX addedY
  have adds (side : Side) : (Account.binReserve side).Adds
      ⟨fun row : Bin =>
        { row with
          reserveX := decimal (amount bin.reserveX + decoded.net .X)
          reserveY := decimal (amount bin.reserveY + decoded.net .Y) }, fun _ => rfl⟩
      bin (decoded.net side) := by
    cases side <;> exact fun _ => rfl
  refine Program.obeys_bind.mpr (obeys_updateOne (fun account same => ?_) ?_)
  · rcases account with side | _ | _
    · exact (adds side).assigned (Account.read_findOne rfl) rfl
    · exact fun _ => rfl
    · cases same
  -- what follows reads other rows and creates the event
  refine Program.obeys_bind.mpr (Program.obeys_ofExcept.mpr fun _ _ => ?_)
  refine Program.obeys_bind.mpr (obeys_findOne fun store _ _ => ?_)
  refine Program.obeys_bind.mpr (obeys_findOne fun store' _ _ => ?_)
  cases (store .tokenMint).findOne pair.tokenMintXId with
  | none => trivial
  | some tokenMintX =>
  cases (store' .tokenMint).findOne pair.tokenMintYId with
  | none => trivial
  | some tokenMintY =>
  refine Program.obeys_bind.mpr (obeys_findOne fun store _ _ => ?_)
  refine obeys_create (by decide) (by decide) fun account id => ?_
  rw [Account.posting_concat, silent_create, Account.added_findOne, Account.added_findOne,
    Account.added_findOne]
  cases account with
  | binReserve side =>
      refine ((adds side).added (Account.read_findOne rfl) id).trans ?_
      rw [Account.added_findOne, Account.added_findOne]
      rfl
  | totalSupply =>
      refine (Account.added_of_keeps (fun _ => rfl) id).trans ?_
      rw [Account.added_findOne, Account.added_findOne]
      exact (add_zero _).symm
  | pairReserve side =>
      rw [Account.posting_concat, Account.added_post (by simp [Op.target]), Account.added_findOne,
        Account.added_findOne]
      exact (add_zero _).symm

end Swap

/-! ## Whole jobs -/

/-- The attempt has added its job's contribution if it inserted the `Instruction` row,
and nothing if it did not. -/
def Settled (attempt : Attempt) : Prop :=
  ∀ (account : Account) (id : String), (account.posting id attempt.log).added =
    if attempt.insertedIds = [] then 0 else attempt.job.contribution account id

/-- The attempt owes permitted operations and a settled end. -/
def Bound (attempt : Attempt) : Prop :=
  attempt.program.Obeys mongo attempt.job.contract
    (fun log _ => Settled ⟨attempt.job, .pure (), log⟩) attempt.log

/-- Deduplication around work that adds the contribution. -/
theorem obeys_unlessProcessed {launch : Launch} {params : CheckAndInsertInstructionParams}
    {work : Instruction → Action Unit}
    (adds : ∀ log, (work (instructionData params)).Obeys mongo launch.contract
      (fun longer _ => ∀ (account : Account) (id : String),
        (account.posting id longer).added = (account.posting id log).added +
          launch.contribution account id) log) :
    Bound ⟨launch, unlessProcessed params work, []⟩ := by
  rw [Bound, unlessProcessed_eq]
  refine ⟨fun _ => nofun, fun store found _ _ _ => ?_⟩
  cases found with
  | true => exact fun _ _ => rfl
  | false =>
      refine ⟨fun account => ?_, fun _ _ _ _ _ => (adds _).extends.mono ?_⟩
      · exact fun same => Account.ne_coll (by decide) (by decide) (Option.some.inj same)
      · rintro longer _ ⟨continues, added⟩ account id
        have inserted : generateInstructionId params ∈
            Attempt.insertedIds ⟨launch, .pure (), longer⟩ :=
          List.mem_filterMap.mpr ⟨⟨.create .instruction (instructionData params), ()⟩,
            continues.subset (by simp), rfl⟩
        rw [if_neg (List.ne_nil_of_mem inserted), added]
        exact zero_add _

theorem bound_launch {launch : Launch} (moving : launch.Moving) :
    Bound (.launch Launch.process launch) := by
  rcases launch with ⟨⟨message, payload⟩, rpc⟩
  cases payload with
  | increasePosition decoded =>
      exact obeys_unlessProcessed fun log => IncreasePosition.obeys_processIncreasePosition
  | binSwapEvent decoded =>
      refine obeys_unlessProcessed fun log => Program.obeys_bind.mpr
        (Program.obeys_ofExcept.mpr fun event answered => ?_)
      subst answered
      cases event with
      | none => exact fun _ _ => (add_zero _).symm
      | some event => exact Swap.obeys_insertBinSwapEvent
  | _ => cases moving

end Handlers

/-! ## Runs -/

/-- The `Instruction` row of the job is there. -/
def Job.Recorded (job : Job) (store : Store) : Prop :=
  ∀ id ∈ job.instructionId, (store .instruction).holds id = true

theorem Job.identified_of_moving {job : Job} (moving : job.Moving) :
    ∃ id, job.instructionId = some id := by
  rcases job with ⟨message, payload⟩
  cases payload with
  | increasePosition | binSwapEvent => exact ⟨_, rfl⟩
  | _ => cases moving

instance (job : Job) (store : Store) : Decidable (job.Recorded store) :=
  inferInstanceAs (Decidable (∀ id ∈ job.instructionId, (store .instruction).holds id = true))

/-- Every amount is what it was plus what the jobs contribute that were not recorded
at the start. -/
def NoLostUpdate (start : Store) (system : Workers) : Prop :=
  ∀ (account : Account) (id : String), account.balance id system.store =
    account.balance id start + (system.processes.map fun attempt =>
      if attempt.job.Recorded start then 0 else attempt.job.contribution account id).sum

/-- The amounts stay below 2^53, and no attempt assigns over an amount that is not
what it read. -/
def AssignsFresh (store : Store) (before _after : Attempt) : Prop :=
  before.job.Small store ∧ Fresh store before

instance (store : Store) (before after : Attempt) : Decidable (AssignsFresh store before after) :=
  inferInstanceAs (Decidable (before.job.Small store ∧ Fresh store before))

/-- What holds in every state of such a run. -/
structure Ledger (start : Store) (system : Workers) : Prop where
  bound : ∀ attempt ∈ system.processes, Bound attempt
  integers : IntegerReserves system.store
  balance : ∀ (account : Account) (id : String), account.balance id system.store =
    account.balance id start +
      (system.processes.map fun attempt => (account.posting id attempt.log).added).sum

theorem ledger_of_reaches {start : Store} {system : Workers}
    (integers : IntegerReserves start) (jobs : ∀ attempt ∈ system.processes, attempt.job.Moving)
    (reaches : Reaches mongo Launch.process AssignsFresh (.initial start) system) :
    Ledger start system := by
  refine Reaches.invariant_of_jobs (fun launch => launch.Moving = true) (Ledger start) reaches
    ⟨by simp [System.initial], integers, fun account id => ?_⟩ ?_ ?_ jobs
  · simp [System.initial]
  · rintro store processes launch moving ⟨bound, integers, balance⟩
    refine ⟨List.forall_mem_append.mpr ⟨bound, List.forall_mem_singleton.mpr
      (bound_launch moving)⟩, integers, fun account id => ?_⟩
    have idle : (account.posting id (Process.launch Launch.process launch).log).added = 0 := rfl
    rw [balance, List.map_append, List.sum_append, List.map_singleton, List.sum_singleton, idle,
      add_zero]
  · rintro store store' before after attempt attempt' - moves ⟨small, fresh⟩
      ⟨bound, integers, balance⟩
    obtain ⟨earlier, here, later⟩ := List.forall_mem_append.mp bound |>.imp_right
      List.forall_mem_cons.mp
    have posted := posted_of_moves moves here fresh integers
    have bound' : Bound attempt' := by
      rw [Bound, moves.job_eq]
      exact moves.obeys ⟨integers, small⟩ here
    refine ⟨List.forall_mem_append.mpr ⟨earlier, List.forall_mem_cons.mpr ⟨bound', later⟩⟩,
      posted.integers, fun account id => ?_⟩
    have moved := posted.balance account id
    have sum := balance account id
    simp only [List.map_append, List.map_cons, List.sum_append, List.sum_cons] at sum ⊢
    omega

/-- Where no two attempts share an instruction id, a finished one inserted its row
unless the row was there at the start. -/
theorem insertedIds_eq_nil_iff {start : Store} {system : Workers}
    {guard : Store → Attempt → Attempt → Prop}
    (distinct : (system.processes.map fun attempt => attempt.job.instructionId).Nodup)
    (reaches : Reaches mongo Launch.process guard (.initial start) system)
    {attempt : Attempt} (member : attempt ∈ system.processes) (moving : attempt.job.Moving)
    (finished : attempt.Finished) : attempt.insertedIds = [] ↔ attempt.job.Recorded start := by
  have accounted := accounted_of_reaches reaches
  obtain ⟨id, identified⟩ := Job.identified_of_moving moving
  have recorded : attempt.job.Recorded start ↔ (start .instruction).holds id = true := by
    simp [Job.Recorded, identified]
  rw [recorded]
  constructor
  · intro none
    by_contra absent
    have done := Launch.done_of_reaches reaches member finished
    obtain ⟨params, deduplicates, rfl⟩ := Option.map_eq_some_iff.mp identified
    obtain ⟨other, launched, inserted⟩ := accounted.inserted_of_holds
      (done.2 _ _ (Job.marker_of_params deduplicates)) (Bool.eq_false_iff.mpr absent)
    -- the attempt that inserted the row has the same id, so it is this one
    have named := (accounted.staged other launched).instructionId_of_inserted inserted
    obtain rfl := List.inj_on_of_nodup_map distinct launched member (named.trans identified.symm)
    rw [none] at inserted
    cases inserted
  · intro held
    refine List.eq_nil_iff_forall_not_mem.mpr fun other inserted => ?_
    have named := (accounted.staged attempt member).instructionId_of_inserted inserted
    obtain rfl : other = id := Option.some.inj (named.symm.trans identified)
    exact accounted.not_inserted held attempt member inserted

/-! ## Two deposits and a swap -/

/-- The sample pair with one bin and a position in it. -/
def depositStore : Store :=
  (sampleStore.put .position
    ⟨[⟨"position", "pair", "mint", "owner", 8388608, 8388671⟩], List.nodup_singleton _⟩).put
      .liquidityShares ⟨[⟨"position-0", "position", 0, "0"⟩], List.nodup_singleton _⟩

theorem integerReserves_depositStore : IntegerReserves depositStore := by
  intro bin member side
  obtain rfl : bin = sampleBin := List.mem_singleton.mp member
  cases side <;> exact decimal_amount_zero.symm

def firstIncrease : Job where
  message := ⟨9, "sig", 0, true, .at 1⟩
  payload := .increasePosition ⟨"pair", "position", [8388608], [5], [6], [7]⟩

def secondIncrease : Job where
  message := ⟨9, "sig", 1, true, .at 1⟩
  payload := .increasePosition ⟨"pair", "position", [8388608], [50], [60], [70]⟩

def swapOfBin : Job where
  message := ⟨9, "sig", 2, true, .at 1⟩
  payload := .binSwapEvent (.ok (some ⟨"pair", true, 1, 8388608, 10, 4, 0, 1⟩))

/-- The swap event crosses the increase after its bin was assigned. -/
def freshSchedule : List (Choice Launch) :=
  [.launch firstIncrease.silent, .launch swapOfBin.silent] ++
    List.replicate 8 (.move 0) ++ List.replicate 9 (.move 1) ++ List.replicate 2 (.move 0)

/-- The second increase runs between the first one's reading of the pair and its
assignment. -/
def staleSchedule : List (Choice Launch) :=
  [.launch firstIncrease.silent, .launch secondIncrease.silent] ++
    List.replicate 3 (.move 0) ++ List.replicate 10 (.move 1) ++ List.replicate 7 (.move 0)

/-! ## No lost update -/

/-- In every run of increases and swap events with different instruction ids whose
assignments are all fresh, once all jobs have completed no update is lost. -/
theorem no_lost_update {start : Store} {system : Workers}
    (jobs : ∀ attempt ∈ system.processes, attempt.job.Moving)
    (distinct : (system.processes.map fun attempt => attempt.job.instructionId).Nodup)
    (integers : IntegerReserves start)
    (reaches : Reaches mongo Launch.process AssignsFresh (.initial start) system)
    (finished : ∀ attempt ∈ system.processes, attempt.Finished) : NoLostUpdate start system := by
  have ledger := ledger_of_reaches integers jobs reaches
  intro account id
  rw [ledger.balance]
  congr 2
  refine List.map_congr_left fun attempt member => ?_
  have settled := ledger.bound attempt member
  rw [Bound, finished attempt member] at settled
  have skipped := insertedIds_eq_nil_iff distinct reaches member (jobs attempt member)
    (finished attempt member)
  exact (settled account id).trans (if_congr skipped rfl rfl)

/-- An increase and a swap event of one bin, interleaved. -/
theorem no_lost_update_interleaved :
    ∃ system : Workers,
      play mongo Launch.process
        (fun store attempt => decide (AssignsFresh store attempt attempt)) freshSchedule
        (.initial depositStore) = some system ∧
      NoLostUpdate depositStore system := by
  have followed : (play mongo Launch.process
      (fun store attempt => decide (AssignsFresh store attempt attempt)) freshSchedule
      (.initial depositStore)).any (fun system => decide
        ((∀ attempt ∈ system.processes, attempt.job.Moving) ∧
          (system.processes.map fun attempt => attempt.job.instructionId).Nodup ∧
          ∀ attempt ∈ system.processes, attempt.Finished)) = true := by decide +kernel
  obtain ⟨system, played, checked⟩ := (Option.any_eq_true _ _).mp followed
  obtain ⟨jobs, distinct, finished⟩ := of_decide_eq_true checked
  have reached : Reaches mongo Launch.process AssignsFresh (.initial depositStore)
      system :=
    reaches_of_play (fun _ _ _ => of_decide_eq_true) played
  exact ⟨system, played, no_lost_update jobs distinct integerReserves_depositStore reached finished⟩

/-- Two increases of one pair: both complete, and the amounts of the second never
reach the pair. -/
theorem stale_assignment_loses :
    ∃ system : Workers,
      play mongo Launch.process (fun store attempt => decide (attempt.job.Small store))
        staleSchedule (.initial depositStore) = some system ∧
      ((∀ attempt ∈ system.processes, attempt.job.Moving) ∧
        (system.processes.map fun attempt => attempt.job.instructionId).Nodup ∧
        IntegerReserves depositStore ∧
        Reaches mongo Launch.process (fun store before _ => before.job.Small store)
          (.initial depositStore) system ∧
        ∀ attempt ∈ system.processes, attempt.Finished) ∧
      ¬NoLostUpdate depositStore system := by
  have followed : (play mongo Launch.process
      (fun store attempt => decide (attempt.job.Small store)) staleSchedule
      (.initial depositStore)).any (fun system => decide
        ((∀ attempt ∈ system.processes, attempt.job.Moving) ∧
          (system.processes.map fun attempt => attempt.job.instructionId).Nodup ∧
          (∀ attempt ∈ system.processes, attempt.Finished) ∧
          (Account.pairReserve .X).balance "pair" system.store = 5 ∧
          (system.processes.map fun attempt => if attempt.job.Recorded depositStore then 0
            else attempt.job.contribution (.pairReserve .X) "pair").sum = 55)) = true := by
    decide +kernel
  obtain ⟨system, played, checked⟩ := (Option.any_eq_true _ _).mp followed
  obtain ⟨jobs, distinct, finished, balance, contributed⟩ := of_decide_eq_true checked
  refine ⟨system, played, ⟨jobs, distinct, integerReserves_depositStore,
    reaches_of_play (fun _ _ _ => of_decide_eq_true) played, finished⟩, fun kept => ?_⟩
  have sum := kept (.pairReserve .X) "pair"
  have empty : (Account.pairReserve .X).balance "pair" depositStore = 0 := by decide +kernel
  rw [balance, contributed, empty] at sum
  exact absurd sum (by decide)

end DlmmIndexer

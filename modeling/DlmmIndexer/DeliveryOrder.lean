import DlmmIndexer.Library.Machine
import DlmmIndexer.Refinement
import DlmmIndexer.Retry

/-!
# The order of delivery

The queues promise no order between jobs.  Most jobs do not need one: a job that opens
nothing adds to amounts or assigns terms of a pair, so it changes values of the market
and not which there are.  Such changes of one market commute unless two of them assign,
whatever was carried out before.  So two deliveries of the same jobs, behind jobs that
opened what they need, end in the same market as long as the jobs that assign stand in
the same order.
-/

namespace DlmmIndexer

open Documents Machine Atomic

namespace Job

/-- The job opens rows of the market. -/
def Opens (job : Job) : Bool :=
  match job.payload with
  | .initializeBinStepConfig _ | .initializePair _ | .initializeBinArray _ | .createPosition _
  | .positionCreationEvent _ => true
  | _ => false

/-- The job sets terms of a pair. -/
def Sets (job : Job) : Bool :=
  match job.payload with
  | .compositionFees _ | .updatePairStaticFeeParameters _ => true
  | _ => false

end Job

namespace Market

/-! ## Changes -/

/-- What a job does to the values of a market. -/
structure Change where
  pairs : String → PairTerms → PairTerms
  bins : String × ℕ → BinBalance → BinBalance
  shares : String × ℕ → ℤ → ℤ

namespace Change

def apply (change : Change) (market : Market) : Market :=
  { market with
    pairs := market.pairs.amend change.pairs
    bins := market.bins.amend change.bins
    shares := market.shares.amend change.shares }

def nothing : Change := ⟨fun _ pair => pair, fun _ bin => bin, fun _ balance => balance⟩

@[simp] theorem apply_nothing (market : Market) : nothing.apply market = market := by
  simp [apply, nothing]

def ofMovement (movement : Movement) : Change :=
  ⟨Table.only movement.pair (onPair movement), onBin movement, onShare movement⟩

def ofPair (pair : String) (assign : PairTerms → PairTerms) : Change :=
  { nothing with pairs := Table.only pair assign }

def ofBin (place : String × ℕ) (moved : BinBalance → BinBalance) : Change :=
  { nothing with bins := Table.only place moved }

/-- Bins and shares are moved, and the deposits of a pair are left to others. -/
structure Mild (change : Change) : Prop where
  deposits : ∀ id pair x y,
    change.pairs id { pair with depositX := pair.depositX + x, depositY := pair.depositY + y } =
      { change.pairs id pair with
        depositX := (change.pairs id pair).depositX + x
        depositY := (change.pairs id pair).depositY + y }
  bins : ∀ place, ∃ move, ∀ bin, change.bins place bin = shift move bin
  shares : ∀ place, ∃ delta, ∀ balance, change.shares place balance = balance + delta

/-- Of a pair only the deposits are moved. -/
def Adds (change : Change) : Prop :=
  ∀ id, ∃ x y, ∀ pair, change.pairs id pair =
    { pair with depositX := pair.depositX + x, depositY := pair.depositY + y }

theorem shift_shift (first second : BinMove) (bin : BinBalance) :
    shift second (shift first bin) = shift first (shift second bin) := by
  simp only [shift, add_right_comm]

theorem shift_zero (lbBinId : ℕ) (bin : BinBalance) : shift ⟨lbBinId, 0, 0, 0⟩ bin = bin := by
  simp only [shift, add_zero]

variable {first second : Change}

/-- Mild changes, of which one adds, may be made in either order. -/
theorem apply_apply (mild : first.Mild) (mild' : second.Mild) (adds : first.Adds)
    (market : Market) :
    second.apply (first.apply market) = first.apply (second.apply market) := by
  have pairs : (market.pairs.amend first.pairs).amend second.pairs =
      (market.pairs.amend second.pairs).amend first.pairs :=
    Table.amend_comm fun id pair => by
      obtain ⟨x, y, added⟩ := adds id
      rw [added, added, mild'.deposits]
  have bins : (market.bins.amend first.bins).amend second.bins =
      (market.bins.amend second.bins).amend first.bins :=
    Table.amend_comm fun place bin => by
      obtain ⟨move, moved⟩ := mild.bins place
      obtain ⟨move', moved'⟩ := mild'.bins place
      rw [moved, moved, moved', moved', shift_shift]
  have shares : (market.shares.amend first.shares).amend second.shares =
      (market.shares.amend second.shares).amend first.shares :=
    Table.amend_comm fun place balance => by
      obtain ⟨delta, moved⟩ := mild.shares place
      obtain ⟨delta', moved'⟩ := mild'.shares place
      rw [moved, moved, moved', moved', add_right_comm]
  simp only [apply, pairs, bins, shares]

theorem mild_nothing : nothing.Mild where
  deposits _ _ _ _ := rfl
  bins _ := ⟨⟨0, 0, 0, 0⟩, fun bin => (shift_zero 0 bin).symm⟩
  shares _ := ⟨0, fun balance => (add_zero balance).symm⟩

theorem adds_nothing : nothing.Adds :=
  fun _ => ⟨0, 0, fun pair => by simp only [nothing, add_zero]⟩

theorem mild_ofPair {pair : String} {assign : PairTerms → PairTerms}
    (keeps : ∀ terms x y,
      assign { terms with depositX := terms.depositX + x, depositY := terms.depositY + y } =
        { assign terms with
          depositX := (assign terms).depositX + x, depositY := (assign terms).depositY + y }) :
    (ofPair pair assign).Mild where
  deposits id terms x y := by
    simp only [ofPair, Table.only]
    split
    · exact keeps terms x y
    · rfl
  bins := mild_nothing.bins
  shares := mild_nothing.shares

theorem mild_ofBin {place : String × ℕ} {move : BinMove} : (ofBin place (shift move)).Mild where
  deposits := mild_nothing.deposits
  bins other := by
    by_cases here : other = place
    · exact ⟨move, fun bin => if_pos here⟩
    · exact ⟨⟨0, 0, 0, 0⟩, fun bin => (if_neg here).trans (shift_zero 0 bin).symm⟩
  shares := mild_nothing.shares

variable {movement : Movement}

theorem mild_ofMovement : (ofMovement movement).Mild where
  deposits id pair x y := by
    simp only [ofMovement, Table.only]
    split
    · simp only [onPair, add_right_comm]
    · rfl
  bins place := by
    by_cases here : place.1 = movement.pair
    · cases moved : moveOf movement place.2 with
      | none =>
          refine ⟨⟨0, 0, 0, 0⟩, fun bin => (if_pos here).trans ?_⟩
          rw [moved, shift_zero]
          rfl
      | some move =>
          refine ⟨move, fun bin => (if_pos here).trans ?_⟩
          rw [moved]
          rfl
    · exact ⟨⟨0, 0, 0, 0⟩, fun bin => (if_neg here).trans (shift_zero 0 bin).symm⟩
  shares place := by
    by_cases here : place.1 = movement.position
    · cases moved : moveOf movement (movement.lowerBinLbId + place.2) with
      | none =>
          refine ⟨0, fun balance => (if_pos here).trans ?_⟩
          rw [moved, add_zero]
          rfl
      | some move =>
          refine ⟨move.liquidity, fun balance => (if_pos here).trans ?_⟩
          rw [moved]
          rfl
    · exact ⟨0, fun balance => (if_neg here).trans (add_zero balance).symm⟩

theorem adds_ofMovement : (ofMovement movement).Adds := by
  intro id
  by_cases here : id = movement.pair
  · exact ⟨_, _, fun pair => if_pos here⟩
  · exact ⟨0, 0, fun pair => (if_neg here).trans (by simp only [add_zero])⟩

end Change

/-! ## The changes of jobs -/

/-- What a job that opens nothing changes. -/
def change (positions : Table String PositionTerms) (job : Job) : Change :=
  match job.payload with
  | .increasePosition decoded =>
      match positions decoded.position with
      | none => .nothing
      | some terms => .ofMovement (decoded.movement terms.lower)
  | .binSwapEvent (.ok (some decoded)) =>
      .ofBin (decoded.pair, decoded.binId)
        (shift ⟨decoded.binId, decoded.net .X, decoded.net .Y, 0⟩)
  | .compositionFees decoded =>
      .ofPair decoded.pair fun pair => { pair with activeId := decoded.activeId }
  | .updatePairStaticFeeParameters decoded =>
      .ofPair decoded.pair fun pair => { pair with fees := decoded.feeParameters }
  | _ => .nothing

section Trades

variable {rpc : Rpc} {job left right : Job} {market : Market}
variable {positions : Table String PositionTerms}

theorem work_eq_apply (opens : job.Opens = false) :
    work rpc job market = (change market.positions job).apply market := by
  rcases job with ⟨message, payload⟩
  cases payload with
  | initializeBinStepConfig | initializePair | initializeBinArray | createPosition
  | positionCreationEvent => cases opens
  | increasePosition decoded =>
      simp only [work, change]
      cases market.positions decoded.position with
      | none => exact (Change.apply_nothing market).symm
      | some terms => rfl
  | binSwapEvent decoded =>
      rcases decoded with failure | decoded
      · exact (Change.apply_nothing market).symm
      · cases decoded with
        | none => exact (Change.apply_nothing market).symm
        | some decoded =>
            have whole (bin : BinBalance) :
                shift ⟨decoded.binId, decoded.net .X, decoded.net .Y, 0⟩ bin =
                  { bin with
                    reserveX := bin.reserveX + decoded.net .X
                    reserveY := bin.reserveY + decoded.net .Y } := by
              rw [shift, add_zero]
            simp only [work, cross, change, Change.ofBin, Change.apply, Change.nothing,
              Table.amend_id, funext whole]
  | compositionFees decoded =>
      simp only [work, change, Change.ofPair, Change.apply, Change.nothing, Table.amend_id]
  | updatePairStaticFeeParameters decoded =>
      simp only [work, change, Change.ofPair, Change.apply, Change.nothing, Table.amend_id]
  | rejected | ignored | swap | decreasePosition | closePosition | quoteAssetBadgeInitialization
  | quoteAssetBadgeUpdate => exact (Change.apply_nothing market).symm

theorem mild_change : (change positions job).Mild := by
  rcases job with ⟨message, payload⟩
  cases payload with
  | increasePosition decoded =>
      simp only [change]
      split
      · exact Change.mild_nothing
      · exact Change.mild_ofMovement
  | binSwapEvent decoded =>
      rcases decoded with failure | decoded
      · exact Change.mild_nothing
      · cases decoded with
        | none => exact Change.mild_nothing
        | some decoded => exact Change.mild_ofBin
  | compositionFees | updatePairStaticFeeParameters => exact Change.mild_ofPair fun _ _ _ => rfl
  | _ => exact Change.mild_nothing

theorem adds_change (sets : job.Sets = false) : (change positions job).Adds := by
  rcases job with ⟨message, payload⟩
  cases payload with
  | compositionFees | updatePairStaticFeeParameters => cases sets
  | increasePosition decoded =>
      simp only [change]
      split
      · exact Change.adds_nothing
      · exact Change.adds_ofMovement
  | binSwapEvent decoded =>
      rcases decoded with failure | decoded
      · exact Change.adds_nothing
      · cases decoded <;> exact Change.adds_nothing
  | _ => exact Change.adds_nothing

/-- A job that opens nothing leaves the positions. -/
theorem positions_work (opens : job.Opens = false) :
    (work rpc job market).positions = market.positions := by
  rw [work_eq_apply opens]
  rfl

theorem seen_work : (work rpc job market).seen = market.seen := by
  have same : work rpc job market = { work rpc job market with seen := market.seen } :=
    work_seen
  rw [same]

/-- Jobs that open nothing, of which one sets nothing, work in either order. -/
theorem work_work {rpc' : Rpc} (opens : left.Opens = false) (opens' : right.Opens = false)
    (sets : left.Sets = false) :
    work rpc' right (work rpc left market) = work rpc left (work rpc' right market) := by
  rw [work_eq_apply opens', positions_work opens, work_eq_apply opens, work_eq_apply opens,
    positions_work opens', work_eq_apply opens']
  exact Change.apply_apply mild_change mild_change (adds_change sets) market

/-- The instructions seen after one more job. -/
def note (id : Option String) (seen : String → Bool) : String → Bool :=
  fun other => decide (id = some other) || seen other

/-- The job's instruction was carried out before. -/
def done (job : Job) (seen : String → Bool) : Bool := job.instructionId.any seen

theorem step_eq : step rpc market job =
    if done job market.seen then market
    else { work rpc job market with seen := note job.instructionId market.seen } := by
  rw [step, done]
  cases job.instructionId with
  | none =>
      have same : note none market.seen = market.seen := funext fun other => Bool.false_or _
      have kept : (work rpc job market).seen = market.seen := seen_work
      rw [same, ← kept]
      rfl
  | some id =>
      have same : note (some id) market.seen = fun other => other = id || market.seen other :=
        funext fun other => by simp only [note, Option.some_inj, eq_comm]
      rw [same]
      rfl

theorem done_note (other : right.instructionId = none ∨ right.instructionId ≠ left.instructionId)
    (seen : String → Bool) : done right (note left.instructionId seen) = done right seen := by
  rw [done, done]
  cases identified : right.instructionId with
  | none => rfl
  | some id =>
      rw [identified] at other
      have fresh : left.instructionId ≠ some id :=
        fun same => other.elim nofun fun different => different same.symm
      rw [Option.any_some, Option.any_some, note, decide_eq_false fresh, Bool.false_or]

/-- A job that opens nothing does not depend on the RPC. -/
theorem step_rpc (opens : job.Opens = false) (answers : Rpc) :
    step rpc market job = step answers market job := by
  rw [step_eq, step_eq, work_eq_apply opens, work_eq_apply opens]

end Trades

/-- Launches that open nothing, of which one sets nothing, trade places. -/
theorem trade_next {left right : Launch} (opens : left.Opens = false)
    (opens' : right.Opens = false) (sets : left.Sets = false)
    (identified : ∀ id, left.instructionId = some id → right.instructionId = some id →
      left.toJob = right.toJob) : Trade next left right := by
  intro market
  by_cases same : left.toJob = right.toJob
  · have equal (market : Market) : market.next left = market.next right := by
      rw [next, next, same, step_rpc opens']
    rw [equal, equal]
  · have apart : right.instructionId = none ∨ right.instructionId ≠ left.instructionId := by
      cases named : right.instructionId with
      | none => exact .inl rfl
      | some id => exact .inr fun both => same (identified id both.symm named)
    have apart' : left.instructionId = none ∨ left.instructionId ≠ right.instructionId := by
      cases named : left.instructionId with
      | none => exact .inl rfl
      | some id => exact .inr fun both => same (identified id named both.symm)
    have notes : note right.instructionId (note left.instructionId market.seen) =
        note left.instructionId (note right.instructionId market.seen) :=
      funext fun other => Bool.or_left_comm _ _ _
    simp only [next, step_eq]
    cases before : done left.toJob market.seen <;> cases before' : done right.toJob market.seen <;>
      simp only [before, before', done_note apart, done_note apart', Bool.false_eq_true,
        if_false, if_true, work_seen, work_work opens opens' sets, notes]

end Market

/-- Two deliveries of the same launches, which open nothing, behind the same launches that
opened what they need: whatever the order, the store shows the same market, if every one of
them completed and the jobs that set terms of pairs came in one order.  Jobs may be delivered
more than once, with other answers of the RPC. -/
theorem market_any_order {opened launches launches' : List Launch} {store store' : Store}
    (ran : Sequence mongo Launch.process Launch.Small Store.empty (opened ++ launches) store)
    (ran' : Sequence mongo Launch.process Launch.Small Store.empty (opened ++ launches') store')
    (opens : ∀ launch ∈ launches, launch.Opens = false)
    (identified : ∀ id, ∀ launch ∈ launches, ∀ other ∈ launches,
      launch.instructionId = some id → other.instructionId = some id →
        launch.toJob = other.toJob)
    (reordered : launches.Perm launches')
    (kept : launches.filter (·.Sets) = launches'.filter (·.Sets)) :
    store.market = store'.market := by
  rw [(shows_of_sequence ran).2, (shows_of_sequence ran').2, List.foldl_append,
    List.foldl_append]
  refine final_perm (fun launch member free other listed => ?_) reordered kept _
  exact Market.trade_next (opens launch member) (opens other listed) free
    fun id same same' => identified id launch member other listed same same'

/-- A fee update and the initialization of a badge, in both orders. -/
theorem market_any_order_feeJob :
    (storeAfter silentRpc pairStore [feeJob, badgeJob]).market =
      (storeAfter silentRpc pairStore [badgeJob, feeJob]).market := by
  have ran : Sequence mongo Launch.process Launch.Small Store.empty
      ([configJob.silent, pairJob.silent] ++ [feeJob.silent, badgeJob.silent])
      (storeAfter silentRpc pairStore [feeJob, badgeJob]) :=
    .cons nofun completes_configJob (.cons nofun completes_pairJob (.cons nofun
      (Database.completes_of_run rfl) (.cons nofun (Database.completes_of_run rfl) (.nil _))))
  have ran' : Sequence mongo Launch.process Launch.Small Store.empty
      ([configJob.silent, pairJob.silent] ++ [badgeJob.silent, feeJob.silent])
      (storeAfter silentRpc pairStore [badgeJob, feeJob]) :=
    .cons nofun completes_configJob (.cons nofun completes_pairJob (.cons nofun
      (Database.completes_of_run rfl) (.cons nofun (Database.completes_of_run rfl) (.nil _))))
  have apart : feeJob.instructionId ≠ badgeJob.instructionId := by decide +kernel
  refine market_any_order ran ran' (by decide) (fun id launch member other listed same same' => ?_)
    (.swap _ _ []) rfl
  simp only [List.mem_cons, List.not_mem_nil, or_false] at member listed
  rcases member with rfl | rfl <;> rcases listed with rfl | rfl
  · rfl
  · exact absurd (same.trans same'.symm) apart
  · exact absurd (same'.trans same.symm) apart
  · rfl

end DlmmIndexer

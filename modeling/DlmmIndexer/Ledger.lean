import DlmmIndexer.Reserves
import DlmmIndexer.Retry

/-!
# Amounts that jobs accumulate

An increase and a swap event change an amount of a row in three steps: they read the
row, add to the text they read, and assign the sum.  What a job has added so far can
be told from its log: every assignment counts for the difference between what it
assigned and what the job had read.

A row holds what all jobs added exactly as long as no job assigns over an amount that
changed since it was read.  This module says so for one move of one job.
-/

namespace DlmmIndexer

open Documents JavaScript Atomic

/-- The amounts in bin and pair rows. -/
inductive Account where
  | binReserve (side : Side)
  | totalSupply
  | pairReserve (side : Side)
  deriving DecidableEq, Repr

namespace Account

def all : List Account :=
  [.binReserve .X, .binReserve .Y, .totalSupply, .pairReserve .X, .pairReserve .Y]

theorem mem_all (account : Account) : account ∈ all := by
  rcases account with ⟨_ | _⟩ | _ | ⟨_ | _⟩ <;> decide

@[reducible] def coll : Account → Coll
  | .binReserve _ => .bin
  | .totalSupply => .bin
  | .pairReserve _ => .pair

/-- The field of the amount. -/
def text : (account : Account) → account.coll.Row → String
  | .binReserve side => side.ofBin
  | .totalSupply => Bin.totalSupply
  | .pairReserve side => side.ofPair

/-- The amount in the row with an id, and 0 without one. -/
def balance (account : Account) (id : String) (store : Store) : ℤ :=
  (store account.coll).value id fun row => amount (account.text row)

/-- The row whose amount a round of an increase moves. -/
def rowId : Account → String → ℕ → String
  | .binReserve _, pair, lbBinId => binId pair lbBinId
  | .totalSupply, pair, lbBinId => binId pair lbBinId
  | .pairReserve _, pair, _ => pair

/-- The list element that a round of an increase adds. -/
def ofEntry : Account → BinEntry → Value
  | .binReserve side => side.ofEntry
  | .totalSupply => BinEntry.liquidity
  | .pairReserve side => side.ofEntry

end Account

namespace Job

/-- The job is an increase or a swap event. -/
def Moving (job : Job) : Bool :=
  match job.payload with
  | .increasePosition _ | .binSwapEvent _ => true
  | _ => false

/-- Where the job writes a row with this amount, it assigns the amount. -/
def assigns (job : Job) (account : Account) : Bool :=
  match job.payload, account with
  | .increasePosition _, _ => true
  | .binSwapEvent _, .binReserve _ => true
  | _, _ => false

/-- What the handler of a job adds to an amount of the row with an id. -/
def contribution (account : Account) (id : String) (job : Job) : ℤ :=
  match job.payload, account with
  | .increasePosition decoded, account =>
      (decoded.entries.map fun entry =>
        if account.rowId decoded.pair entry.lbBinId = id then (account.ofEntry entry).integer
        else 0).sum
  | .binSwapEvent (.ok (some decoded)), .binReserve side =>
      if binId decoded.pair decoded.binId = id then decoded.net side else 0
  | _, _ => 0

end Job

/-! ## Postings -/

/-- The row that a job read last, and what its assignments have added. -/
structure Posting (coll : Coll) where
  read : Option coll.Row
  added : ℤ

namespace Account

/-- By how much an assignment exceeds what was read. -/
def gain (account : Account) (update : Update account.coll.id) : Option account.coll.Row → ℤ
  | some row => amount (account.text (update.set row)) - amount (account.text row)
  | none => 0

/-- Enter one operation of a job. -/
def post (account : Account) (id : String) (posting : Posting account.coll) :
    Event Op → Posting account.coll
  | ⟨.findOne coll other, row⟩ =>
      if same : coll = account.coll ∧ other = id then { posting with read := same.1 ▸ row }
      else posting
  | ⟨.updateOne coll other update, _⟩ =>
      if same : coll = account.coll ∧ other = id then
        { posting with added := posting.added + account.gain (same.1 ▸ update) posting.read }
      else posting
  | _ => posting

/-- What the log of a job says about an amount of the row with an id. -/
def posting (account : Account) (id : String) (log : List (Event Op)) : Posting account.coll :=
  log.foldl (account.post id) ⟨none, 0⟩

variable {account : Account} {id : String}

@[simp] theorem posting_concat (log : List (Event Op)) (event : Event Op) :
    account.posting id (log ++ [event]) = account.post id (account.posting id log) event := by
  simp [posting]

@[simp] theorem post_findOne_self (posting : Posting account.coll) (row : Option account.coll.Row) :
    account.post id posting ⟨.findOne account.coll id, row⟩ = { posting with read := row } :=
  dif_pos ⟨rfl, rfl⟩

theorem post_findOne_other {posting : Posting account.coll} {coll : Coll} {other : String}
    {row : Option coll.Row} (different : ¬(coll = account.coll ∧ other = id)) :
    account.post id posting ⟨.findOne coll other, row⟩ = posting :=
  dif_neg different

@[simp] theorem post_updateOne_self (posting : Posting account.coll)
    (update : Update account.coll.id) :
    account.post id posting ⟨.updateOne account.coll id update, ()⟩ =
      { posting with added := posting.added + account.gain update posting.read } :=
  dif_pos ⟨rfl, rfl⟩

theorem post_updateOne_other {posting : Posting account.coll} {coll : Coll} {other : String}
    {update : Update coll.id} (different : ¬(coll = account.coll ∧ other = id)) :
    account.post id posting ⟨.updateOne coll other update, ()⟩ = posting :=
  dif_neg different

theorem ne_coll {coll : Coll} (bins : coll ≠ .bin) (pairs : coll ≠ .pair) :
    coll ≠ account.coll := by
  cases account with
  | binReserve | totalSupply => exact bins
  | pairReserve => exact pairs

/-- Only assignments add. -/
theorem added_post {ρ : Type} {operation : Op ρ} (other : operation.target ≠ some account.coll)
    (posting : Posting account.coll) (answer : ρ) :
    (account.post id posting ⟨operation, answer⟩).added = posting.added := by
  cases operation with
  | findOne coll id' =>
      simp only [post]
      split <;> rfl
  | updateOne coll id' update =>
      rw [post_updateOne_other fun same => other (congrArg some same.1)]
  | _ => rfl

theorem added_findOne (log : List (Event Op)) {coll : Coll} {other : String}
    {row : Option coll.Row} :
    (account.posting id (log ++ [⟨.findOne coll other, row⟩])).added =
      (account.posting id log).added := by
  rw [posting_concat, added_post (by simp [Op.target])]

theorem read_findOne {log : List (Event Op)} {coll : Coll} (same : coll = account.coll)
    {row : coll.Row} :
    (account.posting id (log ++ [⟨.findOne coll id, some row⟩])).read = some (same ▸ row) := by
  subst same
  rw [posting_concat, post_findOne_self]

end Account

/-! ## One move -/

/-- The reserves of the bins are texts of integers. -/
def IntegerReserves (store : Store) : Prop :=
  ∀ bin ∈ store .bin, ∀ side : Side, side.ofBin bin = decimal (amount (side.ofBin bin))

/-- A job that assigns an amount has read it before and assigns an integer; other
assignments keep the amount. -/
def Account.Assigned (account : Account) (job : Job) (id : String) (log : List (Event Op))
    (update : Update account.coll.id) : Prop :=
  if job.assigns account then
    (account.posting id log).read.isSome ∧
      ∃ value, ∀ row, account.text (update.set row) = decimal value
  else ∀ row, account.text (update.set row) = account.text row

/-- Amounts are moved by assignments only. -/
def Job.Permits (job : Job) (log : List (Event Op)) : {ρ : Type} → Op ρ → Prop
  | _, .updateOne coll id update => ∀ (account : Account) (same : coll = account.coll),
      account.Assigned job id log (same ▸ update)
  | _, operation => ∀ account : Account, operation.target ≠ some account.coll

/-- What an increase or a swap event counts on and owes. -/
def Job.contract (job : Job) : Contract Op Store where
  rely store := IntegerReserves store ∧ job.Small store
  permitted log operation := job.Permits log operation

namespace Account

variable {account : Account} {id : String} {update : Update account.coll.id}

theorem gain_of_keeps (keeps : ∀ row, account.text (update.set row) = account.text row)
    (read : Option account.coll.Row) : account.gain update read = 0 := by
  cases read with
  | none => rfl
  | some row => rw [gain, keeps, sub_self]

theorem added_of_keeps {log : List (Event Op)}
    (keeps : ∀ row, account.text (update.set row) = account.text row) (other : String) :
    (account.posting other (log ++ [⟨.updateOne account.coll id update, ()⟩])).added =
      (account.posting other log).added := by
  rw [posting_concat]
  by_cases here : id = other
  · subst here
    rw [post_updateOne_self, gain_of_keeps keeps, add_zero]
  · rw [post_updateOne_other fun both => here both.2]

end Account

/-- The assignment sets the amount of `row` plus `delta`, in whatever row it lands. -/
def Account.Adds (account : Account) (update : Update account.coll.id) (row : account.coll.Row)
    (delta : ℤ) : Prop :=
  ∀ other, account.text (update.set other) = decimal (amount (account.text row) + delta)

namespace Account

variable {account : Account} {id : String} {update : Update account.coll.id}
variable {row : account.coll.Row} {delta : ℤ}

theorem Adds.gain (adds : account.Adds update row delta) :
    account.gain update (some row) = delta := by
  rw [Account.gain, adds row, amount_decimal]
  omega

/-- Assigning what was read plus something adds just that. -/
theorem Adds.added {log : List (Event Op)} (adds : account.Adds update row delta)
    (read : (account.posting id log).read = some row) (other : String) :
    (account.posting other (log ++ [⟨.updateOne account.coll id update, ()⟩])).added =
      (account.posting other log).added + if id = other then delta else 0 := by
  rw [posting_concat]
  by_cases here : id = other
  · subst here
    rw [post_updateOne_self, if_pos rfl, read, adds.gain]
  · rw [post_updateOne_other fun both => here both.2, if_neg here, add_zero]

theorem Adds.assigned {job : Job} {log : List (Event Op)} (adds : account.Adds update row delta)
    (read : (account.posting id log).read = some row) (assigns : job.assigns account = true) :
    account.Assigned job id log update := by
  rw [Assigned, if_pos assigns, read]
  exact ⟨rfl, _, adds⟩

end Account

section Contract

variable {job : Job} {log : List (Event Op)} {coll : Coll}

theorem obeys_findOne {id : String} {post : List (Event Op) → Option coll.Row → Prop}
    (found : ∀ store : Store, IntegerReserves store → job.Small store →
      post (log ++ [⟨.findOne coll id, (store coll).findOne id⟩]) ((store coll).findOne id)) :
    (findOne coll id).Obeys mongo job.contract post log := by
  refine ⟨fun _ => nofun, fun store row after reliable applied => ?_⟩
  cases applied
  exact found store reliable.1 reliable.2

theorem obeys_create {row : coll.Row} {post : List (Event Op) → Unit → Prop} (bins : coll ≠ .bin)
    (pairs : coll ≠ .pair) (created : post (log ++ [⟨.create coll row, ()⟩]) ()) :
    (create coll row).Obeys mongo job.contract post log :=
  ⟨fun _ same => Account.ne_coll bins pairs (Option.some.inj same), fun _ _ _ _ _ => created⟩

theorem obeys_updateOne {id : String} {update : Update coll.id}
    {post : List (Event Op) → Unit → Prop}
    (assigned : ∀ (account : Account) (same : coll = account.coll),
      account.Assigned job id log (same ▸ update))
    (updated : post (log ++ [⟨.updateOne coll id update, ()⟩]) ()) :
    (updateOne coll id update).Obeys mongo job.contract post log :=
  ⟨assigned, fun _ _ _ _ _ => updated⟩

end Contract

/-- The row that the next operation of an attempt assigns to, if it does. -/
def Attempt.assigning (attempt : Attempt) : Option (Coll × String) :=
  match attempt.program with
  | .op (.updateOne coll id _) _ => some (coll, id)
  | _ => none

/-- Each amount that the attempt is about to assign still is, in the row, what the
attempt read. -/
def Fresh (store : Store) (attempt : Attempt) : Prop :=
  ∀ row ∈ attempt.assigning, ∀ account ∈ Account.all, account.coll = row.1 →
    attempt.job.assigns account = true →
      ((store account.coll).findOne row.2).map account.text =
        (account.posting row.2 attempt.log).read.map account.text

instance (store : Store) (attempt : Attempt) : Decidable (Fresh store attempt) :=
  inferInstanceAs (Decidable (∀ row ∈ attempt.assigning, ∀ account ∈ Account.all,
    account.coll = row.1 → attempt.job.assigns account = true →
      ((store account.coll).findOne row.2).map account.text =
        (account.posting row.2 attempt.log).read.map account.text))

/-- The event of a swap event job that was decoded. -/
def Job.swapEvent (job : Job) : Option Swap.BinSwapEventDecoded :=
  match job.payload with
  | .binSwapEvent (.ok decoded) => decoded
  | _ => none

theorem Job.swapEvent_eq_some {job : Job} {decoded : Swap.BinSwapEventDecoded} :
    job.swapEvent = some decoded ↔ job.payload = .binSwapEvent (.ok (some decoded)) := by
  rcases job with ⟨message, payload⟩
  cases payload with
  | binSwapEvent event => cases event <;> simp [Job.swapEvent]
  | _ => simp [Job.swapEvent]

instance (store : Store) (job : Job) : Decidable (job.Small store) :=
  decidable_of_iff
    (∀ decoded ∈ job.swapEvent,
      decoded.amountIn < 2 ^ 53 ∧ decoded.protocolFee < 2 ^ 53 ∧ decoded.amountOut < 2 ^ 53 ∧
      ∀ bin ∈ (store .bin).findOne (binId decoded.pair decoded.binId), ∀ side ∈ [Side.X, Side.Y],
        (amount (side.ofBin bin)).natAbs < 2 ^ 53 ∧
        (amount (side.ofBin bin) + decoded.net side).natAbs < 2 ^ 53)
    (by
      have both (side : Side) : side ∈ [Side.X, Side.Y] := by cases side <;> decide
      simp only [Option.mem_def, Job.swapEvent_eq_some, both, true_imp_iff]
      rfl)

section Move

variable {job : Job} {store after : Store} {log : List (Event Op)}

/-- A fresh assignment moves the amount by its gain. -/
theorem Account.value_updateOne {account : Account} {id : String}
    {update : Update account.coll.id} (assigned : account.Assigned job id log update)
    (fresh : job.assigns account = true →
      ((store account.coll).findOne id).map account.text =
        (account.posting id log).read.map account.text) (other : String) :
    ((store account.coll).updateOne id update).value other (fun row => amount (account.text row)) =
      account.balance other store +
        if id = other then account.gain update (account.posting id log).read else 0 := by
  cases assigns : job.assigns account with
  | false =>
      rw [Assigned, if_neg (by rw [assigns]; exact Bool.false_ne_true)] at assigned
      rw [Collection.value_updateOne_of_same (fun row => amount (account.text row))
        (fun row => congrArg amount (assigned row)), gain_of_keeps assigned, ite_self, add_zero,
        balance]
  | true =>
      rw [Assigned, if_pos assigns] at assigned
      obtain ⟨known, value, constant⟩ := assigned
      obtain ⟨row, read⟩ := Option.isSome_iff_exists.mp known
      have current := fresh assigns
      rw [read, Option.map_some, Option.map_eq_some_iff] at current
      obtain ⟨old, found, same⟩ := current
      rw [Collection.value_updateOne found (account.gain update (some row)), read, balance]
      rw [gain, constant, constant, same]
      omega

/-- An assignment keeps integers in the reserves of bins. -/
theorem integerReserves_updateOne {id : String} {update : Update Bin.id}
    (integers : IntegerReserves store)
    (assigned : ∀ side, (Account.binReserve side).Assigned job id log update) :
    IntegerReserves (store.put .bin ((store .bin).updateOne id update)) := by
  intro bin member side
  rw [Store.put_same] at member
  refine Collection.forall_mem_updateOne (fun bin old => integers bin old side)
    (fun row _ held => ?_) bin member
  have assigned := assigned side
  rw [Account.Assigned] at assigned
  split at assigned
  · obtain ⟨-, value, constant⟩ := assigned
    rw [show side.ofBin (update.set row) = decimal value from constant row, amount_decimal]
  · rw [show side.ofBin (update.set row) = side.ofBin row from assigned row]
    exact held

/-- The store has moved by what the log has gained. -/
structure Posted (store after : Store) (log longer : List (Event Op)) : Prop where
  integers : IntegerReserves after
  balance : ∀ (account : Account) (id : String),
    account.balance id after + (account.posting id log).added =
      account.balance id store + (account.posting id longer).added

/-- Nothing moves where no amount is written. -/
theorem posted_of_same (integers : IntegerReserves store)
    (same : ∀ account : Account, after account.coll = store account.coll)
    {longer : List (Event Op)}
    (added : ∀ (account : Account) (id : String),
      (account.posting id longer).added = (account.posting id log).added) :
    Posted store after log longer := by
  refine ⟨?_, fun account id => by rw [Account.balance, same, added, Account.balance]⟩
  rw [IntegerReserves, same .totalSupply]
  exact integers

/-- An operation that is performed moves the amounts by what it posts. -/
theorem posted_of_apply {launch : Launch} {ρ : Type} {operation : Op ρ} {next : ρ → Action Unit}
    {answer : ρ} (permitted : launch.Permits log operation)
    (fresh : Fresh store ⟨launch, .op operation next, log⟩)
    (integers : IntegerReserves store) (applied : operation.apply store = (.ok answer, after)) :
    Posted store after log (log ++ [⟨operation, answer⟩]) := by
  have unwritten (silent : ∀ account : Account, operation.target ≠ some account.coll) :
      Posted store after log (log ++ [⟨operation, answer⟩]) := by
    refine posted_of_same integers (fun account => ?_) fun account id => ?_
    · rw [← (Op.frame (silent account) store).1, applied]
    · rw [Account.posting_concat, Account.added_post (silent account)]
  cases operation with
  | updateOne coll id update =>
      have done : mongo.Completes (updateOne coll id update) store answer after :=
        Database.completes_perform.mpr applied
      obtain ⟨-, rfl⟩ := completes_updateOne.mp done
      refine ⟨?_, fun account other => ?_⟩
      · by_cases bins : coll = .bin
        · subst bins
          exact integerReserves_updateOne integers fun side => permitted (.binReserve side) rfl
        · rw [IntegerReserves, Store.put_other (Ne.symm bins)]
          exact integers
      · rw [Account.posting_concat, Account.balance]
        by_cases same : coll = account.coll
        · subst same
          rw [Store.put_same, Account.value_updateOne (permitted account rfl)
            (fresh _ rfl account account.mem_all rfl)]
          by_cases here : id = other
          · subst here
            rw [if_pos rfl, Account.post_updateOne_self]
            dsimp only
            omega
          · rw [if_neg here, Account.post_updateOne_other fun both => here both.2, add_zero]
        · rw [Store.put_other (Ne.symm same), Account.balance,
            Account.post_updateOne_other fun both => same both.1]
  | _ => exact unwritten permitted

/-- An operation that does not succeed moves nothing. -/
theorem posted_of_failure {ρ : Type} {operation : Op ρ} (failure : Failure)
    (permitted : job.Permits log operation) (integers : IntegerReserves store)
    (failed : operation.apply store = (.error failure, after) ∨ operation.fails store after) :
    Posted store after log log := by
  refine posted_of_same integers (fun account => ?_) fun _ _ => rfl
  have unwritten (silent : operation.target ≠ some account.coll) :
      after account.coll = store account.coll := by
    rcases failed with rejected | failed
    · rw [← (Op.frame silent store).1, rejected]
    · exact (Op.frame silent store).2 after failed
  cases operation with
  | updateOne coll id update =>
      rcases failed with rejected | failed
      · simp only [Op.apply] at rejected
        split at rejected <;> cases rejected
        rfl
      · exact congrFun failed account.coll
  | _ => exact unwritten (permitted account)

/-- A move of a job that keeps its contract moves the amounts by what it posts. -/
theorem posted_of_moves {attempt attempt' : Attempt} {post : List (Event Op) → Unit → Prop}
    (moves : Moves mongo store attempt after attempt')
    (obeys : attempt.program.Obeys mongo attempt.job.contract post attempt.log)
    (fresh : Fresh store attempt) (integers : IntegerReserves store) :
    Posted store after attempt.log attempt'.log := by
  cases moves with
  | perform applied => exact posted_of_apply obeys.1 fresh integers applied
  | reject rejected => exact posted_of_failure _ obeys.1 integers (.inl rejected)
  | fault failure failed => exact posted_of_failure failure obeys.1 integers (.inr failed)

end Move

end DlmmIndexer

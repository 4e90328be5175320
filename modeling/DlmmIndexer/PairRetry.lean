import DlmmIndexer.Elsewhere
import DlmmIndexer.Worker

/-!
# Pair initializations that are retried

The job of a pair inserts the mints of the pair and the pair one after another, and can
stop between any two operations.  A retry finds the rows that an earlier attempt left, and
they are the rows it would insert itself.  So after any number of attempts, one that
completes leaves the pair and its mints as a single run does.
-/

namespace DlmmIndexer

open Documents JavaScript Atomic

namespace InitializePair

/-- The ids of the rows that the initialization of a pair can insert. -/
def own (decoded : InitializePairDecoded) : Coll → String → Bool
  | .pair, id => id = decoded.pair
  | .tokenMint, id => id = decoded.tokenMintX || id = decoded.tokenMintY
  | _, _ => false

/-- The operation neither reads nor writes those rows, and does not change the config of
the pair once it is there. -/
def Avoids (decoded : InitializePairDecoded) {ρ : Type} (operation : Op ρ) : Prop :=
  operation.Avoids (own decoded) ∧ operation.Spares .binStepConfig decoded.binStepConfig

/-! ## Attempts -/

/-- The answers of another attempt: a lookup of a mint's account fails with a message, or
gives what it always gives. -/
def Consistent (decoded : InitializePairDecoded) (rpc attempt : MintRpc) : Prop :=
  ∀ tokenMintId, own decoded .tokenMint tokenMintId = true →
    attempt.fetchTokenMetadata tokenMintId = rpc.fetchTokenMetadata tokenMintId ∧
    (attempt.fetchTokenInfo tokenMintId = rpc.fetchTokenInfo tokenMintId ∨
      ∃ error, (attempt.fetchTokenInfo tokenMintId).error = some error ∧ error ≠ "")

/-- What happens between a store and its like without the attempts, and the same two
stores later. -/
inductive Retried (decoded : InitializePairDecoded) (rpc : MintRpc) (start : Store) :
    Store → Store → Prop where
  | start : Retried decoded rpc start start start
  /-- An attempt that stops somewhere. -/
  | stopped {attempt : MintRpc} {ideal store after : Store}
      (retried : Retried decoded rpc start ideal store)
      (consistent : Consistent decoded rpc attempt)
      (stops : mongo.Stops (processInitializePair attempt decoded) store after) :
      Retried decoded rpc start ideal after
  /-- An attempt that completes. -/
  | completed {attempt : MintRpc} {ideal store after : Store}
      (retried : Retried decoded rpc start ideal store)
      (consistent : Consistent decoded rpc attempt)
      (completes : mongo.Completes (processInitializePair attempt decoded) store () after) :
      Retried decoded rpc start ideal after
  /-- Another job, whatever it is. -/
  | other {ideal store : Store} (program : Action Unit)
      (retried : Retried decoded rpc start ideal store)
      (avoids : mongo.Performs (fun {_} operation => Avoids decoded operation) program store) :
      Retried decoded rpc start (mongo.run program ideal).2 (mongo.run program store).2

/-- What a store has that attempts have come to, next to its like without them: mints that
were not there, and the pair after its mints. -/
structure Underway (decoded : InitializePairDecoded) (rpc : MintRpc) (start ideal store : Store) :
    Prop where
  same : SameElsewhere (own decoded) ideal store
  started : ∀ coll id, own decoded coll id = true →
    (ideal coll).findOne id = (start coll).findOne id
  tokenMint : ∀ id, own decoded .tokenMint id = true →
    (store .tokenMint).findOne id = (start .tokenMint).findOne id ∨
      (start .tokenMint).findOne id = none ∧ ∃ tokenMint,
        tokenMintData rpc id = .ok tokenMint ∧ (store .tokenMint).findOne id = some tokenMint
  pair : (store .pair).findOne decoded.pair = (start .pair).findOne decoded.pair ∨
    (start .pair).findOne decoded.pair = none ∧ ∃ config mintX mintY,
      (store .binStepConfig).findOne decoded.binStepConfig = some config ∧
      (store .tokenMint).findOne decoded.tokenMintX = some mintX ∧
      (store .tokenMint).findOne decoded.tokenMintY = some mintY ∧
      (store .pair).findOne decoded.pair = some (pairData decoded config mintX mintY)
  untouched : (start .pair).findOne decoded.pair ≠ none → ∀ id,
    own decoded .tokenMint id = true →
      (store .tokenMint).findOne id = (start .tokenMint).findOne id

section Underway

variable {decoded : InitializePairDecoded} {rpc attempt : MintRpc}
variable {start ideal store after : Store}

theorem own_pair : own decoded .pair decoded.pair = true := decide_eq_true rfl

theorem own_mintX : own decoded .tokenMint decoded.tokenMintX = true := by
  simp [own]

theorem own_mintY : own decoded .tokenMint decoded.tokenMintY = true := by
  simp [own]

theorem Underway.refl : Underway decoded rpc start start start where
  same _ := rfl
  started _ _ _ := rfl
  tokenMint _ _ := .inl rfl
  pair := .inl rfl
  untouched _ _ _ := rfl

/-- The store without the attempts has come to nothing yet. -/
theorem Underway.alone (underway : Underway decoded rpc start ideal store) :
    Underway decoded rpc start ideal ideal where
  same _ := rfl
  started := underway.started
  tokenMint id mine := .inl (underway.started .tokenMint id mine)
  pair := .inl (underway.started .pair decoded.pair own_pair)
  untouched _ id mine := underway.started .tokenMint id mine

/-- What was there at the start stays as it was. -/
theorem Underway.found_of_start (underway : Underway decoded rpc start ideal store) {coll : Coll}
    {id : String} {row : coll.Row} (mine : own decoded coll id = true)
    (found : (start coll).findOne id = some row) : (store coll).findOne id = some row := by
  cases coll with
  | tokenMint =>
      rcases underway.tokenMint id mine with same | ⟨none, -⟩
      · exact same.trans found
      · exact absurd (found.symm.trans none) (Option.some_ne_none row)
  | pair =>
      obtain rfl : id = decoded.pair := of_decide_eq_true mine
      rcases underway.pair with same | ⟨none, -⟩
      · exact same.trans found
      · exact absurd (found.symm.trans none) (Option.some_ne_none row)
  | _ => cases mine

/-- An operation of another job keeps two stores alike. -/
theorem Underway.apply {ρ : Type} {operation : Op ρ}
    (underway : Underway decoded rpc start ideal store) (avoids : Avoids decoded operation) :
    Underway decoded rpc start (operation.apply ideal).2 (operation.apply store).2 where
  same := (underway.same.apply (fun _ => rfl) avoids.1).2
  started coll id mine := (avoids.1.findOne_apply mine).trans (underway.started coll id mine)
  tokenMint id mine := by
    rw [avoids.1.findOne_apply mine]
    exact underway.tokenMint id mine
  pair := by
    rw [avoids.1.findOne_apply own_pair, avoids.1.findOne_apply own_mintX,
      avoids.1.findOne_apply own_mintY]
    refine underway.pair.imp_right (And.imp_right ?_)
    rintro ⟨config, mintX, mintY, configured, rest⟩
    exact ⟨config, mintX, mintY, avoids.2.findOne_apply configured, rest⟩
  untouched present id mine := by
    rw [avoids.1.findOne_apply mine]
    exact underway.untouched present id mine

theorem Underway.run {program : Action Unit} (underway : Underway decoded rpc start ideal store)
    (avoids : mongo.Performs (fun {_} operation => Avoids decoded operation) program store) :
    Underway decoded rpc start (mongo.run program ideal).2 (mongo.run program store).2 := by
  induction program generalizing ideal store with
  | pure => exact underway
  | throw => exact underway
  | op operation next ih =>
      have alike := underway.apply avoids.1
      have answers := (underway.same.apply (fun _ => rfl) avoids.1.1).1
      have later := avoids.2
      rw [Database.run, Database.run]
      change Underway decoded rpc start (mongo.apply operation ideal).2
        (mongo.apply operation store).2 at alike
      change (mongo.apply operation ideal).1 = (mongo.apply operation store).1 at answers
      rcases idealApplied : mongo.apply operation ideal with ⟨idealAnswer, idealAfter⟩
      rw [idealApplied] at alike answers
      rcases applied : mongo.apply operation store with ⟨failure | answer, storeAfter⟩
      · rw [applied] at alike answers
        obtain rfl : idealAnswer = .error failure := answers
        exact alike
      · rw [applied] at alike answers
        obtain rfl : idealAnswer = .ok answer := answers
        exact ih answer alike (later answer storeAfter applied)

/-! ### Rows that attempts insert -/

theorem id_of_tokenMintData {id : String} {tokenMint : TokenMint}
    (answered : tokenMintData rpc id = .ok tokenMint) : tokenMint.id = id := by
  rw [tokenMintData] at answered
  split at answered
  · cases answered
  · cases answered
    rfl

/-- The data of a mint are the same in every attempt that gets them. -/
theorem Consistent.tokenMintData (consistent : Consistent decoded rpc attempt) {id : String}
    (mine : own decoded .tokenMint id = true) {tokenMint : TokenMint}
    (answered : tokenMintData attempt id = .ok tokenMint) :
    InitializePair.tokenMintData rpc id = .ok tokenMint := by
  obtain ⟨metadata, info | ⟨error, failed, nonempty⟩⟩ := consistent id mine
  · rwa [InitializePair.tokenMintData, ← info, ← metadata]
  · rw [InitializePair.tokenMintData, failed] at answered
    simp [Option.filter, nonempty] at answered

/-- A row that an attempt inserts. -/
inductive Adds (decoded : InitializePairDecoded) (rpc : MintRpc) (store : Store) :
    Store → Prop where
  | tokenMint {tokenMint : TokenMint} {rows : Collection TokenMint.id}
      (mine : own decoded .tokenMint tokenMint.id = true)
      (absent : (store .pair).findOne decoded.pair = none)
      (answered : tokenMintData rpc tokenMint.id = .ok tokenMint)
      (created : (store .tokenMint).create tokenMint = some rows) :
      Adds decoded rpc store (store.put .tokenMint rows)
  | pair {config : BinStepConfig} {mintX mintY : TokenMint} {rows : Collection Pair.id}
      (configured : (store .binStepConfig).findOne decoded.binStepConfig = some config)
      (foundX : (store .tokenMint).findOne decoded.tokenMintX = some mintX)
      (foundY : (store .tokenMint).findOne decoded.tokenMintY = some mintY)
      (created : (store .pair).create (pairData decoded config mintX mintY) = some rows) :
      Adds decoded rpc store (store.put .pair rows)

/-- A row of the pair or its mints that is not there now was not there at the start. -/
theorem Underway.absent_pair (underway : Underway decoded rpc start ideal store)
    (absent : (store .pair).findOne decoded.pair = none) :
    (start .pair).findOne decoded.pair = none := by
  rcases underway.pair with same | ⟨none, -⟩
  · rw [← same, absent]
  · exact none

theorem Underway.absent_tokenMint (underway : Underway decoded rpc start ideal store) {id : String}
    (mine : own decoded .tokenMint id = true) (absent : (store .tokenMint).findOne id = none) :
    (start .tokenMint).findOne id = none := by
  rcases underway.tokenMint id mine with same | ⟨none, -⟩
  · rw [← same, absent]
  · exact none

/-- What an attempt inserts keeps the two stores alike. -/
theorem Underway.adds (underway : Underway decoded rpc start ideal store)
    (adds : Adds decoded rpc store after) : Underway decoded rpc start ideal after := by
  cases adds with
  | @tokenMint tokenMint rows mine absent answered created =>
      have noPair := underway.absent_pair absent
      have noMint := underway.absent_tokenMint mine (Collection.fresh_of_create created)
      refine ⟨underway.same.create mine created, underway.started, fun id idMine => ?_, ?_,
        fun present => absurd noPair present⟩
      · rw [Store.put_same]
        by_cases here : tokenMint.id = id
        · subst here
          exact .inr ⟨noMint, tokenMint, answered, Collection.findOne_create_self created⟩
        · rw [Collection.findOne_create_of_ne created here]
          exact underway.tokenMint id idMine
      · rw [Store.put_other (by decide), absent, noPair]
        exact .inl rfl
  | @pair config mintX mintY rows configured foundX foundY created =>
      have noPair := underway.absent_pair (Collection.fresh_of_create created)
      refine ⟨underway.same.create own_pair created, underway.started, underway.tokenMint, ?_,
        fun present => absurd noPair present⟩
      refine .inr ⟨noPair, config, mintX, mintY, configured, foundX, foundY, ?_⟩
      rw [Store.put_same]
      exact Collection.findOne_create_self created

theorem Underway.grown (underway : Underway decoded rpc start ideal store)
    (grown : Relation.ReflTransGen (Adds decoded rpc) store after) :
    Underway decoded rpc start ideal after := by
  induction grown with
  | refl => exact underway
  | tail _ adds ih => exact ih.adds adds

/-- What an attempt inserts leaves the rows that were there. -/
theorem found_of_grown (grown : Relation.ReflTransGen (Adds decoded rpc) store after) {coll : Coll}
    {id : String} {row : coll.Row} (found : (store coll).findOne id = some row) :
    (after coll).findOne id = some row := by
  induction grown with
  | refl => exact found
  | tail _ adds ih =>
      cases adds with
      | tokenMint _ _ _ created | pair _ _ _ created =>
          exact Store.findOne_put_create created ih

/-- Awaiting a mint inserts its row, or finds it. -/
theorem grown_handleTokenMint {id : String} {tokenMint : TokenMint}
    (consistent : Consistent decoded rpc attempt) (mine : own decoded .tokenMint id = true)
    (absent : (store .pair).findOne decoded.pair = none)
    (completes : mongo.Completes (handleTokenMint attempt id) store tokenMint after) :
    Relation.ReflTransGen (Adds decoded rpc) store after ∧
      (after .tokenMint).findOne id = some tokenMint := by
  have finished := completes_findOne_bind.mp completes
  cases found : (store .tokenMint).findOne id with
  | some existing =>
      rw [found] at finished
      obtain ⟨rfl, rfl⟩ := Database.completes_return.mp finished
      exact ⟨.refl, found⟩
  | none =>
      rw [found] at finished
      obtain ⟨row, answered, finished⟩ := Database.completes_ofExcept_bind.mp finished
      obtain ⟨_, _, inserted, returned⟩ := Database.completes_bind.mp finished
      obtain ⟨rows, created, -, rfl⟩ := completes_create.mp inserted
      obtain ⟨rfl, rfl⟩ := Database.completes_return.mp returned
      obtain rfl := id_of_tokenMintData answered
      refine ⟨.single (.tokenMint mine absent (consistent.tokenMintData mine answered) created), ?_⟩
      rw [Store.put_same]
      exact Collection.findOne_create_self created

/-- Awaiting a mint that stops has inserted nothing. -/
theorem of_stops_handleTokenMint {id : String}
    (stops : mongo.Stops (handleTokenMint attempt id) store after) : after = store := by
  rcases of_stops_findOne_bind stops with same | stops
  · exact same
  cases found : (store .tokenMint).findOne id with
  | some existing =>
      rw [found] at stops
      exact absurd stops Database.not_stops_return
  | none =>
      rw [found] at stops
      rcases Database.stops_bind.mp stops with failed | ⟨row, _, answered, inserting⟩
      · exact (Database.stops_ofExcept.mp failed).2
      obtain ⟨-, rfl⟩ := Database.completes_ofExcept.mp answered
      rcases Database.stops_bind.mp inserting with rejected | ⟨_, _, -, returning⟩
      · exact of_stops_create rejected
      · exact absurd returning Database.not_stops_return

/-- What an attempt that stops has inserted. -/
theorem grown_of_stops (consistent : Consistent decoded rpc attempt)
    (stops : mongo.Stops (processInitializePair attempt decoded) store after) :
    Relation.ReflTransGen (Adds decoded rpc) store after := by
  rcases of_stops_findOne_bind stops with rfl | stops
  · exact .refl
  cases absent : (store .pair).findOne decoded.pair with
  | some existing =>
      rw [absent] at stops
      exact absurd stops Database.not_stops_return
  | none =>
      rw [absent] at stops
      rcases of_stops_find_bind stops with rfl | stops
      · exact .refl
      rcases of_stops_findOne_bind stops with rfl | stops
      · exact .refl
      cases configured : (store .binStepConfig).findOne decoded.binStepConfig with
      | none =>
          rw [configured] at stops
          cases stops
          exact .refl
      | some config =>
          rw [configured] at stops
          rcases Database.stops_bind.mp stops with first | ⟨mintX, middle, awaitedX, stops⟩
          · rw [of_stops_handleTokenMint first]
          obtain ⟨grownX, -⟩ := grown_handleTokenMint consistent own_mintX absent awaitedX
          have absent' : (middle .pair).findOne decoded.pair = none := by
            rw [handleTokenMint_within.completes (by decide) awaitedX, absent]
          rcases Database.stops_bind.mp stops with second | ⟨mintY, last, awaitedY, stops⟩
          · rwa [of_stops_handleTokenMint second]
          obtain ⟨grownY, -⟩ := grown_handleTokenMint consistent own_mintY absent' awaitedY
          rw [of_stops_create stops]
          exact grownX.trans grownY

/-- What an attempt that completes has inserted; the pair is there after it. -/
theorem grown_of_completes (consistent : Consistent decoded rpc attempt)
    (completes : mongo.Completes (processInitializePair attempt decoded) store () after) :
    Relation.ReflTransGen (Adds decoded rpc) store after ∧
      (after .pair).findOne decoded.pair ≠ none := by
  have finished := completes_findOne_bind.mp completes
  cases absent : (store .pair).findOne decoded.pair with
  | some existing =>
      rw [absent] at finished
      obtain ⟨-, rfl⟩ := Database.completes_return.mp finished
      rw [absent]
      exact ⟨.refl, Option.some_ne_none existing⟩
  | none =>
      rw [absent] at finished
      obtain ⟨_, _, listed, finished⟩ := Database.completes_bind.mp finished
      obtain ⟨-, rfl⟩ := completes_find.mp listed
      obtain ⟨config, configured, finished⟩ := of_completes_needed finished rfl
      obtain ⟨mintX, middle, awaitedX, finished⟩ := Database.completes_bind.mp finished
      obtain ⟨mintY, last, awaitedY, inserted⟩ := Database.completes_bind.mp finished
      obtain ⟨rows, created, -, rfl⟩ := completes_create.mp inserted
      obtain ⟨grownX, foundX⟩ := grown_handleTokenMint consistent own_mintX absent awaitedX
      have absent' : (middle .pair).findOne decoded.pair = none := by
        rw [handleTokenMint_within.completes (by decide) awaitedX, absent]
      obtain ⟨grownY, foundY⟩ := grown_handleTokenMint consistent own_mintY absent' awaitedY
      have configured' : (last .binStepConfig).findOne decoded.binStepConfig = some config := by
        rw [handleTokenMint_within.completes (by decide) awaitedY,
          handleTokenMint_within.completes (by decide) awaitedX, configured]
      refine ⟨(grownX.trans grownY).tail
        (.pair configured' (found_of_grown grownY foundX) foundY created), ?_⟩
      have named := Collection.findOne_create_self created
      rw [Store.put_same]
      exact fun none => Option.some_ne_none _ (named.symm.trans none)

/-! ### An attempt without failure -/

theorem Consistent.refl : Consistent decoded rpc rpc := fun _ _ => ⟨rfl, .inl rfl⟩

theorem exists_completes_handleTokenMint {id : String} (known :
      (store .tokenMint).findOne id = none → ∃ tokenMint, tokenMintData rpc id = .ok tokenMint) :
    ∃ tokenMint after, mongo.Completes (handleTokenMint rpc id) store tokenMint after := by
  cases found : (store .tokenMint).findOne id with
  | some existing =>
      refine ⟨existing, store, completes_findOne_bind.mpr ?_⟩
      rw [found]
      exact Database.completes_return.mpr ⟨rfl, rfl⟩
  | none =>
      obtain ⟨tokenMint, answered⟩ := known found
      have fresh : (store .tokenMint).findOne tokenMint.id = none :=
        id_of_tokenMintData answered ▸ found
      obtain ⟨rows, created⟩ := Collection.exists_create fresh
      refine ⟨tokenMint, store.put .tokenMint rows, completes_findOne_bind.mpr ?_⟩
      rw [found]
      refine Database.completes_ofExcept_bind.mpr ⟨tokenMint, answered, ?_⟩
      exact Database.completes_bind.mpr ⟨(), _, completes_create.mpr ⟨rows, created, rfl, rfl⟩,
        Database.completes_return.mpr ⟨rfl, rfl⟩⟩

/-- With the config there and the mints known, an attempt without failure completes. -/
theorem exists_completes {config : BinStepConfig}
    (configured : (store .binStepConfig).findOne decoded.binStepConfig = some config)
    (known : ∀ id, own decoded .tokenMint id = true → (store .tokenMint).findOne id = none →
      ∃ tokenMint, tokenMintData rpc id = .ok tokenMint) :
    ∃ after, mongo.Completes (processInitializePair rpc decoded) store () after := by
  cases absent : (store .pair).findOne decoded.pair with
  | some existing =>
      refine ⟨store, completes_findOne_bind.mpr ?_⟩
      rw [absent]
      exact Database.completes_return.mpr ⟨rfl, rfl⟩
  | none =>
      obtain ⟨mintX, middle, awaitedX⟩ := exists_completes_handleTokenMint (known _ own_mintX)
      obtain ⟨grown, -⟩ := grown_handleTokenMint Consistent.refl own_mintX absent awaitedX
      have known' : (middle .tokenMint).findOne decoded.tokenMintY = none →
          ∃ tokenMint, tokenMintData rpc decoded.tokenMintY = .ok tokenMint := by
        intro missing
        refine known _ own_mintY (Option.eq_none_iff_forall_ne_some.mpr fun old found => ?_)
        exact Option.some_ne_none _ ((found_of_grown grown found).symm.trans missing)
      obtain ⟨mintY, last, awaitedY⟩ := exists_completes_handleTokenMint known'
      have fresh : (last .pair).findOne (pairData decoded config mintX mintY).id = none := by
        rw [handleTokenMint_within.completes (by decide) awaitedY,
          handleTokenMint_within.completes (by decide) awaitedX]
        exact absent
      obtain ⟨rows, created⟩ := Collection.exists_create fresh
      refine ⟨last.put .pair rows, completes_findOne_bind.mpr ?_⟩
      rw [absent]
      refine Database.completes_bind.mpr ⟨_, _, completes_find.mpr ⟨rfl, rfl⟩, ?_⟩
      refine completes_found configured ?_
      refine Database.completes_bind.mpr ⟨_, _, awaitedX, ?_⟩
      exact Database.completes_bind.mpr ⟨_, _, awaitedY,
        completes_create.mpr ⟨rows, created, rfl, rfl⟩⟩

/-! ### What completed attempts come to -/

/-- Once the pair is there, so are its mints, unless the pair was there at the start. -/
theorem Underway.found_tokenMint (underway : Underway decoded rpc start ideal store)
    (absent : (start .pair).findOne decoded.pair = none)
    (present : (store .pair).findOne decoded.pair ≠ none) {id : String}
    (mine : own decoded .tokenMint id = true) : (store .tokenMint).findOne id ≠ none := by
  rcases underway.pair with same | ⟨-, config, mintX, mintY, -, foundX, foundY, -⟩
  · exact absurd (same.trans absent) present
  · have either : id = decoded.tokenMintX ∨ id = decoded.tokenMintY := by
      simpa [own] using mine
    rcases either with rfl | rfl
    · rw [foundX]
      exact Option.some_ne_none mintX
    · rw [foundY]
      exact Option.some_ne_none mintY

theorem Underway.tokenMint_eq {left right : Store}
    (leftWay : Underway decoded rpc start ideal left)
    (rightWay : Underway decoded rpc start ideal right)
    (leftPair : (left .pair).findOne decoded.pair ≠ none)
    (rightPair : (right .pair).findOne decoded.pair ≠ none) {id : String}
    (mine : own decoded .tokenMint id = true) :
    (left .tokenMint).findOne id = (right .tokenMint).findOne id := by
  by_cases absent : (start .pair).findOne decoded.pair = none
  swap
  · rw [leftWay.untouched absent id mine, rightWay.untouched absent id mine]
  have foundLeft := leftWay.found_tokenMint absent leftPair mine
  have foundRight := rightWay.found_tokenMint absent rightPair mine
  rcases leftWay.tokenMint id mine with same | ⟨none, tokenMint, answered, found⟩
  · rcases rightWay.tokenMint id mine with same' | ⟨none, -⟩
    · rw [same, same']
    · exact absurd (same.trans none) foundLeft
  · rcases rightWay.tokenMint id mine with same | ⟨-, tokenMint', answered', found'⟩
    · exact absurd (same.trans none) foundRight
    · cases answered.symm.trans answered'
      rw [found, found']

/-- Two stores that attempts at the pair have come to, and that have it, are the same. -/
theorem Underway.findOne_eq {left right : Store}
    (leftWay : Underway decoded rpc start ideal left)
    (rightWay : Underway decoded rpc start ideal right)
    (leftPair : (left .pair).findOne decoded.pair ≠ none)
    (rightPair : (right .pair).findOne decoded.pair ≠ none) (coll : Coll) (id : String) :
    (left coll).findOne id = (right coll).findOne id := by
  cases mine : own decoded coll id with
  | false => exact (leftWay.same.findOne mine).symm.trans (rightWay.same.findOne mine)
  | true =>
      cases coll with
      | tokenMint => exact leftWay.tokenMint_eq rightWay leftPair rightPair mine
      | pair =>
          obtain rfl : id = decoded.pair := of_decide_eq_true mine
          rcases leftWay.pair with same | ⟨none, config, mintX, mintY, found, foundX, foundY, row⟩
          · rcases rightWay.pair with same' | ⟨none, -⟩
            · rw [same, same']
            · exact absurd (same.trans none) leftPair
          rcases rightWay.pair with
            same | ⟨-, config', mintX', mintY', found', foundX', foundY', row'⟩
          · exact absurd (same.trans none) rightPair
          have configs : (left .binStepConfig).findOne decoded.binStepConfig =
              (right .binStepConfig).findOne decoded.binStepConfig :=
            (leftWay.same.findOne rfl).symm.trans (rightWay.same.findOne rfl)
          have mintsX := leftWay.tokenMint_eq rightWay leftPair rightPair own_mintX
          have mintsY := leftWay.tokenMint_eq rightWay leftPair rightPair own_mintY
          cases found.symm.trans (configs.trans found')
          cases foundX.symm.trans (mintsX.trans foundX')
          cases foundY.symm.trans (mintsY.trans foundY')
          rw [row, row']
      | _ => cases mine

theorem underway_of_retried (retried : Retried decoded rpc start ideal store) :
    Underway decoded rpc start ideal store := by
  induction retried with
  | start => exact .refl
  | stopped _ consistent stops ih => exact ih.grown (grown_of_stops consistent stops)
  | completed _ consistent completes ih =>
      exact ih.grown (grown_of_completes consistent completes).1
  | other program _ avoids ih => exact ih.run avoids

end Underway

/-! ## A pair that takes three attempts -/

def sampleDecoded : InitializePairDecoded :=
  ⟨8388608, "book", "mintX", "mintY", "config", "badge", "pair"⟩

/-- An RPC that fails to look up the second mint of the sample pair. -/
def failingRpc : MintRpc where
  fetchTokenInfo tokenMintId :=
    ⟨none, none, if tokenMintId = "mintY" then some "timeout" else none⟩
  fetchTokenMetadata _ := ⟨none, none⟩

theorem consistent_failingRpc : Consistent sampleDecoded silentRpc.toMintRpc failingRpc := by
  intro tokenMintId _
  refine ⟨rfl, ?_⟩
  by_cases second : tokenMintId = "mintY"
  · exact .inr ⟨"timeout", if_pos second, by decide⟩
  · refine .inl (congrArg (TokenInfo.mk none none) ?_)
    rw [if_neg second]

/-- The store after an attempt without the config, the job of the config, and an attempt
that inserted the first mint and failed to look up the second. -/
def halfStore : Store :=
  (mongo.run (processInitializePair failingRpc sampleDecoded)
    (storeAfter silentRpc .empty [configJob])).2

theorem sample_retried : Retried sampleDecoded silentRpc.toMintRpc .empty
    (storeAfter silentRpc .empty [configJob]) halfStore := by
  have unconfigured : mongo.Throws (processInitializePair silentRpc.toMintRpc sampleDecoded) .empty
      (.error "Bin step config doesn't exist for pair pair") .empty := rfl
  have failed : mongo.Throws (processInitializePair failingRpc sampleDecoded)
      (storeAfter silentRpc .empty [configJob])
      (.error "Failed to get token mint data: timeout") halfStore :=
    Database.throws_of_run (by decide +kernel)
  have avoids : mongo.Performs (fun {_} operation => Avoids sampleDecoded operation)
      (configJob.process silentRpc) .empty := by
    refine ⟨⟨rfl, trivial⟩, fun answer after _ => ?_⟩
    cases answer with
    | none => exact ⟨⟨rfl, trivial⟩, fun _ _ _ => trivial⟩
    | some existing => trivial
  exact .stopped (.other (configJob.process silentRpc)
    (.stopped .start Consistent.refl unconfigured.stops) avoids) consistent_failingRpc failed.stops

/-- After any attempts, with other jobs in between that avoid the pair, its mints and its
config, an attempt without failure completes once the config is there.  It leaves the same
mints and pairs as a single run would have without those attempts: the pair with the fields
of its config, and every row that was there as it was. -/
theorem pair_initialization_retried {decoded : InitializePairDecoded} {rpc : MintRpc}
    {start ideal last : Store} {config : BinStepConfig}
    (retried : Retried decoded rpc start ideal last)
    (configured : (last .binStepConfig).findOne decoded.binStepConfig = some config)
    (known : ∀ id, own decoded .tokenMint id = true → (start .tokenMint).findOne id = none →
      ∃ tokenMint, tokenMintData rpc id = .ok tokenMint) :
    ∃ final single,
      mongo.Completes (processInitializePair rpc decoded) last () final ∧
      mongo.Completes (processInitializePair rpc decoded) ideal () single ∧
      (∀ tokenMint, tokenMint ∈ final .tokenMint ↔ tokenMint ∈ single .tokenMint) ∧
      (∀ pair, pair ∈ final .pair ↔ pair ∈ single .pair) ∧
      ((start .pair).findOne decoded.pair = none → ∃ mintX mintY,
        (final .tokenMint).findOne decoded.tokenMintX = some mintX ∧
        (final .tokenMint).findOne decoded.tokenMintY = some mintY ∧
        (final .pair).findOne decoded.pair = some (pairData decoded config mintX mintY)) ∧
      (∀ coll id row, own decoded coll id = true → (start coll).findOne id = some row →
        (final coll).findOne id = some row) ∧
      ∀ coll id row, (last coll).findOne id = some row →
        (final coll).findOne id = some row := by
  have underway := underway_of_retried retried
  have knownLast (id : String) (mine : own decoded .tokenMint id = true)
      (absent : (last .tokenMint).findOne id = none) :
      ∃ tokenMint, tokenMintData rpc id = .ok tokenMint :=
    known id mine (underway.absent_tokenMint mine absent)
  have knownIdeal (id : String) (mine : own decoded .tokenMint id = true)
      (absent : (ideal .tokenMint).findOne id = none) :
      ∃ tokenMint, tokenMintData rpc id = .ok tokenMint :=
    known id mine ((underway.started .tokenMint id mine).symm.trans absent)
  have configuredIdeal : (ideal .binStepConfig).findOne decoded.binStepConfig = some config :=
    (underway.same.findOne rfl).trans configured
  obtain ⟨final, completes⟩ := exists_completes configured knownLast
  obtain ⟨single, completesSingle⟩ := exists_completes configuredIdeal knownIdeal
  obtain ⟨grown, present⟩ := grown_of_completes Consistent.refl completes
  obtain ⟨grownSingle, presentSingle⟩ := grown_of_completes Consistent.refl completesSingle
  have finalWay := underway.grown grown
  have singleWay := underway.alone.grown grownSingle
  have findOne (coll : Coll) (id : String) : (final coll).findOne id = (single coll).findOne id :=
    finalWay.findOne_eq singleWay present presentSingle coll id
  refine ⟨final, single, completes, completesSingle, fun tokenMint => ?_, fun pair => ?_,
    fun absent => ?_, fun coll id row mine found => finalWay.found_of_start mine found,
    fun coll id row found => found_of_grown grown found⟩
  · rw [Collection.mem_iff_findOne, Collection.mem_iff_findOne]
    exact Eq.congr_left (findOne .tokenMint _)
  · rw [Collection.mem_iff_findOne, Collection.mem_iff_findOne]
    exact Eq.congr_left (findOne .pair _)
  · rcases finalWay.pair with same | ⟨-, config', mintX, mintY, found, foundX, foundY, row⟩
    · exact absurd (same.trans absent) present
    · rw [processInitializePair_within.completes (by decide) completes] at found
      cases configured.symm.trans found
      exact ⟨mintX, mintY, foundX, foundY, row⟩

/-- The third attempt at the sample pair leaves what a single run leaves. -/
theorem pair_initialization_retried_sample : ∃ final single,
    mongo.Completes (processInitializePair silentRpc.toMintRpc sampleDecoded) halfStore () final ∧
    mongo.Completes (processInitializePair silentRpc.toMintRpc sampleDecoded)
      (storeAfter silentRpc .empty [configJob]) () single ∧
    ∀ tokenMint, tokenMint ∈ final .tokenMint ↔ tokenMint ∈ single .tokenMint := by
  have configured : (halfStore .binStepConfig).findOne "config" =
      some (InitializeBinStepConfig.binStepConfigData
        ⟨10, .Open, ⟨1, 1, 1, 1, 1, 1, 1⟩, "book", "config"⟩) := by decide +kernel
  obtain ⟨final, single, completes, completesSingle, same, -⟩ :=
    pair_initialization_retried sample_retried configured fun _ _ _ => ⟨_, rfl⟩
  exact ⟨final, single, completes, completesSingle, same⟩

end InitializePair

end DlmmIndexer

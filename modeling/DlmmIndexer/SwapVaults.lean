import DlmmIndexer.Worker

/-!
# Vaults of bin swap events

A swap that crossed bins is one instruction job and one event job for every bin, and
the queues deliver them in any order.  An event that finds the row of its swap takes
the vaults from there; one that does not records dummy texts.  The instruction is
meant to replace those texts later, but its update asks for a field that the event
rows do not have, and so reaches none of them.
-/

namespace DlmmIndexer

open Documents JavaScript Atomic Text

/-- A top-level swap instruction and the events of the bins it crossed, each with its
inner index. -/
structure CrossedSwap where
  message : ParsedInstructionMessage
  decoded : Swap.SwapDecoded
  events : List (ℕ × Swap.BinSwapEventDecoded)
  topLevel : ∀ index, message.innerInstructionIndex ≠ .at index
  distinct : (events.map Prod.fst).Nodup
  crossed : ∀ event ∈ events,
    event.2.pair = decoded.pair ∧ event.2.swapForY = decoded.swapForY
  /-- The vaults are base58 addresses; base58 has no underscore. -/
  addresses : ∀ address ∈ [decoded.tokenVaultX, decoded.tokenVaultY, decoded.userVaultX,
    decoded.userVaultY], '_' ∉ address.toList

namespace CrossedSwap

variable (swap : CrossedSwap)

def instructionJob : Job := ⟨swap.message, .swap (some swap.decoded)⟩

/-- The message of an event, an inner instruction of the swap. -/
def eventMessage (index : ℕ) : ParsedInstructionMessage :=
  { swap.message with isInner := true, innerInstructionIndex := .at index }

def eventJob (event : ℕ × Swap.BinSwapEventDecoded) : Job :=
  ⟨swap.eventMessage event.1, .binSwapEvent (.ok (some event.2))⟩

/-- The jobs of the swap. -/
def jobs : List Job := swap.instructionJob :: swap.events.map swap.eventJob

/-- The id of an event row. -/
def eventRowId (event : ℕ × Swap.BinSwapEventDecoded) : String :=
  Swap.getBinSwapEventId (swap.eventMessage event.1) (.at event.1)
    (binId event.2.pair event.2.binId)

/-- The id of the swap row. -/
def swapRowId : String := Swap.getSwapEventId swap.message swap.message.innerInstructionIndex

end CrossedSwap

/-- The vault fields of an event row. -/
def BinSwapEvent.vaults (row : BinSwapEvent) : Swap.Vaults where
  userVaultIn := row.userVaultIn
  userVaultOut := row.userVaultOut
  pairVaultIn := row.pairVaultIn
  pairVaultOut := row.pairVaultOut

/-- None of the four texts is a dummy. -/
structure Swap.Vaults.Real (vaults : Swap.Vaults) : Prop where
  userVaultIn : vaults.userVaultIn ≠ Swap.dummyVaults.userVaultIn
  userVaultOut : vaults.userVaultOut ≠ Swap.dummyVaults.userVaultOut
  pairVaultIn : vaults.pairVaultIn ≠ Swap.dummyVaults.pairVaultIn
  pairVaultOut : vaults.pairVaultOut ≠ Swap.dummyVaults.pairVaultOut

/-- Addresses without an underscore are none of the dummies. -/
theorem Swap.SwapDecoded.real_vaults {decoded : Swap.SwapDecoded}
    (addresses : ∀ address ∈ [decoded.tokenVaultX, decoded.tokenVaultY, decoded.userVaultX,
      decoded.userVaultY], '_' ∉ address.toList) : decoded.vaults.Real := by
  have real {address dummy : String} (member : address ∈ [decoded.tokenVaultX,
      decoded.tokenVaultY, decoded.userVaultX, decoded.userVaultY])
      (marked : '_' ∈ dummy.toList) : address ≠ dummy :=
    fun same => addresses address member (same ▸ marked)
  rw [Swap.SwapDecoded.vaults, Swap.directed]
  split
  · constructor <;> exact real (by simp) (by decide)
  · constructor <;> exact real (by simp) (by decide)

/-- Every event of the swap has a row, with the vaults that the instruction gives. -/
def VaultsSettled (swap : CrossedSwap) (store : Store) : Prop :=
  ∀ event ∈ swap.events, ∃ row, (store .binSwapEvent).findOne (swap.eventRowId event) = some row ∧
    row.vaults = swap.decoded.vaults ∧ row.vaults.Real

/-- No job of the swap has been taken up. -/
def Unprocessed (swap : CrossedSwap) (store : Store) : Prop :=
  ∀ job ∈ swap.jobs, ∀ id, job.instructionId = some id → (store .instruction).holds id = false

namespace CrossedSwap

variable {swap : CrossedSwap}

/-- The inner index of the instruction is none of the events'. -/
theorem text_ne (index : ℕ) :
    swap.message.innerInstructionIndex.text ≠ (InnerIndex.at index).text := by
  have star : swap.message.innerInstructionIndex.text = "*" := by
    cases inner : swap.message.innerInstructionIndex with
    | undefined | null => rfl
    | «at» index => exact absurd inner (swap.topLevel index)
  rw [star]
  exact (InnerIndex.text_at_ne_star index).symm

/-- Two jobs of the swap have different instruction ids. -/
theorem nodup_instructionId : (swap.jobs.map Job.instructionId).Nodup := by
  have cut {left right : ParsedInstructionMessage} (name : ProcessorName)
      (same : generateInstructionId (left.params name) =
        generateInstructionId (right.params name)) :
      left.innerInstructionIndex.text = right.innerInstructionIndex.text :=
    (joined_injective (InnerIndex.not_mem_text _) (InnerIndex.not_mem_text _) same).2
  rw [jobs, List.map_cons, List.nodup_cons, List.map_map]
  constructor
  · intro member
    obtain ⟨event, -, same⟩ := List.mem_map.mp member
    exact text_ne event.1 (cut .SwapProcessor (Option.some.inj same)).symm
  · refine List.Nodup.map_on (fun left leftMem right rightMem same => ?_) swap.distinct.of_map
    have equal : decimal left.1 = decimal right.1 := cut .SwapProcessor (Option.some.inj same)
    exact List.inj_on_of_nodup_map swap.distinct leftMem rightMem
      (by exact_mod_cast decimal_injective equal)

theorem real_vaults : swap.decoded.vaults.Real :=
  Swap.SwapDecoded.real_vaults swap.addresses

/-! ## One job of the swap -/

/-- An event looks for the swap row of a top-level instruction. -/
theorem getSwapEventId_null (index : ℕ) :
    Swap.getSwapEventId (swap.eventMessage index) .null = swap.swapRowId := by
  rw [swapRowId, Swap.getSwapEventId, Swap.getSwapEventId]
  cases inner : swap.message.innerInstructionIndex with
  | undefined | null => rfl
  | «at» index => exact absurd inner (swap.topLevel index)

theorem instructionJob_ne_eventJob (event : ℕ × Swap.BinSwapEventDecoded) :
    swap.instructionJob ≠ swap.eventJob event :=
  fun same => nomatch congrArg Job.payload same

theorem eventJob_injective {left right : ℕ × Swap.BinSwapEventDecoded}
    (same : swap.eventJob left = swap.eventJob right) : left = right := by
  have index : InnerIndex.at left.1 = .at right.1 :=
    congrArg (fun job => job.message.innerInstructionIndex) same
  have decoded : Payload.binSwapEvent (.ok (some left.2)) = .binSwapEvent (.ok (some right.2)) :=
    congrArg Job.payload same
  exact Prod.ext (InnerIndex.at.inj index)
    (Option.some.inj (Except.ok.inj (Payload.binSwapEvent.inj decoded)))

/-- What a job of the swap does that was not taken up before. -/
inductive Effect (swap : CrossedSwap) (store after : Store) (job : Job) : Prop where
  | instruction {rows : Collection SwapEvent.id} (same : job = swap.instructionJob)
      (created : (store .swapEvent).create (Swap.swapEventData swap.message swap.decoded) =
        some rows)
      (swapEvents : after .swapEvent = rows)
      (events : after .binSwapEvent = store .binSwapEvent)
  | event {event : ℕ × Swap.BinSwapEventDecoded} {row : BinSwapEvent}
      {rows : Collection BinSwapEvent.id} (same : job = swap.eventJob event)
      (swapEvents : after .swapEvent = store .swapEvent)
      (created : (store .binSwapEvent).create row = some rows)
      (events : after .binSwapEvent = rows) (named : row.id = swap.eventRowId event)
      (vaults : row.vaults =
        Swap.vaultsOf event.2.swapForY ((store .swapEvent).findOne swap.swapRowId))

variable {rpc : Rpc} {store after : Store} {job : Job}

theorem effect_of_work (member : job ∈ swap.jobs)
    (worked : mongo.Completes (job.work rpc) store () after) : Effect swap store after job := by
  rcases List.mem_cons.mp member with rfl | member
  · obtain ⟨rows, created, rfl⟩ := Swap.of_completes_insertSwapEvent worked
    exact .instruction rfl created (Store.put_same _ _ _) (Store.put_other (by decide))
  · obtain ⟨event, -, rfl⟩ := List.mem_map.mp member
    obtain ⟨_, decoded, inserted⟩ := Database.completes_ofExcept_bind.mp worked
    cases decoded
    obtain ⟨_, _, _, _, mintX, mintY, rows, -, -, -, -, created, rfl⟩ :=
      Swap.of_completes_insertBinSwapEvent inserted
    rw [show (swap.eventJob event).message = swap.eventMessage event.1 from rfl,
      getSwapEventId_null] at created
    exact .event rfl (by rw [Store.put_other (by decide), Store.put_other (by decide)]) created
      (Store.put_same _ _ _) rfl rfl

/-- The effect as the worker finds it, with the `Instruction` row in place. -/
theorem Effect.of_same {middle : Store} (effect : Effect swap middle after job)
    (others : ∀ coll ≠ .instruction, middle coll = store coll) : Effect swap store after job := by
  cases effect with
  | instruction same created swapEvents events =>
      exact .instruction same (others .swapEvent (by decide) ▸ created) swapEvents
        (events.trans (others .binSwapEvent (by decide)))
  | event same swapEvents created events named vaults =>
      exact .event same (swapEvents.trans (others .swapEvent (by decide)))
        (others .binSwapEvent (by decide) ▸ created) events named
        (others .swapEvent (by decide) ▸ vaults)

/-- An event row stays as it is. -/
theorem Effect.findOne_binSwapEvent (effect : Effect swap store after job) {id : String}
    {row : BinSwapEvent} (found : (store .binSwapEvent).findOne id = some row) :
    (after .binSwapEvent).findOne id = some row := by
  cases effect with
  | instruction _ _ _ events => rwa [events]
  | event _ _ created events =>
      rw [events]
      exact Collection.findOne_create_of_found created found

/-- A swap row stays. -/
theorem Effect.holds_swapEvent (effect : Effect swap store after job) {id : String}
    (held : (store .swapEvent).holds id = true) : (after .swapEvent).holds id = true := by
  cases effect with
  | instruction _ created swapEvents =>
      rw [swapEvents]
      exact Collection.holds_create created held
  | event _ swapEvents => rwa [swapEvents]

/-! ## All jobs of the swap, in some order -/

section Run

variable {start : Store} {order : List Job}

/-- What every job of the swap keeps holds after all of them, in whatever order. -/
theorem run_invariant (perm : order.Perm swap.jobs) (unprocessed : Unprocessed swap start)
    (ran : Sequence mongo (Job.process rpc) (fun _ _ => True) start order store)
    (kept : List Job → Store → Prop) (holds : kept [] start)
    (step : ∀ done job rest store after, order = done ++ job :: rest →
      Effect swap store after job → kept done store → kept (done ++ [job]) after) :
    kept order store := by
  have unrecorded : Unrecorded order start := fun job member =>
    unprocessed job (perm.mem_iff.mp member)
  have distinct : (swap.jobs.filterMap Job.instructionId).Nodup := by
    rw [← Function.id_comp Job.instructionId, ← List.filterMap_map]
    exact nodup_instructionId.filterMap fun _ _ _ left right => left.trans right.symm
  refine unrecorded.invariant ((perm.filterMap _).nodup_iff.mpr distinct) ran kept holds ?_
  intro done job rest store middle after split _ others worked held
  have member : job ∈ swap.jobs := perm.mem_iff.mp (by simp [split])
  exact step done job rest _ _ split ((effect_of_work member worked).of_same others) held

/-- A swap whose instruction completes had no swap row before. -/
theorem swapRow_absent (perm : order.Perm swap.jobs) (unprocessed : Unprocessed swap start)
    (ran : Sequence mongo (Job.process rpc) (fun _ _ => True) start order store) :
    (start .swapEvent).findOne swap.swapRowId = none := by
  have ended := run_invariant perm unprocessed ran
    (fun done store =>
      ((start .swapEvent).holds swap.swapRowId = true →
        (store .swapEvent).holds swap.swapRowId = true) ∧
      (swap.instructionJob ∈ done → (start .swapEvent).holds swap.swapRowId = false))
    ⟨id, nofun⟩ (by
      rintro done job rest store after - effect ⟨stays, absent⟩
      refine ⟨fun held => effect.holds_swapEvent (stays held), fun member => ?_⟩
      rcases List.mem_append.mp member with old | new
      · exact absent old
      · cases effect with
        | instruction _ created =>
            refine Bool.eq_false_iff.mpr fun held => ?_
            have fresh := Collection.fresh_of_create created
            exact absurd (stays held) (by
              rw [Bool.not_eq_true]
              exact Collection.holds_eq_false.mpr fresh)
        | event same =>
            exact absurd ((List.mem_singleton.mp new).trans same) (instructionJob_ne_eventJob _))
  exact Collection.holds_eq_false.mp (ended.2 (perm.mem_iff.mpr List.mem_cons_self))

/-- The swap row appears with the instruction. -/
def RowFollows (swap : CrossedSwap) (done : List Job) (store : Store) : Prop :=
  (swap.instructionJob ∈ done → (store .swapEvent).findOne swap.swapRowId =
    some (Swap.swapEventData swap.message swap.decoded)) ∧
  (swap.instructionJob ∉ done → (store .swapEvent).findOne swap.swapRowId = none)

theorem Effect.rowFollows (effect : Effect swap store after job) {done : List Job}
    (follows : RowFollows swap done store) : RowFollows swap (done ++ [job]) after := by
  cases effect with
  | instruction same created swapEvents =>
      refine ⟨fun _ => ?_, fun absent => absurd (by simp [same]) absent⟩
      rw [swapEvents]
      exact Collection.findOne_create_self created
  | event same swapEvents =>
      have known : swap.instructionJob ∈ done ++ [job] ↔ swap.instructionJob ∈ done := by
        rw [List.mem_append, List.mem_singleton, same]
        exact or_iff_left (instructionJob_ne_eventJob _)
      rw [RowFollows, known, swapEvents]
      exact follows

/-- The row that an event leaves, given what it finds under the id of the swap row. -/
theorem Effect.event_row {event : ℕ × Swap.BinSwapEventDecoded}
    (effect : Effect swap store after (swap.eventJob event)) :
    ∃ row, (after .binSwapEvent).findOne (swap.eventRowId event) = some row ∧
      row.vaults =
        Swap.vaultsOf event.2.swapForY ((store .swapEvent).findOne swap.swapRowId) := by
  cases effect with
  | instruction same => exact absurd same.symm (instructionJob_ne_eventJob event)
  | event same _ created events named vaults =>
      cases eventJob_injective same
      exact ⟨_, by rw [events, ← named, Collection.findOne_create_self created], vaults⟩

/-- When the instruction comes first, every event finds its vaults. -/
theorem settled_of_first (perm : order.Perm swap.jobs) (unprocessed : Unprocessed swap start)
    (ran : Sequence mongo (Job.process rpc) (fun _ _ => True) start order store)
    (first : order.head? = some swap.instructionJob) : VaultsSettled swap store := by
  have ended := run_invariant perm unprocessed ran
    (fun done store => RowFollows swap done store ∧ ∀ event ∈ swap.events,
      swap.eventJob event ∈ done → ∃ row,
        (store .binSwapEvent).findOne (swap.eventRowId event) = some row ∧
          row.vaults = swap.decoded.vaults)
    ⟨⟨nofun, fun _ => swapRow_absent perm unprocessed ran⟩, nofun⟩ (by
      rintro done job rest store after split effect ⟨follows, settled⟩
      refine ⟨effect.rowFollows follows, fun event member here => ?_⟩
      rcases List.mem_append.mp here with old | new
      · obtain ⟨row, found, vaults⟩ := settled event member old
        exact ⟨row, effect.findOne_binSwapEvent found, vaults⟩
      rw [← List.mem_singleton.mp new] at effect split
      have instructed : swap.instructionJob ∈ done := by
        cases done with
        | nil =>
            rw [split] at first
            exact absurd (Option.some.inj first).symm (instructionJob_ne_eventJob event)
        | cons head tail =>
            rw [split] at first
            exact Option.some.inj first ▸ List.mem_cons_self
      obtain ⟨row, found, vaults⟩ := effect.event_row
      rw [follows.1 instructed, (swap.crossed event member).2] at vaults
      exact ⟨row, found, vaults⟩)
  intro event member
  obtain ⟨row, found, vaults⟩ := ended.2 event member
    (perm.mem_iff.mpr (List.mem_cons_of_mem _ (List.mem_map_of_mem member)))
  exact ⟨row, found, vaults, vaults ▸ real_vaults⟩

/-- When an event comes first, its row keeps the dummy texts. -/
theorem dummy_of_event_first {event : ℕ × Swap.BinSwapEventDecoded}
    (perm : order.Perm swap.jobs) (unprocessed : Unprocessed swap start)
    (ran : Sequence mongo (Job.process rpc) (fun _ _ => True) start order store)
    (first : order.head? = some (swap.eventJob event)) :
    ∃ row, (store .binSwapEvent).findOne (swap.eventRowId event) = some row ∧
      row.vaults = Swap.dummyVaults := by
  have ended := run_invariant perm unprocessed ran
    (fun done store => RowFollows swap done store ∧ (done ≠ [] → ∃ row,
      (store .binSwapEvent).findOne (swap.eventRowId event) = some row ∧
        row.vaults = Swap.dummyVaults))
    ⟨⟨nofun, fun _ => swapRow_absent perm unprocessed ran⟩, fun nonempty => absurd rfl nonempty⟩ (by
      rintro done job rest store after split effect ⟨follows, dummies⟩
      refine ⟨effect.rowFollows follows, fun _ => ?_⟩
      cases done with
      | nil =>
          rw [split] at first
          cases Option.some.inj first
          obtain ⟨row, found, vaults⟩ := effect.event_row
          rw [follows.2 List.not_mem_nil] at vaults
          exact ⟨row, found, vaults⟩
      | cons head tail =>
          obtain ⟨row, found, vaults⟩ := dummies (List.cons_ne_nil head tail)
          exact ⟨row, effect.findOne_binSwapEvent found, vaults⟩)
  refine ended.2 fun empty => ?_
  rw [empty] at first
  cases first

end Run

end CrossedSwap

/-! ## A swap that crossed one bin -/

def sampleSwap : CrossedSwap where
  message := ⟨8, "sig", 1, false, .null⟩
  decoded :=
    { swapForY := true
      swapType := .ExactInput
      pair := "pair"
      tokenMintX := "mintX"
      tokenMintY := "mintY"
      binArrayLower := "lower"
      binArrayUpper := "upper"
      tokenVaultX := "vaultX"
      tokenVaultY := "vaultY"
      userVaultX := "userX"
      userVaultY := "userY" }
  events := [(1, ⟨"pair", true, 0, 8388608, 10, 9, 0, 0⟩)]
  topLevel := nofun
  distinct := by decide
  crossed := by decide
  addresses := by decide

/-- A store with the pair, its mints and the bin of the swap. -/
def sampleStore : Store := pairStore.put .bin ⟨[sampleBin], List.nodup_singleton _⟩

theorem sample_unprocessed : Unprocessed sampleSwap sampleStore :=
  fun _ _ _ _ => rfl

/-- Both jobs of the sample swap complete, the instruction first. -/
theorem sample_instruction_first :
    Sequence mongo (Job.process silentRpc) (fun _ _ => True) sampleStore sampleSwap.jobs
      (storeAfter silentRpc sampleStore sampleSwap.jobs) :=
  .cons trivial (Database.completes_of_run (by decide +kernel))
    (.cons trivial (Database.completes_of_run (by decide +kernel)) (.nil _))

/-- Both jobs of the sample swap complete, the event first. -/
theorem sample_event_first :
    Sequence mongo (Job.process silentRpc) (fun _ _ => True) sampleStore sampleSwap.jobs.reverse
      (storeAfter silentRpc sampleStore sampleSwap.jobs.reverse) :=
  .cons trivial (Database.completes_of_run (by decide +kernel))
    (.cons trivial (Database.completes_of_run (by decide +kernel)) (.nil _))

/-- Whatever the order of the deliveries, the event rows end with the vaults of the swap
exactly when there are none or the instruction came first. -/
theorem vaults_settled_iff {rpc : Rpc} {swap : CrossedSwap} {start store : Store}
    {order : List Job} (perm : order.Perm swap.jobs) (unprocessed : Unprocessed swap start)
    (ran : Sequence mongo (Job.process rpc) (fun _ _ => True) start order store) :
    VaultsSettled swap store ↔
      swap.events = [] ∨ order.head? = some swap.instructionJob := by
  constructor
  · intro settled
    cases order with
    | nil => exact absurd perm.nil_eq (List.cons_ne_nil _ _).symm
    | cons head rest =>
        rcases List.mem_cons.mp (perm.mem_iff.mp List.mem_cons_self) with same | member
        · exact .inr (congrArg some same)
        · obtain ⟨event, here, same⟩ := List.mem_map.mp member
          obtain ⟨row, found, dummy⟩ :=
            CrossedSwap.dummy_of_event_first perm unprocessed ran (congrArg some same.symm)
          obtain ⟨row', found', -, real⟩ := settled event here
          rw [found] at found'
          cases found'
          exact absurd (congrArg Swap.Vaults.userVaultIn dummy) real.userVaultIn
  · rintro (none | first)
    · intro event member
      rw [none] at member
      cases member
    · exact CrossedSwap.settled_of_first perm unprocessed ran first

theorem vaults_settled_iff_sample :
    VaultsSettled sampleSwap (storeAfter silentRpc sampleStore sampleSwap.jobs) ↔
      sampleSwap.events = [] ∨
        sampleSwap.jobs.head? = some sampleSwap.instructionJob :=
  vaults_settled_iff (.refl _) sample_unprocessed sample_instruction_first

/-- The event before the instruction: both complete, and the row keeps the dummies. -/
theorem vaults_stay_dummy :
    (sampleSwap.jobs.reverse.Perm sampleSwap.jobs ∧ Unprocessed sampleSwap sampleStore ∧
      Sequence mongo (Job.process silentRpc) (fun _ _ => True) sampleStore sampleSwap.jobs.reverse
        (storeAfter silentRpc sampleStore sampleSwap.jobs.reverse)) ∧
      ¬VaultsSettled sampleSwap (storeAfter silentRpc sampleStore sampleSwap.jobs.reverse) := by
  refine ⟨⟨List.reverse_perm _, sample_unprocessed, sample_event_first⟩, fun settled => ?_⟩
  obtain ⟨row, found, dummy⟩ := CrossedSwap.dummy_of_event_first (List.reverse_perm _)
    sample_unprocessed sample_event_first rfl
  obtain ⟨row', found', -, real⟩ := settled _ List.mem_cons_self
  rw [found] at found'
  cases found'
  exact absurd (congrArg Swap.Vaults.userVaultIn dummy) real.userVaultIn

end DlmmIndexer

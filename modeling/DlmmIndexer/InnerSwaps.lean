import DlmmIndexer.SwapVaults

/-!
# Swaps that other programs call

A transaction can hold many swaps, some called by other programs, several of them under
one instruction index.  A swap row is stored under the inner index of its instruction, and
an event looks for the row without one.  So an event takes the vaults of the top-level
swap under its instruction index, if there is one, and never those of an inner swap.
-/

namespace DlmmIndexer

open Documents JavaScript Atomic Text

/-- A swap instruction and the events that follow it, each with its inner index. -/
structure SwapCall where
  instructionIndex : ℕ
  innerIndex : InnerIndex
  decoded : Swap.SwapDecoded
  events : List (ℕ × Swap.BinSwapEventDecoded)

namespace SwapCall

/-- The swap is not called by another program. -/
def TopLevel (call : SwapCall) : Prop := ∀ index, call.innerIndex ≠ .at index

instance (call : SwapCall) : Decidable call.TopLevel :=
  match shape : call.innerIndex with
  | .undefined => .isTrue fun _ same => nomatch shape.symm.trans same
  | .null => .isTrue fun _ same => nomatch shape.symm.trans same
  | .at index => .isFalse fun top => top index shape

theorem topLevel_iff {call : SwapCall} : call.TopLevel ↔ call.innerIndex.text = "*" := by
  rw [TopLevel]
  cases call.innerIndex with
  | undefined | null => exact iff_of_true nofun rfl
  | «at» index =>
      exact iff_of_false (fun top => top index rfl) (InnerIndex.text_at_ne_star index)

/-- The place of the instruction in its transaction. -/
def place (call : SwapCall) : ℕ × String := (call.instructionIndex, call.innerIndex.text)

/-- The places of the events. -/
def eventPlaces (call : SwapCall) : List (ℕ × String) :=
  call.events.map fun event => (call.instructionIndex, (InnerIndex.at event.1).text)

end SwapCall

/-- The vaults of a swap instruction for an event of the given direction. -/
def Swap.SwapDecoded.vaultsFor (decoded : Swap.SwapDecoded) (swapForY : Bool) : Swap.Vaults :=
  Swap.directed swapForY decoded.userVaultX decoded.userVaultY decoded.tokenVaultX
    decoded.tokenVaultY

/-- A transaction with any number of swaps. -/
structure SwapTransaction where
  blockNumber : ℕ
  signature : String
  calls : List SwapCall
  distinct : (calls.map SwapCall.place ++ calls.flatMap SwapCall.eventPlaces).Nodup
  /-- The events of an inner swap come after it. -/
  follows : ∀ call ∈ calls, ∀ index, call.innerIndex = .at index →
    ∀ event ∈ call.events, index < event.1
  crossed : ∀ call ∈ calls, ∀ event ∈ call.events,
    event.2.pair = call.decoded.pair ∧ event.2.swapForY = call.decoded.swapForY
  /-- The vaults are base58 addresses; base58 has no underscore. -/
  addresses : ∀ call ∈ calls, ∀ address ∈ [call.decoded.tokenVaultX, call.decoded.tokenVaultY,
    call.decoded.userVaultX, call.decoded.userVaultY], '_' ∉ address.toList

namespace SwapTransaction

variable (tx : SwapTransaction)

/-- The message of an instruction of the transaction. -/
def message (instructionIndex : ℕ) (innerIndex : InnerIndex) : ParsedInstructionMessage where
  blockNumber := tx.blockNumber
  signature := tx.signature
  instructionIndex := instructionIndex
  isInner := match innerIndex with
    | .at _ => true
    | _ => false
  innerInstructionIndex := innerIndex

def swapJob (call : SwapCall) : Job :=
  ⟨tx.message call.instructionIndex call.innerIndex, .swap (some call.decoded)⟩

def eventJob (call : SwapCall) (event : ℕ × Swap.BinSwapEventDecoded) : Job :=
  ⟨tx.message call.instructionIndex (.at event.1), .binSwapEvent (.ok (some event.2))⟩

def swapJobs : List Job := tx.calls.map tx.swapJob

def eventJobs : List Job := tx.calls.flatMap fun call => call.events.map (tx.eventJob call)

/-- The id of an event row. -/
def eventRowId (call : SwapCall) (event : ℕ × Swap.BinSwapEventDecoded) : String :=
  Swap.getBinSwapEventId (tx.message call.instructionIndex (.at event.1)) (.at event.1)
    (binId event.2.pair event.2.binId)

/-- The id of the swap row that the events under an instruction index look for. -/
def topRowId (instructionIndex : ℕ) : String :=
  Swap.getSwapEventId (tx.message instructionIndex .null) .null

/-- The row of the top-level swap under an instruction index. -/
def topRow (instructionIndex : ℕ) : Option SwapEvent :=
  (tx.calls.find? fun call => call.TopLevel ∧ call.instructionIndex = instructionIndex).map
    fun call => Swap.swapEventData (tx.message call.instructionIndex call.innerIndex) call.decoded

/-- No job of the transaction has been taken up, and no swap row of it is there. -/
structure Fresh (start : Store) : Prop where
  unrecorded : Unrecorded (tx.swapJobs ++ tx.eventJobs) start
  absent : ∀ call ∈ tx.calls,
    (start .swapEvent).findOne (tx.topRowId call.instructionIndex) = none

/-- Every event has a row, with the vaults of the swap that emitted it. -/
def Attributed (store : Store) : Prop :=
  ∀ call ∈ tx.calls, ∀ event ∈ call.events, ∃ row,
    (store .binSwapEvent).findOne (tx.eventRowId call event) = some row ∧
      row.vaults = call.decoded.vaults ∧ row.vaults.Real

/-- Every swap with events is top-level, or shares its instruction index with a top-level
swap of the same vaults. -/
def Traceable : Prop :=
  ∀ call ∈ tx.calls, call.events ≠ [] → call.TopLevel ∨
    ∃ top ∈ tx.calls, top.TopLevel ∧ top.instructionIndex = call.instructionIndex ∧
      top.decoded.vaultsFor call.decoded.swapForY = call.decoded.vaults

variable {tx}

theorem mem_eventJobs {job : Job} : job ∈ tx.eventJobs ↔
    ∃ call ∈ tx.calls, ∃ event ∈ call.events, tx.eventJob call event = job := by
  simp [eventJobs]

/-- The jobs of the transaction have instruction ids of their own. -/
theorem nodup_instructionId :
    ((tx.swapJobs ++ tx.eventJobs).filterMap Job.instructionId).Nodup := by
  have places : ((tx.swapJobs ++ tx.eventJobs).map fun job =>
      (job.message.instructionIndex, job.message.innerInstructionIndex.text)).Nodup := by
    rw [swapJobs, eventJobs, List.map_append, List.map_map, List.map_flatMap]
    simp only [List.map_map]
    exact tx.distinct
  have known : ∀ job ∈ tx.swapJobs ++ tx.eventJobs,
      job.instructionId = some (generateInstructionId (job.message.params .SwapProcessor)) := by
    intro job member
    rcases List.mem_append.mp member with swap | event
    · obtain ⟨call, -, rfl⟩ := List.mem_map.mp swap
      rfl
    · obtain ⟨call, -, event, -, rfl⟩ := mem_eventJobs.mp event
      rfl
  have mapped : (tx.swapJobs ++ tx.eventJobs).filterMap Job.instructionId =
      (tx.swapJobs ++ tx.eventJobs).map fun job =>
        generateInstructionId (job.message.params .SwapProcessor) := by
    rw [List.filterMap_congr known]
    exact congrFun List.filterMap_eq_map' _
  rw [mapped]
  refine List.pairwise_map.mpr ((List.pairwise_map.mp places).imp fun different same => ?_)
  obtain ⟨index, text⟩ := place_of_generateInstructionId same
  exact different (Prod.ext index text)

/-! ## Swap rows and what events find -/

/-- The row of a swap is the one that events look for exactly when the swap is top-level. -/
theorem id_swapRow_eq_iff {call : SwapCall} {instructionIndex : ℕ} :
    (Swap.swapEventData (tx.message call.instructionIndex call.innerIndex) call.decoded).id =
        tx.topRowId instructionIndex ↔
      call.TopLevel ∧ call.instructionIndex = instructionIndex := by
  rw [SwapCall.topLevel_iff]
  constructor
  · intro same
    obtain ⟨outer, text⟩ :=
      joined_injective (InnerIndex.not_mem_text _) (InnerIndex.not_mem_text _) same
    exact ⟨text, (joined_decimal_injective outer).2⟩
  · rintro ⟨star, rfl⟩
    exact congrArg (joined _) star

/-- Top-level swaps under one instruction index are one swap. -/
theorem eq_of_topLevel {left right : SwapCall} (leftMem : left ∈ tx.calls)
    (rightMem : right ∈ tx.calls) (leftTop : left.TopLevel) (rightTop : right.TopLevel)
    (same : left.instructionIndex = right.instructionIndex) : left = right := by
  have distinct : (tx.calls.map SwapCall.place).Nodup := (List.nodup_append.mp tx.distinct).1
  refine List.inj_on_of_nodup_map distinct leftMem rightMem (Prod.ext same ?_)
  exact (SwapCall.topLevel_iff.mp leftTop).trans (SwapCall.topLevel_iff.mp rightTop).symm

theorem topRow_of_topLevel {call : SwapCall} (member : call ∈ tx.calls) (top : call.TopLevel) :
    tx.topRow call.instructionIndex = some
      (Swap.swapEventData (tx.message call.instructionIndex call.innerIndex) call.decoded) := by
  rw [topRow, Option.map_eq_some_iff]
  refine ⟨call, ?_, rfl⟩
  cases found : tx.calls.find? fun other =>
      other.TopLevel ∧ other.instructionIndex = call.instructionIndex with
  | none => simpa [top] using List.find?_eq_none.mp found call member
  | some other =>
      have named := List.find?_some found
      simp only [Bool.decide_and, Bool.and_eq_true, decide_eq_true_eq] at named
      rw [eq_of_topLevel (List.mem_of_find?_eq_some found) member named.1 top named.2]

/-- Events find nothing under an instruction index without a top-level swap. -/
theorem topRow_eq_none {instructionIndex : ℕ} : tx.topRow instructionIndex = none ↔
    ∀ call ∈ tx.calls, call.TopLevel → call.instructionIndex ≠ instructionIndex := by
  simp [topRow]

/-! ## The jobs one after another -/

/-- The swap rows and the event rows of the jobs done so far. -/
structure Progress (tx : SwapTransaction) (done : List Job) (store : Store) : Prop where
  found : ∀ call ∈ tx.calls, call.TopLevel → tx.swapJob call ∈ done →
    (store .swapEvent).findOne (tx.topRowId call.instructionIndex) =
      tx.topRow call.instructionIndex
  missing : ∀ call ∈ tx.calls,
    (∀ top ∈ tx.calls, top.TopLevel → top.instructionIndex = call.instructionIndex →
      tx.swapJob top ∉ done) →
    (store .swapEvent).findOne (tx.topRowId call.instructionIndex) = none
  rows : ∀ call ∈ tx.calls, ∀ event ∈ call.events, tx.eventJob call event ∈ done → ∃ row,
    (store .binSwapEvent).findOne (tx.eventRowId call event) = some row ∧
      row.vaults = Swap.vaultsOf event.2.swapForY (tx.topRow call.instructionIndex)

theorem swapJob_ne_eventJob (swap call : SwapCall) (event : ℕ × Swap.BinSwapEventDecoded) :
    tx.swapJob swap ≠ tx.eventJob call event :=
  fun same => nomatch congrArg Job.payload same

theorem eventJob_eq_iff {left right : SwapCall}
    {leftEvent rightEvent : ℕ × Swap.BinSwapEventDecoded} :
    tx.eventJob left leftEvent = tx.eventJob right rightEvent ↔
      left.instructionIndex = right.instructionIndex ∧ leftEvent = rightEvent := by
  constructor
  · intro same
    have index : InnerIndex.at leftEvent.1 = .at rightEvent.1 :=
      congrArg (fun job => job.message.innerInstructionIndex) same
    have decoded : Payload.binSwapEvent (.ok (some leftEvent.2)) =
        .binSwapEvent (.ok (some rightEvent.2)) := congrArg Job.payload same
    have event := Option.some.inj (Except.ok.inj (Payload.binSwapEvent.inj decoded))
    exact ⟨congrArg (fun job => job.message.instructionIndex) same,
      Prod.ext (InnerIndex.at.inj index) event⟩
  · rintro ⟨index, rfl⟩
    rw [eventJob, eventJob, index]

section Step

variable {rpc : Rpc} {done : List Job} {store middle after : Store} {call : SwapCall}

/-- A swap adds its row. -/
theorem Progress.swap (progress : Progress tx done store) (member : call ∈ tx.calls)
    (others : ∀ coll ≠ .instruction, middle coll = store coll)
    (worked : mongo.Completes ((tx.swapJob call).work rpc) middle () after) :
    Progress tx (done ++ [tx.swapJob call]) after := by
  obtain ⟨rows, created, rfl⟩ := Swap.of_completes_insertSwapEvent worked
  rw [others .swapEvent (by decide)] at created
  have findOne (instructionIndex : ℕ)
      (apart : ¬(call.TopLevel ∧ call.instructionIndex = instructionIndex)) :
      rows.findOne (tx.topRowId instructionIndex) =
        (store .swapEvent).findOne (tx.topRowId instructionIndex) :=
    Collection.findOne_create_of_ne created fun same => apart (id_swapRow_eq_iff.mp same)
  refine ⟨fun other otherMem top here => ?_, fun other otherMem absent => ?_,
    fun other otherMem event eventMem here => ?_⟩
  · rw [Store.put_same]
    by_cases own : call.TopLevel ∧ call.instructionIndex = other.instructionIndex
    · rw [← own.2, topRow_of_topLevel member own.1]
      exact id_swapRow_eq_iff.mpr ⟨own.1, rfl⟩ ▸ Collection.findOne_create_self created
    rw [findOne _ own]
    rcases List.mem_append.mp here with old | new
    · exact progress.found other otherMem top old
    · have same := congrArg Job.message (List.mem_singleton.mp new)
      have index : other.instructionIndex = call.instructionIndex :=
        congrArg ParsedInstructionMessage.instructionIndex same
      have inner : other.innerIndex = call.innerIndex :=
        congrArg ParsedInstructionMessage.innerInstructionIndex same
      exact absurd ⟨fun position at' => top position (inner.trans at'), index.symm⟩ own
  · rw [Store.put_same, findOne _ fun own =>
      absent call member own.1 own.2 (List.mem_append_right _ List.mem_cons_self)]
    exact progress.missing other otherMem fun top topMem isTop index old =>
      absent top topMem isTop index (List.mem_append_left _ old)
  · rw [Store.put_other (by decide), others .binSwapEvent (by decide)]
    rcases List.mem_append.mp here with old | new
    · exact progress.rows other otherMem event eventMem old
    · exact absurd (List.mem_singleton.mp new).symm (swapJob_ne_eventJob _ _ _)

/-- After all swaps, an event finds the top-level swap under its instruction index. -/
theorem Progress.findOne_topRowId (progress : Progress tx done store) (member : call ∈ tx.calls)
    (swapped : ∀ other ∈ tx.calls, tx.swapJob other ∈ done) :
    (store .swapEvent).findOne (tx.topRowId call.instructionIndex) =
      tx.topRow call.instructionIndex := by
  by_cases top : ∃ other ∈ tx.calls,
      other.TopLevel ∧ other.instructionIndex = call.instructionIndex
  · obtain ⟨other, otherMem, isTop, index⟩ := top
    rw [← index]
    exact progress.found other otherMem isTop (swapped other otherMem)
  · have none : ∀ other ∈ tx.calls, other.TopLevel →
        other.instructionIndex ≠ call.instructionIndex :=
      fun other otherMem isTop index => top ⟨other, otherMem, isTop, index⟩
    rw [topRow_eq_none.mpr none]
    exact progress.missing call member fun other otherMem isTop index =>
      absurd index (none other otherMem isTop)

/-- An event that comes after all swaps adds a row with the vaults it finds. -/
theorem Progress.event (progress : Progress tx done store) (member : call ∈ tx.calls)
    {event : ℕ × Swap.BinSwapEventDecoded}
    (swapped : ∀ other ∈ tx.calls, tx.swapJob other ∈ done)
    (others : ∀ coll ≠ .instruction, middle coll = store coll)
    (worked : mongo.Completes ((tx.eventJob call event).work rpc) middle () after) :
    Progress tx (done ++ [tx.eventJob call event]) after := by
  obtain ⟨_, decoded, inserted⟩ := Database.completes_ofExcept_bind.mp worked
  cases decoded
  obtain ⟨_, _, _, _, mintX, mintY, rows, -, -, -, -, created, rfl⟩ :=
    Swap.of_completes_insertBinSwapEvent inserted
  have looked : Swap.getSwapEventId (tx.eventJob call event).message .null =
      tx.topRowId call.instructionIndex := rfl
  rw [looked, others .swapEvent (by decide), progress.findOne_topRowId member swapped,
    others .binSwapEvent (by decide)] at created
  have before (swap : SwapCall) :
      tx.swapJob swap ∈ done ++ [tx.eventJob call event] ↔ tx.swapJob swap ∈ done := by
    rw [List.mem_append, List.mem_singleton]
    exact or_iff_left (swapJob_ne_eventJob swap call event)
  refine ⟨fun other otherMem top here => ?_, fun other otherMem absent => ?_,
    fun other otherMem otherEvent eventMem here => ?_⟩
  · rw [Store.put_other (by decide), Store.put_other (by decide), others .swapEvent (by decide)]
    exact progress.found other otherMem top ((before other).mp here)
  · rw [Store.put_other (by decide), Store.put_other (by decide), others .swapEvent (by decide)]
    exact progress.missing other otherMem fun top topMem isTop index =>
      mt (before top).mpr (absent top topMem isTop index)
  · rw [Store.put_same]
    rcases List.mem_append.mp here with old | new
    · obtain ⟨row, found, vaults⟩ := progress.rows other otherMem otherEvent eventMem old
      exact ⟨row, Collection.findOne_create_of_found created found, vaults⟩
    · obtain ⟨index, rfl⟩ := eventJob_eq_iff.mp (List.mem_singleton.mp new)
      rw [eventRowId, index]
      have stored := Collection.findOne_create_self created
      exact ⟨_, stored, rfl⟩

end Step

/-- After all swaps and then all events, every event has the vaults of the top-level swap
under its instruction index, if there is one. -/
theorem progress_of_run {rpc : Rpc} {start store : Store} {first second : List Job}
    (swaps : first.Perm tx.swapJobs) (events : second.Perm tx.eventJobs) (fresh : tx.Fresh start)
    (ran : Sequence mongo (Job.process rpc) (fun _ _ => True) start (first ++ second) store) :
    Progress tx (first ++ second) store := by
  have perm : (first ++ second).Perm (tx.swapJobs ++ tx.eventJobs) := swaps.append events
  have unrecorded : Unrecorded (first ++ second) start :=
    fun job member => fresh.unrecorded job (perm.mem_iff.mp member)
  refine unrecorded.invariant ((perm.filterMap _).nodup_iff.mpr nodup_instructionId) ran
    (Progress tx) ⟨nofun, fun call member _ => fresh.absent call member, nofun⟩ ?_
  intro done job rest store middle after split _ others worked progress
  have member : job ∈ first ++ second := split ▸ List.mem_append_right _ List.mem_cons_self
  rcases List.mem_append.mp (perm.mem_iff.mp member) with swap | event
  · obtain ⟨call, here, rfl⟩ := List.mem_map.mp swap
    exact progress.swap here others worked
  · obtain ⟨call, here, occurred, -, rfl⟩ := mem_eventJobs.mp event
    have late : tx.eventJob call occurred ∉ first := fun early => by
      obtain ⟨other, -, same⟩ := List.mem_map.mp (swaps.mem_iff.mp early)
      exact swapJob_ne_eventJob other call occurred same
    -- The event is not among the swaps, so they are all before it.
    have before : first ⊆ done := by
      rcases List.append_eq_append_iff.mp split with ⟨between, rfl, -⟩ | ⟨between, rfl, tail⟩
      · exact List.subset_append_left first between
      · cases between with
        | nil => exact fun _ old => by rwa [List.append_nil] at old
        | cons head between =>
            obtain ⟨rfl, -⟩ := List.cons.inj tail
            exact absurd (List.mem_append_right done List.mem_cons_self) late
    exact progress.event here
      (fun other otherMem => before (swaps.mem_iff.mpr (List.mem_map_of_mem otherMem)))
      others worked

end SwapTransaction

/-! ## A direct swap and one that another program calls -/

/-- The sample swap, called by no other program. -/
def directTransaction : SwapTransaction where
  blockNumber := 8
  signature := "sig"
  calls := [⟨1, .null, sampleSwap.decoded, sampleSwap.events⟩]
  distinct := by decide
  follows := by
    intro call member index inner
    rw [List.mem_singleton.mp member] at inner
    cases inner
  crossed := by decide
  addresses := by decide

/-- The sample swap as the first inner instruction of another program's. -/
def innerTransaction : SwapTransaction where
  blockNumber := 8
  signature := "sig"
  calls := [⟨1, .at 0, sampleSwap.decoded, sampleSwap.events⟩]
  distinct := by decide
  follows := by
    intro call member index inner event occurred
    rw [List.mem_singleton.mp member] at inner occurred
    cases inner
    rw [List.mem_singleton.mp occurred]
    decide
  crossed := by decide
  addresses := by decide

theorem directTransaction_fresh : directTransaction.Fresh sampleStore :=
  ⟨fun _ _ _ _ => rfl, fun _ _ => rfl⟩

theorem innerTransaction_fresh : innerTransaction.Fresh sampleStore :=
  ⟨fun _ _ _ _ => rfl, fun _ _ => rfl⟩

theorem directTransaction_ran : Sequence mongo (Job.process silentRpc) (fun _ _ => True)
    sampleStore (directTransaction.swapJobs ++ directTransaction.eventJobs)
    (storeAfter silentRpc sampleStore
      (directTransaction.swapJobs ++ directTransaction.eventJobs)) :=
  .cons trivial (Database.completes_of_run (by decide +kernel))
    (.cons trivial (Database.completes_of_run (by decide +kernel)) (.nil _))

theorem innerTransaction_ran : Sequence mongo (Job.process silentRpc) (fun _ _ => True)
    sampleStore (innerTransaction.swapJobs ++ innerTransaction.eventJobs)
    (storeAfter silentRpc sampleStore
      (innerTransaction.swapJobs ++ innerTransaction.eventJobs)) :=
  .cons trivial (Database.completes_of_run (by decide +kernel))
    (.cons trivial (Database.completes_of_run (by decide +kernel)) (.nil _))

/-- After all swaps of a transaction and then all its events, every event row has the vaults
of its own swap exactly when each swap with events is top-level, or shares the instruction
index of a top-level swap with the same vaults. -/
theorem inner_swaps_attributed_iff {rpc : Rpc} {tx : SwapTransaction} {start store : Store}
    {first second : List Job} (swaps : first.Perm tx.swapJobs)
    (events : second.Perm tx.eventJobs) (fresh : tx.Fresh start)
    (ran : Sequence mongo (Job.process rpc) (fun _ _ => True) start (first ++ second) store) :
    tx.Attributed store ↔ tx.Traceable := by
  have progress := SwapTransaction.progress_of_run swaps events fresh ran
  have settled (call : SwapCall) (member : call ∈ tx.calls)
      (event : ℕ × Swap.BinSwapEventDecoded) (occurred : event ∈ call.events) :
      ∃ row, (store .binSwapEvent).findOne (tx.eventRowId call event) = some row ∧
        row.vaults =
          Swap.vaultsOf call.decoded.swapForY (tx.topRow call.instructionIndex) := by
    rw [← (tx.crossed call member event occurred).2]
    refine progress.rows call member event occurred (List.mem_append_right _ ?_)
    exact events.mem_iff.mpr
      (SwapTransaction.mem_eventJobs.mpr ⟨call, member, event, occurred, rfl⟩)
  constructor
  · intro attributed call member emits
    obtain ⟨event, occurred⟩ := List.exists_mem_of_ne_nil _ emits
    obtain ⟨row, found, vaults⟩ := settled call member event occurred
    obtain ⟨row', found', own, real⟩ := attributed call member event occurred
    cases found.symm.trans found'
    cases top : tx.topRow call.instructionIndex with
    | none =>
        rw [top] at vaults
        exact absurd (congrArg Swap.Vaults.userVaultIn vaults) real.userVaultIn
    | some topRow =>
        obtain ⟨other, otherMem, isTop, index⟩ : ∃ other ∈ tx.calls,
            other.TopLevel ∧ other.instructionIndex = call.instructionIndex := by
          by_contra absent
          push Not at absent
          rw [SwapTransaction.topRow_eq_none.mpr absent] at top
          cases top
        rw [← index, SwapTransaction.topRow_of_topLevel otherMem isTop] at vaults
        exact .inr ⟨other, otherMem, isTop, index, vaults.symm.trans own⟩
  · intro traceable call member event occurred
    obtain ⟨row, found, vaults⟩ := settled call member event occurred
    have own : row.vaults = call.decoded.vaults := by
      rcases traceable call member (List.ne_nil_of_mem occurred) with
        top | ⟨top, topMem, isTop, index, same⟩
      · rw [vaults, SwapTransaction.topRow_of_topLevel member top]
        rfl
      · rw [vaults, ← index, SwapTransaction.topRow_of_topLevel topMem isTop]
        exact same
    exact ⟨row, found, own, own ▸ Swap.SwapDecoded.real_vaults (tx.addresses call member)⟩

theorem inner_swaps_attributed_iff_sample : directTransaction.Attributed
    (storeAfter silentRpc sampleStore
      (directTransaction.swapJobs ++ directTransaction.eventJobs)) := by
  refine (inner_swaps_attributed_iff (.refl _) (.refl _) directTransaction_fresh
    directTransaction_ran).mpr fun call member _ => .inl ?_
  rw [List.mem_singleton.mp member]
  exact nofun

/-- The event of an inner swap keeps the dummy texts. -/
theorem inner_swap_dummy :
    (innerTransaction.Fresh sampleStore ∧
      Sequence mongo (Job.process silentRpc) (fun _ _ => True) sampleStore
        (innerTransaction.swapJobs ++ innerTransaction.eventJobs)
        (storeAfter silentRpc sampleStore
          (innerTransaction.swapJobs ++ innerTransaction.eventJobs))) ∧
      ¬innerTransaction.Attributed (storeAfter silentRpc sampleStore
        (innerTransaction.swapJobs ++ innerTransaction.eventJobs)) := by
  refine ⟨⟨innerTransaction_fresh, innerTransaction_ran⟩, fun attributed => ?_⟩
  obtain ⟨row, found, -, real⟩ := attributed _ List.mem_cons_self _ List.mem_cons_self
  have dummy : ((storeAfter silentRpc sampleStore
      (innerTransaction.swapJobs ++ innerTransaction.eventJobs) .binSwapEvent).findOne
        (innerTransaction.eventRowId ⟨1, .at 0, sampleSwap.decoded, sampleSwap.events⟩
          (1, ⟨"pair", true, 0, 8388608, 10, 9, 0, 0⟩))).map BinSwapEvent.vaults =
      some Swap.dummyVaults := by decide +kernel
  rw [show (storeAfter _ _ _ _).findOne _ = some row from found] at dummy
  exact absurd (congrArg Swap.Vaults.userVaultIn (Option.some.inj dummy)) real.userVaultIn

end DlmmIndexer

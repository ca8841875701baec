import Aesd.ReadChecks

/-!
What `aesd_circular_buffer_free` leaves behind. It resets the counters and releases the blocks;
the pointers to them, `full` and `tmp_entry` stay as they are.
-/

namespace Aesd

open MachineInt Records SlotLog

/-! The operations and what they return. -/

inductive BufferOp where
  | add (chunk : Bytes)
  | raed (resultBuf : Bytes) (len : UInt64) (fPos : Int)
  | findEntry (charOffset : UInt64)
  | getBytes (elemInd ofsInElem : UInt32)
  deriving DecidableEq, Repr

inductive OpResult where
  | added
  | read (ret : Nat) (fPos : Int) (resultBuf : Option Bytes)
  | found (entry : Option (Nat × Nat))
  | bytes (count : UInt32)
  deriving DecidableEq, Repr

def BufferOp.Allowed : BufferOp → Prop
  | .add chunk => chunk ≠ []
  | .getBytes elemInd _ => elemInd ≤ 10
  | _ => True

def BufferOp.chunks : BufferOp → List Bytes
  | .add chunk => [chunk]
  | .raed _ _ _ => []
  | .findEntry _ => []
  | .getBytes _ _ => []

def BufferState.perform (state : BufferState) : BufferOp → Except Fault (OpResult × BufferState)
  | .add chunk => do
      let next ← aesdCircularBufferAddEntry {} state ⟨.block chunk, chunk.length⟩
      return (.added, next)
  | .raed resultBuf len fPos =>
      match aesdCircularBufferRaed state.buffer resultBuf len fPos with
      | none => .error .endless
      | some read =>
          .ok (.read read.ret read.fPos (read.result state.buffer resultBuf),
            { state with buffer := read.buffer })
  | .findEntry charOffset => do
      let entry ← aesdCircularBufferFindEntryOffsetForFpos state.buffer charOffset
      return (.found entry, state)
  | .getBytes elemInd ofsInElem => do
      let count ← aesdCircularBufferGetBytesToOfs state.buffer elemInd ofsInElem
      return (.bytes count, state)

/-- What a sequence of operations returns, up to the first fault. -/
def BufferState.results (state : BufferState) : List BufferOp → List (Except Fault OpResult)
  | [] => []
  | op :: ops =>
      match state.perform op with
      | .error fault => [.error fault]
      | .ok (result, next) => .ok result :: next.results ops

/-- States that operations and frees reach from init, with the chunks that were added. -/
inductive BufferState.Reachable : BufferState → List Bytes → Prop
  | init {state : BufferState} : aesdCircularBufferInit emptyEntry = .ok state →
      Reachable state []
  | perform {state next : BufferState} {chunks : List Bytes} {op : BufferOp} {result : OpResult} :
      Reachable state chunks → op.Allowed → state.perform op = .ok (result, next) →
      Reachable next (chunks ++ op.chunks)
  | free {state : BufferState} {chunks : List Bytes} {buffer : CircularBuffer} :
      Reachable state chunks → aesdCircularBufferFree state.buffer = .ok buffer →
      Reachable ⟨buffer, state.tmpEntry⟩ chunks

structure BehavesLikeNew (state : BufferState) (buffer : CircularBuffer) : Prop where
  freed : aesdCircularBufferFree state.buffer = .ok buffer
  owned : ∀ target < 10, ∀ entry, buffer.entry[target]? = some entry → entry.buffptr ≠ .freed
  same : ∀ fresh, aesdCircularBufferInit emptyEntry = .ok fresh → ∀ ops,
    (∀ op ∈ ops, BufferOp.Allowed op) →
      BufferState.results ⟨buffer, state.tmpEntry⟩ ops = fresh.results ops

def LikeNew (state : BufferState) : Prop := ∃ buffer, BehavesLikeNew state buffer

/-! What a free does to the slots. -/

theorem freeSlotsFrom_ok {after : Vector BufferEntry 10} : ∀ (remaining i : Nat)
    (entry : Vector BufferEntry 10), freeSlotsFrom remaining i entry = .ok after →
      ∀ target, (target < i → after[target]? = entry[target]?) ∧
        (i ≤ target → target < i + remaining → ∃ slot, entry[target]? = some slot ∧
          slot.buffptr ≠ .freed ∧ after[target]? = some slot.released) := by
  intro remaining
  induction remaining with
  | zero =>
      intro i entry freed target
      cases freed
      exact ⟨fun _ => rfl, fun lower upper => by omega⟩
  | succ remaining ih =>
      intro i entry freed target
      rw [freeSlotsFrom] at freed
      split at freed
      · cases freed
      next slot found =>
        cases pointer : kfree slot.buffptr with
        | error fault =>
            rw [pointer] at freed
            cases freed
        | ok =>
            rw [pointer, ok_bind] at freed
            obtain ⟨before, later⟩ := ih (i + 1) _ freed target
            obtain ⟨bound, -⟩ := Vector.getElem?_eq_some_iff.mp found
            refine ⟨fun lower => ?_, fun lower upper => ?_⟩
            · rw [before (by omega), Vector.getElem?_setIfInBounds_ne (by omega)]
            · rcases Nat.lt_or_eq_of_le lower with above | rfl
              · obtain ⟨other, at_target, owned, released⟩ := later above (by omega)
                rw [Vector.getElem?_setIfInBounds_ne (by omega)] at at_target
                exact ⟨other, at_target, owned, released⟩
              · refine ⟨slot, found, ?_, ?_⟩
                · intro dangling
                  rw [dangling] at pointer
                  cases pointer
                · rw [before (by omega), Vector.getElem?_setIfInBounds_self_of_lt bound]

/-- A free that succeeds has found an owned block or NULL in every slot. -/
theorem free_ok {buffer after : CircularBuffer} (freed : aesdCircularBufferFree buffer = .ok after) :
    after = { zeroedBuffer with entry := after.entry, full := buffer.full } ∧
      ∀ target < 10, ∃ slot, buffer.entry[target]? = some slot ∧ slot.buffptr ≠ .freed ∧
        after.entry[target]? = some slot.released := by
  rw [aesdCircularBufferFree] at freed
  cases loop : freeSlotsFrom 10 0 buffer.entry with
  | error fault =>
      rw [loop] at freed
      cases freed
  | ok entry =>
      rw [loop] at freed
      cases freed
      refine ⟨rfl, fun target bound => ?_⟩
      exact (freeSlotsFrom_ok 10 0 _ loop target).2 (Nat.zero_le _) (by omega)

/-! Slot 0 is the first to be used, so it dangles once a stored command has been released. -/

/-- After a free, while slot 0 still points to a released block. -/
structure Dangling (buffer : CircularBuffer) : Prop where
  slot : ∃ size, buffer.entry[0]? = some ⟨.freed, size⟩
  wAbs : buffer.wAbs = 0

theorem bind_eq_ok {α β : Type} {value : Except Fault α} {next : α → Except Fault β} {result : β}
    (ran : (value >>= next) = .ok result) : ∃ made, value = .ok made ∧ next made = .ok result := by
  cases value with
  | error fault => cases ran
  | ok made => exact ⟨made, rfl, ran⟩

/-- What an operation that returns has done to the state. -/
theorem perform_cases {state next : BufferState} {op : BufferOp} {result : OpResult}
    (performed : state.perform op = .ok (result, next)) :
    (∃ chunk, op = .add chunk ∧
      aesdCircularBufferAddEntry {} state ⟨.block chunk, chunk.length⟩ = .ok next) ∨
    (∃ resultBuf len fPos read, op.chunks = [] ∧
      aesdCircularBufferRaed state.buffer resultBuf len fPos = some read ∧
      next = { state with buffer := read.buffer }) ∨
    op.chunks = [] ∧ next = state := by
  cases op with
  | add chunk =>
      obtain ⟨after, added, done⟩ := bind_eq_ok performed
      cases done
      exact Or.inl ⟨chunk, rfl, added⟩
  | raed resultBuf len fPos =>
      obtain ⟨read, called⟩ := raed_ends state.buffer resultBuf len fPos
      simp only [BufferState.perform, called, Except.ok.injEq, Prod.mk.injEq] at performed
      exact Or.inr (Or.inl ⟨resultBuf, len, fPos, read, rfl, called, performed.2.symm⟩)
  | findEntry charOffset =>
      obtain ⟨entry, -, done⟩ := bind_eq_ok performed
      cases done
      exact Or.inr (Or.inr ⟨rfl, rfl⟩)
  | getBytes elemInd ofsInElem =>
      obtain ⟨count, -, done⟩ := bind_eq_ok performed
      cases done
      exact Or.inr (Or.inr ⟨rfl, rfl⟩)

theorem Dangling.addEntry {state next : BufferState} (dangling : Dangling state.buffer)
    {entry : BufferEntry} (added : aesdCircularBufferAddEntry {} state entry = .ok next) :
    next.buffer = state.buffer := by
  rw [aesdCircularBufferAddEntry] at added
  obtain ⟨tmpEntry, -, added⟩ := bind_eq_ok added
  obtain ⟨lastChar, -, added⟩ := bind_eq_ok added
  split at added
  · obtain ⟨buffer, stored, -⟩ := bind_eq_ok added
    obtain ⟨size, slot⟩ := dangling.slot
    have zero : slotOf state.buffer.wAbs = 0 := by rw [dangling.wAbs]; rfl
    rw [storeCommand, zero, slot] at stored
    cases stored
  · cases added
    rfl

theorem Dangling.perform {state next : BufferState} {op : BufferOp} {result : OpResult}
    (dangling : Dangling state.buffer) (performed : state.perform op = .ok (result, next)) :
    Dangling next.buffer := by
  obtain ⟨chunk, -, added⟩ | ⟨_, _, _, read, -, called, rfl⟩ | ⟨-, rfl⟩ := perform_cases performed
  · rw [dangling.addEntry added]
    exact dangling
  · change Dangling read.buffer
    rw [raed_buffer called]
    exact ⟨dangling.slot, dangling.wAbs⟩
  · exact dangling

theorem Dangling.not_freed {buffer after : CircularBuffer} (dangling : Dangling buffer) :
    aesdCircularBufferFree buffer ≠ .ok after := by
  intro freed
  obtain ⟨size, slot⟩ := dangling.slot
  obtain ⟨entry, found, owned, -⟩ := (free_ok freed).2 0 (by decide)
  rw [slot, Option.some.injEq] at found
  exact owned (found ▸ rfl)

/-! Before that, the state follows what was added. -/

theorem Follows.perform {state next : BufferState} {chunks : List Bytes}
    (follows : Follows state chunks) {op : BufferOp} {result : OpResult} (allowed : op.Allowed)
    (performed : state.perform op = .ok (result, next)) : Follows next (chunks ++ op.chunks) := by
  obtain ⟨chunk, rfl, added⟩ | ⟨_, _, _, read, none, called, rfl⟩ | ⟨none, rfl⟩ :=
    perform_cases performed
  · obtain ⟨other, again, followed⟩ := follows.add allowed
    rw [added, Except.ok.injEq] at again
    subst again
    exact followed
  · rw [none, List.append_nil]
    exact follows.read called
  · rw [none, List.append_nil]
    exact follows

theorem slotEntry_zero {commands : List Bytes} (present : commands ≠ []) :
    ∃ command, slotEntry commands 0 = ⟨.block command, command.length⟩ := by
  have used : lastIndex commandSlot commands.length 0 ≠ none :=
    lastIndex_ne_none commandSlot (List.length_pos_iff.mpr present)
  rw [slotEntry]
  split
  next unused => exact absurd unused used
  next index _ => exact ⟨commands.getD index [], rfl⟩

theorem Represents.free_stored {state : BufferState} {commands : List Bytes} {pending : Bytes}
    (represents : Represents state commands pending) (present : commands ≠ [])
    {buffer : CircularBuffer} (freed : aesdCircularBufferFree state.buffer = .ok buffer) :
    Dangling buffer := by
  obtain ⟨reset, slots⟩ := free_ok freed
  obtain ⟨command, used⟩ := slotEntry_zero present
  obtain ⟨slot, found, -, released⟩ := slots 0 (by decide)
  rw [represents.entry 0 (by decide), used, Option.some.injEq] at found
  subst found
  exact ⟨⟨command.length, released⟩, by rw [reset]; rfl⟩

theorem Represents.free_unused {state : BufferState} {pending : Bytes}
    (represents : Represents state [] pending) {buffer : CircularBuffer}
    (freed : aesdCircularBufferFree state.buffer = .ok buffer) :
    Represents ⟨buffer, state.tmpEntry⟩ [] pending := by
  obtain ⟨reset, slots⟩ := free_ok freed
  rw [reset]
  refine ⟨rfl, rfl, rfl, rfl, rfl, ?_, represents.tmpEntry⟩
  intro target bound
  have unused : slotEntry [] target = emptyEntry := rfl
  obtain ⟨slot, found, -, released⟩ := slots target bound
  rw [represents.entry target bound, unused, Option.some.injEq] at found
  subst found
  rw [unused]
  exact released

/-- Either the slots still hold what was added, or a free has released a stored command. -/
structure Traces (state : BufferState) (chunks : List Bytes) : Prop where
  nonempty : ∀ chunk ∈ chunks, chunk ≠ []
  follows : Follows state chunks ∨ commandsOf chunks ≠ [] ∧ Dangling state.buffer

theorem BufferOp.Allowed.chunks {op : BufferOp} (allowed : op.Allowed) :
    ∀ chunk ∈ op.chunks, chunk ≠ [] := by
  cases op with
  | add chunk => simpa [BufferOp.chunks, BufferOp.Allowed] using allowed
  | raed => simp [BufferOp.chunks]
  | findEntry => simp [BufferOp.chunks]
  | getBytes => simp [BufferOp.chunks]

theorem BufferState.Reachable.traces {state : BufferState} {chunks : List Bytes}
    (reachable : state.Reachable chunks) : Traces state chunks := by
  induction reachable with
  | init started =>
      cases started
      exact ⟨by simp, Or.inl represents_boot⟩
  | @perform state next chunks op result _ allowed performed ih =>
      constructor
      · intro chunk member
        rcases List.mem_append.mp member with earlier | added
        · exact ih.nonempty chunk earlier
        · exact allowed.chunks chunk added
      · rcases ih.follows with follows | ⟨stored, dangling⟩
        · exact Or.inl (follows.perform allowed performed)
        · have part := commandsOf_prefix chunks op.chunks
          exact Or.inr ⟨fun none => stored (List.prefix_nil.mp (none ▸ part)),
            dangling.perform performed⟩
  | @free state chunks buffer _ freed ih =>
      refine ⟨ih.nonempty, ?_⟩
      rcases ih.follows with follows | ⟨-, dangling⟩
      · by_cases stored : commandsOf chunks = []
        · rw [Follows, stored] at follows ⊢
          exact Or.inl (follows.free_unused freed)
        · exact Or.inr ⟨stored, Represents.free_stored follows stored freed⟩
      · exact absurd freed dangling.not_freed

/-! While nothing has been added, the state is the one that init leaves. -/

theorem init_boot : aesdCircularBufferInit emptyEntry = .ok ⟨zeroedBuffer, emptyEntry⟩ := rfl

theorem raed_zeroed {resultBuf : Bytes} {len : UInt64} {fPos : Int} {read : Raed}
    (called : aesdCircularBufferRaed zeroedBuffer resultBuf len fPos = some read) :
    read.buffer = zeroedBuffer := by
  by_cases window : InWindow zeroedBuffer fPos
  · have noWrap : NoWrap [] := ⟨by decide, by decide⟩
    have unwrapped : Unwrapped zeroedBuffer [] :=
      ⟨represents_boot.holds (by decide) (by decide), noWrap, by simp⟩
    rw [raed_of_past resultBuf len window (unwrapped.find_empty _) rfl] at called
    cases called
    rfl
  · rw [raed_outside window] at called
    cases called
    rfl

theorem perform_boot {op : BufferOp} {result : OpResult} {next : BufferState}
    (unadded : op.chunks = [])
    (performed : BufferState.perform ⟨zeroedBuffer, emptyEntry⟩ op = .ok (result, next)) :
    next = ⟨zeroedBuffer, emptyEntry⟩ := by
  obtain ⟨chunk, rfl, -⟩ | ⟨_, _, _, read, -, called, rfl⟩ | ⟨-, rfl⟩ := perform_cases performed
  · cases unadded
  · rw [raed_zeroed called]
  · rfl

theorem free_zeroed : aesdCircularBufferFree zeroedBuffer = .ok zeroedBuffer := by decide +kernel

theorem BufferState.Reachable.boot {state : BufferState} {chunks : List Bytes}
    (reachable : state.Reachable chunks) (unadded : chunks = []) :
    state = ⟨zeroedBuffer, emptyEntry⟩ := by
  induction reachable with
  | init started =>
      cases started
      rfl
  | perform _ _ performed ih =>
      obtain ⟨before, op⟩ := List.append_eq_nil_iff.mp unadded
      rw [ih before] at performed
      exact perform_boot op performed
  | free _ freed ih =>
      rw [ih unadded, free_zeroed] at freed
      cases freed
      rw [ih unadded]

/-! A command that is pending when the buffer is freed comes out in front of the next one. -/

/-- The first of one byte of the first entry. The entry may have any size: a size that is zero
as an `int` makes the copy take nothing. -/
theorem copyFrom_firstByte {buffer : CircularBuffer} {state : CopyState} {command : Bytes}
    (wAbs : buffer.wAbs.toNat = 1) (entry : buffer.entry[0]? = some ⟨.block command, command.length⟩)
    (startp : state.startp = (0 : Nat)) (fresh : state.readLen = 0) {fuel : Nat}
    (enough : 0 < fuel) :
    ∃ final, copyFrom buffer 1 0 0 fuel state = some final ∧
      final.readLen = min 1 (toUnsigned 64 (toInt command.length)) ∧
      final.accesses = state.accesses ++
        [.slot 0, .memcpy 0 0 (toInt command.length) final.readLen 0] := by
  obtain ⟨fuel, rfl⟩ : ∃ rest, fuel = rest + 1 := ⟨fuel - 1, by omega⟩
  have start : ofsInEntry 0 state = 0 := by
    rw [ofsInEntry]
    split <;> rfl
  have step := copyStep_first startp entry fresh (by decide : 1 < 2 ^ 64) 0 0
  rw [start, Int.sub_zero] at step
  rw [copyFrom, step]
  by_cases leaves : toUnsigned 64 (toInt command.length) ≤ 1
  · have met : toUnsigned 32 (toInt (((0 : Nat) : Int) + 1)) = 1 := rfl
    rw [if_pos leaves, advanceEntry_eq, CopyState.tookFirst, CopyState.recorded, startp, met, wAbs,
      if_pos rfl]
    exact ⟨_, rfl, rfl, rfl⟩
  · rw [if_neg leaves]
    exact ⟨_, rfl, rfl, rfl⟩

/-- The lookup of position 0 when one command is stored. A size that is zero as a `size_t` is
passed over. -/
theorem Represents.findFirst {state : BufferState} {command pending : Bytes}
    (represents : Represents state [command] pending) (nonempty : command ≠ []) :
    aesdCircularBufferFindEntryOffsetAndIndexForFpos state.buffer
        (toUnsigned 64 (0 - state.buffer.startCharAbs.toNat)) =
      if 0 < toUnsigned 64 command.length then some ⟨(0 : Nat), some 0, [.slot 0]⟩
      else some ⟨(1 : Nat), none, [.slot 0]⟩ := by
  have wAbs : state.buffer.wAbs.toNat = 1 := congrArg UInt32.toNat represents.wAbs
  have startAbs : state.buffer.startAbs.toNat = 0 := congrArg UInt32.toNat represents.startAbs
  have startCharAbs : state.buffer.startCharAbs.toNat = 0 :=
    congrArg UInt32.toNat represents.startCharAbs
  have entry : state.buffer.entry[0]? = some ⟨.block command, command.length⟩ :=
    represents.entry 0 (by decide)
  have filled : command.length ≠ 0 := List.length_eq_zero_iff.not.mpr nonempty
  have steps : indexSteps = (2 ^ 32 - 1) + 1 := rfl
  have start : toInt ((0 : Nat) : Int) = (0 : Nat) := rfl
  have slot : toUnsigned 32 (((0 : Nat) : Int) - ((0 : Nat) : Int)) = 0 := rfl
  have position : toUnsigned 64 (0 - ((0 : Nat) : Int)) = 0 := rfl
  have offset : toUnsigned 64 (((0 : Nat) : Int) - 0) = 0 := rfl
  have next : toInt (((0 : Nat) : Int) + 1) = (1 : Nat) := rfl
  have ended : toUnsigned 32 ((1 : Nat) : Int) = 1 := rfl
  rw [aesdCircularBufferFindEntryOffsetAndIndexForFpos, startCharAbs, steps, findIndexFrom,
    startAbs]
  simp only [start, slot, entry, position, offset, Int.zero_add, filled, or_false, next, ended,
    wAbs, Nat.le_refl, if_true, List.nil_append]

/-- Reading one byte at position 0 when one command is stored returns its first byte, or
nothing. -/
theorem Represents.firstByte {state : BufferState} {command pending : Bytes} {first : UInt8}
    (represents : Represents state [command] pending) (begins : command.head? = some first) :
    ∃ read, aesdCircularBufferRaed state.buffer [0] 1 0 = some read ∧
      (command.length < 2 ^ 31 → read.ret = 1) ∧
      (read.ret = 1 → read.result state.buffer [0] = some [first]) := by
  obtain ⟨rest, rfl⟩ := List.head?_eq_some_iff.mp begins
  have wAbs : state.buffer.wAbs.toNat = 1 := congrArg UInt32.toNat represents.wAbs
  have startCharAbs : state.buffer.startCharAbs.toNat = 0 :=
    congrArg UInt32.toNat represents.startCharAbs
  have entry : state.buffer.entry[0]? = some ⟨.block (first :: rest), (first :: rest).length⟩ :=
    represents.entry 0 (by decide)
  have window : InWindow state.buffer 0 := by
    rw [InWindow, startCharAbs]
    omega
  have found := represents.findFirst (List.cons_ne_nil first rest)
  by_cases seen : 0 < toUnsigned 64 (first :: rest).length
  · rw [if_pos seen] at found
    have startp : CopyState.startp (CopyState.enter state.buffer 0 0 [.slot 0]) = (0 : Nat) := rfl
    have entered : (state.buffer.located 0).wAbs.toNat = 1 := wAbs
    obtain ⟨final, copied, readLen, accesses⟩ :=
      copyFrom_firstByte entered entry startp rfl (by decide : 0 < indexSteps)
    have called : aesdCircularBufferRaed state.buffer [0] 1 0 =
        some ⟨final.readLen, _, _, final.accesses⟩ :=
      raed_of_entered window found (by omega) copied
    refine ⟨_, called, ?_, ?_⟩
    · intro small
      change final.readLen = 1
      rw [readLen, toInt_natCast small]
      omega
    · intro taken
      change final.readLen = 1 at taken
      have stored : state.buffer.entry[0] = ⟨.block (first :: rest), (first :: rest).length⟩ := by
        simpa using entry
      rw [taken] at accesses
      simp [Raed.result, accesses, CopyState.enter, Access.inBounds, Access.apply, stored,
        CircularBuffer.holdsRange, overwrite]
  · rw [if_neg seen] at found
    have called := raed_of_past [0] 1 window found wAbs.symm
    refine ⟨_, called, ?_, fun impossible => by cases impossible⟩
    intro small
    rw [toUnsigned_natCast (by omega)] at seen
    exact absurd (Nat.succ_pos rest.length) seen

theorem Follows.firstByte_results {state : BufferState} {chunks : List Bytes}
    (follows : Follows state chunks) (unstored : commandsOf chunks = []) {chunk : Bytes}
    {first : UInt8} (nonempty : chunk ≠ []) (ended : endsCommand chunk = true)
    (begins : (pendingOf chunks ++ chunk).head? = some first) :
    ∃ ret fPos taken, state.results [.add chunk, .raed [0] 1 0] =
        [.ok .added, .ok (.read ret fPos taken)] ∧
      ((pendingOf chunks ++ chunk).length < 2 ^ 31 → ret = 1) ∧
      (ret = 1 → taken = some [first]) := by
  obtain ⟨next, added, followed⟩ := follows.add nonempty
  rw [Follows, commandsOf_concat, if_pos ended, unstored, List.nil_append] at followed
  obtain ⟨read, called, one, taken⟩ := followed.firstByte begins
  refine ⟨read.ret, read.fPos, _, ?_, one, taken⟩
  have performed : state.perform (.add chunk) = .ok (.added, next) := by
    rw [BufferState.perform, added]
    rfl
  have reads : next.perform (.raed [0] 1 0) = .ok (.read read.ret read.fPos
      (read.result next.buffer [0]), { next with buffer := read.buffer }) := by
    rw [BufferState.perform, called]
  simp only [BufferState.results, performed, reads]

theorem Follows.not_likeNew_of_pending {state : BufferState} {chunks : List Bytes}
    (follows : Follows state chunks) (unstored : commandsOf chunks = [])
    (pending : pendingOf chunks ≠ []) : ¬ LikeNew state := by
  rintro ⟨buffer, freed, -, same⟩
  obtain ⟨first, rest, begins⟩ := List.exists_cons_of_ne_nil pending
  have after : Follows ⟨buffer, state.tmpEntry⟩ chunks := by
    rw [Follows, unstored] at follows ⊢
    exact follows.free_unused freed
  have ended : endsCommand [first + 1, 10] = true := rfl
  obtain ⟨ret, fPos, taken, results, -, byte⟩ :=
    after.firstByte_results unstored (List.cons_ne_nil _ _) ended
      (show _ = some first by rw [begins]; rfl)
  have boot : Follows ⟨zeroedBuffer, emptyEntry⟩ [] := represents_boot
  obtain ⟨freshRet, freshPos, freshTaken, freshResults, one, freshByte⟩ :=
    boot.firstByte_results rfl (List.cons_ne_nil _ _) ended rfl
  have allowed : ∀ op ∈ [BufferOp.add [first + 1, 10], .raed [0] 1 0], op.Allowed := by
    simp [BufferOp.Allowed]
  have agree := same _ init_boot _ allowed
  rw [results, freshResults] at agree
  simp only [List.cons.injEq, Except.ok.injEq, OpResult.read.injEq, true_and, and_true] at agree
  obtain ⟨sameRet, -, sameTaken⟩ := agree
  have two : (pendingOf [] ++ [first + 1, 10]).length = 2 := rfl
  have freshOne : freshRet = 1 := one (by omega)
  rw [byte (sameRet.trans freshOne), freshByte freshOne] at sameTaken
  simp at sameTaken

theorem Follows.not_likeNew_of_stored {state : BufferState} {chunks : List Bytes}
    (follows : Follows state chunks) (stored : commandsOf chunks ≠ []) : ¬ LikeNew state := by
  rintro ⟨buffer, freed, owned, -⟩
  obtain ⟨size, slot⟩ := (Represents.free_stored follows stored freed).slot
  exact owned 0 (by decide) _ slot rfl

theorem boot_likeNew : LikeNew ⟨zeroedBuffer, emptyEntry⟩ := by
  refine ⟨zeroedBuffer, free_zeroed, ?_, ?_⟩
  · intro target bound entry found
    rw [zeroedBuffer, Vector.getElem?_replicate, if_pos bound, Option.some.injEq] at found
    subst found
    simp [emptyEntry]
  · intro fresh started ops _
    cases started
    rfl

/-- A freed buffer behaves like a new one exactly when nothing was ever added to it. -/
theorem reachable_likeNew_iff {state : BufferState} {chunks : List Bytes}
    (reachable : state.Reachable chunks) : LikeNew state ↔ chunks = [] := by
  constructor
  · intro likeNew
    have traces := reachable.traces
    rcases traces.follows with follows | ⟨-, dangling⟩
    · have stored : commandsOf chunks = [] := by
        by_contra stored
        exact follows.not_likeNew_of_stored stored likeNew
      have pending : pendingOf chunks = [] := by
        by_contra pending
        exact follows.not_likeNew_of_pending stored pending likeNew
      have whole : (commandsOf chunks).flatten ++ pendingOf chunks = chunks.flatten :=
        collect_flatten endsCommand chunks
      rw [stored, pending] at whole
      cases chunks with
      | nil => rfl
      | cons chunk chunks =>
          have empty : chunk = [] := List.flatten_eq_nil_iff.mp whole.symm chunk List.mem_cons_self
          exact absurd empty (traces.nonempty chunk List.mem_cons_self)
    · obtain ⟨buffer, freed, -⟩ := likeNew
      exact absurd freed dangling.not_freed
  · intro unadded
    rw [reachable.boot unadded]
    exact boot_likeNew

def storedState : BufferState := ⟨zeroedBuffer.store [97, 10], ⟨.freed, 0⟩⟩

theorem storedState_reachable : storedState.Reachable [[97, 10]] := by
  have performed : BufferState.perform ⟨zeroedBuffer, emptyEntry⟩ (.add [97, 10]) =
      .ok (.added, storedState) := by
    decide +kernel
  have allowed : BufferOp.Allowed (.add [97, 10]) := List.cons_ne_nil _ _
  exact .perform (.init init_boot) allowed performed

theorem reachable_likeNew_iff_stored : LikeNew storedState ↔ [[97, 10]] = ([] : List Bytes) :=
  reachable_likeNew_iff storedState_reachable

/-- After one command and a free, slot 0 points to a released block, and the next command
releases it again. -/
theorem likeNew_fails_stored :
    ∃ state buffer, state.Reachable [[97, 10]] ∧ aesdCircularBufferFree state.buffer = .ok buffer ∧
      buffer.entry[0]? = some ⟨.freed, 2⟩ ∧
      BufferState.results ⟨buffer, state.tmpEntry⟩ [.add [98, 10]] = [.error .doubleFree] ∧
      ¬ LikeNew state := by
  have evaluated : (aesdCircularBufferFree storedState.buffer).toOption.map (fun buffer =>
      (buffer.entry[0]?, BufferState.results ⟨buffer, storedState.tmpEntry⟩ [.add [98, 10]])) =
        some (some ⟨.freed, 2⟩, [.error .doubleFree]) := by
    decide +kernel
  obtain ⟨buffer, freed, seen⟩ := ok_of_toOption_map evaluated
  obtain ⟨slot, results⟩ := Prod.mk.inj seen
  refine ⟨storedState, buffer, storedState_reachable, freed, slot, results, ?_⟩
  rintro ⟨other, again, owned, -⟩
  rw [freed, Except.ok.injEq] at again
  subst again
  exact owned 0 (by decide) _ slot rfl

end Aesd

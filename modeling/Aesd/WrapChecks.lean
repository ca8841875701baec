import Aesd.DriverRuns

/-!
Reading from the start when counters may have wrapped. The slot of a command, the index of
the copy loop and the window check each break at a wrap of their own.
-/

namespace Aesd

open MachineInt Records SlotLog

/-- The counters of a history of any length still describe its live commands. -/
structure CountersAgree (commands : List Bytes) : Prop where
  /-- no wrap of `w_abs` among the live commands -/
  unbroken : commands.length ≤ 10 ∨ 10 ≤ commands.length % 2 ^ 32
  /-- the copy loop's index stays below 2^31 -/
  index : commands.length % 2 ^ 32 ≤ 2 ^ 31
  /-- `w_char_abs` has not wrapped past `start_char_abs` -/
  window : chargedChars commands % 2 ^ 32 ≤ commands.flatten.length % 2 ^ 32
  /-- `remain_in_entry` can be the size of a live command -/
  small : ∀ command ∈ liveOf commands, command.length < 2 ^ 31

theorem CountersAgree.start {commands : List Bytes} (agree : CountersAgree commands) :
    (commands.length - 10) % 2 ^ 32 + min commands.length 10 = commands.length % 2 ^ 32 := by
  rcases agree.unbroken with few | unbroken
  · rw [Nat.sub_eq_zero_of_le few, Nat.min_eq_left few]
    omega
  · omega

theorem CountersAgree.slotEntry {commands : List Bytes} (agree : CountersAgree commands)
    {index : Nat} (bound : index < commands.length) (recent : commands.length ≤ index + 10) :
    Aesd.slotEntry commands (commandSlot index) =
      ⟨.block commands[index], commands[index].length⟩ :=
  slotEntry_of_unbroken agree.unbroken bound recent

theorem liveEntry {state : BufferState} {commands : List Bytes} {pending : Bytes}
    (represents : Represents state commands pending)
    (unbroken : commands.length ≤ 10 ∨ 10 ≤ commands.length % 2 ^ 32) {age : Nat}
    (bound : age < (liveOf commands).length) :
    state.buffer.entry[((commands.length - 10) % 2 ^ 32 + age) % 10]? =
      some ⟨.block (liveOf commands)[age], (liveOf commands)[age].length⟩ := by
  rw [liveOf_length] at bound
  have slot : ((commands.length - 10) % 2 ^ 32 + age) % 10 =
      commandSlot (commands.length - 10 + age) := by
    rw [commandSlot, wrappedSlot]
    omega
  rw [slot, represents.entry _ (commandSlot_lt _),
    slotEntry_of_unbroken unbroken (by omega) (by omega)]
  simp [liveOf]

theorem CountersAgree.cursor {state : BufferState} {commands : List Bytes} {pending : Bytes}
    (agree : CountersAgree commands) (represents : Represents state commands pending) :
    Cursor state.buffer ((commands.length - 10) % 2 ^ 32) (liveOf commands) where
  entry := fun _ bound => liveEntry represents agree.unbroken bound
  small := agree.small
  last := by
    rw [liveOf_length, agree.start, represents.wAbs, UInt32.toNat_ofNat']
  bound := by
    rw [liveOf_length, agree.start]
    exact agree.index

theorem CountersAgree.slot_zero {commands : List Bytes} (agree : CountersAgree commands)
    (present : commands ≠ []) :
    ∃ command ∈ liveOf commands,
      Aesd.slotEntry commands 0 = ⟨.block command, command.length⟩ := by
  have filled : 0 < commands.length := List.length_pos_iff.mpr present
  obtain ⟨index, bound, recent, slot⟩ : ∃ index, index < commands.length ∧
      commands.length ≤ index + 10 ∧ commandSlot index = 0 := by
    rcases agree.unbroken with few | unbroken
    · exact ⟨0, by omega, by omega, rfl⟩
    · obtain ⟨age, young, aligned⟩ : ∃ age < 10, ((commands.length - 10) % 2 ^ 32 + age) % 10 = 0 :=
        ⟨(10 - (commands.length - 10) % 2 ^ 32 % 10) % 10, by omega, by omega⟩
      have whole : (commands.length - 10 + age) % 2 ^ 32 = (commands.length - 10) % 2 ^ 32 + age := by
        omega
      exact ⟨commands.length - 10 + age, by omega, by omega, by
        rw [commandSlot, wrappedSlot, whole, aligned]⟩
  have entry := agree.slotEntry bound recent
  rw [slot] at entry
  refine ⟨commands[index], ?_, entry⟩
  have member := List.getElem_mem
    (show index - (commands.length - 10) < (liveOf commands).length by
      rw [liveOf_length]
      omega)
  simpa [liveOf, show commands.length - 10 + (index - (commands.length - 10)) = index by omega]
    using member

/-- The lookup of the first byte stops at slot 0 at once. -/
theorem findIndex_start {state : BufferState} {commands : List Bytes} {pending : Bytes}
    (represents : Represents state commands pending)
    (fits : (Aesd.slotEntry commands 0).size < 2 ^ 64) :
    aesdCircularBufferFindEntryOffsetAndIndexForFpos state.buffer
        (toUnsigned 64 ((state.buffer.startCharAbs.toNat : Int) -
          state.buffer.startCharAbs.toNat)) =
      some ⟨toInt ((commands.length - 10) % 2 ^ 32 : Nat), some 0, [.slot 0]⟩ := by
  have charOffset : toUnsigned 64 ((state.buffer.startCharAbs.toNat : Int) -
      state.buffer.startCharAbs.toNat) = 0 := by
    rw [Int.sub_self]
    rfl
  have found := represents.entry 0 (by omega)
  have startAbs : state.buffer.startAbs.toNat = (commands.length - 10) % 2 ^ 32 := by
    rw [represents.startAbs, UInt32.toNat_ofNat']
  have steps : indexSteps = (2 ^ 32 - 1) + 1 := rfl
  have slot : toUnsigned 32 (toInt ((commands.length - 10) % 2 ^ 32 : Nat) -
      ((commands.length - 10) % 2 ^ 32 : Nat)) = 0 := by
    unfold toUnsigned toInt
    rw [Int.bmod_def]
    split <;> omega
  have nextLen : toUnsigned 64 ((0 : Int) + (Aesd.slotEntry commands 0).size) =
      (Aesd.slotEntry commands 0).size := by
    rw [Int.zero_add, toUnsigned_natCast fits]
  have offset : toUnsigned 64 (((0 : Nat) : Int) - 0) = 0 := rfl
  have stops : 0 < (Aesd.slotEntry commands 0).size ∨ (Aesd.slotEntry commands 0).size = 0 := by
    omega
  rw [charOffset, aesdCircularBufferFindEntryOffsetAndIndexForFpos, steps, findIndexFrom, startAbs]
  simp only [slot, found, nextLen, offset, if_pos stops, List.nil_append]

theorem CountersAgree.findIndex {state : BufferState} {commands : List Bytes} {pending : Bytes}
    (agree : CountersAgree commands) (represents : Represents state commands pending)
    (present : commands ≠ []) :
    aesdCircularBufferFindEntryOffsetAndIndexForFpos state.buffer
        (toUnsigned 64 ((state.buffer.startCharAbs.toNat : Int) -
          state.buffer.startCharAbs.toNat)) =
      some ⟨((commands.length - 10) % 2 ^ 32 : Nat), some 0, [.slot 0]⟩ := by
  obtain ⟨command, live, entry⟩ := agree.slot_zero present
  have small := agree.small command live
  have filled : 0 < commands.length := List.length_pos_iff.mpr present
  have start := agree.start
  have index := agree.index
  have size : (Aesd.slotEntry commands 0).size = command.length := by rw [entry]
  rw [findIndex_start represents (by omega), toInt_natCast (by omega)]

theorem flatten_length_le {pieces : List Bytes} {bound : Nat}
    (small : ∀ piece ∈ pieces, piece.length < bound) :
    pieces.flatten.length ≤ pieces.length * bound := by
  rw [← sizesOf_sum]
  have sum := List.sum_le_card_nsmul (sizesOf pieces) bound (by
    intro size member
    obtain ⟨piece, inside, rfl⟩ := List.mem_map.mp member
    exact Nat.le_of_lt (small piece inside))
  simpa using sum

theorem CountersAgree.delivers {state : BufferState} {commands : List Bytes} {pending : Bytes}
    (agree : CountersAgree commands) (represents : Represents state commands pending)
    (present : commands ≠ []) {count : UInt64} (asked : 0 < count.toNat) :
    Delivers state.buffer count state.buffer.startCharAbs.toNat
      ((liveOf commands).flatten.take count.toNat) := by
  have window : InWindow state.buffer state.buffer.startCharAbs.toNat := by
    have order := agree.window
    rw [InWindow, represents.startCharAbs, represents.wCharAbs, UInt32.toNat_ofNat',
      UInt32.toNat_ofNat']
    omega
  have found := agree.findIndex represents present
  have filled : 0 < commands.length := List.length_pos_iff.mpr present
  have live : liveOf commands ≠ [] := by
    apply List.length_pos_iff.mp
    rw [liveOf_length]
    omega
  have room := flatten_length_le agree.small
  rw [liveOf_length] at room
  have clean := cleanRead_of_found window found
    (SlotReads.cons (by omega) (by simp [SlotReads])) (agree.cursor represents) live
    (Nat.zero_le _) asked (by omega)
  simpa using clean.delivers

def ReadsFromStart (sys : Sys) (commands : List Bytes) (file : Nat) : Prop :=
  ∀ count : UInt64, 0 < count.toNat →
    ((sys.step (.llseek file 0 seekSet)).2.step (.read file count)).1 =
      .ret ((liveOf commands).flatten.take count.toNat).length
        ((liveOf commands).flatten.take count.toNat)

theorem Sys.Follows.rewind {sys : Sys} {chunks : List Bytes} {buffer : CircularBuffer}
    (follows : sys.Follows chunks buffer) {file : Nat}
    (opened : (sys.files file).privateData = true) :
    (sys.step (.llseek file 0 seekSet)).2 =
      sys.setFile file ⟨true, (buffer.startCharAbs.toNat : Nat)⟩ := by
  have width := buffer.startCharAbs.toNat_lt
  have newpos : toLong buffer.startCharAbs.toNat = buffer.startCharAbs.toNat :=
    toLong_natCast (by omega)
  simp [Sys.step, aesdLlseek, opened, follows.present, newpos]

theorem Sys.Follows.readAtStart {sys : Sys} {chunks : List Bytes} {buffer : CircularBuffer}
    (follows : sys.Follows chunks buffer) {file : Nat}
    (opened : (sys.files file).privateData = true) (count : UInt64) :
    ((sys.step (.llseek file 0 seekSet)).2.step (.read file count)).1 =
      (aesdRead {} sys.dev ⟨true, (buffer.startCharAbs.toNat : Nat)⟩ count).1 := by
  rw [follows.rewind opened]
  simp [Sys.step, Sys.setFile]

theorem Sys.Follows.readsFromStart {sys : Sys} {chunks : List Bytes} {buffer : CircularBuffer}
    (follows : sys.Follows chunks buffer) (present : commandsOf chunks ≠ [])
    (agree : CountersAgree (commandsOf chunks)) {file : Nat}
    (opened : (sys.files file).privateData = true) :
    ReadsFromStart sys (commandsOf chunks) file := by
  intro count asked
  have delivers := agree.delivers follows.history present asked
  have room := flatten_length_le agree.small
  rw [liveOf_length] at room
  rw [follows.readAtStart opened]
  exact (aesdRead_of_delivers rfl follows.present delivers (by rw [List.length_take]; omega)).1

theorem boot_run_readsFromStart (calls : List Call) (present : commandsIn calls ≠ [])
    (agree : CountersAgree (commandsIn calls)) (file : Nat)
    (opened : ((Sys.boot.run calls).files file).privateData = true) :
    ReadsFromStart (Sys.boot.run calls) (commandsIn calls) file := by
  obtain ⟨buffer, follows⟩ := boot_run_follows calls
  exact follows.readsFromStart present agree opened

instance (commands : List Bytes) : Decidable (CountersAgree commands) :=
  decidable_of_iff
    ((commands.length ≤ 10 ∨ 10 ≤ commands.length % 2 ^ 32) ∧ commands.length % 2 ^ 32 ≤ 2 ^ 31 ∧
      chargedChars commands % 2 ^ 32 ≤ commands.flatten.length % 2 ^ 32 ∧
      ∀ command ∈ liveOf commands, command.length < 2 ^ 31)
    ⟨fun ⟨unbroken, index, window, small⟩ => ⟨unbroken, index, window, small⟩,
      fun ⟨unbroken, index, window, small⟩ => ⟨unbroken, index, window, small⟩⟩

def twelveCalls : List Call := .openFile 0 :: List.replicate 12 (.write 0 [97, 10])

theorem boot_run_readsFromStart_twelve :
    ReadsFromStart (Sys.boot.run twelveCalls) (commandsIn twelveCalls) 0 :=
  boot_run_readsFromStart twelveCalls (by decide) (by decide +kernel) 0 (by decide)

/-! `w_char_abs` wraps to 0 after 1024 commands of 4 MiB, and `start_char_abs` has not. -/

def fourMiB : Bytes := List.replicate 4194303 97 ++ [10]

def fourGiBCalls : List Call := .openFile 0 :: List.replicate 1024 (.write 0 fourMiB)

theorem writesOf_replicate (buf : Bytes) (count : Nat) :
    .openFile 0 :: List.replicate count (.write 0 buf) = writesOf (List.replicate count buf) := by
  rw [writesOf, List.map_replicate]

theorem commandsIn_replicate {buf : Bytes} (ended : endsCommand buf = true) (count : Nat) :
    commandsIn (.openFile 0 :: List.replicate count (.write 0 buf)) = List.replicate count buf := by
  have all : ∀ chunk ∈ List.replicate count buf, endsCommand chunk = true := by
    intro chunk member
    rw [List.eq_of_mem_replicate member, ended]
  rw [writesOf_replicate, commandsIn_writesOf, commandsOf, collect_of_all_closing endsCommand all]

theorem chargedChars_replicate {count : Nat} (bound : count ≤ 2 ^ 32) (buf : Bytes) :
    chargedChars (List.replicate count buf) = (min (count - 1) (count - 10)) * buf.length := by
  rw [chargedChars_eq (by simpa using bound)]
  simp [Nat.min_comm]

theorem openedBy_replicate (buf : Bytes) (count : Nat) :
    ((Sys.boot.run (.openFile 0 :: List.replicate count (.write 0 buf))).files 0).privateData =
      true := by
  rw [writesOf_replicate]
  exact writesOf_opened _

/-- Once `w_char_abs` has wrapped below `start_char_abs`, reads from the start fail. -/
theorem boot_run_refused {calls : List Call} {file : Nat}
    (opened : ((Sys.boot.run calls).files file).privateData = true)
    (wrapped : (commandsIn calls).flatten.length % 2 ^ 32 < chargedChars (commandsIn calls) % 2 ^ 32)
    (count : UInt64) :
    (((Sys.boot.run calls).step (.llseek file 0 seekSet)).2.step (.read file count)).1 =
      .ret (-1) [] := by
  obtain ⟨buffer, follows⟩ := boot_run_follows calls
  have history : Represents _ (commandsIn calls) _ := follows.history
  have outside : ¬ InWindow buffer (buffer.startCharAbs.toNat : Nat) := by
    have start := congrArg UInt32.toNat history.startCharAbs
    have written := congrArg UInt32.toNat history.wCharAbs
    rw [UInt32.toNat_ofNat'] at start written
    rw [InWindow, start, written]
    omega
  rw [follows.readAtStart opened]
  exact aesdRead_outside rfl follows.present outside

/-! Reads that return every live byte show that the counters agree. -/

/-- The room is larger than the entry, so the copy takes all that `remain_in_entry` counts, and a
count that has wrapped below zero would leave the entry. -/
theorem copyStep_unclipped {buffer : CircularBuffer} {len index : Nat} {piece : Bytes}
    {state : CopyState} (startp : state.startp = index)
    (found : buffer.entry[index % 10]? = some ⟨.block piece, piece.length⟩)
    (lenBound : len < 2 ^ 63) (more : state.readLen + piece.length < len)
    (inBounds : (copyStep buffer len 0 0 state).state.accesses.all (Access.inBounds buffer len) =
      true) :
    ∃ copied : CopyState, copyStep buffer len 0 0 state = advanceEntry buffer len copied ∧
      copied.startp = index ∧ (copied.readLen : Int) = state.readLen + toInt piece.length ∧
      0 ≤ toInt piece.length := by
  have offset : ofsInEntry 0 state = 0 := by
    rw [ofsInEntry]
    split <;> rfl
  have wrapped := toInt_bounds piece.length
  have below := toInt_natCast_le piece.length
  simp only [copyStep, startp, toUnsigned_tmod_ten, found, offset, Int.sub_zero, reduceCtorEq,
    if_false] at inBounds ⊢
  have inside : copyLength len state.readLen (toInt piece.length) ≤ piece.length := by
    have made := List.all_eq_true.mp inBounds (.memcpy (index % 10) 0 (toInt piece.length)
      (copyLength len state.readLen (toInt piece.length)) (0 + state.readLen)) (by
        split
        · rw [advanceEntry_accesses]
          simp
        · split <;> simp [Flow.state])
    simp only [Access.inBounds, CircularBuffer.holdsRange, found, Bool.and_eq_true,
      decide_eq_true_eq] at made
    omega
  have unclipped : copyLength len state.readLen (toInt piece.length) =
      toUnsigned 64 (toInt piece.length) := by
    rw [copyLength] at inside ⊢
    split at inside
    next =>
      rw [← Nat.cast_sub (by omega), toUnsigned_natCast (by omega)] at inside
      omega
    next short => rw [if_neg short]
  rw [unclipped] at inside ⊢
  have positive : 0 ≤ toInt piece.length := by
    by_contra negative
    have large := toUnsigned_of_neg wrapped.1 (not_le.mp negative)
    omega
  have taken := toUnsigned_of_nonneg positive wrapped.2
  rw [if_pos (Nat.le_refl _), taken]
  refine ⟨_, rfl, rfl, ?_, positive⟩
  dsimp only
  rw [← Nat.cast_add, toUnsigned_natCast (by omega)]
  omega

theorem copyFrom_wrapped {buffer : CircularBuffer} {len : Nat} (lenBound : len < 2 ^ 63)
    {fuel : Nat} {state final : CopyState} (startp : state.startp = -2 ^ 31)
    (within : state.readLen ≤ len) (ended : copyFrom buffer len 0 0 fuel state = some final)
    (inBounds : final.accesses.all (Access.inBounds buffer len) = true) : False := by
  have slot : toUnsigned 8 ((-2 ^ 31 : Int).tmod 10) = 248 := by decide
  have made : Access.slot 248 ∈ (copyStep buffer len 0 0 state).state.accesses := by
    rw [copyStep, startp, slot]
    simp [Flow.state]
  have kept := (copyFrom_accesses (by omega) fuel state final ended within).subset made
  have outside := List.all_eq_true.mp inBounds _ kept
  simp [Access.inBounds] at outside

/-- A copy that stays in bounds and has room to spare takes at most the bytes of the entries, and
takes them all only when no entry's size and no index wraps. -/
theorem copyFrom_whole {buffer : CircularBuffer} {len : Nat} (lenBound : len < 2 ^ 63) :
    ∀ (pieces : List Bytes) (fuel index : Nat) (state final : CopyState), pieces ≠ [] →
      (∀ age (bound : age < pieces.length), buffer.entry[(index + age) % 10]? =
        some ⟨.block pieces[age], pieces[age].length⟩) →
      index + pieces.length = buffer.wAbs.toNat → index < 2 ^ 31 → state.startp = index →
      state.readLen + pieces.flatten.length < len →
      copyFrom buffer len 0 0 fuel state = some final →
      final.accesses.all (Access.inBounds buffer len) = true →
      final.readLen ≤ state.readLen + pieces.flatten.length ∧
        (final.readLen = state.readLen + pieces.flatten.length →
          (∀ piece ∈ pieces, piece.length < 2 ^ 31) ∧ index + pieces.length ≤ 2 ^ 31) := by
  intro pieces
  induction pieces with
  | nil => exact fun _ _ _ _ present => absurd rfl present
  | cons piece pieces ih =>
      intro fuel index state final _ entry last bound startp room ended inBounds
      obtain ⟨fuel, rfl⟩ : ∃ rest, fuel = rest + 1 := by
        cases fuel with
        | zero => cases ended
        | succ fuel => exact ⟨fuel, rfl⟩
      have width := buffer.wAbs.toNat_lt
      rw [List.flatten_cons, List.length_append] at room ⊢
      rw [List.length_cons] at last ⊢
      have first := (copyFrom_accesses (by omega) _ _ _ ended (by omega)).subset
      obtain ⟨copied, step, moved, read, positive⟩ := copyStep_unclipped startp (entry 0 (by simp))
        lenBound (by simp; omega) (List.all_eq_true.mpr fun access member =>
          List.all_eq_true.mp inBounds access (first member))
      have below := toInt_natCast_le piece.length
      have wrapped := (toInt_bounds piece.length).2
      simp only [List.getElem_cons_zero] at read positive
      have next : toUnsigned 32 (toInt (copied.startp + 1)) = index + 1 := by
        rw [moved, toUnsigned_toInt, ← Nat.cast_succ, toUnsigned_natCast (by omega)]
      rw [copyFrom, step, advanceEntry_eq, next] at ended
      cases pieces with
      | nil =>
          rw [if_pos (by simpa using last)] at ended
          cases ended
          have same : (copied.movedOn copied.full).readLen = copied.readLen := rfl
          simp only [same, List.flatten_nil, List.length_nil, List.mem_singleton, forall_eq]
          refine ⟨by omega, fun whole => ⟨by omega, by omega⟩⟩
      | cons second later =>
          rw [if_neg (by simp at last; omega), if_neg (by omega)] at ended
          have kept : (copied.movedOn false).readLen = copied.readLen := rfl
          by_cases fits : index + 1 < 2 ^ 31
          · obtain ⟨upper, all⟩ := ih fuel (index + 1) (copied.movedOn false) final (by simp)
              (fun age bound => by
                have found := entry (age + 1) (by simpa using bound)
                rw [show index + (age + 1) = index + 1 + age by omega] at found
                simpa using found)
              (by omega) fits (CopyState.movedOn_startp moved fits false) (by rw [kept]; omega) ended
              inBounds
            rw [kept] at upper all
            refine ⟨by omega, fun whole => ?_⟩
            obtain ⟨small, agrees⟩ := all (by omega)
            exact ⟨List.forall_mem_cons.mpr ⟨by omega, small⟩, by omega⟩
          · have wraps : (copied.movedOn false).startp = -2 ^ 31 := by
              change toInt (copied.startp + 1) = _
              rw [moved, show ((index : Int) + 1) = 2 ^ 31 by omega]
              rfl
            exact (copyFrom_wrapped lenBound wraps (by rw [kept]; omega) ended inBounds).elim

theorem slotEntry_size_lt {commands : List Bytes} {bound : Nat} (positive : 0 < bound)
    (fits : ∀ command ∈ commands, command.length < bound) (target : Nat) :
    (slotEntry commands target).size < bound := by
  rw [slotEntry]
  split
  · exact positive
  next index found =>
    rw [List.getD_eq_getElem _ _ (lastIndex_lt commandSlot found)]
    exact fits _ (List.getElem_mem _)

/-- A read that finds the oldest byte at the first slot and returns every live byte, with room for
one more. -/
theorem countersAgree_of_read {state : BufferState} {commands : List Bytes} {pending : Bytes}
    (represents : Represents state commands pending)
    (fits : ∀ command ∈ commands, command.length < 2 ^ 59)
    (window : InWindow state.buffer state.buffer.startCharAbs.toNat) {len : UInt64}
    (room : (liveOf commands).flatten.length < len.toNat) (lenBound : len.toNat < 2 ^ 63)
    {read : Raed}
    (called : aesdCircularBufferRaed state.buffer (List.replicate len.toNat 0) len
      state.buffer.startCharAbs.toNat = some read)
    (inBounds : read.accesses.all (Access.inBounds state.buffer len.toNat) = true)
    (whole : read.ret = (liveOf commands).flatten.length) (filled : 0 < read.ret) :
    CountersAgree commands := by
  have slot := slotEntry_size_lt (by decide) fits 0
  have found := findIndex_start represents (by omega)
  have nonneg : 0 ≤ toInt ((commands.length - 10) % 2 ^ 32 : Nat) := by
    by_contra negative
    rw [raed_of_negative _ len window found (not_le.mp negative), Option.some.injEq] at called
    subst called
    exact absurd filled (lt_irrefl 0)
  have start := lt_of_toInt_nonneg (by omega) nonneg
  have unbroken : commands.length ≤ 10 ∨ 10 ≤ commands.length % 2 ^ 32 := by omega
  have present : liveOf commands ≠ [] := by
    intro none
    rw [none] at whole
    exact absurd filled (by simp [whole])
  have several := List.length_pos_iff.mpr present
  rw [liveOf_length] at several
  have wAbs : state.buffer.wAbs.toNat = commands.length % 2 ^ 32 := by
    rw [represents.wAbs, UInt32.toNat_ofNat']
  have last : (commands.length - 10) % 2 ^ 32 + (liveOf commands).length =
      state.buffer.wAbs.toNat := by
    rw [liveOf_length, wAbs]
    omega
  have before : (commands.length - 10) % 2 ^ 32 < state.buffer.wAbs.toNat := by omega
  rw [toInt_natCast start] at found
  obtain ⟨final, copied⟩ :=
    copyFrom_indexSteps (CopyState.start_copying before len [.slot 0]) 0 0
  rw [raed_of_copied window found before copied, Option.some.injEq] at called
  subst called
  dsimp only at whole inBounds
  have fresh : (CopyState.start state.buffer ((commands.length - 10) % 2 ^ 32) [.slot 0]).readLen =
      0 := rfl
  have entry (age : Nat) (bound : age < (liveOf commands).length) :
      (state.buffer.located ((commands.length - 10) % 2 ^ 32)).entry[
          ((commands.length - 10) % 2 ^ 32 + age) % 10]? =
        some ⟨.block (liveOf commands)[age], (liveOf commands)[age].length⟩ :=
    liveEntry represents unbroken bound
  obtain ⟨small, index⟩ := (copyFrom_whole lenBound (liveOf commands) indexSteps
    ((commands.length - 10) % 2 ^ 32) _ final present entry last start rfl
    (by rwa [fresh, Nat.zero_add]) copied inBounds).2 (by rwa [fresh, Nat.zero_add])
  refine ⟨unbroken, ?_, ?_, small⟩
  · rwa [← wAbs, ← last]
  · have order := window.2
    have started := congrArg UInt32.toNat represents.startCharAbs
    have written := congrArg UInt32.toNat represents.wCharAbs
    rw [UInt32.toNat_ofNat'] at started written
    rw [← started, ← written]
    omega

/-- The condition is exact for commands of fewer than 2^59 bytes. -/
theorem boot_run_countersAgree {calls : List Call} (nonempty : NonemptyWrites calls)
    (present : commandsIn calls ≠ [])
    (fits : ∀ command ∈ commandsIn calls, command.length < 2 ^ 59) {file : Nat}
    (opened : ((Sys.boot.run calls).files file).privateData = true)
    (reads : ReadsFromStart (Sys.boot.run calls) (commandsIn calls) file) :
    CountersAgree (commandsIn calls) := by
  obtain ⟨buffer, follows⟩ := boot_run_follows calls
  have history : Represents _ (commandsIn calls) _ := follows.history
  have filled : 0 < (liveOf (commandsIn calls)).flatten.length := liveOf_flatten_pos
    (collect_records_nonempty endsCommand (Sys.chunks_nonempty nonempty _)) present
  have small : ∀ command ∈ liveOf (commandsIn calls), command.length < 2 ^ 59 :=
    fun command member => fits command (List.mem_of_mem_drop member)
  have total := flatten_length_le small
  rw [liveOf_length] at total
  -- one byte more than there is, so that no copy is clipped to the room
  let count := UInt64.ofNat ((liveOf (commandsIn calls)).flatten.length + 1)
  have size : count.toNat = (liveOf (commandsIn calls)).flatten.length + 1 := by
    rw [UInt64.toNat_ofNat', Nat.mod_eq_of_lt (by omega)]
  have reply := reads count (by omega)
  rw [follows.readAtStart opened] at reply
  have window : InWindow buffer buffer.startCharAbs.toNat := by
    by_contra outside
    rw [aesdRead_outside rfl follows.present outside, List.take_of_length_le (by omega)] at reply
    injection reply with value
    omega
  obtain ⟨read, called⟩ := raed_ends buffer (List.replicate count.toNat 0) count
    buffer.startCharAbs.toNat
  rw [aesdRead_eq rfl follows.present called] at reply
  have returned := readReply_ret reply
  rw [List.take_of_length_le (by omega)] at returned
  have whole : read.ret = (liveOf (commandsIn calls)).flatten.length := by
    have short := (raed_progress called (by rw [returned]; exact_mod_cast filled)).2.1
    rw [toLong_natCast (by omega)] at returned
    exact_mod_cast returned
  have inBounds : read.accesses.all (Access.inBounds buffer count.toNat) = true := by
    by_contra outside
    rw [Raed.result, List.length_replicate, if_neg outside] at reply
    cases reply
  exact countersAgree_of_read history fits window (by omega) (by omega) called inBounds whole
    (by omega)

theorem fourMiB_length : fourMiB.length = 4194304 := by
  rw [fourMiB, List.length_append, List.length_replicate, List.length_singleton]

theorem commandsIn_fourGiB : commandsIn fourGiBCalls = List.replicate 1024 fourMiB := by
  apply commandsIn_replicate
  rw [endsCommand, fourMiB, List.getLast?_concat]
  rfl

theorem readsFromStart_fails_fourGiB :
    commandsIn fourGiBCalls = List.replicate 1024 fourMiB ∧
      (((Sys.boot.run fourGiBCalls).step (.llseek 0 0 seekSet)).2.step (.read 0 1)).1 =
        .ret (-1) [] ∧
      ¬ ReadsFromStart (Sys.boot.run fourGiBCalls) (commandsIn fourGiBCalls) 0 := by
  have total : (List.replicate 1024 fourMiB).flatten.length = 2 ^ 32 := by
    rw [List.length_flatten, List.map_replicate, List.sum_replicate, fourMiB_length]
    rfl
  have charged : chargedChars (List.replicate 1024 fourMiB) = 1014 * 4194304 := by
    rw [chargedChars_replicate (by omega), fourMiB_length]
    rfl
  have refused := boot_run_refused (openedBy_replicate fourMiB 1024)
    (by rw [← fourGiBCalls, commandsIn_fourGiB, total, charged]; decide) 1
  rw [← fourGiBCalls] at refused
  refine ⟨commandsIn_fourGiB, refused, fun reads => ?_⟩
  have reply := reads 1 (by decide)
  rw [refused] at reply
  cases reply

end Aesd

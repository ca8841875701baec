import Aesd.DriverCore
import Aesd.Records
import Aesd.SlotLog

/-!
What a circular buffer has been given, as a stream of chunks that form commands, and how
its slots, counters and pending entry represent that history. Nothing here bounds the
number of commands: a slot index is a counter that wraps at 2^32, modulo ten.
-/

namespace Aesd

open Records SlotLog

def endsCommand (chunk : Bytes) : Bool := chunk.getLast? == some newline

def commandsOf (chunks : List Bytes) : List Bytes := (collect endsCommand chunks).records

def pendingOf (chunks : List Bytes) : Bytes := (collect endsCommand chunks).rest

def commandSlot : Nat → Nat := wrappedSlot (2 ^ 32) 10

def slotEntry (commands : List Bytes) (target : Nat) : BufferEntry :=
  match lastIndex commandSlot commands.length target with
  | none => emptyEntry
  | some index => ⟨.block (commands.getD index []), (commands.getD index []).length⟩

/-- The bytes that the evictions during `commands` have added to `start_char_abs`. Eviction
`evicted` happens when command number `evicted + 10` is stored, and it adds the size of the
entry then in the slot of command number `evicted + 1`. -/
def chargedChars (commands : List Bytes) : Nat :=
  ((List.range (commands.length - 10)).map fun evicted =>
    (slotEntry (commands.take (evicted + 11)) (commandSlot (evicted + 1))).size).sum

/-- `tmp_entry` holds exactly `pending`; after a commit its pointer is stale and its size zero. -/
structure HoldsPending (tmpEntry : BufferEntry) (pending : Bytes) : Prop where
  size : tmpEntry.size = pending.length
  bytes : pending ≠ [] → tmpEntry.buffptr = .block pending

structure Represents (state : BufferState) (commands : List Bytes) (pending : Bytes) : Prop where
  wAbs : state.buffer.wAbs = UInt32.ofNat commands.length
  startAbs : state.buffer.startAbs = UInt32.ofNat (commands.length - 10)
  wCharAbs : state.buffer.wCharAbs = UInt32.ofNat commands.flatten.length
  startCharAbs : state.buffer.startCharAbs = UInt32.ofNat (chargedChars commands)
  inOffs : state.buffer.inOffs = UInt8.ofNat (commands.length % 10)
  entry : ∀ target < 10, state.buffer.entry[target]? = some (slotEntry commands target)
  tmpEntry : HoldsPending state.tmpEntry pending

/-! Copies between blocks. -/

theorem overwrite_append (before after values : Bytes) :
    overwrite (before ++ after) before.length values =
      before ++ values ++ after.drop values.length := by
  simp [overwrite, List.drop_append]

theorem loadBytes_block (bytes : Bytes) : loadBytes (.block bytes) 0 bytes.length = .ok bytes := by
  cases bytes <;> simp [loadBytes]

theorem storeBytes_block {bytes values : Bytes} {offset : Nat}
    (fits : offset + values.length ≤ bytes.length) :
    storeBytes (.block bytes) offset values = .ok (.block (overwrite bytes offset values)) := by
  unfold storeBytes
  split
  next empty =>
    have nothing : values = [] := List.length_eq_zero_iff.mp empty
    simp [nothing, overwrite]
  next => exact if_pos fits

theorem loadLast_block {bytes : Bytes} (nonempty : bytes ≠ []) :
    loadLast (.block bytes) bytes.length = .ok (bytes.getLast nonempty) := by
  have positive : 0 < bytes.length := List.length_pos_iff.mpr nonempty
  have inside : bytes.length - 1 + 1 ≤ bytes.length := by omega
  have one : (bytes.drop (bytes.length - 1)).take 1 = [bytes[bytes.length - 1]] := by
    rw [List.drop_eq_getElem_cons (by omega), List.take_succ_cons, List.take_zero]
  have loaded : loadBytes (.block bytes) (bytes.length - 1) 1 = .ok [bytes[bytes.length - 1]] := by
    rw [← one]
    exact if_pos inside
  rw [loadLast, if_neg (by omega), loaded, List.getLast_eq_getElem]
  rfl

/-! The steps of `aesd_circular_buffer_add_entry` when both allocations succeed. -/

theorem ok_bind {ε α β : Type} (value : α) (next : α → Except ε β) :
    (Except.ok value >>= next) = next value := rfl

theorem memcpy_block {bytes source : Bytes} {offset : Nat}
    (fits : offset + source.length ≤ bytes.length) :
    memcpy (.block bytes) offset (.block source) source.length =
      .ok (.block (overwrite bytes offset source)) := by
  rw [memcpy, loadBytes_block, ok_bind, storeBytes_block fits]

theorem carryOver_holds {tmpEntry : BufferEntry} {pending : Bytes}
    (holds : HoldsPending tmpEntry pending) (count : Nat) :
    carryOver (.block (List.replicate (pending.length + count) 0)) tmpEntry =
      .ok (.block (pending ++ List.replicate count 0)) := by
  by_cases empty : pending = []
  · subst pending
    simp [carryOver, holds.size, memcpy, loadBytes, storeBytes, ok_bind]
  · rw [carryOver, holds.bytes empty, if_neg (by simp), holds.size, memcpy_block (by simp)]
    simp [overwrite]

theorem appendToTmp_holds {tmpEntry : BufferEntry} {pending : Bytes}
    (holds : HoldsPending tmpEntry pending) (chunk : Bytes) :
    appendToTmp {} tmpEntry ⟨.block chunk, chunk.length⟩ =
      .ok ⟨.block (pending ++ chunk), (pending ++ chunk).length⟩ := by
  have allocated (count : Nat) :
      kmalloc ({} : Allocations).tmp count = .block (List.replicate count 0) := rfl
  have cleared (count : Nat) : storeBytes (.block (List.replicate count 0)) 0
      (List.replicate count 0) = .ok (.block (List.replicate count 0)) := by
    rw [storeBytes_block (by simp)]
    simp [overwrite]
  have joined : overwrite (pending ++ List.replicate chunk.length 0) pending.length chunk =
      pending ++ chunk := by
    simp [overwrite_append]
  simp only [appendToTmp, holds.size, allocated, cleared, ok_bind, carryOver_holds holds]
  rw [memcpy_block (by simp), joined, List.length_append]
  rfl

theorem kfree_of_not_freed {pointer : Buffptr} (owned : pointer ≠ .freed) :
    kfree pointer = .ok () := by
  cases pointer with
  | freed => exact absurd rfl owned
  | null => rfl
  | block => rfl

def CircularBuffer.store (buffer : CircularBuffer) (command : Bytes) : CircularBuffer :=
  advanceCounters
    { buffer with
      entry := buffer.entry.setIfInBounds (slotOf buffer.wAbs) ⟨.block command, command.length⟩ }
    command.length

theorem storeCommand_eq {buffer : CircularBuffer} {target : BufferEntry}
    (found : buffer.entry[slotOf buffer.wAbs]? = some target) (owned : target.buffptr ≠ .freed)
    (command : Bytes) :
    storeCommand {} buffer ⟨.block command, command.length⟩ = .ok (buffer.store command) := by
  have allocated (count : Nat) :
      kmalloc ({} : Allocations).target count = .block (List.replicate count 0) := rfl
  have copied : overwrite (List.replicate command.length 0) 0 command = command := by
    simp [overwrite]
  simp only [storeCommand, found, Option.getD_some, kfree_of_not_freed owned, ok_bind, allocated]
  rw [memcpy_block (by simp), copied]
  rfl

theorem endsCommand_iff {chunk : Bytes} (nonempty : chunk ≠ []) :
    endsCommand chunk = true ↔ chunk.getLast nonempty = newline := by
  rw [endsCommand, List.getLast?_eq_some_getLast nonempty]
  simp

/-- What one call does when it is given at least one byte: the pending bytes grow, and a
newline at the end stores them as a command. -/
theorem addEntry_eq {state : BufferState} {pending chunk : Bytes} {target : BufferEntry}
    (holds : HoldsPending state.tmpEntry pending)
    (found : state.buffer.entry[slotOf state.buffer.wAbs]? = some target)
    (owned : target.buffptr ≠ .freed) (nonempty : chunk ≠ []) :
    aesdCircularBufferAddEntry {} state ⟨.block chunk, chunk.length⟩ =
      .ok (if endsCommand chunk then ⟨state.buffer.store (pending ++ chunk), ⟨.freed, 0⟩⟩
        else ⟨state.buffer, ⟨.block (pending ++ chunk), (pending ++ chunk).length⟩⟩) := by
  rw [aesdCircularBufferAddEntry, appendToTmp_holds holds, ok_bind]
  dsimp only
  rw [loadLast_block nonempty, ok_bind]
  by_cases ended : endsCommand chunk
  · rw [if_pos ((endsCommand_iff nonempty).mp ended), if_pos ended,
      storeCommand_eq found owned, ok_bind]
    rfl
  · rw [if_neg (fun last => ended ((endsCommand_iff nonempty).mpr last)), if_neg ended]
    rfl

/-! The representation survives a command. -/

theorem slotOf_ofNat (index : Nat) : slotOf (UInt32.ofNat index) = commandSlot index := by
  simp [slotOf, commandSlot, wrappedSlot]

theorem commandSlot_lt (index : Nat) : commandSlot index < 10 := Nat.mod_lt _ (by decide)

theorem slotEntry_concat (commands : List Bytes) (command : Bytes) (target : Nat) :
    slotEntry (commands ++ [command]) target =
      if commandSlot commands.length = target then ⟨.block command, command.length⟩
      else slotEntry commands target := by
  simp only [slotEntry, List.length_append, List.length_singleton, lastIndex_succ]
  by_cases same : commandSlot commands.length = target
  · simp [same]
  · simp only [if_neg same]
    cases found : lastIndex commandSlot commands.length target with
    | none => rfl
    | some index =>
        have bound := lastIndex_lt commandSlot found
        simp [List.getElem?_append_left bound]

theorem slotEntry_not_freed (commands : List Bytes) (target : Nat) :
    (slotEntry commands target).buffptr ≠ .freed := by
  unfold slotEntry
  split <;> simp [emptyEntry]

theorem chargedChars_concat_of_lt {commands : List Bytes} (few : commands.length < 10)
    (command : Bytes) : chargedChars (commands ++ [command]) = chargedChars commands := by
  have before : commands.length - 10 = 0 := by omega
  have after : commands.length + 1 - 10 = 0 := by omega
  simp [chargedChars, before, after]

theorem chargedChars_concat_of_le {commands : List Bytes} (full : 10 ≤ commands.length)
    (command : Bytes) :
    chargedChars (commands ++ [command]) = chargedChars commands +
      (slotEntry (commands ++ [command]) (commandSlot (commands.length - 10 + 1))).size := by
  have count : (commands ++ [command]).length - 10 = commands.length - 10 + 1 := by
    simp only [List.length_append, List.length_singleton]
    omega
  have whole : (commands ++ [command]).take (commands.length - 10 + 11) =
      commands ++ [command] := by
    apply List.take_of_length_le
    simp only [List.length_append, List.length_singleton]
    omega
  have earlier (evicted : Nat) (bound : evicted < commands.length - 10) :
      (commands ++ [command]).take (evicted + 11) = commands.take (evicted + 11) :=
    List.take_append_of_le_length (by omega)
  simp only [chargedChars, count, List.range_succ, List.map_append, List.sum_append, whole,
    List.map_singleton, List.sum_singleton]
  congr 2
  apply List.map_congr_left
  intro evicted member
  rw [earlier evicted (List.mem_range.mp member)]

theorem evicts_iff (count : Nat) :
    UInt32.ofNat count - UInt32.ofNat (count - 10) ≥ 10 ↔ 10 ≤ count := by
  simp only [ge_iff_le, UInt32.le_iff_toNat_le, UInt32.toNat_sub, UInt32.toNat_ofNat']
  have ten : (10 : UInt32).toNat = 10 := rfl
  omega

theorem nextInOffs (count : Nat) :
    (if UInt8.ofNat (count % 10) + 1 ≥ 10 then 0 else UInt8.ofNat (count % 10) + 1) =
      UInt8.ofNat ((count + 1) % 10) := by
  have ten : (10 : UInt8).toNat = 10 := rfl
  have one : (1 : UInt8).toNat = 1 := rfl
  apply UInt8.toNat_inj.mp
  split
  next wraps =>
    simp only [ge_iff_le, UInt8.le_iff_toNat_le, UInt8.toNat_add, UInt8.toNat_ofNat', ten, one]
      at wraps ⊢
    have zero : (0 : UInt8).toNat = 0 := rfl
    omega
  next stays =>
    simp only [ge_iff_le, UInt8.le_iff_toNat_le, UInt8.toNat_add, UInt8.toNat_ofNat', ten, one]
      at stays ⊢
    omega

theorem Represents.store {state : BufferState} {commands : List Bytes} {pending : Bytes}
    (represents : Represents state commands pending) (command : Bytes) :
    Represents ⟨state.buffer.store command, ⟨.freed, 0⟩⟩ (commands ++ [command]) [] := by
  have slot : slotOf state.buffer.wAbs = commandSlot commands.length := by
    rw [represents.wAbs, slotOf_ofNat]
  have entry : ∀ target < 10,
      (state.buffer.entry.setIfInBounds (slotOf state.buffer.wAbs)
        ⟨.block command, command.length⟩)[target]? =
          some (slotEntry (commands ++ [command]) target) := by
    intro target bound
    rw [slot, Vector.getElem?_setIfInBounds, slotEntry_concat, represents.entry target bound]
    split
    next same => rw [if_pos (commandSlot_lt _)]
    next => rfl
  have count : (commands ++ [command]).length = commands.length + 1 := by simp
  have size : (commands ++ [command]).flatten.length =
      commands.flatten.length + command.length := by simp
  refine ⟨?_, ?_, ?_, ?_, ?_, entry, rfl, by simp⟩
  · simp [CircularBuffer.store, advanceCounters, represents.wAbs]
  · simp only [CircularBuffer.store, advanceCounters, represents.wAbs, represents.startAbs,
      evicts_iff, count]
    split
    next full =>
      rw [show commands.length + 1 - 10 = commands.length - 10 + 1 by omega, UInt32.ofNat_add]
      rfl
    next few => rw [show commands.length + 1 - 10 = commands.length - 10 by omega]
  · rw [size, UInt32.ofNat_add]
    simp [CircularBuffer.store, advanceCounters, represents.wCharAbs]
  · simp only [CircularBuffer.store, advanceCounters, represents.wAbs, represents.startAbs,
      evicts_iff]
    split
    next full =>
      have next : UInt32.ofNat (commands.length - 10) + 1 =
          UInt32.ofNat (commands.length - 10 + 1) := by
        rw [UInt32.ofNat_add]
        rfl
      rw [represents.wAbs] at entry
      rw [chargedChars_concat_of_le full, UInt32.ofNat_add, represents.startCharAbs, next,
        slotOf_ofNat (commands.length - 10 + 1), entry _ (commandSlot_lt _), Option.getD_some]
    next few => rw [chargedChars_concat_of_lt (by omega), represents.startCharAbs]
  · simp only [CircularBuffer.store, advanceCounters, represents.inOffs, nextInOffs, count]

theorem represents_boot : Represents ⟨zeroedBuffer, emptyEntry⟩ [] [] := by
  refine ⟨rfl, rfl, rfl, rfl, rfl, ?_, rfl, by simp⟩
  intro target bound
  simp [zeroedBuffer, slotEntry, lastIndex, bound]

def Follows (state : BufferState) (chunks : List Bytes) : Prop :=
  Represents state (commandsOf chunks) (pendingOf chunks)

theorem commandsOf_concat (chunks : List Bytes) (chunk : Bytes) :
    commandsOf (chunks ++ [chunk]) =
      if endsCommand chunk then commandsOf chunks ++ [pendingOf chunks ++ chunk]
      else commandsOf chunks := by
  rw [commandsOf, collect_concat, Stream.feed]
  split <;> rfl

theorem pendingOf_concat (chunks : List Bytes) (chunk : Bytes) :
    pendingOf (chunks ++ [chunk]) =
      if endsCommand chunk then [] else pendingOf chunks ++ chunk := by
  rw [pendingOf, collect_concat, Stream.feed]
  split <;> rfl

theorem commandsOf_prefix (first second : List Bytes) :
    commandsOf first <+: commandsOf (first ++ second) := by
  induction second using List.reverseRecOn with
  | nil => rw [List.append_nil]
  | append_singleton second chunk ih =>
      rw [← List.append_assoc, commandsOf_concat]
      split
      · exact ih.trans (List.prefix_append _ _)
      · exact ih

theorem commandsOf_concat_nil (chunks : List Bytes) : commandsOf (chunks ++ [[]]) = commandsOf chunks :=
  commandsOf_concat chunks []

theorem Follows.nothing {state : BufferState} {chunks : List Bytes} (follows : Follows state chunks) :
    Follows state (chunks ++ [[]]) := by
  have same : pendingOf (chunks ++ [[]]) = pendingOf chunks := by
    rw [pendingOf_concat, List.append_nil]
    rfl
  rw [Follows, commandsOf_concat_nil, same]
  exact follows

theorem Follows.addEntry {state : BufferState} {chunks : List Bytes} (follows : Follows state chunks)
    {chunk : Bytes} (nonempty : chunk ≠ []) :
    aesdCircularBufferAddEntry {} state ⟨.block chunk, chunk.length⟩ =
      .ok (if endsCommand chunk then
          ⟨state.buffer.store (pendingOf chunks ++ chunk), ⟨.freed, 0⟩⟩
        else ⟨state.buffer, ⟨.block (pendingOf chunks ++ chunk),
          (pendingOf chunks ++ chunk).length⟩⟩) := by
  have slot : slotOf state.buffer.wAbs = commandSlot (commandsOf chunks).length := by
    rw [follows.wAbs, slotOf_ofNat]
  have found := follows.entry _ (commandSlot_lt (commandsOf chunks).length)
  rw [← slot] at found
  exact addEntry_eq follows.tmpEntry found (slotEntry_not_freed _ _) nonempty

theorem Follows.add {state : BufferState} {chunks : List Bytes} (follows : Follows state chunks)
    {chunk : Bytes} (nonempty : chunk ≠ []) :
    ∃ next, aesdCircularBufferAddEntry {} state ⟨.block chunk, chunk.length⟩ = .ok next ∧
      Follows next (chunks ++ [chunk]) := by
  refine ⟨_, follows.addEntry nonempty, ?_⟩
  rw [Follows, commandsOf_concat, pendingOf_concat]
  by_cases ended : endsCommand chunk
  · simp only [if_pos ended]
    exact follows.store _
  · simp only [if_neg ended]
    exact { follows with tmpEntry := ⟨rfl, fun _ => rfl⟩ }

end Aesd

import Aesd.ReadTotal
import Aesd.Window

/-!
The slots, the index counters and the pending entry against the history of a run, and the
two byte counters that bound what can be read.
-/

namespace Aesd

open Records Offsets

theorem addedChunks_nonempty {calls : List BufferCall} (nonempty : BufferCall.add [] ∉ calls) :
    ∀ chunk ∈ addedChunks calls, chunk ≠ [] := by
  intro chunk member empty
  obtain ⟨call, inside, added⟩ := List.mem_filterMap.mp member
  cases call with
  | add other =>
      rw [Option.some.injEq] at added
      rw [added, empty] at inside
      exact nonempty inside
  | read resultBuf len fPos => cases added

theorem runBuffer_holds {calls : List BufferCall} (nonempty : BufferCall.add [] ∉ calls)
    (count : (commandsOf (addedChunks calls)).length < 2 ^ 32)
    (chars : (commandsOf (addedChunks calls)).flatten.length < 2 ^ 32) :
    ∃ state, runBuffer calls = .ok state ∧ Holds state.buffer (commandsOf (addedChunks calls)) := by
  obtain ⟨state, ran, follows⟩ := runBuffer_follows nonempty
  exact ⟨state, ran, follows.holds count chars⟩

/-! The ring and its history. -/

structure RingHistory (state : BufferState) (commands : List Bytes) (pending : Bytes) : Prop where
  wAbs : state.buffer.wAbs.toNat = commands.length
  startAbs : state.buffer.startAbs.toNat = max 0 (commands.length - 10)
  inOffs : state.buffer.inOffs.toNat = commands.length % 10
  live : ∀ index (bound : index < commands.length), state.buffer.startAbs.toNat ≤ index →
    state.buffer.entry[index % 10]? = some ⟨.block commands[index], commands[index].length⟩
  unused : ∀ target < 10, (∀ index < commands.length, index % 10 ≠ target) →
    state.buffer.entry[target]? = some ⟨.null, 0⟩
  tmpEntry : HoldsPending state.tmpEntry pending

theorem Follows.ringHistory {state : BufferState} {chunks : List Bytes}
    (follows : Follows state chunks) (count : (commandsOf chunks).length < 2 ^ 32) :
    RingHistory state (commandsOf chunks) (pendingOf chunks) where
  wAbs := by rw [follows.wAbs, toNat_ofNat count]
  startAbs := by
    rw [follows.startAbs, toNat_ofNat (by omega)]
    omega
  inOffs := by
    have small : (commandsOf chunks).length % 10 < 2 ^ 8 := by omega
    rw [follows.inOffs, UInt8.toNat_ofNat', Nat.mod_eq_of_lt small]
  live := by
    intro index bound recent
    rw [follows.startAbs, toNat_ofNat (by omega)] at recent
    rw [follows.entry _ (by omega), slotEntry_of_recent (by omega) bound (by omega)]
  unused := by
    intro target slot unwritten
    have few : (commandsOf chunks).length ≤ target := by
      by_contra many
      exact unwritten target (by omega) (Nat.mod_eq_of_lt slot)
    rw [follows.entry _ slot, slotEntry_unused few slot]
    rfl
  tmpEntry := follows.tmpEntry

theorem runBuffer_ringHistory (calls : List BufferCall) (nonempty : BufferCall.add [] ∉ calls)
    (count : (commandsOf (addedChunks calls)).length < 2 ^ 32) :
    ∃ state, runBuffer calls = .ok state ∧
      RingHistory state (commandsOf (addedChunks calls)) (pendingOf (addedChunks calls)) ∧
      (commandsOf (addedChunks calls)).flatten ++ pendingOf (addedChunks calls) =
        (addedChunks calls).flatten := by
  obtain ⟨state, ran, follows⟩ := runBuffer_follows nonempty
  exact ⟨state, ran, follows.ringHistory count, collect_flatten endsCommand _⟩

/-- Twelve commands, so that two have been dropped. -/
def splitCalls : List BufferCall :=
  .add [97] :: .read [0, 0] 2 0 :: .add [98, 10] ::
    (List.replicate 11 (.add [10]) ++ [.read [0] 1 4, .add [99]])

theorem runBuffer_ringHistory_split :
    ∃ state, runBuffer splitCalls = .ok state ∧
      RingHistory state ([97, 98, 10] :: List.replicate 11 [10]) [99] ∧
      ([97, 98, 10] :: List.replicate 11 [10]).flatten ++ [99] =
        (addedChunks splitCalls).flatten :=
  runBuffer_ringHistory splitCalls (by decide) (by decide)

/-! The byte window. -/

theorem ok_of_toOption_map {ε α β : Type} {outcome : Except ε α} {view : α → β} {seen : β}
    (evaluated : outcome.toOption.map view = some seen) :
    ∃ value, outcome = .ok value ∧ view value = seen := by
  cases outcome with
  | error reason => cases evaluated
  | ok value => exact ⟨value, rfl, Option.some.inj evaluated⟩

/-- What the byte counters are meant to be: the bytes evicted, the bytes committed, and
between them the bytes of the slots that are live. -/
structure ByteWindow (buffer : CircularBuffer) (commands : List Bytes) : Prop where
  startCharAbs : buffer.startCharAbs.toNat = evictedChars commands
  wCharAbs : buffer.wCharAbs.toNat = commands.flatten.length
  live : (buffer.wCharAbs.toNat : Int) - buffer.startCharAbs.toNat =
    (((List.range (commands.length - (commands.length - 10))).map fun age =>
      ((buffer.entry[(commands.length - 10 + age) % 10]?).getD emptyEntry).size).sum : Nat)

theorem Holds.live_sum {buffer : CircularBuffer} {commands : List Bytes}
    (holds : Holds buffer commands) :
    ((List.range (commands.length - (commands.length - 10))).map fun age =>
      ((buffer.entry[(commands.length - 10 + age) % 10]?).getD emptyEntry).size) =
      sizesOf (liveOf commands) := by
  apply List.ext_getElem
  · simp only [List.length_map, List.length_range, sizesOf_length, liveOf_length]
    omega
  · intro age below _
    have bound : age < (liveOf commands).length := by
      simp only [List.length_map, List.length_range] at below
      rw [liveOf_length]
      omega
    simp only [List.getElem_map, List.getElem_range, holds.age bound, sizesOf, Option.getD_some]

/-- The byte window is right exactly when the oldest live command is as long as the first
command that was ever stored: an eviction charges the command after the evicted one. -/
theorem Holds.byteWindow_iff {buffer : CircularBuffer} {commands : List Bytes}
    (holds : Holds buffer commands) (count : commands.length < 2 ^ 32) :
    ByteWindow buffer commands ↔
      commandSize commands (commands.length - 10) = commandSize commands 0 := by
  have charged := charged_add_first (Nat.le_of_lt count)
  have total := totalChars_eq commands
  constructor
  · intro window
    have start := window.startCharAbs
    rw [holds.startCharAbs] at start
    omega
  · intro same
    have start : chargedChars commands = evictedChars commands := by omega
    refine ⟨by rw [holds.startCharAbs, start], holds.wCharAbs, ?_⟩
    rw [holds.wCharAbs, holds.startCharAbs, holds.live_sum, sizesOf_sum, start]
    omega

theorem runBuffer_byteWindow_iff (calls : List BufferCall) (nonempty : BufferCall.add [] ∉ calls)
    (count : (commandsOf (addedChunks calls)).length < 2 ^ 32)
    (chars : (commandsOf (addedChunks calls)).flatten.length < 2 ^ 32) :
    ∃ state, runBuffer calls = .ok state ∧
      (ByteWindow state.buffer (commandsOf (addedChunks calls)) ↔
        commandSize (commandsOf (addedChunks calls))
            ((commandsOf (addedChunks calls)).length - 10) =
          commandSize (commandsOf (addedChunks calls)) 0) := by
  obtain ⟨state, ran, holds⟩ := runBuffer_holds nonempty count chars
  exact ⟨state, ran, holds.byteWindow_iff count⟩

def unequalCalls : List BufferCall :=
  .add [10] :: .add [97, 10] :: List.replicate 9 (.add [10])

theorem runBuffer_byteWindow_iff_unequal :
    ∃ state, runBuffer unequalCalls = .ok state ∧
      (ByteWindow state.buffer (commandsOf (addedChunks unequalCalls)) ↔ 2 = 1) :=
  runBuffer_byteWindow_iff unequalCalls (by decide) (by decide) (by decide)

theorem byteWindow_fails_unequal :
    ∃ state, runBuffer unequalCalls = .ok state ∧ state.buffer.startCharAbs = 2 ∧
      evictedChars (commandsOf (addedChunks unequalCalls)) = 1 ∧
      ¬ ByteWindow state.buffer (commandsOf (addedChunks unequalCalls)) := by
  have evaluated : (runBuffer unequalCalls).toOption.map (·.buffer.startCharAbs) = some 2 := by
    decide +kernel
  obtain ⟨state, ran, start⟩ := ok_of_toOption_map evaluated
  have evicted : evictedChars (commandsOf (addedChunks unequalCalls)) = 1 := by decide
  refine ⟨state, ran, start, evicted, fun window => ?_⟩
  have claimed := window.startCharAbs
  rw [start, evicted] at claimed
  exact absurd claimed (by decide)

end Aesd

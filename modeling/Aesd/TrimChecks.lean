import Aesd.SeekCommandChecks

/-!
`parse_seek_command` in memory. `trim_crlf` cuts a line by writing NULs over its end, and the
line goes on to the first NUL wherever that is, so the writes can fall past the copy that the
server has made of a packet.
-/

namespace Aesd

open Runs

/-- The loop of `trim_crlf`, from `n` down. -/
def trimCrlfFrom : Nat → Bytes → Bytes
  | 0, memory => memory
  | n + 1, memory =>
      if isCrlf (memory.getD n 0) then trimCrlfFrom n (memory.set n 0) else memory

def trimCrlfInPlace (memory : Bytes) : Bytes := trimCrlfFrom (strlen memory) memory

/-- `parse_seek_command`, and the memory that it leaves. -/
def parseSeekCommandInPlace (memory : Bytes) : Option AesdSeekto × Bytes :=
  let memory := trimCrlfInPlace memory
  match sscanfSeek (cString memory) with
  | ⟨2, some x, some y, consumed⟩ =>
      (if memory.getD consumed 0 = 0 then some ⟨x, y⟩ else none, memory)
  | _ => (none, memory)

/-! The loop. -/

theorem trimCrlfFrom_line (line : Bytes) :
    ∀ rest : Bytes, trimCrlfFrom line.length (line ++ rest) =
      trimCrlf line ++ List.replicate (line.length - (trimCrlf line).length) 0 ++ rest := by
  induction line using List.reverseRecOn with
  | nil => exact fun _ => rfl
  | append_singleton line last ih =>
      intro rest
      have here : (line ++ [last] ++ rest).getD line.length 0 = last := by simp
      have written : (line ++ [last] ++ rest).set line.length 0 = line ++ 0 :: rest := by simp
      rw [List.length_append, List.length_singleton, trimCrlfFrom, here, written]
      by_cases ended : isCrlf last = true
      · have shorter : (trimCrlf line).length ≤ line.length :=
          (List.rdropWhile_prefix _ _).length_le
        rw [if_pos ended, ih, trimCrlf, trimCrlf, List.rdropWhile_concat_pos _ _ _ ended,
          ← trimCrlf, Nat.succ_sub shorter, List.replicate_succ']
        simp
      · rw [if_neg ended, trimCrlf, List.rdropWhile_concat_neg _ _ _ ended]
        simp

theorem trimCrlfFrom_drop {count bound : Nat} (below : count ≤ bound) (memory : Bytes) :
    (trimCrlfFrom count memory).drop bound = memory.drop bound := by
  induction count generalizing memory with
  | zero => rfl
  | succ count ih =>
      rw [trimCrlfFrom]
      split
      · rw [ih (by omega), List.drop_set_of_lt (by omega)]
      · rfl

theorem trimCrlfFrom_append (front : Bytes) (count : Nat) :
    ∀ memory : Bytes, (trimCrlfFrom (front.length + count) (front ++ memory)).drop front.length =
      trimCrlfFrom count memory := by
  induction count with
  | zero =>
      intro memory
      rw [Nat.add_zero, trimCrlfFrom_drop (Nat.le_refl _), List.drop_left]
      rfl
  | succ count ih =>
      intro memory
      have here : (front ++ memory).getD (front.length + count) 0 = memory.getD count 0 := by
        rw [List.getD_append_right _ _ _ _ (Nat.le_add_right _ _), Nat.add_sub_cancel_left]
      have written : (front ++ memory).set (front.length + count) 0 = front ++ memory.set count 0 := by
        rw [List.set_append_right _ _ (Nat.le_add_right _ _), Nat.add_sub_cancel_left]
      rw [← Nat.add_assoc, trimCrlfFrom, trimCrlfFrom, here, written]
      split
      · exact ih _
      · rw [List.drop_left]

/-! The line. -/

theorem drop_strlen (memory : Bytes) :
    memory.drop (strlen memory) = memory.dropWhile fun byte => decide (byte ≠ 0) := by
  have split := List.takeWhile_append_dropWhile (p := fun byte : UInt8 => decide (byte ≠ 0))
    (l := memory)
  have dropped := congrArg (List.drop (strlen memory)) split
  rw [strlen, List.drop_left] at dropped
  exact dropped.symm

theorem trimCrlfInPlace_eq (memory : Bytes) :
    trimCrlfInPlace memory = trimCrlf (cString memory) ++
      List.replicate (strlen memory - (trimCrlf (cString memory)).length) 0 ++
        memory.drop (strlen memory) := by
  have split : cString memory ++ memory.drop (strlen memory) = memory := by
    rw [drop_strlen]
    exact List.takeWhile_append_dropWhile
  have trimmed := trimCrlfFrom_line (cString memory) (memory.drop (strlen memory))
  rwa [split] at trimmed

theorem cString_trimCrlfInPlace (memory : Bytes) :
    cString (trimCrlfInPlace memory) = trimCrlf (cString memory) := by
  have unterminated := zero_not_mem_trimmed memory
  rw [trimCrlfInPlace_eq, List.append_assoc]
  refine takeWhile_run (fun byte member => decide_eq_true fun zero => unterminated (zero ▸ member)) ?_
  cases strlen memory - (trimCrlf (cString memory)).length with
  | zero =>
      rw [drop_strlen]
      exact stops_dropWhile memory
  | succ count => exact stops_cons (by decide) _

/-! The parse. -/

theorem getD_cString (memory : Bytes) {index : Nat} (bound : index ≤ strlen memory) :
    memory.getD index 0 = (cString memory).getD index 0 := by
  have split : cString memory ++ memory.drop (strlen memory) = memory := by
    rw [drop_strlen]
    exact List.takeWhile_append_dropWhile
  rcases Nat.lt_or_ge index (strlen memory) with inside | last
  · conv_lhs => rw [← split]
    exact List.getD_append _ _ _ _ inside
  · obtain rfl : index = strlen memory := Nat.le_antisymm bound last
    have past : (cString memory).getD (strlen memory) 0 = 0 :=
      List.getD_eq_default _ _ (Nat.le_refl _)
    have stops : Stops (fun byte : UInt8 => decide (byte ≠ 0)) (memory.dropWhile (· ≠ 0)) :=
      stops_dropWhile memory
    rw [← drop_strlen, Stops, List.head?_drop] at stops
    rw [past, List.getD_eq_getElem?_getD]
    cases ended : memory[strlen memory]? with
    | none => rfl
    | some next => simpa [ended] using stops

theorem parseSeekCommandInPlace_memory (memory : Bytes) :
    (parseSeekCommandInPlace memory).2 = trimCrlfInPlace memory := by
  rw [parseSeekCommandInPlace]
  split <;> rfl

theorem parseSeekCommandInPlace_result (memory : Bytes) :
    (parseSeekCommandInPlace memory).1 = parseSeekCommand memory := by
  have line := cString_trimCrlfInPlace memory
  rw [parseSeekCommandInPlace, parseSeekCommand, ← line]
  rcases scanned : sscanfSeek (cString (trimCrlfInPlace memory)) with ⟨matched, x, y, consumed⟩
  cases x with
  | none => rcases matched with _ | _ | _ | _ <;> rfl
  | some x =>
      cases y with
      | none => rcases matched with _ | _ | _ | _ <;> rfl
      | some y =>
          rcases matched with _ | _ | _ | _
          · rfl
          · rfl
          · obtain ⟨first, second, rest, -, -, -, rfl⟩ := sscanfSeek_eq_two scanned
            have agrees := getD_cString (trimCrlfInPlace memory)
              (Nat.sub_le (cString (trimCrlfInPlace memory)).length rest.length)
            simp only [agrees]
          · rfl

/-! The memory. -/

theorem drop_trimCrlfInPlace (received heapTail : Bytes) :
    (trimCrlfInPlace (received ++ heapTail)).drop received.length =
      if 0 ∈ received then heapTail else trimCrlfInPlace heapTail := by
  rw [trimCrlfInPlace]
  split
  next terminated =>
    have within : strlen (received ++ heapTail) ≤ received.length := by
      rw [strlen, ← cString, cString_of_mem terminated]
      exact (List.takeWhile_prefix _).length_le
    rw [trimCrlfFrom_drop within, List.drop_left]
  next unterminated =>
    have length : strlen (received ++ heapTail) = received.length + strlen heapTail := by
      rw [strlen, ← cString, cString_of_not_mem unterminated, List.length_append]
      rfl
    rw [length, trimCrlfFrom_append, trimCrlfInPlace]

theorem trimCrlf_eq_self_iff (line : Bytes) :
    trimCrlf line = line ↔ ∀ last ∈ line.getLast?, isCrlf last = false := by
  rw [trimCrlf, List.rdropWhile_eq_self_iff]
  constructor
  · intro kept last ended
    obtain ⟨nonempty, rfl⟩ := List.mem_getLast?_eq_getLast ended
    exact Bool.eq_false_iff.mpr (kept nonempty)
  · intro kept nonempty
    exact Bool.eq_false_iff.mp (kept _ (List.getLast?_eq_some_getLast nonempty))

theorem trimCrlfInPlace_eq_self_iff (memory : Bytes) :
    trimCrlfInPlace memory = memory ↔ ∀ last ∈ (cString memory).getLast?, isCrlf last = false := by
  rw [← trimCrlf_eq_self_iff]
  constructor
  · intro same
    rw [← cString_trimCrlfInPlace, same]
  · intro same
    have none : strlen memory - (cString memory).length = 0 := Nat.sub_self _
    rw [trimCrlfInPlace_eq, same, none, drop_strlen, List.replicate_zero, List.append_nil]
    exact List.takeWhile_append_dropWhile

/-- `parse_seek_command` gives what the line says and writes NULs over the line's end. It writes
outside the copy of the packet exactly when no NUL came with the packet and what lies between
the copy and the next NUL ends in CR or LF. -/
theorem parseSeekCommandInPlace_spares_iff (received heapTail : Bytes) :
    parseSeekCommandInPlace (received ++ heapTail) =
        (parseSeekCommand (received ++ heapTail),
          trimCrlf (cString (received ++ heapTail)) ++
            List.replicate (strlen (received ++ heapTail) -
              (trimCrlf (cString (received ++ heapTail))).length) 0 ++
            (received ++ heapTail).drop (strlen (received ++ heapTail))) ∧
      ((parseSeekCommandInPlace (received ++ heapTail)).2.drop received.length = heapTail ↔
        0 ∈ received ∨ ∀ last ∈ (cString heapTail).getLast?, isCrlf last = false) := by
  constructor
  · rw [← trimCrlfInPlace_eq]
    exact Prod.ext (parseSeekCommandInPlace_result _) (parseSeekCommandInPlace_memory _)
  · rw [parseSeekCommandInPlace_memory, drop_trimCrlfInPlace]
    by_cases terminated : 0 ∈ received
    · simp [terminated]
    · rw [if_neg terminated, trimCrlfInPlace_eq_self_iff]
      simp [terminated]

example : (parseSeekCommandInPlace ([104, 105] ++ [10, 0])).2 = [104, 105, 0, 0] := by decide

end Aesd

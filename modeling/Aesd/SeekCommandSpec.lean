import Aesd.Runs
import Aesd.SeekCommand
import Mathlib.Data.List.GetD

/-!
The lines that `parse_seek_command` takes: what one `%u` reads is a numeral, and a line is
taken when two numerals, with a comma between them, are all that follows the prefix.
-/

namespace Aesd

open Runs

def comma : UInt8 := 44

/-- The text that one `%u` reads. -/
structure Numeral where
  spaces : Bytes
  sign : Bytes
  digits : Bytes
  spacesOnly : ∀ byte ∈ spaces, isSpace byte = true
  signOnly : sign = [] ∨ sign = [43] ∨ sign = [45]
  digitsOnly : ∀ byte ∈ digits, isDigit byte = true
  nonempty : digits ≠ []

def Numeral.text (numeral : Numeral) : Bytes := numeral.spaces ++ numeral.sign ++ numeral.digits

def Numeral.value (numeral : Numeral) : UInt32 :=
  UInt32.ofNat (strtoul (numeral.sign == [45]) numeral.digits)

theorem not_isDigit_of_isSpace {byte : UInt8} (space : isSpace byte = true) :
    isDigit byte = false := by
  simp only [isSpace, Bool.or_eq_true, Bool.and_eq_true, beq_iff_eq, decide_eq_true_eq,
    UInt8.le_iff_toNat_le] at space
  simp only [isDigit, Bool.and_eq_false_iff, decide_eq_false_iff_not, UInt8.le_iff_toNat_le]
  left
  rcases space with rfl | ⟨-, upper⟩
  · decide
  · have bound : (13 : UInt8).toNat = 13 := rfl
    have least : (48 : UInt8).toNat = 48 := rfl
    omega

theorem splitSign_of_isDigit {byte : UInt8} (digit : isDigit byte = true) (rest : Bytes) :
    splitSign (byte :: rest) = (false, byte :: rest) := by
  have notMinus : byte ≠ 45 := by
    rintro rfl
    cases digit
  have notPlus : byte ≠ 43 := by
    rintro rfl
    cases digit
  simp [splitSign, notMinus, notPlus]

theorem splitSign_spec (input : Bytes) :
    ∃ sign : Bytes, (sign = [] ∨ sign = [43] ∨ sign = [45]) ∧
      input = sign ++ (splitSign input).2 ∧ (splitSign input).1 = (sign == [45]) := by
  unfold splitSign
  split
  · exact ⟨[45], Or.inr (Or.inr rfl), rfl, rfl⟩
  · exact ⟨[43], Or.inr (Or.inl rfl), rfl, rfl⟩
  · exact ⟨[], Or.inl rfl, rfl, rfl⟩

theorem Numeral.splitSign_append (numeral : Numeral) (rest : Bytes) :
    splitSign (numeral.sign ++ (numeral.digits ++ rest)) =
      (numeral.sign == [45], numeral.digits ++ rest) := by
  obtain ⟨first, later, digits⟩ := List.exists_cons_of_ne_nil numeral.nonempty
  have digit : isDigit first = true := numeral.digitsOnly first (by simp [digits])
  rcases numeral.signOnly with none | plus | minus
  · rw [none, digits]
    exact splitSign_of_isDigit digit _
  · rw [plus]
    rfl
  · rw [minus]
    rfl

theorem Numeral.stops_space (numeral : Numeral) (rest : Bytes) :
    Stops isSpace (numeral.sign ++ (numeral.digits ++ rest)) := by
  obtain ⟨first, later, digits⟩ := List.exists_cons_of_ne_nil numeral.nonempty
  have digit : isDigit first = true := numeral.digitsOnly first (by simp [digits])
  rcases numeral.signOnly with none | plus | minus
  · rw [none, digits]
    refine stops_cons (Bool.eq_false_iff.mpr fun space => ?_) _
    rw [not_isDigit_of_isSpace space] at digit
    cases digit
  · rw [plus]
    exact stops_cons (by decide) _
  · rw [minus]
    exact stops_cons (by decide) _

theorem scanUnsigned_numeral (numeral : Numeral) {rest : Bytes} (stops : Stops isDigit rest) :
    scanUnsigned (numeral.text ++ rest) = some (numeral.value, rest) := by
  have skipped : (numeral.text ++ rest).dropWhile isSpace =
      numeral.sign ++ (numeral.digits ++ rest) := by
    rw [Numeral.text, List.append_assoc, List.append_assoc]
    exact dropWhile_run numeral.spacesOnly (numeral.stops_space rest)
  rw [scanUnsigned, skipped, numeral.splitSign_append]
  dsimp only
  rw [takeWhile_run numeral.digitsOnly stops, dropWhile_run numeral.digitsOnly stops,
    if_neg numeral.nonempty]
  rfl

theorem scanUnsigned_eq_some {input rest : Bytes} {value : UInt32}
    (scanned : scanUnsigned input = some (value, rest)) :
    ∃ numeral : Numeral, input = numeral.text ++ rest ∧ value = numeral.value ∧
      Stops isDigit rest := by
  obtain ⟨sign, signOnly, signed, negative⟩ := splitSign_spec (input.dropWhile isSpace)
  rw [scanUnsigned] at scanned
  generalize splitSign (input.dropWhile isSpace) = split at scanned signed negative
  obtain ⟨minus, unsigned⟩ := split
  dsimp only at scanned signed negative
  split at scanned
  · cases scanned
  next nonempty =>
    obtain ⟨rfl, rfl⟩ : UInt32.ofNat (strtoul minus (unsigned.takeWhile isDigit)) = value ∧
        unsigned.dropWhile isDigit = rest := by
      simpa using scanned
    refine ⟨⟨input.takeWhile isSpace, sign, unsigned.takeWhile isDigit,
      fun byte member => List.mem_takeWhile_imp member, signOnly,
      fun byte member => List.mem_takeWhile_imp member, nonempty⟩, ?_, ?_, stops_dropWhile _⟩
    · rw [Numeral.text, List.append_assoc, List.takeWhile_append_dropWhile, List.append_assoc,
        ← signed, List.takeWhile_append_dropWhile]
    · rw [Numeral.value, ← negative]

def seekLine (first second : Numeral) (rest : Bytes) : Bytes :=
  seekPrefix ++ (first.text ++ comma :: (second.text ++ rest))

theorem sscanfSeek_seekLine (first second : Numeral) {rest : Bytes}
    (stops : Stops isDigit rest) :
    sscanfSeek (seekLine first second rest) =
      ⟨2, some first.value, some second.value, (seekLine first second rest).length - rest.length⟩ := by
  have starts : seekPrefix.isPrefixOf (seekLine first second rest) = true :=
    List.isPrefixOf_iff_prefix.mpr (List.prefix_append _ _)
  have after : (seekLine first second rest).drop seekPrefix.length =
      first.text ++ comma :: (second.text ++ rest) := List.drop_left
  rw [sscanfSeek, if_pos starts, after,
    scanUnsigned_numeral first (stops_cons (by decide) _)]
  simp only [comma, scanUnsigned_numeral second stops]

theorem sscanfSeek_eq_two {line : Bytes} {x y : UInt32} {consumed : Nat}
    (scanned : sscanfSeek line = ⟨2, some x, some y, consumed⟩) :
    ∃ (first second : Numeral) (rest : Bytes), line = seekLine first second rest ∧
      x = first.value ∧ y = second.value ∧ consumed = line.length - rest.length := by
  rw [sscanfSeek] at scanned
  split at scanned
  next starts =>
    obtain ⟨after, rfl⟩ := List.isPrefixOf_iff_prefix.mp starts
    rw [List.drop_left] at scanned
    split at scanned
    · cases scanned
    next first found =>
      split at scanned
      · cases scanned
      next second next =>
        simp only [Sscanf.mk.injEq, Option.some.injEq, true_and] at scanned
        obtain ⟨rfl, rfl, rfl⟩ := scanned
        obtain ⟨one, rfl, rfl, -⟩ := scanUnsigned_eq_some found
        obtain ⟨other, rfl, rfl, -⟩ := scanUnsigned_eq_some next
        exact ⟨one, other, _, rfl, rfl, rfl, rfl⟩
    · cases scanned
  · cases scanned

theorem zero_not_mem_trimmed (memory : Bytes) : 0 ∉ trimCrlf (cString memory) := by
  intro member
  have inside := (List.rdropWhile_prefix _ _).subset member
  simpa using List.mem_takeWhile_imp inside

theorem parseSeekCommand_eq_some_iff (memory : Bytes) (seekto : AesdSeekto) :
    parseSeekCommand memory = some seekto ↔
      ∃ first second : Numeral, trimCrlf (cString memory) = seekLine first second [] ∧
        seekto = ⟨first.value, second.value⟩ := by
  have unterminated := zero_not_mem_trimmed memory
  rw [parseSeekCommand]
  generalize trimCrlf (cString memory) = line at unterminated ⊢
  constructor
  · intro parsed
    split at parsed
    next x y consumed scanned =>
      split at parsed
      next ended =>
        obtain ⟨first, second, rest, rfl, rfl, rfl, rfl⟩ := sscanfSeek_eq_two scanned
        have whole : rest = [] := by
          cases rest with
          | nil => rfl
          | cons next rest =>
              -- the byte that `consumed` names is the first one after the second numeral
              exfalso
              have split : seekLine first second (next :: rest) =
                  seekLine first second [] ++ next :: rest := by simp [seekLine]
              have length : (seekLine first second (next :: rest)).length -
                  (next :: rest).length = (seekLine first second []).length := by
                rw [split, List.length_append, Nat.add_sub_cancel]
              rw [length, split, List.getD_append_right _ _ _ _ (Nat.le_refl _),
                Nat.sub_self] at ended
              have zero : next = 0 := by simpa using ended
              exact unterminated (by rw [split]; simp [zero])
        subst whole
        exact ⟨first, second, rfl, by simpa using parsed.symm⟩
      · cases parsed
    · cases parsed
  · rintro ⟨first, second, rfl, rfl⟩
    rw [sscanfSeek_seekLine first second stops_nil]
    simp

end Aesd

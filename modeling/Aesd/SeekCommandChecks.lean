import Aesd.SeekCommandSpec

/-!
What `parse_seek_command` accepts besides its grammar, and what it is decided from. Numbers
go through `sscanf`, and the line is a copy of a packet that no NUL ends.
-/

namespace Aesd

open Runs

def IsSeekCommand (line : Bytes) (seekto : AesdSeekto) : Prop :=
  ∃ first second : Bytes, first ≠ [] ∧ second ≠ [] ∧ (∀ byte ∈ first, isDigit byte = true) ∧
    (∀ byte ∈ second, isDigit byte = true) ∧ line = seekPrefix ++ (first ++ comma :: second) ∧
    decimal first = seekto.writeCmd.toNat ∧ decimal second = seekto.writeCmdOffset.toNat

def ParsesGrammar (memory : Bytes) : Prop :=
  ∀ seekto, parseSeekCommand memory = some seekto ↔
    IsSeekCommand (trimCrlf (cString memory)) seekto

/-- Only digits, for a number that 32 bits hold. -/
structure Numeral.Plain (numeral : Numeral) : Prop where
  spaces : numeral.spaces = []
  sign : numeral.sign = []
  small : decimal numeral.digits < 2 ^ 32

theorem Numeral.Plain.text {numeral : Numeral} (plain : numeral.Plain) :
    numeral.text = numeral.digits := by
  simp [Numeral.text, plain.spaces, plain.sign]

theorem Numeral.Plain.value {numeral : Numeral} (plain : numeral.Plain) :
    numeral.value.toNat = decimal numeral.digits := by
  have small := plain.small
  have unsaturated : ¬ 2 ^ 64 ≤ decimal numeral.digits := by omega
  rw [Numeral.value, plain.sign, strtoul, if_neg unsaturated, UInt32.toNat_ofNat']
  simpa using Nat.mod_eq_of_lt small

def Numeral.ofDigits (digits : Bytes) (nonempty : digits ≠ [])
    (digitsOnly : ∀ byte ∈ digits, isDigit byte = true) : Numeral where
  spaces := []
  sign := []
  digits := digits
  spacesOnly := by simp
  signOnly := Or.inl rfl
  digitsOnly := digitsOnly
  nonempty := nonempty

theorem Numeral.mem_text {numeral : Numeral} {byte : UInt8} (member : byte ∈ numeral.text) :
    isSpace byte = true ∨ byte = 43 ∨ byte = 45 ∨ isDigit byte = true := by
  simp only [Numeral.text, List.mem_append] at member
  rcases member with (inSpaces | inSign) | inDigits
  · exact Or.inl (numeral.spacesOnly _ inSpaces)
  · rcases numeral.signOnly with none | plus | minus
    · simp [none] at inSign
    · exact Or.inr (Or.inl (List.mem_singleton.mp (plus ▸ inSign)))
    · exact Or.inr (Or.inr (Or.inl (List.mem_singleton.mp (minus ▸ inSign))))
  · exact Or.inr (Or.inr (Or.inr (numeral.digitsOnly _ inDigits)))

theorem comma_not_mem_digits {digits : Bytes} (digitsOnly : ∀ byte ∈ digits, isDigit byte = true) :
    comma ∉ digits := by
  intro member
  exact absurd (digitsOnly _ member) (by decide)

theorem Numeral.plain_of_text {numeral : Numeral} {digits : Bytes}
    (digitsOnly : ∀ byte ∈ digits, isDigit byte = true) (text : numeral.text = digits)
    (small : decimal digits < 2 ^ 32) : numeral.Plain := by
  have spaces : numeral.spaces = [] := by
    rw [List.eq_nil_iff_forall_not_mem]
    intro byte member
    have digit := digitsOnly byte (text ▸ by simp [Numeral.text, member])
    rw [not_isDigit_of_isSpace (numeral.spacesOnly byte member)] at digit
    cases digit
  have sign : numeral.sign = [] := by
    rcases numeral.signOnly with none | plus | minus
    · exact none
    · exact absurd (digitsOnly 43 (text ▸ by simp [Numeral.text, plus])) (by decide)
    · exact absurd (digitsOnly 45 (text ▸ by simp [Numeral.text, minus])) (by decide)
  have same : numeral.digits = digits := by simpa [Numeral.text, spaces, sign] using text
  exact ⟨spaces, sign, same ▸ small⟩

/-- The grammar is met exactly when no numeral of the line has more than the digits of a
32-bit number. -/
theorem parsesGrammar_iff (memory : Bytes) :
    ParsesGrammar memory ↔
      ∀ first second : Numeral, trimCrlf (cString memory) = seekLine first second [] →
        first.Plain ∧ second.Plain := by
  constructor
  · intro parses first second line
    have parsed : parseSeekCommand memory = some ⟨first.value, second.value⟩ :=
      (parseSeekCommand_eq_some_iff memory _).mpr ⟨first, second, line, rfl⟩
    obtain ⟨one, other, -, -, oneDigits, otherDigits, same, x, y⟩ := (parses _).mp parsed
    rw [line, seekLine, List.append_nil, List.append_cancel_left_eq] at same
    obtain ⟨firstText, -, secondText⟩ :=
      (List.append_cons_inj_of_notMem (comma_not_mem_digits oneDigits)
        (comma_not_mem_digits otherDigits)).mp same.symm
    constructor
    · exact Numeral.plain_of_text oneDigits firstText.symm (x ▸ first.value.toNat_lt)
    · exact Numeral.plain_of_text otherDigits secondText.symm (y ▸ second.value.toNat_lt)
  · intro plain seekto
    rw [parseSeekCommand_eq_some_iff]
    constructor
    · rintro ⟨first, second, line, rfl⟩
      obtain ⟨firstPlain, secondPlain⟩ := plain first second line
      refine ⟨first.digits, second.digits, first.nonempty, second.nonempty, first.digitsOnly,
        second.digitsOnly, ?_, firstPlain.value.symm, secondPlain.value.symm⟩
      rw [line, seekLine, firstPlain.text, secondPlain.text, List.append_nil]
    · rintro ⟨first, second, firstNonempty, secondNonempty, firstDigits, secondDigits, line, x, y⟩
      have written : trimCrlf (cString memory) =
          seekLine (Numeral.ofDigits first firstNonempty firstDigits)
            (Numeral.ofDigits second secondNonempty secondDigits) [] := by
        rw [line]
        simp [seekLine, Numeral.text, Numeral.ofDigits]
      obtain ⟨firstPlain, secondPlain⟩ := plain _ _ written
      refine ⟨_, _, written, ?_⟩
      have cmd : seekto.writeCmd = (Numeral.ofDigits first firstNonempty firstDigits).value :=
        UInt32.toNat_inj.mp (x.symm.trans firstPlain.value.symm)
      have offset : seekto.writeCmdOffset =
          (Numeral.ofDigits second secondNonempty secondDigits).value :=
        UInt32.toNat_inj.mp (y.symm.trans secondPlain.value.symm)
      rw [← cmd, ← offset]

/-- The line AESDCHAR_IOCSEEKTO:-1,0. -/
def signedLine : Bytes := seekPrefix ++ [45, 49, 44, 48]

theorem parsesGrammar_fails_signed :
    parseSeekCommand (signedLine ++ [0]) = some ⟨4294967295, 0⟩ ∧
      ¬ ParsesGrammar (signedLine ++ [0]) := by
  have parsed : parseSeekCommand (signedLine ++ [0]) = some ⟨4294967295, 0⟩ := by decide
  refine ⟨parsed, fun parses => ?_⟩
  obtain ⟨first, second, nonempty, -, digitsOnly, -, line, -⟩ := (parses _).mp parsed
  have trimmed : trimCrlf (cString (signedLine ++ [0])) = seekPrefix ++ [45, 49, 44, 48] := by
    decide
  rw [trimmed, List.append_cancel_left_eq] at line
  obtain ⟨head, rest, rfl⟩ := List.exists_cons_of_ne_nil nonempty
  obtain rfl : 45 = head := by simpa using congrArg List.head? line
  exact absurd (digitsOnly 45 List.mem_cons_self) (by decide)

/-! What the packet decides. -/

/-- Whatever follows the copy of the packet in memory, up to a NUL, the parse is the same. -/
def DecidedByPacket (received : Bytes) : Prop :=
  ∀ tail other : Bytes, 0 ∈ tail → 0 ∈ other →
    parseSeekCommand (received ++ tail) = parseSeekCommand (received ++ other)

def StartsSeekLine (received : Bytes) : Prop :=
  ∃ (first second : Numeral) (lineEnd : Bytes), (∀ byte ∈ lineEnd, isCrlf byte = true) ∧
    received <+: seekLine first second lineEnd

theorem cString_of_mem {received : Bytes} (terminated : 0 ∈ received) (tail : Bytes) :
    cString (received ++ tail) = cString received := by
  obtain ⟨body, rest, rfl, unterminated⟩ := List.eq_append_cons_of_mem terminated
  have inside : ∀ byte ∈ body, decide (byte ≠ 0) = true := by
    rintro byte member
    exact decide_eq_true fun zero => unterminated (zero ▸ member)
  have stops (after : Bytes) : Stops (fun byte : UInt8 => decide (byte ≠ 0)) (0 :: after) :=
    stops_cons (by decide) after
  rw [List.append_assoc, cString, cString, takeWhile_run inside (stops rest)]
  exact takeWhile_run inside (stops (rest ++ tail))

theorem cString_of_not_mem {received : Bytes} (unterminated : 0 ∉ received) (tail : Bytes) :
    cString (received ++ tail) = received ++ cString tail := by
  refine List.takeWhile_append_of_pos fun byte member => ?_
  exact decide_eq_true fun zero => unterminated (zero ▸ member)

theorem Numeral.zero_not_mem (numeral : Numeral) : 0 ∉ numeral.text := fun member =>
  absurd (Numeral.mem_text member) (by decide)

theorem Numeral.getLast_text (numeral : Numeral) :
    ∃ last ∈ numeral.text.getLast?, isDigit last = true := by
  have last := List.getLast?_eq_some_getLast numeral.nonempty
  refine ⟨numeral.digits.getLast numeral.nonempty, ?_,
    numeral.digitsOnly _ (List.getLast_mem numeral.nonempty)⟩
  rw [Numeral.text, List.getLast?_append, last]
  rfl

theorem seekLine_getLast (first second : Numeral) :
    ∃ last ∈ (seekLine first second []).getLast?, isDigit last = true := by
  obtain ⟨last, member, digit⟩ := second.getLast_text
  refine ⟨last, ?_, digit⟩
  have text : second.text.getLast? = some last := member
  rw [seekLine, List.append_nil, List.getLast?_append, List.getLast?_append, List.getLast?_cons,
    text]
  rfl

theorem seekLine_append (first second : Numeral) (lineEnd : Bytes) :
    seekLine first second lineEnd = seekLine first second [] ++ lineEnd := by
  simp [seekLine]

theorem zero_not_mem_seekLine (first second : Numeral) {lineEnd : Bytes}
    (lineEndOnly : ∀ byte ∈ lineEnd, isCrlf byte = true) : 0 ∉ seekLine first second lineEnd := by
  intro member
  simp only [seekLine, List.mem_append, List.mem_cons] at member
  rcases member with inPrefix | inFirst | isComma | inSecond | inEnd
  · exact absurd inPrefix (by decide)
  · exact first.zero_not_mem inFirst
  · exact absurd isComma (by decide)
  · exact second.zero_not_mem inSecond
  · exact absurd (lineEndOnly 0 inEnd) (by decide)

theorem trimCrlf_seekLine (first second : Numeral) {lineEnd : Bytes}
    (lineEndOnly : ∀ byte ∈ lineEnd, isCrlf byte = true) :
    trimCrlf (seekLine first second lineEnd) = seekLine first second [] := by
  rw [seekLine_append, trimCrlf]
  apply rdropWhile_run lineEndOnly
  intro last member
  obtain ⟨digit, found, isDigit_digit⟩ := seekLine_getLast first second
  obtain rfl : last = digit := Option.mem_unique member found
  rw [isCrlf, Bool.or_eq_false_iff, beq_eq_false_iff_ne, beq_eq_false_iff_ne]
  constructor
  · rintro rfl
    cases isDigit_digit
  · rintro rfl
    cases isDigit_digit

section

variable {received rest lineEnd : Bytes} {first second : Numeral}

theorem parseSeekCommand_completed (unterminated : 0 ∉ received)
    (lineEndOnly : ∀ byte ∈ lineEnd, isCrlf byte = true)
    (line : received ++ rest = seekLine first second lineEnd) :
    parseSeekCommand (received ++ (rest ++ [0])) = some ⟨first.value, second.value⟩ := by
  have restOnly : 0 ∉ rest := fun member =>
    zero_not_mem_seekLine first second lineEndOnly (line ▸ List.mem_append_right _ member)
  have ended : cString [0] = [] := rfl
  refine (parseSeekCommand_eq_some_iff _ _).mpr ⟨first, second, ?_, rfl⟩
  rw [cString_of_not_mem unterminated, cString_of_not_mem restOnly, ended, List.append_nil, line,
    trimCrlf_seekLine first second lineEndOnly]

theorem parseSeekCommand_followed (unterminated : 0 ∉ received)
    (lineEndOnly : ∀ byte ∈ lineEnd, isCrlf byte = true)
    (line : received ++ rest = seekLine first second lineEnd) :
    parseSeekCommand (received ++ (rest ++ [120, 0])) = none := by
  have restOnly : 0 ∉ rest := fun member =>
    zero_not_mem_seekLine first second lineEndOnly (line ▸ List.mem_append_right _ member)
  have ended : cString [120, 0] = [120] := rfl
  have untrimmed : trimCrlf (seekLine first second lineEnd ++ [120]) =
      seekLine first second lineEnd ++ [120] := List.rdropWhile_concat_neg _ _ _ (by decide)
  rw [Option.eq_none_iff_forall_ne_some]
  intro seekto parsed
  obtain ⟨one, other, same, -⟩ := (parseSeekCommand_eq_some_iff _ _).mp parsed
  rw [cString_of_not_mem unterminated, cString_of_not_mem restOnly, ended, ← List.append_assoc,
    line, untrimmed] at same
  obtain ⟨last, found, digit⟩ := seekLine_getLast one other
  rw [← same, List.getLast?_concat] at found
  obtain rfl : 120 = last := Option.some_inj.mp found
  cases digit

theorem parseSeekCommand_of_not_starts (unterminated : 0 ∉ received)
    (other : ¬ StartsSeekLine received) (memory : Bytes) :
    parseSeekCommand (received ++ memory) = none := by
  rw [Option.eq_none_iff_forall_ne_some]
  intro seekto parsed
  obtain ⟨first, second, line, -⟩ := (parseSeekCommand_eq_some_iff _ _).mp parsed
  apply other
  refine ⟨first, second, (cString (received ++ memory)).rtakeWhile isCrlf,
    fun byte member => List.mem_rtakeWhile_imp member, ?_⟩
  rw [seekLine_append, ← line, trimCrlf, List.rdropWhile_append_rtakeWhile,
    cString_of_not_mem unterminated]
  exact List.prefix_append _ _

end

theorem decidedByPacket_iff (received : Bytes) :
    DecidedByPacket received ↔ 0 ∈ received ∨ ¬ StartsSeekLine received := by
  constructor
  · intro decided
    by_contra undecided
    rw [not_or, not_not] at undecided
    obtain ⟨unterminated, first, second, lineEnd, lineEndOnly, rest, line⟩ := undecided
    -- one tail completes the command, and the other puts the letter x after it
    have taken := parseSeekCommand_completed unterminated lineEndOnly line
    have refused := parseSeekCommand_followed unterminated lineEndOnly line
    rw [decided (rest ++ [0]) (rest ++ [120, 0]) (by simp) (by simp), refused] at taken
    cases taken
  · intro condition tail other _ _
    by_cases terminated : 0 ∈ received
    · rw [parseSeekCommand, parseSeekCommand, cString_of_mem terminated,
        cString_of_mem terminated]
    · have never := condition.resolve_left terminated
      rw [parseSeekCommand_of_not_starts terminated never,
        parseSeekCommand_of_not_starts terminated never]

/-- The packet AESDCHAR_IOCSEEKTO:1,2 without a line end. -/
def openPacket : Bytes := seekPrefix ++ [49, 44, 50]

theorem decidedByPacket_fails_open :
    parseSeekCommand (openPacket ++ [0]) = some ⟨1, 2⟩ ∧
      parseSeekCommand (openPacket ++ [51, 0]) = some ⟨1, 23⟩ ∧ ¬ DecidedByPacket openPacket := by
  have short : parseSeekCommand (openPacket ++ [0]) = some ⟨1, 2⟩ := by decide
  have long : parseSeekCommand (openPacket ++ [51, 0]) = some ⟨1, 23⟩ := by decide
  refine ⟨short, long, fun decided => ?_⟩
  have same := decided [0] [51, 0] (by decide) (by decide)
  rw [short, long] at same
  exact absurd same (by decide)

end Aesd

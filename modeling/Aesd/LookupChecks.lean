import Aesd.HistoryChecks

/-!
The lookup that goes by `in_offs` and `out_offs`, against the live window that
`aesd_circular_buffer_add_entry` keeps in other counters.
-/

namespace Aesd

open MachineInt Records SlotLog Offsets

/-! The scan, for an `out_offs` of zero. -/

/-- `total_len` when the scan comes to `slot`. -/
def scanLen (buffer : CircularBuffer) (slot : Nat) : Int := toInt (before (slotSizes buffer) slot)

def scanEnd (buffer : CircularBuffer) (slot : Nat) : Nat :=
  toUnsigned 64 (scanLen buffer slot + (slotSizes buffer).getD slot 0)

def covers (buffer : CircularBuffer) (charOffset slot : Nat) : Bool :=
  decide (charOffset < scanEnd buffer slot)

theorem covers_iff {buffer : CircularBuffer} {charOffset slot : Nat} :
    covers buffer charOffset slot = true ↔ charOffset < scanEnd buffer slot := by
  rw [covers, decide_eq_true_eq]

theorem scanLen_succ (buffer : CircularBuffer) (slot : Nat) :
    toInt (scanLen buffer slot + (slotSizes buffer).getD slot 0) = scanLen buffer (slot + 1) := by
  rw [scanLen, scanLen, toInt_toInt_add, ← before_add_getD]
  norm_cast

theorem findEntryFrom_eq (buffer : CircularBuffer) (charOffset count first : Nat)
    (inArray : first + count ≤ 10) :
    findEntryFrom buffer charOffset (List.range' first count) (scanLen buffer first) =
      .ok (((List.range' first count).find? (covers buffer charOffset)).map
        fun slot => (slot, toUnsigned 64 (charOffset - scanLen buffer slot))) := by
  induction count generalizing first with
  | zero => rfl
  | succ count ih =>
      obtain ⟨entry, found⟩ : ∃ entry, buffer.entry[first]? = some entry :=
        ⟨_, Vector.getElem?_eq_getElem (by omega)⟩
      have size := slotSizes_getD found
      have edge : toUnsigned 64 (scanLen buffer first + entry.size) = scanEnd buffer first := by
        rw [scanEnd, size]
      have next : toInt (scanLen buffer first + entry.size) = scanLen buffer (first + 1) := by
        rw [← scanLen_succ, size]
      rw [List.range'_succ, findEntryFrom, found]
      simp only [edge, next]
      by_cases inside : charOffset < scanEnd buffer first
      · rw [if_pos inside, List.find?_cons_of_pos (covers_iff.mpr inside), Option.map_some]
      · rw [if_neg inside, ih (first + 1) (by omega), List.find?_cons_of_neg (covers_iff.not.mpr inside)]

def scannedSlots (count : Nat) : Nat := if count % 10 = 0 then 10 else count % 10

theorem scannedSlots_le (count : Nat) : scannedSlots count ≤ 10 := by
  unfold scannedSlots
  split <;> omega

theorem lookupIndices_eq {buffer : CircularBuffer} {count : Nat} (unmoved : buffer.outOffs = 0)
    (inOffs : buffer.inOffs = UInt8.ofNat (count % 10)) :
    lookupIndices buffer = List.range' 0 (scannedSlots count) := by
  have zero : (0 : UInt8).toNat = 0 := rfl
  have width : (UInt8.ofNat (count % 10)).toNat = count % 10 := by
    rw [UInt8.toNat_ofNat', Nat.mod_eq_of_lt (by omega)]
  unfold lookupIndices scannedSlots
  simp only [unmoved, inOffs, UInt8.le_iff_toNat_le, width, zero, Nat.le_zero]
  split
  next empty => simp [empty]
  next => rfl

/-- What the lookup relies on: the scan starts at slot 0 and covers these many slots. -/
structure Scanned (buffer : CircularBuffer) (count : Nat) : Prop where
  outOffs : buffer.outOffs = 0
  inOffs : buffer.inOffs = UInt8.ofNat (count % 10)

theorem Scanned.lookup_eq {buffer : CircularBuffer} {count : Nat} (scanned : Scanned buffer count)
    (charOffset : UInt64) :
    aesdCircularBufferFindEntryOffsetForFpos buffer charOffset =
      .ok (((List.range' 0 (scannedSlots count)).find?
          (covers buffer charOffset.toNat)).map
        fun slot => (slot, toUnsigned 64 (charOffset.toNat - scanLen buffer slot))) := by
  have start : scanLen buffer 0 = 0 := by simp [scanLen, toInt]
  have inArray := scannedSlots_le count
  have found := findEntryFrom_eq buffer charOffset.toNat (scannedSlots count) 0 (by omega)
  rw [start] at found
  rw [aesdCircularBufferFindEntryOffsetForFpos, lookupIndices_eq scanned.outOffs scanned.inOffs,
    found]

theorem Scanned.lookup_eq_some_iff {buffer : CircularBuffer} {count : Nat}
    (scanned : Scanned buffer count) {charOffset : UInt64} {slot offset : Nat} :
    aesdCircularBufferFindEntryOffsetForFpos buffer charOffset = .ok (some (slot, offset)) ↔
      slot < scannedSlots count ∧ charOffset.toNat < scanEnd buffer slot ∧
        (∀ earlier < slot, scanEnd buffer earlier ≤ charOffset.toNat) ∧
        toUnsigned 64 (charOffset.toNat - scanLen buffer slot) = offset := by
  rw [scanned.lookup_eq, Except.ok.injEq, Option.map_eq_some_iff]
  simp only [List.find?_range'_eq_some, Prod.mk.injEq, Bool.not_eq_true', ← Bool.not_eq_true,
    covers_iff, Nat.not_lt]
  constructor
  · rintro ⟨_, ⟨inside, member, earlier⟩, rfl, rfl⟩
    refine ⟨by simpa using member, inside, ?_, rfl⟩
    intro before below
    exact earlier before (Nat.zero_le _) below
  · rintro ⟨within, inside, earlier, rfl⟩
    refine ⟨slot, ⟨inside, by simpa using within, ?_⟩, rfl, rfl⟩
    intro before _ below
    exact earlier before below

theorem Scanned.lookup_eq_none_iff {buffer : CircularBuffer} {count : Nat}
    (scanned : Scanned buffer count) {charOffset : UInt64} :
    aesdCircularBufferFindEntryOffsetForFpos buffer charOffset = .ok none ↔
      ∀ slot < scannedSlots count, scanEnd buffer slot ≤ charOffset.toNat := by
  rw [scanned.lookup_eq, Except.ok.injEq, Option.map_eq_none_iff]
  simp only [List.find?_eq_none, covers_iff, Nat.not_lt, List.mem_range'_1, Nat.zero_le,
    Nat.zero_add, true_and]

/-! The lookup law. -/

/-- Byte `offset` of the live command of an age is found in the slot that the command was
stored in, and a byte past the live ones is not found. -/
structure LookupLaw (buffer : CircularBuffer) (commands : List Bytes) : Prop where
  stored : ∀ age (bound : age < (liveOf commands).length),
    buffer.entry[commandSlot (commands.length - 10 + age)]? =
      some ⟨.block (liveOf commands)[age], (liveOf commands)[age].length⟩
  found : ∀ (age offset : Nat) (charOffset : UInt64),
    offset < (sizesOf (liveOf commands)).getD age 0 →
    charOffset.toNat = before (sizesOf (liveOf commands)) age + offset →
    aesdCircularBufferFindEntryOffsetForFpos buffer charOffset =
      .ok (some (commandSlot (commands.length - 10 + age), offset))
  missing : ∀ charOffset : UInt64, (liveOf commands).flatten.length ≤ charOffset.toNat →
    aesdCircularBufferFindEntryOffsetForFpos buffer charOffset = .ok none

def AlignedSlots (count : Nat) : Prop :=
  count ≤ 10 ∨ (count % 10 = 0 ∧ 10 ≤ count % 2 ^ 32 ∧ count % 2 ^ 32 % 10 = 0)

structure ScannedInOrder (commands : List Bytes) : Prop where
  aligned : AlignedSlots commands.length
  total : (liveOf commands).flatten.length < 2 ^ 64
  /-- `total_len` keeps the size of the older commands, as an `int` that becomes a `size_t` -/
  older : ∀ age < (liveOf commands).length,
    toUnsigned 64 (toInt (before (sizesOf (liveOf commands)) age)) =
      before (sizesOf (liveOf commands)) age

theorem AlignedSlots.slot {count : Nat} (aligned : AlignedSlots count) {age : Nat}
    (bound : age < min count 10) : commandSlot (count - 10 + age) = age := by
  have index (unbroken : 10 ≤ count % 2 ^ 32) :
      (count - 10 + age) % 2 ^ 32 = count % 2 ^ 32 - 10 + age := by omega
  have slot (low : Nat) (full : 10 ≤ low) (whole : low % 10 = 0) :
      (low - 10 + age) % 10 = age := by omega
  rw [commandSlot, wrappedSlot]
  rcases aligned with few | ⟨_, unbroken, whole⟩
  · rw [Nat.sub_eq_zero_of_le few]
    omega
  · rw [index unbroken, slot _ unbroken whole]

theorem AlignedSlots.scannedSlots {count : Nat} (aligned : AlignedSlots count)
    (present : 0 < count) : scannedSlots count = min count 10 := by
  unfold Aesd.scannedSlots
  rcases aligned with few | ⟨tens, unbroken, _⟩
  · split <;> omega
  · have full : 10 ≤ count := unbroken.trans (Nat.mod_le _ _)
    rw [if_pos tens, Nat.min_eq_right full]

def FillsSlots (buffer : CircularBuffer) (commands : List Bytes) : Prop :=
  ∀ age (bound : age < (liveOf commands).length),
    buffer.entry[age]? = some ⟨.block (liveOf commands)[age], (liveOf commands)[age].length⟩

theorem FillsSlots.size {buffer : CircularBuffer} {commands : List Bytes}
    (fills : FillsSlots buffer commands) {age : Nat} (bound : age < (liveOf commands).length) :
    (slotSizes buffer).getD age 0 = (sizesOf (liveOf commands)).getD age 0 := by
  rw [slotSizes_getD (fills age bound), sizesOf_getD bound]

theorem FillsSlots.before {buffer : CircularBuffer} {commands : List Bytes}
    (fills : FillsSlots buffer commands) {age : Nat} (bound : age ≤ (liveOf commands).length) :
    before (slotSizes buffer) age = before (sizesOf (liveOf commands)) age := by
  induction age with
  | zero => rfl
  | succ age ih =>
      rw [← before_add_getD, ← before_add_getD, ih (by omega), fills.size bound]

theorem toUnsigned_scanEnd {buffer : CircularBuffer} {sizes : List Nat} {slot age : Nat}
    (reached : toUnsigned 64 (scanLen buffer slot) = before sizes age)
    (size : (slotSizes buffer).getD slot 0 = sizes.getD age 0) (total : sizes.sum < 2 ^ 64) :
    scanEnd buffer slot = before sizes (age + 1) := by
  have within := before_le_sum sizes (age + 1)
  rw [scanEnd, ← toUnsigned_toUnsigned_add, reached, size, ← Nat.cast_add, before_add_getD,
    toUnsigned_natCast (by omega)]

theorem ScannedInOrder.reached {buffer : CircularBuffer} {commands : List Bytes}
    (inOrder : ScannedInOrder commands) (fills : FillsSlots buffer commands) {age : Nat}
    (bound : age < (liveOf commands).length) :
    toUnsigned 64 (scanLen buffer age) = before (sizesOf (liveOf commands)) age := by
  rw [scanLen, fills.before (Nat.le_of_lt bound), inOrder.older age bound]

theorem ScannedInOrder.scanEnd {buffer : CircularBuffer} {commands : List Bytes}
    (inOrder : ScannedInOrder commands) (fills : FillsSlots buffer commands) {age : Nat}
    (bound : age < (liveOf commands).length) :
    scanEnd buffer age = before (sizesOf (liveOf commands)) (age + 1) :=
  toUnsigned_scanEnd (inOrder.reached fills bound) (fills.size bound)
    (by rw [sizesOf_sum]; exact inOrder.total)

theorem ScannedInOrder.lookupLaw {buffer : CircularBuffer} {commands : List Bytes}
    (inOrder : ScannedInOrder commands) (scanned : Scanned buffer commands.length)
    (present : 0 < commands.length) (fills : FillsSlots buffer commands) :
    LookupLaw buffer commands := by
  have slots : scannedSlots commands.length = (liveOf commands).length := by
    rw [liveOf_length, inOrder.aligned.scannedSlots present]
  have slot (age : Nat) (bound : age < (liveOf commands).length) :
      commandSlot (commands.length - 10 + age) = age :=
    inOrder.aligned.slot (by simpa using bound)
  refine ⟨?_, ?_, ?_⟩
  · intro age bound
    rw [slot age bound]
    exact fills age bound
  · intro age offset charOffset inside position
    obtain ⟨listed, -⟩ := bound_of_lt_getD inside
    have bound : age < (liveOf commands).length := by simpa using listed
    have next := before_add_getD (sizesOf (liveOf commands)) age
    rw [slot age bound]
    apply scanned.lookup_eq_some_iff.mpr
    refine ⟨by omega, ?_, ?_, ?_⟩
    · rw [inOrder.scanEnd fills bound]
      omega
    · intro earlier younger
      have order := before_mono (sizesOf (liveOf commands)) (show earlier + 1 ≤ age from younger)
      rw [inOrder.scanEnd fills (by omega)]
      omega
    · have small := charOffset.toNat_lt
      have left : ((charOffset.toNat : Int) - before (sizesOf (liveOf commands)) age) =
          offset := by omega
      rw [← toUnsigned_sub_toUnsigned, inOrder.reached fills bound, left,
        toUnsigned_natCast (by omega)]
  · intro charOffset past
    apply scanned.lookup_eq_none_iff.mpr
    intro age within
    have sum := before_le_sum (sizesOf (liveOf commands)) (age + 1)
    rw [sizesOf_sum] at sum
    rw [inOrder.scanEnd fills (by omega)]
    omega

/-! From the law back to the order of the slots. -/

section

variable {buffer : CircularBuffer} {commands : List Bytes}

theorem LookupLaw.total (law : LookupLaw buffer commands)
    (scanned : Scanned buffer commands.length) :
    (liveOf commands).flatten.length < 2 ^ 64 := by
  by_contra large
  have last : (UInt64.ofNat (2 ^ 64 - 1)).toNat = 2 ^ 64 - 1 := rfl
  obtain ⟨age, offset, inside, position⟩ := exists_locate
    (show 2 ^ 64 - 1 < (sizesOf (liveOf commands)).sum by
      rw [sizesOf_sum]
      omega)
  obtain ⟨_, covered, _⟩ := scanned.lookup_eq_some_iff.mp
    (law.found age offset (UInt64.ofNat (2 ^ 64 - 1)) inside (last.trans position))
  have width : scanEnd buffer (commandSlot (commands.length - 10 + age)) < 2 ^ 64 :=
    toUnsigned_lt 64 _
  omega

structure ScannedAt (buffer : CircularBuffer) (commands : List Bytes) (age slot : Nat) : Prop where
  within : slot < scannedSlots commands.length
  reached : toUnsigned 64 (scanLen buffer slot) = before (sizesOf (liveOf commands)) age
  passed : scanEnd buffer slot = before (sizesOf (liveOf commands)) (age + 1)
  earlier : ∀ other < slot, scanEnd buffer other ≤ before (sizesOf (liveOf commands)) age

theorem toUnsigned_sub_eq_zero {value : Nat} {taken : Int} (bound : value < 2 ^ 64)
    (equal : toUnsigned 64 (value - taken) = 0) : toUnsigned 64 taken = value := by
  unfold toUnsigned at equal ⊢
  omega

theorem live_size_pos (nonempty : ∀ command ∈ commands, command ≠ []) {age : Nat}
    (bound : age < (liveOf commands).length) : 0 < (sizesOf (liveOf commands)).getD age 0 := by
  have member : (liveOf commands)[age] ∈ commands := List.mem_of_mem_drop (List.getElem_mem bound)
  rw [sizesOf_getD bound]
  exact List.length_pos_iff.mpr (nonempty _ member)

theorem LookupLaw.scannedAt (law : LookupLaw buffer commands)
    (scanned : Scanned buffer commands.length) (nonempty : ∀ command ∈ commands, command ≠ [])
    {age : Nat} (bound : age < (liveOf commands).length) :
    ScannedAt buffer commands age (commandSlot (commands.length - 10 + age)) := by
  have inside := live_size_pos nonempty bound
  have total : (sizesOf (liveOf commands)).sum < 2 ^ 64 := by
    rw [sizesOf_sum]
    exact law.total scanned
  have small := (before_add_lt_sum inside).trans total
  have first : (UInt64.ofNat (before (sizesOf (liveOf commands)) age)).toNat =
      before (sizesOf (liveOf commands)) age := by
    rw [UInt64.toNat_ofNat', Nat.mod_eq_of_lt (by omega)]
  obtain ⟨slot, -, earlier, offset⟩ := scanned.lookup_eq_some_iff.mp
    (law.found age 0 (UInt64.ofNat (before (sizesOf (liveOf commands)) age)) inside first)
  rw [first] at earlier offset
  have reached := toUnsigned_sub_eq_zero (by omega) offset
  have size : (slotSizes buffer).getD (commandSlot (commands.length - 10 + age)) 0 =
      (sizesOf (liveOf commands)).getD age 0 := by
    rw [slotSizes_getD (law.stored age bound), sizesOf_getD bound]
  exact ⟨slot, reached, toUnsigned_scanEnd reached size total, earlier⟩

theorem LookupLaw.increasing (law : LookupLaw buffer commands)
    (scanned : Scanned buffer commands.length) (nonempty : ∀ command ∈ commands, command ≠ [])
    {age : Nat} (bound : age + 1 < (liveOf commands).length) :
    commandSlot (commands.length - 10 + age) < commandSlot (commands.length - 10 + (age + 1)) := by
  have here := law.scannedAt scanned nonempty (Nat.lt_of_succ_lt bound)
  have next := law.scannedAt scanned nonempty bound
  have first := live_size_pos nonempty (Nat.lt_of_succ_lt bound)
  have second := live_size_pos nonempty bound
  have firstEnd := before_add_getD (sizesOf (liveOf commands)) age
  have secondEnd := before_add_getD (sizesOf (liveOf commands)) (age + 1)
  rcases Nat.lt_trichotomy (commandSlot (commands.length - 10 + age))
    (commandSlot (commands.length - 10 + (age + 1))) with order | same | order
  · exact order
  · have reached := here.reached
    rw [same, next.reached] at reached
    omega
  · have passed := here.earlier _ order
    rw [next.passed] at passed
    omega

theorem eq_of_increasing {slot : Nat → Nat} {last : Nat}
    (increasing : ∀ age < last, slot age < slot (age + 1)) (within : slot last ≤ last) :
    ∀ age ≤ last, slot age = age := by
  have lower (age : Nat) (bound : age ≤ last) : age ≤ slot age := by
    induction age with
    | zero => exact Nat.zero_le _
    | succ age ih =>
        have step := increasing age bound
        have here := ih (by omega)
        omega
  have upper (left : Nat) (bound : left ≤ last) : slot (last - left) + left ≤ last := by
    induction left with
    | zero => exact within
    | succ left ih =>
        have step := increasing (last - (left + 1)) (by omega)
        have here := ih (by omega)
        rw [show last - (left + 1) + 1 = last - left by omega] at step
        omega
  intro age bound
  have above := upper (last - age) (by omega)
  have below := lower age bound
  rw [show last - (last - age) = age by omega] at above
  omega

/-- The counter has no multiple of ten at its wrap: 2^32 is 6 modulo 10. -/
theorem mod_add_ten {index : Nat} (first : commandSlot index = 0) (sixth : commandSlot (index + 6) = 6) :
    (index + 10) % 2 ^ 32 = index % 2 ^ 32 + 10 := by
  have width : index % 2 ^ 32 < 2 ^ 32 := Nat.mod_lt _ (by decide)
  have bound (low : Nat) (below : low < 2 ^ 32) (tens : low % 10 = 0) :
      low + 10 < 2 ^ 32 ∨ low + 6 = 2 ^ 32 := by omega
  rcases bound _ width first with unbroken | wraps
  · rw [Nat.add_mod, Nat.mod_eq_of_lt (show 10 < 2 ^ 32 by decide), Nat.mod_eq_of_lt unbroken]
  · have zero : (index + 6) % 2 ^ 32 = 0 := by
      rw [Nat.add_mod, Nat.mod_eq_of_lt (show 6 < 2 ^ 32 by decide), wraps, Nat.mod_self]
    rw [commandSlot, wrappedSlot, zero] at sixth
    cases sixth

theorem LookupLaw.alignedSlots (law : LookupLaw buffer commands)
    (scanned : Scanned buffer commands.length) (nonempty : ∀ command ∈ commands, command ≠ []) :
    AlignedSlots commands.length := by
  rcases Nat.lt_or_ge 10 commands.length with many | few
  · have length : (liveOf commands).length = 10 := by
      rw [liveOf_length]
      omega
    have fits := (law.scannedAt scanned nonempty (show 9 < _ by omega)).within
    have limit := scannedSlots_le commands.length
    have increasing (age : Nat) (bound : age < 9) :
        commandSlot (commands.length - 10 + age) < commandSlot (commands.length - 10 + (age + 1)) :=
      law.increasing scanned nonempty (by omega)
    have same : ∀ age ≤ 9, commandSlot (commands.length - 10 + age) = age :=
      eq_of_increasing increasing (by omega)
    have tens : commands.length % 10 = 0 := by
      have final := same 9 (Nat.le_refl 9)
      unfold scannedSlots at fits
      split at fits
      next whole => exact whole
      next => omega
    refine Or.inr ⟨tens, ?_⟩
    have first := same 0 (Nat.zero_le 9)
    have sixth := same 6 (by omega)
    have next := mod_add_ten first sixth
    rw [Nat.add_zero, Nat.sub_add_cancel (by omega)] at next
    rw [next, Nat.add_mod_right]
    exact ⟨by omega, first⟩
  · exact Or.inl few

theorem LookupLaw.scannedInOrder (law : LookupLaw buffer commands)
    (scanned : Scanned buffer commands.length) (nonempty : ∀ command ∈ commands, command ≠ []) :
    ScannedInOrder commands := by
  have aligned := law.alignedSlots scanned nonempty
  have slot (age : Nat) (bound : age < (liveOf commands).length) :
      commandSlot (commands.length - 10 + age) = age := aligned.slot (by simpa using bound)
  have fills : FillsSlots buffer commands := by
    intro age bound
    have stored := law.stored age bound
    rwa [slot age bound] at stored
  refine ⟨aligned, law.total scanned, ?_⟩
  intro age bound
  have reached := (law.scannedAt scanned nonempty bound).reached
  rwa [slot age bound, scanLen, fills.before (Nat.le_of_lt bound)] at reached

end

/-! Runs. -/

theorem Represents.fillsSlots {state : BufferState} {commands : List Bytes} {pending : Bytes}
    (represents : Represents state commands pending) (aligned : AlignedSlots commands.length) :
    FillsSlots state.buffer commands := by
  intro age bound
  have young : age < min commands.length 10 := by simpa using bound
  have slot := aligned.slot young
  have unbroken : commands.length ≤ 10 ∨ 10 ≤ commands.length % 2 ^ 32 :=
    aligned.imp id (·.2.1)
  have recent : commands.length - 10 + age < commands.length := by omega
  have entry := slotEntry_of_unbroken unbroken recent (by omega)
  rw [slot] at entry
  rw [represents.entry age (by omega), entry]
  simp [liveOf]

theorem Represents.scanEnd_empty {state : BufferState} {pending : Bytes}
    (represents : Represents state [] pending) {slot : Nat} (inArray : slot < 10) :
    scanEnd state.buffer slot = 0 := by
  have size (target : Nat) (bound : target < 10) : (slotSizes state.buffer).getD target 0 = 0 := by
    rw [slotSizes_getD (represents.entry target bound), slotEntry_unused (Nat.zero_le _) bound]
    rfl
  have sum (target : Nat) (bound : target ≤ 10) : before (slotSizes state.buffer) target = 0 := by
    induction target with
    | zero => rfl
    | succ target ih => rw [← before_add_getD, ih (by omega), size target (by omega)]
  rw [scanEnd, scanLen, sum slot (by omega), size slot inArray]
  simp [toInt, toUnsigned]

theorem Represents.lookupLaw_empty {state : BufferState} {pending : Bytes}
    (represents : Represents state [] pending) (scanned : Scanned state.buffer 0) :
    LookupLaw state.buffer [] := by
  refine ⟨by simp [liveOf], by simp [liveOf, sizesOf], ?_⟩
  intro charOffset _
  apply scanned.lookup_eq_none_iff.mpr
  intro slot within
  rw [represents.scanEnd_empty (within.trans_le (scannedSlots_le 0))]
  exact Nat.zero_le _

theorem Represents.lookupLaw_iff {state : BufferState} {commands : List Bytes} {pending : Bytes}
    (represents : Represents state commands pending)
    (scanned : Scanned state.buffer commands.length)
    (nonempty : ∀ command ∈ commands, command ≠ []) :
    LookupLaw state.buffer commands ↔ ScannedInOrder commands := by
  constructor
  · intro law
    exact law.scannedInOrder scanned nonempty
  · intro inOrder
    rcases Nat.eq_zero_or_pos commands.length with none | present
    · obtain rfl := List.length_eq_zero_iff.mp none
      exact represents.lookupLaw_empty scanned
    · exact inOrder.lookupLaw scanned present (represents.fillsSlots inOrder.aligned)

theorem runBuffer_outOffs {chunks : List Bytes} (nonempty : [] ∉ chunks) :
    ∃ state, runBuffer (chunks.map .add) = .ok state ∧ Follows state chunks ∧
      state.buffer.outOffs = 0 := by
  induction chunks using List.reverseRecOn with
  | nil => exact ⟨_, rfl, represents_boot, rfl⟩
  | append_singleton chunks chunk ih =>
      simp only [List.mem_append, List.mem_singleton, not_or] at nonempty
      obtain ⟨state, ran, follows, unmoved⟩ := ih nonempty.1
      obtain ⟨next, added, followed⟩ := follows.add (Ne.symm nonempty.2)
      refine ⟨next, ?_, followed, ?_⟩
      · rw [List.map_append, List.map_singleton, runBuffer_concat, ran, ok_bind]
        exact added
      · rw [follows.addEntry (Ne.symm nonempty.2)] at added
        cases added
        split
        · exact unmoved
        · exact unmoved

theorem runBuffer_lookupLaw_iff (chunks : List Bytes) (nonempty : [] ∉ chunks) :
    ∃ state, runBuffer (chunks.map .add) = .ok state ∧
      (LookupLaw state.buffer (commandsOf chunks) ↔ ScannedInOrder (commandsOf chunks)) := by
  obtain ⟨state, ran, follows, unmoved⟩ := runBuffer_outOffs nonempty
  have written : ∀ chunk ∈ chunks, chunk ≠ [] := by
    rintro chunk member rfl
    exact nonempty member
  have commands := collect_records_nonempty endsCommand written
  exact ⟨state, ran, follows.lookupLaw_iff ⟨unmoved, follows.inOffs⟩ commands⟩

def twoCommands : List Bytes := [[97], [98, 10], [99, 10], [100]]

theorem runBuffer_lookupLaw_iff_two :
    ∃ state, runBuffer (twoCommands.map .add) = .ok state ∧
      (LookupLaw state.buffer [[97, 98, 10], [99, 10]] ↔ ScannedInOrder [[97, 98, 10], [99, 10]]) :=
  runBuffer_lookupLaw_iff twoCommands (by decide)

def elevenCommands : List Bytes := List.replicate 11 [10]

theorem lookupLaw_fails_eleven :
    ∃ state, runBuffer (elevenCommands.map .add) = .ok state ∧
      (liveOf (commandsOf elevenCommands)).flatten.length = 10 ∧
      aesdCircularBufferFindEntryOffsetForFpos state.buffer 1 = .ok none ∧
      ¬ LookupLaw state.buffer (commandsOf elevenCommands) := by
  have evaluated : (runBuffer (elevenCommands.map .add)).toOption.map
      (fun state => aesdCircularBufferFindEntryOffsetForFpos state.buffer 1) =
        some (.ok none) := by decide +kernel
  obtain ⟨state, ran, missed⟩ := ok_of_toOption_map evaluated
  refine ⟨state, ran, by decide, missed, fun law => ?_⟩
  have found := law.found 1 0 1 (by decide) (by decide)
  rw [missed] at found
  cases found

end Aesd

import Aesd.ReadTotal

/-!
What the copy loop of a read computes. It takes slots in age order from the index it is
given, and leaves what it copied at the front of a zeroed result buffer.
-/

namespace Aesd

open MachineInt

/-- The accesses are in bounds, and they leave `done` at the front of `len` zeroed bytes. -/
structure Filled (buffer : CircularBuffer) (len : Nat) (accesses : List Access) (done : Bytes) :
    Prop where
  inBounds : accesses.all (Access.inBounds buffer len)
  remains : accesses.all Access.remains
  bytes : accesses.foldl (Access.apply buffer) (List.replicate len 0) =
    done ++ List.replicate (len - done.length) 0
  length : done.length ≤ len

theorem holdsRange_of_found {buffer : CircularBuffer} {ri offset count : Nat} {bytes : Bytes}
    (found : buffer.entry[ri]? = some ⟨.block bytes, bytes.length⟩)
    (inside : offset + count ≤ bytes.length) : buffer.holdsRange ri offset count = true := by
  have source : (offset : Int) + count ≤ bytes.length := by omega
  rw [CircularBuffer.holdsRange, found]
  simp [source]

theorem Filled.copy {buffer : CircularBuffer} {len ri : Nat} {accesses : List Access}
    {done bytes : Bytes} (filled : Filled buffer len accesses done) (offset remain count : Nat)
    (found : buffer.entry[ri]? = some ⟨.block bytes, bytes.length⟩) (slot : ri < 10)
    (source : offset + count ≤ bytes.length) (target : done.length + count ≤ len) :
    Filled buffer len
      (accesses ++ [.slot ri, .memcpy ri offset remain count (0 + done.length)])
      (done ++ (bytes.drop offset).take count) where
  inBounds := by
    have held := holdsRange_of_found found source
    simp [filled.inBounds, Access.inBounds, slot, held, target]
  remains := by simp [filled.remains, Access.remains]
  bytes := by
    have copied : ((bytes.drop offset).take count).length = count := by
      simp only [List.length_take, List.length_drop]
      omega
    have zeros : len - done.length - count = len - (done.length + count) := by omega
    simp [List.foldl_append, filled.bytes, Access.apply, found, overwrite_append, copied, zeros]
  length := by
    simp only [List.length_append, List.length_take, List.length_drop]
    omega

/-- The pieces are in the slots from `index` on, and with the last of them the index
meets `w_abs`. -/
structure Cursor (buffer : CircularBuffer) (index : Nat) (pieces : List Bytes) : Prop where
  entry : ∀ offset (bound : offset < pieces.length), buffer.entry[(index + offset) % 10]? =
    some ⟨.block pieces[offset], pieces[offset].length⟩
  small : ∀ piece ∈ pieces, piece.length < 2 ^ 31
  last : index + pieces.length = buffer.wAbs.toNat
  bound : index + pieces.length ≤ 2 ^ 31

theorem Cursor.head {buffer : CircularBuffer} {index : Nat} {piece : Bytes} {pieces : List Bytes}
    (cursor : Cursor buffer index (piece :: pieces)) :
    buffer.entry[index % 10]? = some ⟨.block piece, piece.length⟩ :=
  cursor.entry 0 (by simp)

theorem Cursor.tail {buffer : CircularBuffer} {index : Nat} {piece : Bytes} {pieces : List Bytes}
    (cursor : Cursor buffer index (piece :: pieces)) : Cursor buffer (index + 1) pieces where
  entry := by
    intro offset bound
    have found := cursor.entry (offset + 1) (by simpa using bound)
    rw [show index + (offset + 1) = index + 1 + offset by omega] at found
    simpa using found
  small := fun other member => cursor.small other (List.mem_cons_of_mem _ member)
  last := by
    have last := cursor.last
    simp only [List.length_cons] at last
    omega
  bound := by
    have bound := cursor.bound
    simp only [List.length_cons] at bound
    omega

theorem Cursor.drop {buffer : CircularBuffer} {index : Nat} {pieces : List Bytes}
    (cursor : Cursor buffer index pieces) {count : Nat} (bound : count ≤ pieces.length) :
    Cursor buffer (index + count) (pieces.drop count) := by
  induction count generalizing index pieces with
  | zero => simpa using cursor
  | succ count ih =>
      cases pieces with
      | nil => simp at bound
      | cons piece pieces =>
          have rest := ih cursor.tail (by simpa using bound)
          rw [show index + (count + 1) = index + 1 + count by omega]
          exact rest

structure AtPiece (index offset startByteOfs : Nat) (state : CopyState) : Prop where
  startp : state.startp = index
  offset : ofsInEntry startByteOfs state = offset

theorem toUnsigned_tmod_ten (index : Nat) : toUnsigned 8 ((index : Int).tmod 10) = index % 10 := by
  have small : index % 10 < 2 ^ 8 := by omega
  have cast : (index : Int).tmod 10 = (index % 10 : Nat) := rfl
  rw [cast, toUnsigned_natCast small]

def CopyState.copied (state : CopyState) (index offset remain count : Nat) : CopyState :=
  { state with
    accesses := state.accesses ++
      [.slot (index % 10), .memcpy (index % 10) offset remain count (0 + state.readLen)]
    readLen := state.readLen + count }

@[simp] theorem CopyState.copied_readLen (state : CopyState) (index offset remain count : Nat) :
    (state.copied index offset remain count).readLen = state.readLen + count := rfl

@[simp] theorem CopyState.copied_accesses (state : CopyState) (index offset remain count : Nat) :
    (state.copied index offset remain count).accesses = state.accesses ++
      [.slot (index % 10), .memcpy (index % 10) offset remain count (0 + state.readLen)] := rfl

theorem copyLength_zero {len : Nat} (lenBound : len < 2 ^ 64) (remainInEntry : Int) :
    copyLength len 0 remainInEntry = min len (toUnsigned 64 remainInEntry) := by
  have whole : toUnsigned 64 (len : Int) = len := toUnsigned_natCast lenBound
  rw [copyLength, Nat.cast_zero, Int.zero_add, Int.sub_zero, whole]
  split <;> omega

def CopyState.tookFirst (state : CopyState) (len copyStart index : Nat)
    (offset remainInEntry : Int) : CopyState :=
  state.recorded
    [.slot (index % 10), .memcpy (index % 10) offset remainInEntry
      (min len (toUnsigned 64 remainInEntry)) (copyStart + 0)]
    (min len (toUnsigned 64 remainInEntry))

/-- The first entry is left when at most `len` bytes of it remain. -/
theorem copyStep_first {buffer : CircularBuffer} {len index size : Nat} {piece : Bytes}
    {state : CopyState} (startp : state.startp = index)
    (found : buffer.entry[index % 10]? = some ⟨.block piece, size⟩) (fresh : state.readLen = 0)
    (lenBound : len < 2 ^ 64) (copyStart startByteOfs : Nat) :
    copyStep buffer len copyStart startByteOfs state =
      if toUnsigned 64 (toInt (size - ofsInEntry startByteOfs state)) ≤ len then
        advanceEntry buffer len (state.tookFirst len copyStart index (ofsInEntry startByteOfs state)
          (toInt (size - ofsInEntry startByteOfs state)))
      else .stop (state.tookFirst len copyStart index (ofsInEntry startByteOfs state)
        (toInt (size - ofsInEntry startByteOfs state))) := by
  simp only [copyStep, startp, toUnsigned_tmod_ten, found, fresh, copyLength_zero lenBound,
    reduceCtorEq, if_false, Nat.cast_zero, Int.zero_add]
  generalize toInt (size - ofsInEntry startByteOfs state) = remain
  have taken : toUnsigned 64 (min len (toUnsigned 64 remain) : Nat) =
      min len (toUnsigned 64 remain) := toUnsigned_natCast (by omega)
  rw [taken, CopyState.tookFirst, CopyState.recorded, startp, List.append_assoc,
    List.singleton_append]
  by_cases leaves : toUnsigned 64 remain ≤ len
  · rw [if_pos leaves, if_pos (by omega)]
  · rw [if_neg leaves, if_neg (by omega), if_pos (by omega)]

theorem copyStep_eq {buffer : CircularBuffer} {len index offset startByteOfs : Nat}
    {piece : Bytes} {state : CopyState} (here : AtPiece index offset startByteOfs state)
    (found : buffer.entry[index % 10]? = some ⟨.block piece, piece.length⟩)
    (small : piece.length < 2 ^ 31) (inside : offset ≤ piece.length) (lenBound : len < 2 ^ 64)
    (room : state.readLen < 2 ^ 63) (unfilled : state.readLen < len) :
    copyStep buffer len 0 startByteOfs state =
      if len ≤ state.readLen + (piece.length - offset) then
        if piece.length - offset ≤ len - state.readLen then
          advanceEntry buffer len
            (state.copied index offset (piece.length - offset) (len - state.readLen))
        else .stop (state.copied index offset (piece.length - offset) (len - state.readLen))
      else
        advanceEntry buffer len
          (state.copied index offset (piece.length - offset) (piece.length - offset)) := by
  have remain : toInt ((piece.length : Int) - offset) = (piece.length - offset : Nat) := by
    rw [← Nat.cast_sub inside, toInt_natCast (by omega)]
  have sum : toUnsigned 64 ((state.readLen : Int) + (piece.length - offset : Nat)) =
      state.readLen + (piece.length - offset) := by
    rw [← Nat.cast_add, toUnsigned_natCast (by omega)]
  have left : toUnsigned 64 ((len : Int) - state.readLen) = len - state.readLen := by
    rw [← Nat.cast_sub (by omega), toUnsigned_natCast (by omega)]
  have unsignedRemain : toUnsigned 64 (piece.length - offset : Nat) = piece.length - offset :=
    toUnsigned_natCast (by omega)
  have filled : toUnsigned 64 ((state.readLen : Int) + (len - state.readLen : Nat)) = len := by
    rw [← Nat.cast_add, Nat.add_sub_cancel' (Nat.le_of_lt unfilled), toUnsigned_natCast lenBound]
  have whole : state.readLen + (len - state.readLen) = len := by omega
  simp only [copyStep, here.startp, toUnsigned_tmod_ten, found, here.offset, remain, copyLength,
    sum, left, unsignedRemain, reduceCtorEq, if_false]
  by_cases fills : len ≤ state.readLen + (piece.length - offset)
  · simp only [if_pos fills, filled, CopyState.copied, here.startp, Nat.le_refl, if_true,
      Nat.zero_add, whole, List.append_assoc, List.singleton_append]
  · simp only [if_neg fills, sum, CopyState.copied, here.startp, Nat.le_refl, if_true,
      Nat.zero_add, List.append_assoc, List.singleton_append]

def StopsAt (state : CopyState) (flow : Flow CopyState) : Prop :=
  ∃ final, flow = .stop final ∧ final.readLen = state.readLen ∧ final.accesses = state.accesses

theorem advanceEntry_of_filled {buffer : CircularBuffer} {len : Nat} {state : CopyState}
    (filled : len ≤ state.readLen) : StopsAt state (advanceEntry buffer len state) := by
  simp only [advanceEntry, if_pos filled]
  split <;> exact ⟨_, rfl, rfl, rfl⟩

theorem advanceEntry_of_last {buffer : CircularBuffer} {len index : Nat} {state : CopyState}
    (startp : state.startp = index) (last : index + 1 = buffer.wAbs.toNat) :
    StopsAt state (advanceEntry buffer len state) := by
  have width := buffer.wAbs.toNat_lt
  have met : toUnsigned 32 (toInt ((index : Int) + 1)) = buffer.wAbs.toNat := by
    rw [toUnsigned_toInt, ← Nat.cast_succ, toUnsigned_natCast (by omega), Nat.succ_eq_add_one, last]
  simp only [advanceEntry, startp, if_pos met]
  exact ⟨_, rfl, rfl, rfl⟩

theorem advanceEntry_of_more (buffer : CircularBuffer) (len : Nat) (state : CopyState)
    {index : Nat} (startp : state.startp = index) (more : index + 1 < buffer.wAbs.toNat)
    (bound : index + 1 < 2 ^ 31) (unfilled : state.readLen < len) :
    ∃ next, advanceEntry buffer len state = .next next ∧ next.startp = (index + 1 : Nat) ∧
      next.isFirstEntry = false ∧ next.readLen = state.readLen ∧
      next.accesses = state.accesses := by
  have moved : toInt ((index : Int) + 1) = (index + 1 : Nat) := by
    rw [← Nat.cast_succ, toInt_natCast bound]
  have unmet : toUnsigned 32 ((index + 1 : Nat) : Int) ≠ buffer.wAbs.toNat := by
    rw [toUnsigned_natCast (by omega)]
    omega
  have short : ¬ len ≤ state.readLen := by omega
  simp only [advanceEntry, startp, moved, if_neg unmet, if_neg short]
  exact ⟨_, rfl, rfl, rfl, rfl, rfl⟩

theorem copyFrom_of_stop {buffer : CircularBuffer} {len startByteOfs : Nat}
    {state copied : CopyState} (stops : StopsAt copied (copyStep buffer len 0 startByteOfs state))
    (fuel : Nat) :
    ∃ final, copyFrom buffer len 0 startByteOfs (fuel + 1) state = some final ∧
      final.accesses = copied.accesses ∧ final.readLen = copied.readLen := by
  obtain ⟨final, stopped, readLen, accesses⟩ := stops
  exact ⟨final, by rw [copyFrom, stopped], accesses, readLen⟩

def CopiesTo (buffer : CircularBuffer) (len startByteOfs fuel : Nat) (state : CopyState)
    (result : Bytes) : Prop :=
  ∃ final, copyFrom buffer len 0 startByteOfs fuel state = some final ∧
    Filled buffer len final.accesses result ∧ final.readLen = result.length

/-- The loop has copied `done` and is about to copy from offset `offset` of `piece`. -/
structure Entering (buffer : CircularBuffer) (len index offset startByteOfs : Nat)
    (piece done : Bytes) (state : CopyState) : Prop where
  here : AtPiece index offset startByteOfs state
  found : buffer.entry[index % 10]? = some ⟨.block piece, piece.length⟩
  small : piece.length < 2 ^ 31
  inside : offset ≤ piece.length
  filled : Filled buffer len state.accesses done
  readLen : state.readLen = done.length
  unfilled : done.length < len
  lenBound : len < 2 ^ 64
  room : done.length < 2 ^ 63

theorem Entering.step {buffer : CircularBuffer} {len index offset startByteOfs : Nat}
    {piece done : Bytes} {state : CopyState}
    (entering : Entering buffer len index offset startByteOfs piece done state) :
    copyStep buffer len 0 startByteOfs state =
      if len ≤ state.readLen + (piece.length - offset) then
        if piece.length - offset ≤ len - state.readLen then
          advanceEntry buffer len
            (state.copied index offset (piece.length - offset) (len - state.readLen))
        else .stop (state.copied index offset (piece.length - offset) (len - state.readLen))
      else
        advanceEntry buffer len
          (state.copied index offset (piece.length - offset) (piece.length - offset)) :=
  copyStep_eq entering.here entering.found entering.small entering.inside entering.lenBound
    (entering.readLen ▸ entering.room) (entering.readLen ▸ entering.unfilled)

theorem Entering.copied {buffer : CircularBuffer} {len index offset startByteOfs : Nat}
    {piece done : Bytes} {state : CopyState}
    (entering : Entering buffer len index offset startByteOfs piece done state) (count : Nat)
    (here : count ≤ piece.length - offset) (fits : done.length + count ≤ len) :
    Filled buffer len (state.copied index offset (piece.length - offset) count).accesses
        (done ++ (piece.drop offset).take count) ∧
      (state.copied index offset (piece.length - offset) count).readLen =
        (done ++ (piece.drop offset).take count).length := by
  have inside := entering.inside
  constructor
  · rw [CopyState.copied_accesses, entering.readLen]
    exact entering.filled.copy offset _ _ entering.found (Nat.mod_lt _ (by decide)) (by omega) fits
  · rw [CopyState.copied_readLen, entering.readLen, List.length_append, List.length_take,
      List.length_drop, Nat.min_eq_left here]

theorem Entering.fills {buffer : CircularBuffer} {len index offset startByteOfs : Nat}
    {piece done : Bytes} {state : CopyState}
    (entering : Entering buffer len index offset startByteOfs piece done state)
    (fills : len ≤ done.length + (piece.length - offset)) (fuel : Nat) :
    CopiesTo buffer len startByteOfs (fuel + 1) state
      (done ++ (piece.drop offset).take (len - done.length)) := by
  have unfilled := entering.unfilled
  have step := entering.step
  rw [entering.readLen, if_pos fills] at step
  obtain ⟨filled, read⟩ := entering.copied (len - done.length) (by omega) (by omega)
  have full : len ≤
      (state.copied index offset (piece.length - offset) (len - done.length)).readLen := by
    rw [CopyState.copied_readLen, entering.readLen]
    omega
  have stops : StopsAt (state.copied index offset (piece.length - offset) (len - done.length))
      (copyStep buffer len 0 startByteOfs state) := by
    rw [step]
    split
    · exact advanceEntry_of_filled full
    · exact ⟨_, rfl, rfl, rfl⟩
  obtain ⟨final, ended, accesses, count⟩ := copyFrom_of_stop stops fuel
  exact ⟨final, ended, accesses ▸ filled, count.trans read⟩

theorem Entering.drains {buffer : CircularBuffer} {len index offset startByteOfs : Nat}
    {piece done : Bytes} {state : CopyState}
    (entering : Entering buffer len index offset startByteOfs piece done state)
    (drains : done.length + (piece.length - offset) < len) :
    ∃ copied : CopyState, copyStep buffer len 0 startByteOfs state =
        advanceEntry buffer len copied ∧
      copied.startp = index ∧ Filled buffer len copied.accesses (done ++ piece.drop offset) ∧
      copied.readLen = (done ++ piece.drop offset).length := by
  have step := entering.step
  rw [entering.readLen, if_neg (not_le.mpr drains)] at step
  obtain ⟨filled, read⟩ := entering.copied _ (Nat.le_refl _) (Nat.le_of_lt drains)
  have whole : (piece.drop offset).take (piece.length - offset) = piece.drop offset :=
    List.take_of_length_le (by rw [List.length_drop])
  rw [whole] at filled read
  exact ⟨_, step, entering.here.startp, filled, read⟩

/-- What the loop has copied when it ends: the pieces from `offset` on, cut to the room that
was left. The induction is on the pieces that are left. -/
theorem copyFrom_eq {buffer : CircularBuffer} {len startByteOfs : Nat} (lenBound : len < 2 ^ 64) :
    ∀ (pieces : List Bytes) (fuel index offset : Nat) (state : CopyState) (done : Bytes),
      (present : pieces ≠ []) → Cursor buffer index pieces → pieces.length ≤ fuel →
      AtPiece index offset startByteOfs state → offset ≤ (pieces.head present).length →
      Filled buffer len state.accesses done → state.readLen = done.length → done.length < len →
      done.length + pieces.flatten.length < 2 ^ 63 →
      CopiesTo buffer len startByteOfs fuel state
        (done ++ (pieces.flatten.drop offset).take (len - done.length)) := by
  intro pieces
  induction pieces with
  | nil => intro _ _ _ _ _ present; exact absurd rfl present
  | cons piece pieces ih =>
      intro fuel index offset state done _ cursor enough here inside filled readLen unfilled room
      obtain ⟨fuel, rfl⟩ : ∃ rest, fuel = rest + 1 :=
        ⟨fuel - 1, by simp only [List.length_cons] at enough; omega⟩
      have bound := cursor.bound
      have last := cursor.last
      simp only [List.length_cons, List.flatten_cons, List.length_append, List.head_cons]
        at bound last room inside enough
      have entering : Entering buffer len index offset startByteOfs piece done state :=
        ⟨here, cursor.head, cursor.small piece (by simp), inside, filled, readLen, unfilled,
          lenBound, by omega⟩
      have size : (piece.drop offset).length = piece.length - offset := List.length_drop
      rw [List.flatten_cons, List.drop_append_of_le_length inside]
      by_cases fills : len ≤ done.length + (piece.length - offset)
      · rw [List.take_append_of_le_length (by omega)]
        exact entering.fills fills fuel
      · obtain ⟨copied, step, startp, drained, read⟩ := entering.drains (not_le.mp fills)
        have whole : (piece.drop offset ++ pieces.flatten).take (len - done.length) =
            piece.drop offset ++
              pieces.flatten.take (len - (done ++ piece.drop offset).length) := by
          rw [List.take_append, List.take_of_length_le (by omega), List.length_append, size,
            Nat.sub_sub]
        rw [whole, ← List.append_assoc]
        by_cases ended : pieces = []
        · subst pieces
          simp only [List.length_nil] at last
          have stops : StopsAt copied (copyStep buffer len 0 startByteOfs state) := by
            rw [step]
            exact advanceEntry_of_last startp (by omega)
          obtain ⟨final, ended, accesses, count⟩ := copyFrom_of_stop stops fuel
          rw [List.flatten_nil, List.take_nil, List.append_nil]
          exact ⟨final, ended, accesses ▸ drained, count.trans read⟩
        · have more : 0 < pieces.length := List.length_pos_iff.mpr ended
          obtain ⟨next, continues, moved, notFirst, count, accesses⟩ :=
            advanceEntry_of_more buffer len copied startp (by omega) (by omega)
              (by rw [read, List.length_append, size]; omega)
          have start : AtPiece (index + 1) 0 startByteOfs next :=
            ⟨moved, by simp [ofsInEntry, notFirst]⟩
          have rest := ih fuel (index + 1) 0 next (done ++ piece.drop offset) ended cursor.tail
            (by omega) start (Nat.zero_le _) (accesses ▸ drained) (count.trans read)
            (by rw [List.length_append, size]; omega) (by rw [List.length_append, size]; omega)
          rw [List.drop_zero] at rest
          rw [CopiesTo, copyFrom, step, continues]
          exact rest

/-! What an iteration adds stays to the end of the read. -/

theorem advanceEntry_accesses (buffer : CircularBuffer) (len : Nat) (state : CopyState) :
    (advanceEntry buffer len state).state.accesses = state.accesses := by
  obtain ⟨full, moved⟩ := advanceEntry_state buffer len state
  rw [moved, CopyState.movedOn]

theorem advanceEntry_readLen (buffer : CircularBuffer) (len : Nat) (state : CopyState) :
    (advanceEntry buffer len state).state.readLen = state.readLen := by
  obtain ⟨full, moved⟩ := advanceEntry_state buffer len state
  rw [moved, CopyState.movedOn]

/-- An iteration adds accesses, and does not take more than `len` bytes. -/
theorem copyStep_adds (buffer : CircularBuffer) {len : Nat} (copyStart startByteOfs : Nat)
    {state : CopyState} (lenBound : len < 2 ^ 64) (within : state.readLen ≤ len) :
    state.accesses <+: (copyStep buffer len copyStart startByteOfs state).state.accesses ∧
      (copyStep buffer len copyStart startByteOfs state).state.readLen ≤ len := by
  obtain ⟨made, count, looked, stops | advances⟩ :=
    copyStep_cases buffer copyStart startByteOfs lenBound (Nat.lt_of_le_of_lt within lenBound)
  · rw [stops]
    exact ⟨List.prefix_append _ _, looked.within within⟩
  · rw [advances, advanceEntry_accesses, advanceEntry_readLen]
    exact ⟨List.prefix_append _ _, looked.within within⟩

theorem copyFrom_preserves {buffer : CircularBuffer} {len copyStart startByteOfs : Nat}
    (holds : CopyState → Prop)
    (step : ∀ state, holds state → holds (copyStep buffer len copyStart startByteOfs state).state) :
    ∀ (fuel : Nat) (state final : CopyState),
      copyFrom buffer len copyStart startByteOfs fuel state = some final → holds state →
      holds final := by
  intro fuel
  induction fuel with
  | zero => intro _ _ impossible; cases impossible
  | succ fuel ih =>
      intro state final ended start
      have next := step state start
      rw [copyFrom] at ended
      split at ended
      next last stopped =>
        cases ended
        rwa [stopped] at next
      next after continues =>
        rw [continues] at next
        exact ih after final ended next

theorem copyFrom_readLen {buffer : CircularBuffer} {len copyStart startByteOfs : Nat}
    (lenBound : len < 2 ^ 64) (fuel : Nat) (state final : CopyState)
    (ended : copyFrom buffer len copyStart startByteOfs fuel state = some final)
    (within : state.readLen ≤ len) : final.readLen ≤ len :=
  copyFrom_preserves (·.readLen ≤ len)
    (fun _ within => (copyStep_adds buffer copyStart startByteOfs lenBound within).2) fuel state
    final ended within

theorem copyFrom_accesses {buffer : CircularBuffer} {len copyStart startByteOfs : Nat}
    (lenBound : len < 2 ^ 64) (fuel : Nat) (state final : CopyState)
    (ended : copyFrom buffer len copyStart startByteOfs fuel state = some final)
    (within : state.readLen ≤ len) :
    (copyStep buffer len copyStart startByteOfs state).state.accesses <+: final.accesses := by
  cases fuel with
  | zero => cases ended
  | succ fuel =>
      have first := (copyStep_adds buffer copyStart startByteOfs lenBound within).2
      rw [copyFrom] at ended
      split at ended
      next last stopped =>
        cases ended
        rw [stopped]
        exact List.prefix_rfl
      next next continues =>
        rw [continues] at first ⊢
        have both := copyFrom_preserves
          (fun later => next.accesses <+: later.accesses ∧ later.readLen ≤ len) ?_ fuel next final ended ⟨List.prefix_rfl, first⟩
        · exact both.1
        · rintro later ⟨kept, within⟩
          obtain ⟨more, bounded⟩ := copyStep_adds buffer copyStart startByteOfs lenBound within
          exact ⟨kept.trans more, bounded⟩

theorem copyStep_past_end {buffer : CircularBuffer} {len index offset startByteOfs : Nat}
    {piece : Bytes} {state : CopyState} (here : AtPiece index offset startByteOfs state)
    (found : buffer.entry[index % 10]? = some ⟨.block piece, piece.length⟩)
    (past : piece.length < offset) (small : offset < 2 ^ 31) :
    ∃ remainInEntry copyLen destination,
      .memcpy (index % 10) offset remainInEntry copyLen destination ∈
        (copyStep buffer len 0 startByteOfs state).state.accesses := by
  have remain : toInt ((piece.length : Int) - offset) = (piece.length : Int) - offset :=
    toInt_natCast_sub (by omega) small
  refine ⟨(piece.length : Int) - offset,
    copyLength len state.readLen ((piece.length : Int) - offset), 0 + state.readLen, ?_⟩
  simp only [copyStep, here.startp, toUnsigned_tmod_ten, found, here.offset, remain, reduceCtorEq,
    if_false]
  split
  · rw [advanceEntry_accesses]
    simp
  · split <;> simp [Flow.state]

end Aesd

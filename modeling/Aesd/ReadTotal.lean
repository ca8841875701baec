import Aesd.History

/-!
Both loops of a read end, whatever the buffer holds, and a read changes nothing but
`out_offs` and `full`. Runs of the buffer and of the driver therefore follow the history
of the chunks that were written.
-/

namespace Aesd

open MachineInt

theorem findIndexFrom_below (buffer : CircularBuffer) (charOffset : Nat) :
    ∀ (fuel : Nat) (i totalLen : Int) (accesses : List Access),
      toUnsigned 32 i < buffer.wAbs.toNat → buffer.wAbs.toNat ≤ toUnsigned 32 i + fuel →
      (findIndexFrom buffer charOffset fuel i totalLen accesses).isSome := by
  intro fuel
  induction fuel with
  | zero => intro i _ _ below enough; omega
  | succ fuel ih =>
      intro i totalLen accesses below enough
      have width := buffer.wAbs.toNat_lt
      have next : toUnsigned 32 (toInt (i + 1)) = toUnsigned 32 i + 1 := by
        rw [toUnsigned_toInt, toUnsigned_add_one]
        omega
      rw [findIndexFrom]
      split
      · rfl
      · dsimp only
        split
        · rfl
        · split
          · rfl
          · exact ih _ _ _ (by omega) (by omega)

theorem findIndex_isSome (buffer : CircularBuffer) (charOffset : Nat) :
    (aesdCircularBufferFindEntryOffsetAndIndexForFpos buffer charOffset).isSome := by
  have width := buffer.wAbs.toNat_lt
  have steps : indexSteps = (2 ^ 32 - 1) + 1 := rfl
  rw [aesdCircularBufferFindEntryOffsetAndIndexForFpos, steps, findIndexFrom]
  split
  · rfl
  · dsimp only
    split
    · rfl
    · split
      · rfl
      · exact findIndexFrom_below _ _ _ _ _ _ (by omega) (by omega)

structure Copying (buffer : CircularBuffer) (len : Nat) (state : CopyState) : Prop where
  index : toUnsigned 32 state.startp ≠ buffer.wAbs.toNat
  read : state.readLen < 2 ^ 64
  len : len < 2 ^ 64

def distance (buffer : CircularBuffer) (state : CopyState) : Nat :=
  (buffer.wAbs.toNat + 2 ^ 32 - toUnsigned 32 state.startp) % 2 ^ 32

def Flow.state {σ : Type} : Flow σ → σ
  | .next state => state
  | .stop state => state

def nextOutOffs (outOffs : UInt8) : UInt8 := if outOffs + 1 ≥ 10 then 0 else outOffs + 1

def CopyState.movedOn (state : CopyState) (full : Bool) : CopyState :=
  { state with
    outOffs := nextOutOffs state.outOffs
    startp := toInt (state.startp + 1)
    isFirstEntry := false
    full }

theorem CopyState.movedOn_startp {state : CopyState} {index : Nat} (startp : state.startp = index)
    (small : index + 1 < 2 ^ 31) (full : Bool) :
    (state.movedOn full).startp = (index + 1 : Nat) := by
  change toInt (state.startp + 1) = _
  rw [startp, ← Nat.cast_succ, toInt_natCast small]

/-- What leaving an entry does: unless the index meets `w_abs` the buffer is not full any more. -/
theorem advanceEntry_eq (buffer : CircularBuffer) (len : Nat) (state : CopyState) :
    advanceEntry buffer len state =
      if toUnsigned 32 (toInt (state.startp + 1)) = buffer.wAbs.toNat then
        .stop (state.movedOn state.full)
      else if len ≤ state.readLen then .stop (state.movedOn false)
      else .next (state.movedOn false) := rfl

theorem advanceEntry_state (buffer : CircularBuffer) (len : Nat) (state : CopyState) :
    ∃ full, (advanceEntry buffer len state).state = state.movedOn full := by
  rw [advanceEntry_eq]
  split
  · exact ⟨state.full, rfl⟩
  · split <;> exact ⟨false, rfl⟩

theorem copyLength_fills {len readLen : Nat} {remainInEntry : Int} (lenBound : len < 2 ^ 64)
    (readBound : readLen < 2 ^ 64)
    (short : ¬ toUnsigned 64 remainInEntry ≤ copyLength len readLen remainInEntry) :
    toUnsigned 64 ((readLen : Int) + copyLength len readLen remainInEntry) = len := by
  unfold copyLength at short ⊢
  split at short
  next clipped =>
    rw [if_pos clipped]
    unfold toUnsigned
    omega
  next => exact absurd (Nat.le_refl _) short

theorem copyLength_le {len readLen : Nat} (lenBound : len < 2 ^ 64) (within : readLen ≤ len)
    (remainInEntry : Int) :
    toUnsigned 64 ((readLen : Int) + copyLength len readLen remainInEntry) ≤ len := by
  unfold copyLength
  split
  next clipped =>
    have left : toUnsigned 64 ((len : Int) - readLen) = len - readLen := by
      rw [← Nat.cast_sub within, toUnsigned_natCast (by omega)]
    rw [left, ← Nat.cast_add, toUnsigned_natCast (by omega)]
    omega
  next short =>
    have wrapped : toUnsigned 64 ((readLen : Int) + (toUnsigned 64 remainInEntry : Nat)) =
        toUnsigned 64 (readLen + remainInEntry) := by
      unfold toUnsigned
      omega
    omega

def slotsRead (accesses : List Access) : List Nat :=
  accesses.filterMap fun
    | .slot index => some index
    | _ => none

def CopyState.recorded (state : CopyState) (made : List Access) (readLen : Nat) : CopyState :=
  { state with accesses := state.accesses ++ made, readLen }

/-- What looking at an entry does: one slot is read, and at most `len` bytes are taken. -/
structure Looked (len : Nat) (state : CopyState) (made : List Access) (count : Nat) : Prop where
  slot : slotsRead made = [toUnsigned 8 (state.startp.tmod 10)]
  set : .unset ∉ made
  small : count < 2 ^ 64
  within : state.readLen ≤ len → count ≤ len

theorem copyStep_cases (buffer : CircularBuffer) {len : Nat} (copyStart startByteOfs : Nat)
    {state : CopyState} (lenBound : len < 2 ^ 64) (readBound : state.readLen < 2 ^ 64) :
    ∃ made count, Looked len state made count ∧
      (copyStep buffer len copyStart startByteOfs state = .stop (state.recorded made count) ∨
        copyStep buffer len copyStart startByteOfs state =
          advanceEntry buffer len (state.recorded made count)) := by
  have unread (made : List Access) (slot : slotsRead made = [toUnsigned 8 (state.startp.tmod 10)])
      (set : .unset ∉ made) : Looked len state made state.readLen := ⟨slot, set, readBound, id⟩
  rw [copyStep]
  dsimp only
  split
  · exact ⟨[.slot _], state.readLen, unread _ rfl (by simp), Or.inl rfl⟩
  next nextEntry _ =>
    split
    · exact ⟨[.slot _], state.readLen, unread _ rfl (by simp), Or.inl rfl⟩
    · let remain := toInt (nextEntry.size - ofsInEntry startByteOfs state)
      let copyLen := copyLength len state.readLen remain
      let ri := toUnsigned 8 (state.startp.tmod 10)
      refine ⟨[.slot ri, .memcpy ri (ofsInEntry startByteOfs state) remain copyLen
        (copyStart + state.readLen)], toUnsigned 64 (state.readLen + copyLen),
        ⟨rfl, by simp, toUnsigned_lt _ _, fun within => copyLength_le lenBound within _⟩, ?_⟩
      rw [List.append_assoc]
      split
      · exact Or.inr rfl
      next short =>
        rw [if_pos (Nat.le_of_eq (copyLength_fills lenBound readBound short).symm)]
        exact Or.inl rfl

theorem advanceEntry_next {buffer : CircularBuffer} {len : Nat} {state next : CopyState}
    (copying : Copying buffer len state) (continues : advanceEntry buffer len state = .next next) :
    Copying buffer len next ∧ distance buffer next + 1 = distance buffer state := by
  have width := buffer.wAbs.toNat_lt
  have start := toUnsigned_lt 32 state.startp
  have index := copying.index
  have onward := toUnsigned_add_one state.startp
  rw [advanceEntry_eq] at continues
  split at continues
  · cases continues
  next below =>
    split at continues
    · cases continues
    · cases continues
      refine ⟨⟨below, copying.read, copying.len⟩, ?_⟩
      simp only [distance, CopyState.movedOn]
      rw [toUnsigned_toInt] at below ⊢
      omega

theorem copyStep_next {buffer : CircularBuffer} {len copyStart startByteOfs : Nat}
    {state next : CopyState} (copying : Copying buffer len state)
    (continues : copyStep buffer len copyStart startByteOfs state = .next next) :
    Copying buffer len next ∧ distance buffer next + 1 = distance buffer state := by
  obtain ⟨made, count, looked, stops | advances⟩ :=
    copyStep_cases buffer copyStart startByteOfs copying.len copying.read
  · rw [stops] at continues
    cases continues
  · rw [advances] at continues
    have here : Copying buffer len (state.recorded made count) :=
      ⟨copying.index, looked.small, copying.len⟩
    obtain ⟨still, closer⟩ := advanceEntry_next here continues
    exact ⟨still, closer⟩

theorem copyFrom_isSome {buffer : CircularBuffer} {len copyStart startByteOfs : Nat} :
    ∀ (fuel : Nat) (state : CopyState), Copying buffer len state →
      distance buffer state < fuel → (copyFrom buffer len copyStart startByteOfs fuel state).isSome := by
  intro fuel
  induction fuel with
  | zero => intro _ _ impossible; omega
  | succ fuel ih =>
      intro state copying enough
      rw [copyFrom]
      split
      · rfl
      next next continues =>
        obtain ⟨still, closer⟩ := copyStep_next copying continues
        exact ih next still (by omega)

theorem copyFrom_indexSteps {buffer : CircularBuffer} {len : Nat} {state : CopyState}
    (copying : Copying buffer len state) (copyStart startByteOfs : Nat) :
    ∃ final, copyFrom buffer len copyStart startByteOfs indexSteps state = some final :=
  Option.isSome_iff_exists.mp (copyFrom_isSome _ _ copying (Nat.mod_lt _ (by decide)))

theorem raed_isSome (buffer : CircularBuffer) (resultBuf : Bytes) (len : UInt64) (fPos : Int) :
    (aesdCircularBufferRaed buffer resultBuf len fPos).isSome := by
  rw [aesdCircularBufferRaed]
  split
  · rfl
  · obtain ⟨found, lookup⟩ := Option.isSome_iff_exists.mp (findIndex_isSome buffer
      (toUnsigned 64 (fPos - buffer.startCharAbs.toNat)))
    rw [lookup]
    simp only [Option.bind_eq_bind, Option.bind_some]
    split
    · rfl
    · split
      · rfl
      next unread =>
        split
        · rfl
        next startByteOfs _ =>
          let located := { buffer with outOffs := UInt8.ofNat (toUnsigned 8 found.index) }
          have copying : Copying located len.toNat ⟨found.index, 0, true, located.outOffs,
              located.full, found.accesses ++ [.strlen (strlen resultBuf)]⟩ :=
            ⟨unread, by simp, len.toNat_lt⟩
          obtain ⟨final, copied⟩ := copyFrom_indexSteps copying (strlen resultBuf)
            startByteOfs
          rw [copied]
          rfl

theorem raed_ends (buffer : CircularBuffer) (resultBuf : Bytes) (len : UInt64) (fPos : Int) :
    ∃ read, aesdCircularBufferRaed buffer resultBuf len fPos = some read :=
  Option.isSome_iff_exists.mp (raed_isSome buffer resultBuf len fPos)

theorem raed_buffer {buffer : CircularBuffer} {resultBuf : Bytes} {len : UInt64} {fPos : Int}
    {read : Raed} (called : aesdCircularBufferRaed buffer resultBuf len fPos = some read) :
    read.buffer = { buffer with outOffs := read.buffer.outOffs, full := read.buffer.full } := by
  rw [aesdCircularBufferRaed] at called
  split at called
  · cases called
    rfl
  · obtain ⟨found, -, called⟩ := Option.bind_eq_some_iff.mp called
    dsimp only at called
    split at called
    · cases called
      rfl
    · split at called
      · cases called
        rfl
      · split at called
        · cases called
          rfl
        · obtain ⟨final, -, called⟩ := Option.bind_eq_some_iff.mp called
          cases called
          rfl

theorem Follows.read {state : BufferState} {chunks : List Bytes} (follows : Follows state chunks)
    {resultBuf : Bytes} {len : UInt64} {fPos : Int} {read : Raed}
    (called : aesdCircularBufferRaed state.buffer resultBuf len fPos = some read) :
    Follows { state with buffer := read.buffer } chunks := by
  rw [raed_buffer called]
  exact { follows with }

/-! Runs of the circular buffer. -/

theorem Follows.step {state : BufferState} {chunks : List Bytes} (follows : Follows state chunks)
    {call : BufferCall} (nonempty : call ≠ .add []) :
    ∃ next, state.step call = .ok next ∧ Follows next (chunks ++ addedChunks [call]) := by
  cases call with
  | add chunk =>
      have written : chunk ≠ [] := fun empty => nonempty (by rw [empty])
      exact follows.add written
  | read resultBuf len fPos =>
      obtain ⟨read, called⟩ := raed_ends state.buffer resultBuf len fPos
      refine ⟨{ state with buffer := read.buffer }, by rw [BufferState.step, called], ?_⟩
      simpa [addedChunks] using follows.read called

theorem runBuffer_concat (calls : List BufferCall) (call : BufferCall) :
    runBuffer (calls ++ [call]) = runBuffer calls >>= fun state => state.step call := by
  simp only [runBuffer, List.foldlM_append, List.foldlM_cons, List.foldlM_nil, bind_assoc,
    bind_pure]

theorem runBuffer_follows {calls : List BufferCall} (nonempty : BufferCall.add [] ∉ calls) :
    ∃ state, runBuffer calls = .ok state ∧ Follows state (addedChunks calls) := by
  induction calls using List.reverseRecOn with
  | nil => exact ⟨_, rfl, represents_boot⟩
  | append_singleton calls call ih =>
      simp only [List.mem_append, List.mem_singleton, not_or] at nonempty
      obtain ⟨state, ran, follows⟩ := ih nonempty.1
      obtain ⟨next, stepped, followed⟩ := follows.step (Ne.symm nonempty.2)
      refine ⟨next, ?_, by simpa [addedChunks] using followed⟩
      rw [runBuffer_concat, ran, ok_bind, stepped]

end Aesd

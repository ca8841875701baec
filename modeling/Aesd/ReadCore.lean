import Aesd.BufferCore
import Aesd.MachineInt

/-!
The read side of `aesd-circular-buffer.c`. Which bytes a read touches depends on
sizes and counters only, so a read is modelled in two parts: the accesses it makes,
in order, and the result buffer these accesses leave when all of them are in bounds.
-/

namespace Aesd

open MachineInt

inductive Access where
  /-- `buffer->entry[index]` -/
  | slot (index : Nat)
  /-- `strlen(result_buf)`, which reads up to and including byte `last` -/
  | strlen (last : Nat)
  /-- `memcpy(result_buf + destination, entry[ri].buffptr + ofsInEntry, copyLen)` -/
  | memcpy (ri : Nat) (ofsInEntry remainInEntry : Int) (copyLen destination : Nat)
  /-- a use of `start_byte_ofs` before the lookup has written it -/
  | unset
  deriving DecidableEq, Repr

/-- The bytes `[ofsInEntry, ofsInEntry + copyLen)` exist in the block of slot `ri`. -/
def CircularBuffer.holdsRange (buffer : CircularBuffer) (ri : Nat) (ofsInEntry : Int)
    (copyLen : Nat) : Bool :=
  match buffer.entry[ri]? with
  | some ⟨.block bytes, size⟩ =>
      decide (0 ≤ ofsInEntry ∧ ofsInEntry + copyLen ≤ size ∧ ofsInEntry + copyLen ≤ bytes.length)
  | _ => false

/-- The access stays inside the ten slots, the entry it copies from and the result
buffer of `len` bytes. -/
def Access.inBounds (buffer : CircularBuffer) (len : Nat) : Access → Bool
  | .slot index => decide (index < 10)
  | .strlen last => decide (last < len)
  | .memcpy ri ofsInEntry _ copyLen destination =>
      buffer.holdsRange ri ofsInEntry copyLen && decide (destination + copyLen ≤ len)
  | .unset => false

def Access.remains : Access → Bool
  | .memcpy _ _ remainInEntry _ _ => decide (0 ≤ remainInEntry)
  | _ => true

def Access.apply (buffer : CircularBuffer) (resultBuf : Bytes) : Access → Bytes
  | .memcpy ri ofsInEntry _ copyLen destination =>
      match buffer.entry[ri]? with
      | some ⟨.block bytes, _⟩ =>
          overwrite resultBuf destination ((bytes.drop ofsInEntry.toNat).take copyLen)
      | _ => resultBuf
  | _ => resultBuf

/-! `aesd_circular_buffer_find_entry_offset_and_index_for_fpos`. -/

structure Found where
  index : Int
  /-- `*entry_offset_byte_rtn`, which is written only when an entry is found -/
  entryOffsetByte : Option Nat
  accesses : List Access
  deriving DecidableEq, Repr

/-- The `while(1)` loop; `none` when `fuel` iterations do not end it. -/
def findIndexFrom (buffer : CircularBuffer) (charOffset : Nat) :
    Nat → Int → Int → List Access → Option Found
  | 0, _, _, _ => none
  | fuel + 1, i, totalLen, accesses =>
      let slot := toUnsigned 32 (i - buffer.startAbs.toNat)
      let accesses := accesses ++ [.slot slot]
      match buffer.entry[slot]? with
      | none => some ⟨i, none, accesses⟩
      | some entry =>
          let nextLen := entry.size
          if charOffset < toUnsigned 64 (totalLen + nextLen) ∨ nextLen = 0 then
            some ⟨i, some (toUnsigned 64 (charOffset - totalLen)), accesses⟩
          else
            let next := toInt (i + 1)
            if buffer.wAbs.toNat ≤ toUnsigned 32 next then some ⟨next, none, accesses⟩
            else findIndexFrom buffer charOffset fuel next (toInt (totalLen + nextLen)) accesses

/-- A 32-bit index that moves up by one meets any bound within this many steps. -/
def indexSteps : Nat := 2 ^ 32

def aesdCircularBufferFindEntryOffsetAndIndexForFpos (buffer : CircularBuffer)
    (charOffset : Nat) : Option Found :=
  findIndexFrom buffer charOffset indexSteps (toInt buffer.startAbs.toNat) 0 []

/-! `aesd_circular_buffer_find_entry_offset_for_fpos`, which the driver does not call. -/

/-- The slots that its loops visit, in order; `total_len` goes on from the first loop to the
second. -/
def lookupIndices (buffer : CircularBuffer) : List Nat :=
  if buffer.inOffs ≤ buffer.outOffs then
    List.range' buffer.outOffs.toNat (10 - buffer.outOffs.toNat) ++
      List.range' 0 buffer.inOffs.toNat
  else List.range' buffer.outOffs.toNat (buffer.inOffs.toNat - buffer.outOffs.toNat)

/-- The slot that is returned and `*entry_offset_byte_rtn`, or `none` for NULL, which leaves
the latter alone. -/
def findEntryFrom (buffer : CircularBuffer) (charOffset : Nat) :
    List Nat → Int → Except Fault (Option (Nat × Nat))
  | [], _ => .ok none
  | i :: indices, totalLen =>
      match buffer.entry[i]? with
      | none => .error .outOfBounds
      | some entry =>
          if charOffset < toUnsigned 64 (totalLen + entry.size) then
            .ok (some (i, toUnsigned 64 (charOffset - totalLen)))
          else findEntryFrom buffer charOffset indices (toInt (totalLen + entry.size))

def aesdCircularBufferFindEntryOffsetForFpos (buffer : CircularBuffer) (charOffset : UInt64) :
    Except Fault (Option (Nat × Nat)) :=
  findEntryFrom buffer charOffset.toNat (lookupIndices buffer) 0

/-! `aesd_circular_buffer_raed`. -/

structure CopyState where
  startp : Int
  readLen : Nat
  isFirstEntry : Bool
  outOffs : UInt8
  full : Bool
  accesses : List Access
  deriving DecidableEq, Repr

inductive Flow (σ : Type) where
  | next (state : σ)
  | stop (state : σ)
  deriving DecidableEq, Repr

def ofsInEntry (startByteOfs : Nat) (state : CopyState) : Int :=
  if state.isFirstEntry then toInt startByteOfs else 0

/-- `copy_len`. A negative `remain_in_entry` is converted to a large `size_t` here. -/
def copyLength (len readLen : Nat) (remainInEntry : Int) : Nat :=
  if len ≤ toUnsigned 64 (readLen + remainInEntry) then toUnsigned 64 ((len : Int) - readLen)
  else toUnsigned 64 remainInEntry

def advanceEntry (buffer : CircularBuffer) (len : Nat) (state : CopyState) : Flow CopyState :=
  let outOffs := state.outOffs + 1
  let state :=
    { state with
      outOffs := if outOffs ≥ 10 then 0 else outOffs
      startp := toInt (state.startp + 1)
      isFirstEntry := false }
  if toUnsigned 32 state.startp = buffer.wAbs.toNat then .stop state
  else
    let state := { state with full := false }
    if len ≤ state.readLen then .stop state else .next state

def copyStep (buffer : CircularBuffer) (len copyStart startByteOfs : Nat) (state : CopyState) :
    Flow CopyState :=
  let ri := toUnsigned 8 (state.startp.tmod 10)
  let accesses := state.accesses ++ [.slot ri]
  match buffer.entry[ri]? with
  | none => .stop { state with accesses }
  | some nextEntry =>
      let offset := ofsInEntry startByteOfs state
      let remainInEntry := toInt (nextEntry.size - offset)
      if nextEntry.buffptr = .null then .stop { state with accesses }
      else
        let copyLen := copyLength len state.readLen remainInEntry
        let copy := Access.memcpy ri offset remainInEntry copyLen (copyStart + state.readLen)
        let state :=
          { state with
            accesses := accesses ++ [copy]
            readLen := toUnsigned 64 ((state.readLen : Int) + copyLen) }
        if toUnsigned 64 remainInEntry ≤ copyLen then advanceEntry buffer len state
        else if len ≤ state.readLen then .stop state else .next state

def copyFrom (buffer : CircularBuffer) (len copyStart startByteOfs : Nat) :
    Nat → CopyState → Option CopyState
  | 0, _ => none
  | fuel + 1, state =>
      match copyStep buffer len copyStart startByteOfs state with
      | .stop state => some state
      | .next state => copyFrom buffer len copyStart startByteOfs fuel state

structure Raed where
  ret : Nat
  fPos : Int
  buffer : CircularBuffer
  accesses : List Access
  deriving DecidableEq, Repr

def strlen (bytes : Bytes) : Nat := (bytes.takeWhile (· ≠ 0)).length

/-- `aesd_circular_buffer_raed`; `none` when one of its loops does not end. -/
def aesdCircularBufferRaed (buffer : CircularBuffer) (resultBuf : Bytes) (len : UInt64)
    (fPos : Int) : Option Raed :=
  if fPos < buffer.startCharAbs.toNat ∨ (buffer.wCharAbs.toNat : Int) < fPos then
    some ⟨toUnsigned 64 (-1), fPos, buffer, []⟩
  else do
    let found ← aesdCircularBufferFindEntryOffsetAndIndexForFpos buffer
      (toUnsigned 64 (fPos - buffer.startCharAbs.toNat))
    let startp := found.index
    if startp < 0 then return ⟨0, fPos, buffer, found.accesses⟩
    let buffer := { buffer with outOffs := UInt8.ofNat (toUnsigned 8 startp) }
    if toUnsigned 32 startp = buffer.wAbs.toNat then return ⟨0, fPos, buffer, found.accesses⟩
    let copyStart := strlen resultBuf
    let accesses := found.accesses ++ [.strlen copyStart]
    match found.entryOffsetByte with
    | none => return ⟨0, fPos, buffer, accesses ++ [.unset]⟩
    | some startByteOfs =>
        let final ← copyFrom buffer len.toNat copyStart startByteOfs indexSteps
          ⟨startp, 0, true, buffer.outOffs, buffer.full, accesses⟩
        return ⟨final.readLen, toLong (fPos + final.readLen),
          { buffer with outOffs := final.outOffs, full := final.full }, final.accesses⟩

/-- The result buffer a read leaves, when every access of the read is in bounds. -/
def Raed.result (read : Raed) (buffer : CircularBuffer) (resultBuf : Bytes) : Option Bytes :=
  if read.accesses.all (Access.inBounds buffer resultBuf.length) then
    some (read.accesses.foldl (Access.apply buffer) resultBuf)
  else none

/-! `aesd_circular_buffer_get_bytes_to_ofs`. -/

/-- The summing loop, from slot `i` on; it reads past the slots when `elemInd` exceeds ten. -/
def sumSizesFrom (buffer : CircularBuffer) : Nat → Nat → UInt32 → Except Fault UInt32
  | 0, _, byteLen => .ok byteLen
  | remaining + 1, i, byteLen =>
      match buffer.entry[i]? with
      | none => .error .outOfBounds
      | some entry => sumSizesFrom buffer remaining (i + 1) (byteLen + UInt32.ofNat entry.size)

def aesdCircularBufferGetBytesToOfs (buffer : CircularBuffer) (elemInd ofsInElem : UInt32) :
    Except Fault UInt32 := do
  let byteLen ← sumSizesFrom buffer elemInd.toNat 0 0
  return byteLen + ofsInElem

end Aesd

import Aesd.HeapCore
import Aesd.WriteChecks

/-!
The driver over addresses against the driver whose pointers own what they point to. Which
cells the memory splits into says which blocks are owned, and by whom; an operation that the
owning driver completes is completed over addresses, wherever the blocks are put.
-/

namespace Aesd

open MachineInt Records Cells

/-! Accesses to a memory that splits into cells. -/

section

variable {memory : Memory} {cells : List (Cell UInt8)} {address : Nat} {bytes values : Bytes}

theorem Memory.kmalloc_splits (splits : Splits memory cells) (allocator : Allocator UInt8)
    (size : Nat) :
    ∃ address filling next, memory.kmalloc allocator true size = (some address, next) ∧
      filling.length = size ∧ Splits next (⟨address, filling⟩ :: cells) :=
  ⟨_, _, _, rfl, allocator.sized memory size, splits.allocate allocator size⟩

theorem Memory.kfree_splits (splits : Splits memory (⟨address, bytes⟩ :: cells)) :
    ∃ next, memory.kfree (some address) = .ok next ∧ Splits next cells := by
  have live : address ∈ memory := AList.lookup_isSome.mp (by rw [splits.lookup]; rfl)
  exact ⟨_, if_pos live, splits.erase⟩

theorem Memory.load_splits (splits : Splits memory cells) (member : ⟨address, bytes⟩ ∈ cells)
    {offset count : Nat} (fits : offset + count ≤ bytes.length) :
    memory.load (some address) offset count = .ok ((bytes.drop offset).take count) := by
  rw [Memory.load, splits.lookup_of_mem member]
  dsimp only
  rw [if_pos fits]
  split
  next zero => rw [zero, List.take_zero]
  next => rfl

theorem Memory.loadLast_splits (splits : Splits memory cells) (member : ⟨address, bytes⟩ ∈ cells)
    (nonempty : bytes ≠ []) :
    memory.loadLast (some address) bytes.length = .ok (bytes.getLast nonempty) := by
  have positive : 0 < bytes.length := List.length_pos_iff.mpr nonempty
  have loaded := Memory.load_splits splits member
    (show bytes.length - 1 + 1 ≤ bytes.length by omega)
  rw [Memory.loadLast, if_neg (by omega), loaded, List.getLast_eq_getElem,
    List.drop_eq_getElem_cons (by omega)]
  rfl

theorem Memory.store_splits (splits : Splits memory (⟨address, bytes⟩ :: cells)) {offset : Nat}
    (fits : offset + values.length ≤ bytes.length) :
    ∃ next, memory.store (some address) offset values = .ok next ∧
      Splits next (⟨address, overwrite bytes offset values⟩ :: cells) := by
  rw [Memory.store, splits.lookup]
  dsimp only
  rw [if_pos fits]
  split
  next zero =>
    have same : overwrite bytes offset values = bytes := by
      simp [overwrite, List.length_eq_zero_iff.mp zero]
    exact ⟨memory, rfl, by rw [same]; exact splits⟩
  next => exact ⟨_, rfl, splits.replace _⟩

theorem overwrite_all (bytes values : Bytes) (same : values.length = bytes.length) :
    overwrite bytes 0 values = values := by
  simp [overwrite, same]

theorem Memory.fill_splits (splits : Splits memory (⟨address, bytes⟩ :: cells)) (values : Bytes)
    (same : values.length = bytes.length) :
    ∃ next, memory.store (some address) 0 values = .ok next ∧
      Splits next (⟨address, values⟩ :: cells) := by
  obtain ⟨next, stored, after⟩ := Memory.store_splits splits
    (show 0 + values.length ≤ bytes.length by omega)
  rw [overwrite_all bytes values same] at after
  exact ⟨next, stored, after⟩

theorem Memory.memcpy_splits {source : Nat} {content : Bytes}
    (splits : Splits memory (⟨address, bytes⟩ :: cells)) (member : ⟨source, content⟩ ∈ cells)
    {offset : Nat} (fits : offset + content.length ≤ bytes.length) :
    ∃ next, memory.memcpy (some address) offset (some source) content.length = .ok next ∧
      Splits next (⟨address, overwrite bytes offset content⟩ :: cells) := by
  have loaded := Memory.load_splits splits (List.mem_cons_of_mem _ member)
    (show 0 + content.length ≤ content.length by omega)
  rw [List.drop_zero, List.take_length] at loaded
  rw [Memory.memcpy, loaded, ok_bind]
  exact Memory.store_splits splits fits

end

/-! Who owns what. -/

inductive Owns : PointerEntry → BufferEntry → List (Cell UInt8) → Prop
  | null (size : Nat) : Owns ⟨none, size⟩ ⟨.null, size⟩ []
  | block (address : Nat) (bytes : Bytes) (size : Nat) :
      Owns ⟨some address, size⟩ ⟨.block bytes, size⟩ [⟨address, bytes⟩]

def PointerBuffer.fields (buffer : PointerBuffer) (entry : Vector BufferEntry 10) :
    CircularBuffer where
  entry := entry
  inOffs := buffer.inOffs
  outOffs := buffer.outOffs
  full := buffer.full
  wAbs := buffer.wAbs
  startAbs := buffer.startAbs
  wCharAbs := buffer.wCharAbs
  startCharAbs := buffer.startCharAbs

/-- The fields are the same, and slot by slot the pointers own the table's cells. -/
structure Mirrors (pointers : PointerBuffer) (buffer : CircularBuffer)
    (table : List (List (Cell UInt8))) : Prop where
  fields : pointers.fields buffer.entry = buffer
  length : table.length = 10
  slots : ∀ slot (bound : slot < 10),
    Owns pointers.entry[slot] buffer.entry[slot] (table.getD slot [])

/-- `tmp_entry` and its block: it owns one while a command is pending; the pointer that is left
when none is pending is not used. -/
structure OwnsTmp (tmpEntry : PointerEntry) (pending : Bytes) (tmp : List (Cell UInt8)) : Prop where
  size : tmpEntry.size = pending.length
  cells : (pending = [] ∧ tmp = []) ∨
    (pending ≠ [] ∧ ∃ address, tmpEntry.buffptr = some address ∧ tmp = [⟨address, pending⟩])

theorem Owns.size {pointer : PointerEntry} {entry : BufferEntry} {owned : List (Cell UInt8)}
    (owns : Owns pointer entry owned) : pointer.size = entry.size := by
  cases owns <;> rfl

theorem Owns.view {pointer : PointerEntry} {entry : BufferEntry} {owned cells : List (Cell UInt8)}
    (owns : Owns pointer entry owned) {memory : Memory} (splits : Splits memory cells)
    (part : owned ⊆ cells) : pointer.view memory = entry := by
  cases owns with
  | null size => rfl
  | block address bytes size =>
      have found := splits.lookup_of_mem (part List.mem_cons_self)
      simp [PointerEntry.view, found]

theorem Mirrors.slot_mem {pointers : PointerBuffer} {buffer : CircularBuffer}
    {table : List (List (Cell UInt8))} (mirrors : Mirrors pointers buffer table) {slot : Nat}
    (bound : slot < 10) : table.getD slot [] ⊆ table.flatten := by
  have inside : slot < table.length := by rw [mirrors.length]; exact bound
  rw [List.getD_eq_getElem _ _ inside]
  exact fun cell member => List.mem_flatten.mpr ⟨_, List.getElem_mem inside, member⟩

theorem Mirrors.view {pointers : PointerBuffer} {buffer : CircularBuffer}
    {table : List (List (Cell UInt8))} (mirrors : Mirrors pointers buffer table) {memory : Memory}
    {cells : List (Cell UInt8)} (splits : Splits memory cells) (part : table.flatten ⊆ cells) :
    pointers.view memory = buffer := by
  have entries : (pointers.entry.map fun entry => entry.view memory) = buffer.entry := by
    apply Vector.ext
    intro slot bound
    rw [Vector.getElem_map]
    exact (mirrors.slots slot bound).view splits
      (List.Subset.trans (mirrors.slot_mem bound) part)
  rw [← mirrors.fields, PointerBuffer.view, entries]
  rfl

/-! `aesd_circular_buffer_add_entry`. -/

section

variable {memory : Memory} {cells : List (Cell UInt8)} {tmpEntry : PointerEntry} {pending chunk : Bytes}
  {tmp : List (Cell UInt8)}

theorem Memory.memcpy_nothing (memory : Memory) (destination source : Pointer) (offset : Nat) :
    memory.memcpy destination offset source 0 = .ok memory := rfl

theorem OwnsTmp.carry (owns : OwnsTmp tmpEntry pending tmp) {address count : Nat}
    (splits : Splits memory
      (⟨address, List.replicate (pending.length + count) 0⟩ :: cells)) (part : tmp ⊆ cells) :
    ∃ next, tmpEntry.carryOver (some address) memory = .ok next ∧
      Splits next (⟨address, pending ++ List.replicate count 0⟩ :: cells) := by
  obtain ⟨rfl, -⟩ | ⟨-, source, pointer, rfl⟩ := owns.cells
  · refine ⟨memory, ?_, by simpa using splits⟩
    rw [PointerEntry.carryOver, show tmpEntry.size = 0 from owns.size, Memory.memcpy_nothing]
    split <;> rfl
  · obtain ⟨next, copied, splits⟩ := Memory.memcpy_splits splits (part List.mem_cons_self)
      (show 0 + pending.length ≤ _ by simp)
    refine ⟨next, ?_, ?_⟩
    · rw [PointerEntry.carryOver, pointer, owns.size, if_neg (by simp), copied]
    · simpa [overwrite] using splits

/-- The pending bytes and the chunk are copied to a new block. The old block is still there. -/
theorem OwnsTmp.append (owns : OwnsTmp tmpEntry pending tmp) (splits : Splits memory cells)
    (part : tmp ⊆ cells) {kbuf : Nat} (given : ⟨kbuf, chunk⟩ ∈ cells) {alloc : Allocations}
    (got : alloc.tmp = true) (allocator : Allocator UInt8) :
    ∃ address next, tmpEntry.appendToTmp allocator alloc ⟨some kbuf, chunk.length⟩ memory =
        .ok (⟨some address, (pending ++ chunk).length⟩, next) ∧
      Splits next (⟨address, pending ++ chunk⟩ :: cells) := by
  obtain ⟨address, filling, allocated, called, sized, splits⟩ :=
    Memory.kmalloc_splits splits allocator (tmpEntry.size + chunk.length)
  obtain ⟨cleared, stored, splits⟩ := Memory.fill_splits splits
    (List.replicate (tmpEntry.size + chunk.length) 0) (by simp [sized])
  rw [owns.size] at splits
  obtain ⟨carried, moved, splits⟩ := owns.carry splits part
  obtain ⟨joined, copied, splits⟩ := Memory.memcpy_splits splits given
    (show pending.length + chunk.length ≤ _ by simp)
  refine ⟨address, joined, ?_, ?_⟩
  · simp only [PointerEntry.appendToTmp, got, called, stored, ok_bind, moved]
    rw [owns.size, copied, List.length_append]
    rfl
  · simpa [overwrite_append] using splits

end

section

variable {pointers : PointerBuffer} {buffer : CircularBuffer} {table : List (List (Cell UInt8))}

theorem Mirrors.oldest (mirrors : Mirrors pointers buffer table) (slot : Nat) :
    ((pointers.entry[slot]?).getD ⟨none, 0⟩).size = ((buffer.entry[slot]?).getD emptyEntry).size := by
  by_cases bound : slot < 10
  · simp only [Vector.getElem?_eq_getElem bound, Option.getD_some]
    exact (mirrors.slots slot bound).size
  · rw [Vector.getElem?_eq_none (Nat.le_of_not_lt bound),
      Vector.getElem?_eq_none (Nat.le_of_not_lt bound)]
    rfl

theorem Mirrors.exists_entry (mirrors : Mirrors pointers buffer table) :
    ∃ entry, buffer = pointers.fields entry :=
  ⟨buffer.entry, mirrors.fields.symm⟩

theorem Mirrors.wAbs (mirrors : Mirrors pointers buffer table) : pointers.wAbs = buffer.wAbs := by
  obtain ⟨entry, rfl⟩ := mirrors.exists_entry
  rfl

theorem slotOf_lt (count : UInt32) : slotOf count < 10 := Nat.mod_lt _ (by decide)

theorem Mirrors.advance (mirrors : Mirrors pointers buffer table) (size : Nat) :
    Mirrors (pointers.advanceCounters size) (advanceCounters buffer size) table := by
  obtain ⟨entry, rfl⟩ := mirrors.exists_entry
  refine ⟨?_, mirrors.length, mirrors.slots⟩
  simp only [PointerBuffer.advanceCounters, advanceCounters, mirrors.oldest]
  rfl

theorem Mirrors.set (mirrors : Mirrors pointers buffer table) {wi : Nat} (bound : wi < 10)
    (address : Nat) (command : Bytes) :
    Mirrors { pointers with
        entry := pointers.entry.setIfInBounds wi ⟨some address, command.length⟩ }
      { buffer with entry := buffer.entry.setIfInBounds wi ⟨.block command, command.length⟩ }
      (table.set wi [⟨address, command⟩]) := by
  obtain ⟨entry, rfl⟩ := mirrors.exists_entry
  refine ⟨rfl, by rw [List.length_set, mirrors.length], fun slot within => ?_⟩
  have inside : wi < table.length := by rw [mirrors.length]; exact bound
  simp only [Vector.getElem_setIfInBounds]
  by_cases here : wi = slot
  · subst slot
    simpa [inside] using Owns.block address command command.length
  · simpa [here] using mirrors.slots slot within

theorem Mirrors.kfree (mirrors : Mirrors pointers buffer table) {memory : Memory}
    {others : List (Cell UInt8)} {wi : Nat} (bound : wi < 10)
    (splits : Splits memory (table.flatten ++ others)) :
    ∃ next, memory.kfree pointers.entry[wi].buffptr = .ok next ∧
      Splits next ((table.eraseIdx wi).flatten ++ others) := by
  have inside : wi < table.length := by rw [mirrors.length]; exact bound
  have reordered := splits.reorder ((flatten_perm_erase inside).append_right others)
  have owned := mirrors.slots wi bound
  rw [List.getD_eq_getElem _ _ inside] at owned
  generalize pointers.entry[wi] = pointer at owned ⊢
  generalize buffer.entry[wi] = entry at owned
  generalize table[wi] = cells at owned reordered
  cases owned with
  | null size => exact ⟨memory, rfl, reordered⟩
  | block address bytes size => exact Memory.kfree_splits reordered

theorem Mirrors.storeCommand (mirrors : Mirrors pointers buffer table) {memory : Memory}
    {tmp : Nat} {command : Bytes} {others : List (Cell UInt8)}
    (splits : Splits memory (table.flatten ++ ⟨tmp, command⟩ :: others)) {alloc : Allocations}
    (got : alloc.target = true) (allocator : Allocator UInt8) :
    ∃ stored next table, pointers.storeCommand allocator alloc ⟨some tmp, command.length⟩ memory =
        .ok (stored, next) ∧
      Mirrors stored (buffer.store command) table ∧
      Splits next (table.flatten ++ ⟨tmp, command⟩ :: others) := by
  have bound := slotOf_lt buffer.wAbs
  have inside : slotOf buffer.wAbs < table.length := by rw [mirrors.length]; exact bound
  obtain ⟨freed, released, splits⟩ := mirrors.kfree bound splits
  obtain ⟨address, filling, allocated, called, sized, splits⟩ :=
    Memory.kmalloc_splits splits allocator command.length
  have held : ⟨tmp, command⟩ ∈ (table.eraseIdx (slotOf buffer.wAbs)).flatten ++
      ⟨tmp, command⟩ :: others := by simp
  obtain ⟨next, copied, splits⟩ := Memory.memcpy_splits splits held
    (show 0 + command.length ≤ filling.length by omega)
  rw [overwrite_all _ _ sized.symm] at splits
  refine ⟨_, next, _, ?_, (mirrors.set bound address command).advance command.length,
    splits.reorder ((flatten_perm_set inside [⟨address, command⟩]).append_right _).symm⟩
  simp only [PointerBuffer.storeCommand, mirrors.wAbs, Vector.getElem?_eq_getElem bound, Option.getD_some,
    released, ok_bind, got, called, copied]
  rfl

end

/-- What `aesd_circular_buffer_add_entry` does with the chunk in `kbuf`. The block that held the
pending bytes before is nobody's afterwards. -/
theorem Mirrors.addEntry {pointers : PointerBuffer} {buffer : CircularBuffer}
    {table : List (List (Cell UInt8))} (mirrors : Mirrors pointers buffer table)
    {tmpEntry : PointerEntry} {pending chunk : Bytes} {tmp others : List (Cell UInt8)}
    (owns : OwnsTmp tmpEntry pending tmp) {memory : Memory} {kbuf : Nat}
    (splits : Splits memory (table.flatten ++ tmp ++ ⟨kbuf, chunk⟩ :: others))
    (nonempty : chunk ≠ []) {alloc : Allocations} (suffice : alloc.Suffice chunk)
    (allocator : Allocator UInt8) :
    ∃ state table' tmp',
      HeapState.addEntry allocator alloc ⟨memory, pointers, tmpEntry⟩ ⟨some kbuf, chunk.length⟩ =
        .ok state ∧
      Mirrors state.buffer (if endsCommand chunk then buffer.store (pending ++ chunk) else buffer)
        table' ∧
      OwnsTmp state.tmpEntry (if endsCommand chunk then [] else pending ++ chunk) tmp' ∧
      Splits state.memory (table'.flatten ++ tmp' ++ ⟨kbuf, chunk⟩ :: (tmp ++ others)) := by
  have given : ⟨kbuf, chunk⟩ ∈ table.flatten ++ tmp ++ ⟨kbuf, chunk⟩ :: others := by simp
  obtain ⟨address, joined, appended, splits⟩ := owns.append splits
    (fun cell member => by simp [member]) given suffice.1 allocator
  have last := Memory.loadLast_splits splits (List.mem_cons_of_mem _ given) nonempty
  rw [HeapState.addEntry]
  dsimp only
  rw [appended, ok_bind]
  dsimp only
  rw [last, ok_bind]
  by_cases ended : endsCommand chunk
  · rw [if_pos ((endsCommand_iff nonempty).mp ended), if_pos ended, if_pos ended]
    have regrouped : Splits joined (table.flatten ++
        ⟨address, pending ++ chunk⟩ :: (tmp ++ ⟨kbuf, chunk⟩ :: others)) :=
      splits.regroup fun cell => by
        simp only [List.count_append, List.count_cons]
        omega
    obtain ⟨stored, next, table', called, mirrored, splits⟩ :=
      mirrors.storeCommand regrouped (suffice.2 ended) allocator
    obtain ⟨final, released, splits⟩ := Memory.kfree_splits (splits.reorder List.perm_middle)
    refine ⟨⟨final, stored, ⟨some address, 0⟩⟩, table', [], ?_, mirrored,
      ⟨rfl, Or.inl ⟨rfl, rfl⟩⟩, splits.regroup fun cell => ?_⟩
    · rw [called, ok_bind]
      dsimp only
      rw [PointerEntry.init, released]
      rfl
    · simp only [List.count_append, List.count_cons, List.count_nil]
      omega
  · rw [if_neg (fun last => ended ((endsCommand_iff nonempty).mpr last)), if_neg ended,
      if_neg ended]
    refine ⟨_, table, [⟨address, pending ++ chunk⟩], rfl, mirrors,
      ⟨rfl, Or.inr ⟨by simp [nonempty], address, rfl, rfl⟩⟩, splits.regroup fun cell => ?_⟩
    simp only [List.count_append, List.count_cons, List.count_nil]
    omega

/-! The file operations. -/

/-- The module's data: the buffer's fields and slots, the pending command, and the memory, which
has nothing besides their cells but `others`. -/
structure Backs (sys : HeapSys) (address : Nat) (buffer : CircularBuffer) (pending : Bytes)
    (table : List (List (Cell UInt8))) (tmp others : List (Cell UInt8)) : Prop where
  pointers : ∃ pointers, sys.buffer = some (address, pointers) ∧ Mirrors pointers buffer table
  tmpEntry : OwnsTmp sys.tmpEntry pending tmp
  splits : Splits sys.memory (table.flatten ++ tmp ++ others)

section

variable {sys : HeapSys} {address : Nat} {buffer : CircularBuffer} {pending : Bytes}
  {table : List (List (Cell UInt8))} {tmp others : List (Cell UInt8)}

theorem Backs.view (backs : Backs sys address buffer pending table tmp others) :
    sys.view.buffer = some buffer := by
  obtain ⟨pointers, present, mirrors⟩ := backs.pointers
  have shown := mirrors.view backs.splits fun cell member => by simp [member]
  rw [HeapSys.view, present]
  exact congrArg some shown

theorem Backs.regroup (backs : Backs sys address buffer pending table tmp others)
    {moved : List (Cell UInt8)} (perm : others.Perm moved) :
    Backs sys address buffer pending table tmp moved :=
  { backs with splits := backs.splits.reorder (perm.append_left _) }

/-- A write leaves the block that held the pending bytes to nobody. -/
theorem Backs.write (backs : Backs sys address buffer pending table tmp others) {filp : File}
    (opened : filp.privateData = true) {buf : Bytes} (nonempty : buf ≠ [])
    {outcomes : WriteOutcomes} (checked : ¬ outcomes.Refused)
    (suffice : outcomes.alloc.Suffice buf) (allocator : Allocator UInt8) :
    ∃ next table' tmp', sys.write allocator outcomes filp buf = (.ret buf.length [], next) ∧
      next.files = sys.files ∧
      Backs next address (if endsCommand buf then buffer.store (pending ++ buf) else buffer)
        (if endsCommand buf then [] else pending ++ buf) table' tmp' (tmp ++ others) := by
  obtain ⟨pointers, present, mirrors⟩ := backs.pointers
  obtain ⟨kbuf, filling, allocated, called, sized, splits⟩ :=
    Memory.kmalloc_splits backs.splits allocator buf.length
  obtain ⟨cleared, stored, splits⟩ := Memory.fill_splits splits (List.replicate buf.length 0)
    (by simp [sized])
  obtain ⟨filled, copied, splits⟩ := Memory.fill_splits splits buf (by simp)
  have reordered : Splits filled (table.flatten ++ tmp ++ ⟨kbuf, buf⟩ :: others) :=
    splits.reorder List.perm_middle.symm
  obtain ⟨state, table', tmp', added, mirrored, owned, splits⟩ :=
    mirrors.addEntry backs.tmpEntry reordered nonempty suffice allocator
  obtain ⟨final, released, splits⟩ := Memory.kfree_splits (splits.reorder List.perm_middle)
  refine ⟨⟨final, some (address, state.buffer), state.tmpEntry, sys.files⟩, table', tmp', ?_, rfl,
    ⟨_, rfl, mirrored⟩, owned, splits⟩
  have notClosed : ¬ filp.privateData = false := by simp [opened]
  simp only [WriteOutcomes.Refused, not_or, Bool.not_eq_false] at checked
  have fill : sys.fill allocator outcomes address pointers buf = .ok ((buf.length : Int),
      ⟨final, some (address, state.buffer), state.tmpEntry, sys.files⟩) := by
    simp only [HeapSys.fill, checked, called, loadLast_block nonempty, stored, copied, added,
      released, ok_bind]
    rfl
  rw [HeapSys.write, if_neg notClosed, present]
  simp only [fill]

/-- A write that is refused gives back the block that it took. -/
theorem Backs.write_refused (backs : Backs sys address buffer pending table tmp others)
    {dev : AesdDev} (same : dev.buffer = some buffer) {filp : File} {buf : Bytes} (nonempty : buf ≠ [])
    {outcomes : WriteOutcomes} (refused : filp.privateData = false ∨ outcomes.Refused)
    (allocator : Allocator UInt8) :
    ∃ error next, error < 0 ∧ sys.write allocator outcomes filp buf = (.ret error [], next) ∧
      aesdWrite outcomes dev filp buf = (.ret error [], dev) ∧ next.files = sys.files ∧
      Backs next address buffer pending table tmp others := by
  obtain ⟨pointers, present, mirrors⟩ := backs.pointers
  have last := loadLast_block nonempty
  rw [HeapSys.write, aesdWrite, present, same]
  by_cases closed : filp.privateData = false
  · rw [if_pos closed, if_pos closed]
    exact ⟨-enomem, sys, by decide, rfl, rfl, rfl, backs⟩
  rw [if_neg closed, if_neg closed]
  dsimp only
  by_cases denied : outcomes.kmalloc = false
  · simp only [HeapSys.fill, denied, Memory.kmalloc]
    exact ⟨-enomem, sys, by decide, rfl, rfl, rfl, backs⟩
  rw [Bool.not_eq_false] at denied
  obtain ⟨kbuf, filling, allocated, called, sized, splits⟩ :=
    Memory.kmalloc_splits backs.splits allocator buf.length
  by_cases inaccessible : outcomes.accessOk = false
  · obtain ⟨final, released, splits⟩ := Memory.kfree_splits splits
    simp only [HeapSys.fill, denied, called, last, ok_bind, inaccessible, released]
    exact ⟨-efault, { sys with memory := final }, by decide, rfl, rfl, rfl,
      ⟨pointers, present, mirrors⟩, backs.tmpEntry, splits⟩
  rw [Bool.not_eq_false] at inaccessible
  have uncopied : outcomes.copyFromUser = false := by
    simpa [closed, WriteOutcomes.Refused, denied, inaccessible] using refused
  obtain ⟨cleared, stored, splits⟩ := Memory.fill_splits splits (List.replicate buf.length 0)
    (by simp [sized])
  obtain ⟨final, released, splits⟩ := Memory.kfree_splits splits
  simp only [HeapSys.fill, denied, called, last, ok_bind, inaccessible, stored, uncopied, released]
  exact ⟨-enomem, { sys with memory := final }, by decide, rfl, rfl, rfl,
    ⟨pointers, present, mirrors⟩, backs.tmpEntry, splits⟩

theorem overwrite_length {bytes values : Bytes} {offset : Nat}
    (fits : offset + values.length ≤ bytes.length) :
    (overwrite bytes offset values).length = bytes.length := by
  simp only [overwrite, List.length_append, List.length_take, List.length_drop]
  omega

theorem Access.apply_length {shown : CircularBuffer} {resultBuf : Bytes} {access : Access}
    (inBounds : access.inBounds shown resultBuf.length = true) :
    (access.apply shown resultBuf).length = resultBuf.length := by
  cases access with
  | memcpy ri ofsInEntry remainInEntry copyLen destination =>
      simp only [Access.inBounds, Bool.and_eq_true, decide_eq_true_eq] at inBounds
      rw [Access.apply]
      split
      next bytes size found =>
        apply overwrite_length
        rw [List.length_take]
        omega
      · rfl
  | slot index => rfl
  | strlen last => rfl
  | unset => rfl

theorem Raed.result_length {read : Raed} {shown : CircularBuffer} {resultBuf filled : Bytes}
    (result : read.result shown resultBuf = some filled) : filled.length = resultBuf.length := by
  have applied (accesses : List Access) : ∀ buf : Bytes,
      accesses.all (Access.inBounds shown buf.length) = true →
        (accesses.foldl (Access.apply shown) buf).length = buf.length := by
    induction accesses with
    | nil => exact fun _ _ => rfl
    | cons access accesses ih =>
        intro buf all
        rw [List.all_cons, Bool.and_eq_true] at all
        have same := Access.apply_length all.1
        rw [List.foldl_cons, ih _ (by rw [same]; exact all.2), same]
  rw [Raed.result] at result
  split at result
  next all =>
    rw [← Option.some.inj result]
    exact applied _ _ all
  · cases result

def ReadOutcomes.answer (outcomes : ReadOutcomes) (ret : Nat) (filled : Bytes) : Reply :=
  if 0 < toLong ret then
    if outcomes.copyToUser then .ret (toLong ret) (filled.take ret) else .ret (-enomem) []
  else .ret (toLong ret) []

theorem aesdRead_answer {dev : AesdDev} {filp : File} {count : UInt64} {read : Raed}
    {outcomes : ReadOutcomes} (opened : filp.privateData = true) (present : dev.buffer = some buffer)
    (allocated : outcomes.kmalloc = true)
    (called : aesdCircularBufferRaed buffer (List.replicate count.toNat 0) count filp.fPos =
      some read) :
    aesdRead outcomes dev filp count =
      ((read.result buffer (List.replicate count.toNat 0)).elim (.fault .outOfBounds)
          (outcomes.answer read.ret),
        { dev with buffer := some read.buffer }, { filp with fPos := read.fPos }) := by
  have notClosed : ¬ filp.privateData = false := by simp [opened]
  have notDenied : ¬ outcomes.kmalloc = false := by simp [allocated]
  rw [aesdRead, if_neg notClosed, present]
  simp only [if_neg notDenied, called]
  cases read.result buffer (List.replicate count.toNat 0) with
  | none => rfl
  | some kbuf =>
      rw [Option.elim_some, ReadOutcomes.answer]
      by_cases positive : 0 < toLong read.ret
      · simp only [if_pos positive]
        by_cases copied : outcomes.copyToUser = true
        · simp only [if_pos copied]
        · simp only [if_neg copied]
      · simp only [if_neg positive]

theorem Memory.copyOut_splits {memory : Memory} {kbuf : Nat} {old filled : Bytes}
    {cells : List (Cell UInt8)} (splits : Splits memory (⟨kbuf, old⟩ :: cells)) (ret : Nat)
    (sized : filled.length = old.length) (fits : 0 < toLong ret → ret ≤ filled.length)
    (outcomes : ReadOutcomes) :
    ∃ next, memory.copyOut outcomes (some kbuf) filled ret = .ok (outcomes.answer ret filled, next) ∧
      Splits next cells := by
  obtain ⟨stored, called, splits⟩ := Memory.fill_splits splits filled sized
  obtain ⟨final, released, after⟩ := Memory.kfree_splits splits
  refine ⟨final, ?_, after⟩
  rw [Memory.copyOut, called, ok_bind, ReadOutcomes.answer]
  dsimp only
  by_cases positive : 0 < toLong ret
  · have loaded := Memory.load_splits splits List.mem_cons_self
      (show 0 + ret ≤ filled.length by rw [Nat.zero_add]; exact fits positive)
    rw [if_pos positive, if_pos positive, loaded, ok_bind, released]
    rfl
  · rw [if_neg positive, if_neg positive, released]
    rfl

theorem Mirrors.adopt {pointers : PointerBuffer} (mirrors : Mirrors pointers buffer table)
    {resultBuf : Bytes} {len : UInt64} {fPos : Int} {read : Raed}
    (called : aesdCircularBufferRaed buffer resultBuf len fPos = some read) :
    Mirrors (pointers.adopt read.buffer) read.buffer table := by
  have moved := raed_buffer called
  generalize read.buffer = after at moved ⊢
  obtain ⟨entry, rfl⟩ := mirrors.exists_entry
  rw [moved]
  exact ⟨rfl, mirrors.length, mirrors.slots⟩

theorem Backs.read (backs : Backs sys address buffer pending table tmp others) {dev : AesdDev}
    (same : dev.buffer = some buffer) {filp : File} (opened : filp.privateData = true)
    (count : UInt64) (outcomes : ReadOutcomes) (allocator : Allocator UInt8) :
    ∃ next after, sys.read allocator outcomes filp count =
        ((aesdRead outcomes dev filp count).1, next, (aesdRead outcomes dev filp count).2.2) ∧
      (aesdRead outcomes dev filp count).2.1 = { dev with buffer := some after } ∧
      next.files = sys.files ∧ Backs next address after pending table tmp others := by
  obtain ⟨pointers, present, mirrors⟩ := backs.pointers
  obtain ⟨read, called⟩ := raed_ends buffer (List.replicate count.toNat 0) count filp.fPos
  have notClosed : ¬ filp.privateData = false := by simp [opened]
  by_cases denied : outcomes.kmalloc = false
  · have unread : aesdRead outcomes dev filp count = (.ret (-enomem) [], dev, filp) := by
      rw [aesdRead, if_neg notClosed, same]
      simp only [if_pos denied]
    rw [unread, HeapSys.read, if_neg notClosed, present]
    refine ⟨sys, buffer, ?_, by rw [← same], rfl, backs⟩
    simp only [denied, Memory.kmalloc, Bool.false_eq_true, if_false, if_true]
  rw [Bool.not_eq_false] at denied
  rw [aesdRead_answer opened same denied called]
  obtain ⟨kbuf, filling, allocated, taken, sized, splits⟩ :=
    Memory.kmalloc_splits backs.splits allocator count.toNat
  obtain ⟨cleared, stored, splits⟩ := Memory.fill_splits splits (List.replicate count.toNat 0)
    (by simp [sized])
  have shown : pointers.view cleared = buffer :=
    mirrors.view splits fun cell member => by simp [member]
  rw [HeapSys.read, if_neg notClosed, present]
  simp only [denied, taken, stored, shown, called]
  cases result : read.result buffer (List.replicate count.toNat 0) with
  | none =>
      exact ⟨_, read.buffer, rfl, rfl, rfl, ⟨_, rfl, mirrors.adopt called⟩, backs.tmpEntry,
        backs.splits⟩
  | some filled =>
      have length := Raed.result_length result
      rw [List.length_replicate] at length
      obtain ⟨next, copied, splits⟩ := Memory.copyOut_splits splits read.ret
        (by rw [length, List.length_replicate])
        (fun positive => by rw [length]; exact (raed_progress called positive).2.1) outcomes
      rw [Option.elim_some]
      simp only [copied]
      exact ⟨_, read.buffer, rfl, rfl, rfl, ⟨_, rfl, mirrors.adopt called⟩, backs.tmpEntry, splits⟩

end

end Aesd

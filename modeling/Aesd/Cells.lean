import Mathlib.Data.List.AList
import Mathlib.Data.List.Perm.Basic
import Mathlib.Tactic

/-!
A heap of blocks, each at its own address. A heap splits into cells when it consists of exactly
these, in any order, so an operation is described by the cells it takes and the cells it leaves;
all others go along.
-/

namespace Cells

variable {α : Type*}

abbrev Heap (α : Type*) : Type _ := AList fun _ : Nat => List α

abbrev Cell (α : Type*) : Type _ := (_ : Nat) × List α

def Splits (heap : Heap α) (cells : List (Cell α)) : Prop := heap.entries.Perm cells

/-- Any allocator: it takes an address that is free, and the memory it hands out has the size
that was asked for and holds anything. -/
structure Allocator (α : Type*) where
  place : Heap α → Nat → Nat
  filling : Heap α → Nat → List α
  fresh : ∀ heap size, place heap size ∉ heap
  sized : ∀ heap size, (filling heap size).length = size

/-- Above all addresses in use, with memory that is always `value`. -/
def Allocator.bump (value : α) : Allocator α where
  place heap _ := heap.keys.sum + 1
  filling _ size := List.replicate size value
  fresh heap _ := by
    intro taken
    have below := List.single_le_sum (by simp) _ (AList.mem_keys.mp taken)
    omega
  sized _ size := List.length_replicate

def allocate (allocator : Allocator α) (heap : Heap α) (size : Nat) : Heap α :=
  heap.insert (allocator.place heap size) (allocator.filling heap size)

variable {heap : Heap α} {cells others : List (Cell α)} {address : Nat} {bytes : List α}

theorem splits_self (heap : Heap α) : Splits heap heap.entries := List.Perm.refl _

theorem Splits.reorder (splits : Splits heap cells) (perm : cells.Perm others) :
    Splits heap others :=
  List.Perm.trans splits perm

theorem Splits.regroup [DecidableEq α] (splits : Splits heap cells)
    (same : ∀ cell, cells.count cell = others.count cell) : Splits heap others :=
  splits.reorder (List.perm_iff_count.mpr same)

theorem Splits.count (splits : Splits heap cells) : heap.entries.length = cells.length :=
  List.Perm.length_eq splits

theorem Splits.lookup (splits : Splits heap (⟨address, bytes⟩ :: others)) :
    heap.lookup address = some bytes :=
  AList.mem_lookup_iff.mpr ((List.Perm.mem_iff splits).mpr List.mem_cons_self)

theorem Splits.lookup_of_mem (splits : Splits heap cells) (member : ⟨address, bytes⟩ ∈ cells) :
    heap.lookup address = some bytes :=
  AList.mem_lookup_iff.mpr ((List.Perm.mem_iff splits).mpr member)

theorem Splits.insert (splits : Splits heap cells) (fresh : address ∉ heap) (bytes : List α) :
    Splits (heap.insert address bytes) (⟨address, bytes⟩ :: cells) := by
  rw [Splits, AList.entries_insert_of_notMem fresh]
  exact List.Perm.cons _ splits

theorem Splits.allocate (splits : Splits heap cells) (allocator : Allocator α) (size : Nat) :
    Splits (allocate allocator heap size)
      (⟨allocator.place heap size, allocator.filling heap size⟩ :: cells) :=
  splits.insert (allocator.fresh heap size) _

theorem Splits.erase (splits : Splits heap (⟨address, bytes⟩ :: others)) :
    Splits (heap.erase address) others := by
  have same : List.kerase address (⟨address, bytes⟩ :: others) = others := List.kerase_cons_eq rfl
  rw [Splits, ← same]
  exact List.Perm.kerase heap.nodupKeys splits

theorem Splits.replace (splits : Splits heap (⟨address, bytes⟩ :: others)) (values : List α) :
    Splits (heap.insert address values) (⟨address, values⟩ :: others) := by
  rw [Splits, AList.entries_insert]
  exact List.Perm.cons _ splits.erase

/-! A table whose places own cells. -/

theorem flatten_perm_erase {table : List (List α)} {place : Nat} (bound : place < table.length) :
    table.flatten.Perm (table[place] ++ (table.eraseIdx place).flatten) :=
  (List.getElem_cons_eraseIdx_perm bound).flatten.symm

theorem flatten_perm_set {table : List (List α)} {place : Nat} (bound : place < table.length)
    (owned : List α) :
    (table.set place owned).flatten.Perm (owned ++ (table.eraseIdx place).flatten) :=
  (List.set_perm_cons_eraseIdx bound owned).flatten

/-- The cells of one place in hand, among the table's and others. -/
theorem Splits.takePlace {table : List (List (Cell α))} {place : Nat}
    {own owned : List (Cell α)} (splits : Splits heap (own ++ (table.flatten ++ others)))
    (present : table[place]? = some owned) :
    Splits heap (owned ++ (own ++ ((table.eraseIdx place).flatten ++ others))) := by
  obtain ⟨bound, rfl⟩ := List.getElem?_eq_some_iff.mp present
  have taken := (flatten_perm_erase bound).append_right others
  refine splits.reorder ((taken.append_left own).trans ?_)
  rw [List.append_assoc]
  exact List.perm_append_comm_assoc _ _ _

theorem Splits.putPlace {table : List (List (Cell α))} {place : Nat}
    {own owned kept : List (Cell α)}
    (splits : Splits heap (kept ++ (own ++ ((table.eraseIdx place).flatten ++ others))))
    (present : table[place]? = some owned) :
    Splits heap (own ++ ((table.set place kept).flatten ++ others)) := by
  obtain ⟨bound, rfl⟩ := List.getElem?_eq_some_iff.mp present
  have put := (flatten_perm_set bound kept).append_right others
  refine splits.reorder (List.Perm.trans ?_ (put.append_left own).symm)
  rw [List.append_assoc]
  exact List.perm_append_comm_assoc _ _ _

end Cells

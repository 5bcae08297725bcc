import Mathlib.Data.List.Basic
import Mathlib.Data.List.Nodup

/-!
# MasterScheduler.Lib.Ring — ring buffers

A ring buffer with a read and a write position in an array, one cell of which
stays unused. It is a queue: `toList` is what it holds, oldest first.

- `toList_push`: writing and moving the write position adds at the end.
- `toList_pop`: moving the read position takes the oldest.
- `cells`: where the elements are; `peekPut` gives none of these.
- `window`: a ring buffer with a first cell and a count, in which every cell is used.
-/

namespace MasterScheduler.Lib

/-- A ring buffer; `mask + 1` is its size. -/
structure RingBuffer (α : Type*) where
  mask : ℕ
  putPtr : ℕ
  getPtr : ℕ
  array : ℕ → α
  putPtr_le : putPtr ≤ mask
  getPtr_le : getPtr ≤ mask

namespace RingBuffer

variable {α : Type*}

def init [Inhabited α] (mask : ℕ) : RingBuffer α :=
  ⟨mask, 0, 0, fun _ => default, Nat.zero_le _, Nat.zero_le _⟩

/-- How many elements there are. The size is a power of two in the code, where
the remainder is taken with a mask. -/
def elements (r : RingBuffer α) : ℕ := (r.putPtr + (r.mask + 1) - r.getPtr) % (r.mask + 1)

/-- The cell for the next element, if there is one. -/
def peekPut (r : RingBuffer α) : Option ℕ := if r.elements = r.mask then none else some r.putPtr

/-- Fill a cell. -/
def write (r : RingBuffer α) (i : ℕ) (a : α) : RingBuffer α :=
  { r with array := Function.update r.array i a }

/-- Move the write position on, unless the buffer is full. -/
def put (r : RingBuffer α) : RingBuffer α :=
  if r.elements = r.mask then r
  else
    { r with
      putPtr := (r.putPtr + 1) % (r.mask + 1)
      putPtr_le := Nat.le_of_lt_succ (Nat.mod_lt _ (Nat.succ_pos _)) }

/-- The oldest element. -/
def peekGet (r : RingBuffer α) : Option α := if 0 < r.elements then some (r.array r.getPtr) else none

/-- Take the oldest element out. -/
def get (r : RingBuffer α) : RingBuffer α :=
  if 0 < r.elements then
    { r with
      getPtr := (r.getPtr + 1) % (r.mask + 1)
      getPtr_le := Nat.le_of_lt_succ (Nat.mod_lt _ (Nat.succ_pos _)) }
  else r

/-- What the buffer holds, oldest first. -/
def toList (r : RingBuffer α) : List α :=
  (List.range r.elements).map fun i => r.array ((r.getPtr + i) % (r.mask + 1))

/-- The cells of the elements, in the same order. -/
def cells (r : RingBuffer α) : List ℕ :=
  (List.range r.elements).map fun i => (r.getPtr + i) % (r.mask + 1)

theorem map_cells (r : RingBuffer α) : r.cells.map r.array = r.toList := by
  rw [cells, toList, List.map_map]
  rfl

theorem length_cells (r : RingBuffer α) : r.cells.length = r.elements := by
  rw [cells, List.length_map, List.length_range]

theorem length_toList (r : RingBuffer α) : r.toList.length = r.elements := by
  rw [← map_cells, List.length_map, length_cells]

theorem toList_init [Inhabited α] (mask : ℕ) : (init mask : RingBuffer α).toList = [] := by
  simp [toList, elements, init]

theorem elements_eq (r : RingBuffer α) :
    r.elements = if r.getPtr ≤ r.putPtr then r.putPtr - r.getPtr
      else r.putPtr + (r.mask + 1) - r.getPtr := by
  have hp := r.putPtr_le
  have hg := r.getPtr_le
  unfold elements
  split_ifs with h
  · rw [show r.putPtr + (r.mask + 1) - r.getPtr = r.putPtr - r.getPtr + (r.mask + 1) by omega,
      Nat.add_mod_right, Nat.mod_eq_of_lt (by omega)]
  · rw [Nat.mod_eq_of_lt (by omega)]

theorem next_eq {i mask : ℕ} (h : i ≤ mask) :
    (i + 1) % (mask + 1) = if i = mask then 0 else i + 1 := by
  split_ifs with heq
  · rw [heq, Nat.mod_self]
  · rw [Nat.mod_eq_of_lt (by omega)]

theorem peekGet_eq (r : RingBuffer α) : r.peekGet = r.toList.head? := by
  unfold peekGet toList
  split_ifs with h
  · rw [List.head?_map, List.head?_range, if_neg (by omega)]
    rw [Option.map_some, Nat.add_zero, Nat.mod_eq_of_lt (Nat.lt_succ_of_le r.getPtr_le)]
  · rw [show r.elements = 0 by omega]
    rfl

theorem peekPut_eq_some {r : RingBuffer α} {i : ℕ} (h : r.peekPut = some i) :
    r.elements ≠ r.mask ∧ i = r.putPtr := by
  unfold peekPut at h
  split_ifs at h with hfull
  exact ⟨hfull, (Option.some.inj h).symm⟩

/-- The position some cells on. -/
theorem cell_eq {g i mask : ℕ} (hg : g ≤ mask) (hi : i ≤ mask) :
    (g + i) % (mask + 1) = if g + i ≤ mask then g + i else g + i - (mask + 1) := by
  split_ifs with h
  · rw [Nat.mod_eq_of_lt (by omega)]
  · rw [Nat.mod_eq_sub_mod (by omega), Nat.mod_eq_of_lt (by omega)]

theorem cells_nodup (r : RingBuffer α) : r.cells.Nodup := by
  have hg := r.getPtr_le
  have hle : r.elements ≤ r.mask := Nat.le_of_lt_succ (Nat.mod_lt _ (Nat.succ_pos _))
  refine List.Nodup.map_on ?_ List.nodup_range
  intro i hi j hj heq
  rw [List.mem_range] at hi hj
  rw [cell_eq hg (by omega), cell_eq hg (by omega)] at heq
  split_ifs at heq <;> omega

theorem cells_le {r : RingBuffer α} {i : ℕ} (hi : i ∈ r.cells) : i ≤ r.mask := by
  obtain ⟨j, -, rfl⟩ := List.mem_map.mp hi
  exact Nat.le_of_lt_succ (Nat.mod_lt _ (Nat.succ_pos _))

/-- The cell for the next element is free. -/
theorem putPtr_notMem_cells {r : RingBuffer α} : r.putPtr ∉ r.cells := by
  have hp := r.putPtr_le
  have hg := r.getPtr_le
  have he := elements_eq r
  have hle : r.elements ≤ r.mask := Nat.le_of_lt_succ (Nat.mod_lt _ (Nat.succ_pos _))
  intro hmem
  obtain ⟨i, hi, heq⟩ := List.mem_map.mp hmem
  rw [List.mem_range] at hi
  rw [cell_eq hg (by omega)] at heq
  split_ifs at he heq <;> omega

theorem head?_cells {r : RingBuffer α} (h : 0 < r.elements) : r.cells.head? = some r.getPtr := by
  rw [cells, List.head?_map, List.head?_range, if_neg (by omega), Option.map_some, Nat.add_zero,
    Nat.mod_eq_of_lt (Nat.lt_succ_of_le r.getPtr_le)]

theorem putPtr_put {r : RingBuffer α} (h : r.elements ≠ r.mask) :
    r.put.putPtr = if r.putPtr = r.mask then 0 else r.putPtr + 1 := by
  rw [← next_eq r.putPtr_le]
  unfold put
  rw [if_neg h]

theorem getPtr_get {r : RingBuffer α} (h : 0 < r.elements) :
    r.get.getPtr = if r.getPtr = r.mask then 0 else r.getPtr + 1 := by
  rw [← next_eq r.getPtr_le]
  unfold get
  rw [if_pos h]

theorem put_fixed (r : RingBuffer α) :
    r.put.mask = r.mask ∧ r.put.getPtr = r.getPtr ∧ r.put.array = r.array := by
  unfold put
  split_ifs <;> exact ⟨rfl, rfl, rfl⟩

theorem get_fixed (r : RingBuffer α) :
    r.get.mask = r.mask ∧ r.get.putPtr = r.putPtr ∧ r.get.array = r.array := by
  unfold get
  split_ifs <;> exact ⟨rfl, rfl, rfl⟩

theorem elements_put {r : RingBuffer α} (h : r.elements ≠ r.mask) :
    r.put.elements = r.elements + 1 := by
  have hp := r.putPtr_le
  have hg := r.getPtr_le
  have he := elements_eq r
  rw [elements_eq r.put, putPtr_put h, (put_fixed r).1, (put_fixed r).2.1]
  split_ifs at he ⊢ <;> omega

theorem elements_get {r : RingBuffer α} (h : 0 < r.elements) : r.elements = r.get.elements + 1 := by
  have hp := r.putPtr_le
  have hg := r.getPtr_le
  have he := elements_eq r
  rw [elements_eq r.get, getPtr_get h, (get_fixed r).1, (get_fixed r).2.1]
  split_ifs at he ⊢ <;> omega

theorem elements_le (r : RingBuffer α) : r.elements ≤ r.mask :=
  Nat.le_of_lt_succ (Nat.mod_lt _ (Nat.succ_pos _))

/-- Filling the free cell and moving the write position adds an element. -/
theorem toList_push {r : RingBuffer α} {i : ℕ} (h : r.peekPut = some i) (a : α) :
    (r.write i a).put.toList = r.toList ++ [a] := by
  rcases peekPut_eq_some h with ⟨hfull, rfl⟩
  have hp := r.putPtr_le
  have hg := r.getPtr_le
  have hle := elements_le r
  have he := elements_eq r
  have hput := put_fixed (r.write r.putPtr a)
  unfold toList
  rw [elements_put (r := r.write r.putPtr a) hfull, hput.1, hput.2.1, hput.2.2]
  show (List.range (r.elements + 1)).map (fun i =>
    Function.update r.array r.putPtr a ((r.getPtr + i) % (r.mask + 1))) = _
  rw [List.range_succ, List.map_append, List.map_singleton]
  congr 1
  · refine List.map_congr_left fun i hi => ?_
    rw [List.mem_range] at hi
    rw [Function.update_of_ne]
    rw [cell_eq hg (by omega)]
    split_ifs at he ⊢ <;> omega
  · -- the new element is in the cell that was free
    have hcell : (r.getPtr + r.elements) % (r.mask + 1) = r.putPtr := by
      rw [cell_eq hg hle]
      split_ifs at he ⊢ <;> omega
    rw [hcell, Function.update_self]

/-- The oldest element is the first of the list. -/
theorem toList_pop {r : RingBuffer α} {a : α} (h : r.peekGet = some a) :
    r.toList = a :: r.get.toList := by
  have hpos : 0 < r.elements := by
    unfold peekGet at h
    split_ifs at h with hpos
    exact hpos
  unfold peekGet at h
  rw [if_pos hpos, Option.some.injEq] at h
  have hget := get_fixed r
  have hg := r.getPtr_le
  have hle := elements_le r
  have hsucc := elements_get hpos
  unfold toList
  rw [hget.1, hget.2.2, hsucc, List.range_succ_eq_map, List.map_cons, List.map_map, Nat.add_zero,
    Nat.mod_eq_of_lt (Nat.lt_succ_of_le hg), h]
  congr 1
  refine List.map_congr_left fun i hi => ?_
  rw [List.mem_range] at hi
  rw [Function.comp_apply, cell_eq hg (by omega), getPtr_get hpos,
    cell_eq (by split_ifs <;> omega) (by omega)]
  congr 1
  split_ifs <;> omega

/-- Taking an element out leaves the free cell where it is. -/
theorem peekPut_get {r : RingBuffer α} {i : ℕ} (h : r.peekPut = some i) : r.get.peekPut = some i := by
  rcases peekPut_eq_some h with ⟨hfull, rfl⟩
  have hget := get_fixed r
  have hle := elements_le r
  unfold peekPut
  rw [hget.1, hget.2.1, if_neg]
  by_cases hpos : 0 < r.elements
  · have := elements_get hpos
    omega
  · unfold get
    rw [if_neg hpos]
    exact hfull

theorem toList_eq_nil {r : RingBuffer α} (h : r.peekGet = none) : r.toList = [] := by
  rw [peekGet_eq] at h
  exact List.head?_eq_none_iff.1 h

end RingBuffer

/-! ## Ring buffers with a count -/

section Window

variable {α : Type*} {array : ℕ → α} {size first count : ℕ}

/-- The elements of a ring buffer, from the first one on. -/
def window (array : ℕ → α) (size first count : ℕ) : List α :=
  (List.range count).map fun i => array ((first + i) % size)

/-- An element is put behind the last one. -/
theorem window_push (h : count < size) (x : α) :
    window (Function.update array ((first + count) % size) x) size first (count + 1) =
      window array size first count ++ [x] := by
  rw [window, List.range_succ, List.map_append, List.map_singleton, Function.update_self, window]
  congr 1
  refine List.map_congr_left fun i hi => Function.update_of_ne (fun heq => ?_) _ _
  rw [List.mem_range] at hi
  have hmod := Nat.sub_mod_eq_zero_of_mod_eq heq.symm
  rw [Nat.add_sub_add_left, Nat.mod_eq_of_lt (by omega)] at hmod
  omega

/-- The first element is taken out. -/
theorem window_pop (h : first < size) : window array size first (count + 1) =
    array first :: window array size ((first + 1) % size) count := by
  rw [window, List.range_succ_eq_map, List.map_cons, List.map_map, Nat.add_zero,
    Nat.mod_eq_of_lt h, window]
  congr 1
  refine List.map_congr_left fun i _ => ?_
  rw [Function.comp_apply, Nat.mod_add_mod, Nat.succ_eq_add_one, Nat.add_assoc, Nat.add_comm 1 i]

end Window

end MasterScheduler.Lib

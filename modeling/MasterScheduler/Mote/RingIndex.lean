import MasterScheduler.Lib.Ring
import Mathlib.Data.List.Induction
import Mathlib.Data.Nat.Bitwise

/-!
# MasterScheduler.Mote.RingIndex — `ringbufindex.c`

The index buffer under the queues of TSCH: two 8 bit pointers and a mask. Its
user keeps the elements in an array of its own, which it fills at the index that
`ringbufindex_peek_put` gives.

1. **Model**: the calls, with the conversions of C.
2. **Arithmetic**: masking a difference of pointers is a remainder.
3. **Result**: the index buffer with the array is a queue (`ring_index_refines_fifo`).

A size of 256 becomes 0 on the way into the function, and the mask 255.
-/

namespace MasterScheduler.Mote.RingIndex

open Lib

/-! ## Model -/

/-- `struct ringbufindex`. -/
structure Ringbufindex where
  mask : UInt8
  putPtr : UInt8
  getPtr : UInt8
deriving DecidableEq, Repr

/-- `ringbufindex_init`. -/
def ringbufindexInit (size : UInt8) : Ringbufindex := ⟨size - 1, 0, 0⟩

/-- `(r->put_ptr - r->get_ptr) & r->mask`, in 32 bits of two's complement. -/
def masked (r : Ringbufindex) : UInt32 :=
  (r.putPtr.toUInt32 - r.getPtr.toUInt32) &&& r.mask.toUInt32

/-- `(ptr + 1) & r->mask`. -/
def next (r : Ringbufindex) (ptr : UInt8) : UInt8 :=
  ((ptr.toUInt32 + 1) &&& r.mask.toUInt32).toUInt8

/-- `ringbufindex_put`. -/
def ringbufindexPut (r : Ringbufindex) : ℤ × Ringbufindex :=
  if masked r = r.mask.toUInt32 then (0, r) else (1, { r with putPtr := next r r.putPtr })

/-- `ringbufindex_peek_put`. -/
def ringbufindexPeekPut (r : Ringbufindex) : ℤ :=
  if masked r = r.mask.toUInt32 then -1 else r.putPtr.toNat

/-- `ringbufindex_get`. -/
def ringbufindexGet (r : Ringbufindex) : ℤ × Ringbufindex :=
  if 0 < masked r then (r.getPtr.toNat, { r with getPtr := next r r.getPtr }) else (-1, r)

/-- `ringbufindex_peek_get`. -/
def ringbufindexPeekGet (r : Ringbufindex) : ℤ := if 0 < masked r then r.getPtr.toNat else -1

/-- `ringbufindex_size`. -/
def ringbufindexSize (r : Ringbufindex) : ℤ := r.mask.toNat + 1

/-- `ringbufindex_elements`. -/
def ringbufindexElements (r : Ringbufindex) : ℤ := (masked r).toNat

/-- `ringbufindex_full`. -/
def ringbufindexFull (r : Ringbufindex) : ℤ := if masked r = r.mask.toUInt32 then 1 else 0

/-- `ringbufindex_empty`. -/
def ringbufindexEmpty (r : Ringbufindex) : ℤ := if ringbufindexElements r = 0 then 1 else 0

variable {α : Type}

/-- A call by a user that has an element for the free cell, or one of the others. -/
inductive Call (α : Type) where
  | put (a : α)
  | get
  | peekPut
  | peekGet
  | full
  | empty
  | elements
  | size

/-- The index buffer and the array of its user. -/
structure User (α : Type) where
  ring : Ringbufindex
  array : ℕ → α

/-- One call. A user looks for the free cell and fills it before the call of `ringbufindex_put`. -/
def User.call (s : User α) : Call α → ℤ × User α
  | .put a =>
      let index := ringbufindexPeekPut s.ring
      let array := if index = -1 then s.array else Function.update s.array index.toNat a
      ((ringbufindexPut s.ring).1, ⟨(ringbufindexPut s.ring).2, array⟩)
  | .get => ((ringbufindexGet s.ring).1, ⟨(ringbufindexGet s.ring).2, s.array⟩)
  | .peekPut => (ringbufindexPeekPut s.ring, s)
  | .peekGet => (ringbufindexPeekGet s.ring, s)
  | .full => (ringbufindexFull s.ring, s)
  | .empty => (ringbufindexEmpty s.ring, s)
  | .elements => (ringbufindexElements s.ring, s)
  | .size => (ringbufindexSize s.ring, s)

/-- A run from `ringbufindex_init`. The size is converted to an `uint8_t`. -/
def User.run (size : ℕ) (array : ℕ → α) (calls : List (Call α)) : User α :=
  calls.foldl (fun s c => (s.call c).2) ⟨ringbufindexInit (UInt8.ofNat size), array⟩

/-- What a call means for a queue that holds at most `capacity` elements. -/
def fifoStep (capacity : ℕ) (q : List α) : Call α → List α
  | .put a => if q.length < capacity then q ++ [a] else q
  | .get => q.tail
  | _ => q

/-- The calls on a queue that is empty at first. -/
def fifoRun (capacity : ℕ) (calls : List (Call α)) : List α := calls.foldl (fifoStep capacity) []

/-- The index buffer and the array hold a queue, in these cells. -/
structure Holds (size : ℕ) (s : User α) (q : List α) (cells : List ℕ) : Prop where
  content : cells.map s.array = q
  distinct : cells.Nodup
  inside : ∀ i ∈ cells, i < size
  elements : (s.call .elements).1 = q.length
  bounded : q.length ≤ size - 1
  full : (s.call .full).1 = if q.length = size - 1 then 1 else 0
  empty : (s.call .empty).1 = if q = [] then 1 else 0
  ringSize : (s.call .size).1 = size
  /-- There is no cell for an element exactly when the queue is full, and else it is a free one. -/
  peekPut : (s.call .peekPut).1 = -1 ∧ q.length = size - 1 ∨
    ∃ i : ℕ, (s.call .peekPut).1 = i ∧ i < size ∧ i ∉ cells ∧ q.length < size - 1
  put : ∀ a, (s.call (.put a)).1 = if q.length < size - 1 then 1 else 0
  /-- There is no oldest element exactly when the queue is empty. -/
  peekGet : (s.call .peekGet).1 = if h : cells = [] then (-1 : ℤ) else cells.head h
  get : (s.call .get).1 = if h : cells = [] then (-1 : ℤ) else cells.head h

/-! ## Arithmetic -/

/-- The sizes the function is for. -/
def IsSize (size : ℕ) : Prop := ∃ k, 1 ≤ k ∧ k ≤ 8 ∧ size = 2 ^ k

/-- The mask belongs to the size, and the pointers are inside. -/
structure Within (size : ℕ) (r : Ringbufindex) : Prop where
  isSize : IsSize size
  mask : r.mask.toNat + 1 = size
  putPtr : r.putPtr.toNat < size
  getPtr : r.getPtr.toNat < size

theorem IsSize.two_le {size : ℕ} (h : IsSize size) : 2 ≤ size := by
  obtain ⟨k, h1, -, rfl⟩ := h
  calc 2 = 2 ^ 1 := rfl
    _ ≤ 2 ^ k := Nat.pow_le_pow_right Nat.two_pos h1

theorem IsSize.le {size : ℕ} (h : IsSize size) : size ≤ 256 := by
  obtain ⟨k, -, h8, rfl⟩ := h
  calc 2 ^ k ≤ 2 ^ 8 := Nat.pow_le_pow_right Nat.two_pos h8
    _ = 256 := rfl

theorem IsSize.dvd {size : ℕ} (h : IsSize size) : size ∣ 2 ^ 32 := by
  obtain ⟨k, -, h8, rfl⟩ := h
  exact pow_dvd_pow 2 (by omega)

/-- Masking is taking the remainder. -/
theorem Within.and_mask {size : ℕ} {r : Ringbufindex} (h : Within size r) (x : UInt32) :
    (x &&& r.mask.toUInt32).toNat = x.toNat % size := by
  obtain ⟨k, -, -, hk⟩ := h.isSize
  have hmask : r.mask.toUInt32.toNat = 2 ^ k - 1 := by
    have hm := h.mask
    rw [UInt8.toNat_toUInt32]
    omega
  rw [UInt32.toNat_and, hmask, Nat.and_two_pow_sub_one_eq_mod, hk]

/-- The difference of the pointers, around the end of the buffer or not. -/
theorem Within.masked {size : ℕ} {r : Ringbufindex} (h : Within size r) :
    (masked r).toNat = (r.putPtr.toNat + size - r.getPtr.toNat) % size := by
  have hput := h.putPtr
  have hget := h.getPtr
  have hle := h.isSize.le
  obtain ⟨c, hc⟩ := h.isSize.dvd
  have hpos : 0 < c := by
    rcases Nat.eq_zero_or_pos c with rfl | hpos
    · omega
    · exact hpos
  unfold RingIndex.masked
  rw [h.and_mask, UInt32.toNat_sub, UInt8.toNat_toUInt32, UInt8.toNat_toUInt32,
    Nat.mod_mod_of_dvd _ h.isSize.dvd]
  -- `2 ^ 32` is one size and some more of them
  have hsplit : size * c = size + size * (c - 1) := by
    obtain ⟨m, rfl⟩ := Nat.exists_eq_add_of_le' hpos
    rw [Nat.add_sub_cancel, Nat.mul_add, Nat.mul_one, Nat.add_comm]
  have hsum : 2 ^ 32 - r.getPtr.toNat + r.putPtr.toNat =
      r.putPtr.toNat + size - r.getPtr.toNat + size * (c - 1) := by omega
  rw [hsum, Nat.add_mul_mod_self_left]

theorem Within.next {size : ℕ} {r : Ringbufindex} (h : Within size r) (ptr : UInt8) :
    (next r ptr).toNat = (ptr.toNat + 1) % size := by
  have hlt := ptr.toNat_lt
  have hle := h.isSize.le
  have hpos : 0 < size := by
    have := h.isSize.two_le
    omega
  have hmod := Nat.mod_lt (ptr.toNat + 1) hpos
  have hsucc : (ptr.toUInt32 + 1).toNat = ptr.toNat + 1 := by
    rw [UInt32.toNat_add, UInt8.toNat_toUInt32, show (1 : UInt32).toNat = 1 from rfl]
    omega
  unfold RingIndex.next
  rw [UInt32.toNat_toUInt8, h.and_mask, hsucc]
  omega

theorem within_init {size : ℕ} (h : IsSize size) :
    Within size (ringbufindexInit (UInt8.ofNat size)) := by
  have h2 := h.two_le
  have hle := h.le
  refine ⟨h, ?_, by rw [ringbufindexInit]; exact lt_of_lt_of_le Nat.zero_lt_two h2,
    by rw [ringbufindexInit]; exact lt_of_lt_of_le Nat.zero_lt_two h2⟩
  rw [ringbufindexInit, UInt8.toNat_sub, UInt8.toNat_ofNat', show (1 : UInt8).toNat = 1 from rfl]
  omega

/-! ## The ring buffer behind it -/

/-- The index buffer and the array, as one ring buffer. -/
def User.buffer {size : ℕ} (s : User α) (h : Within size s.ring) : RingBuffer α where
  mask := s.ring.mask.toNat
  putPtr := s.ring.putPtr.toNat
  getPtr := s.ring.getPtr.toNat
  array := s.array
  putPtr_le := by
    have h1 := h.mask
    have h2 := h.putPtr
    omega
  getPtr_le := by
    have h1 := h.mask
    have h2 := h.getPtr
    omega

section Buffer

variable {size : ℕ} {s : User α}

theorem masked_eq_elements (h : Within size s.ring) :
    (masked s.ring).toNat = (s.buffer h).elements := by
  rw [h.masked, RingBuffer.elements]
  simp only [User.buffer, h.mask]

theorem masked_full_iff (h : Within size s.ring) :
    masked s.ring = s.ring.mask.toUInt32 ↔ (s.buffer h).elements = (s.buffer h).mask := by
  rw [← masked_eq_elements h, ← UInt32.toNat_inj, UInt8.toNat_toUInt32]
  rfl

theorem masked_pos_iff (h : Within size s.ring) :
    0 < masked s.ring ↔ 0 < (s.buffer h).elements := by
  rw [← masked_eq_elements h, UInt32.lt_iff_toNat_lt]
  rfl

/-- A call keeps the pointers inside, and does to the queue what it should. -/
theorem call_spec (h : Within size s.ring) (c : Call α) :
    ∃ h' : Within size (s.call c).2.ring,
      ((s.call c).2.buffer h').toList = fifoStep (size - 1) (s.buffer h).toList c := by
  have hmask := h.mask
  -- Writing the index and masking it keep both indices within the array.
  cases c with
  | put a =>
    by_cases hfull : masked s.ring = s.ring.mask.toUInt32
    · have hsame : (s.call (.put a)).2 = s := by
        simp [User.call, ringbufindexPut, ringbufindexPeekPut, hfull]
      rw [hsame]
      refine ⟨h, ?_⟩
      rw [fifoStep, RingBuffer.length_toList, (masked_full_iff h).1 hfull, if_neg]
      change ¬ s.ring.mask.toNat < size - 1
      omega
    · have hne := mt (masked_full_iff h).2 hfull
      have hput : (s.call (.put a)).2 =
          ⟨{ s.ring with putPtr := next s.ring s.ring.putPtr },
            Function.update s.array s.ring.putPtr.toNat a⟩ := by
        have hindex : ¬ ((s.ring.putPtr.toNat : ℤ) = -1) := by omega
        simp [User.call, ringbufindexPut, ringbufindexPeekPut, hfull, hindex]
      rw [hput]
      have hwithin : Within size { s.ring with putPtr := next s.ring s.ring.putPtr } := by
        refine ⟨h.isSize, h.mask, ?_, h.getPtr⟩
        rw [h.next]
        exact Nat.mod_lt _ (by have := h.isSize.two_le; omega)
      refine ⟨hwithin, ?_⟩
      have hpeek : (s.buffer h).peekPut = some s.ring.putPtr.toNat := by
        unfold RingBuffer.peekPut
        rw [if_neg hne]
        rfl
      have hbuf : User.buffer ⟨{ s.ring with putPtr := next s.ring s.ring.putPtr },
          Function.update s.array s.ring.putPtr.toNat a⟩ hwithin =
          ((s.buffer h).write s.ring.putPtr.toNat a).put := by
        have hne' : ((s.buffer h).write s.ring.putPtr.toNat a).elements ≠
            ((s.buffer h).write s.ring.putPtr.toNat a).mask := hne
        unfold RingBuffer.put
        rw [if_neg hne']
        simp only [User.buffer, RingBuffer.write, h.next, hmask]
      have hle := (s.buffer h).elements_le
      rw [hbuf, RingBuffer.toList_push hpeek, fifoStep, RingBuffer.length_toList, if_pos]
      change (s.buffer h).elements ≠ s.ring.mask.toNat at hne
      change (s.buffer h).elements ≤ s.ring.mask.toNat at hle
      omega
  | get =>
    by_cases hpos : 0 < masked s.ring
    · have hget : (s.call .get).2 =
          ⟨{ s.ring with getPtr := next s.ring s.ring.getPtr }, s.array⟩ := by
        simp [User.call, ringbufindexGet, hpos]
      rw [hget]
      have hwithin : Within size { s.ring with getPtr := next s.ring s.ring.getPtr } := by
        refine ⟨h.isSize, h.mask, h.putPtr, ?_⟩
        rw [h.next]
        exact Nat.mod_lt _ (by have := h.isSize.two_le; omega)
      refine ⟨hwithin, ?_⟩
      have hpos' := (masked_pos_iff h).1 hpos
      have hbuf : User.buffer ⟨{ s.ring with getPtr := next s.ring s.ring.getPtr }, s.array⟩
          hwithin = (s.buffer h).get := by
        unfold RingBuffer.get
        rw [if_pos hpos']
        simp only [User.buffer, h.next, hmask]
      have hpeek : (s.buffer h).peekGet = some (s.array s.ring.getPtr.toNat) := by
        unfold RingBuffer.peekGet
        rw [if_pos hpos']
        rfl
      rw [hbuf, fifoStep, RingBuffer.toList_pop hpeek, List.tail_cons]
    · have hsame : (s.call .get).2 = s := by
        simp [User.call, ringbufindexGet, hpos]
      have hnil : (s.buffer h).toList = [] := by
        apply RingBuffer.toList_eq_nil
        unfold RingBuffer.peekGet
        rw [if_neg (mt (masked_pos_iff h).2 hpos)]
      rw [hsame]
      exact ⟨h, by rw [fifoStep, hnil, List.tail_nil]⟩
  | peekPut => exact ⟨h, rfl⟩
  | peekGet => exact ⟨h, rfl⟩
  | full => exact ⟨h, rfl⟩
  | empty => exact ⟨h, rfl⟩
  | elements => exact ⟨h, rfl⟩
  | size => exact ⟨h, rfl⟩

/-- What the calls return in a state with the pointers inside. -/
theorem holds_buffer (h : Within size s.ring) :
    Holds size s (s.buffer h).toList (s.buffer h).cells := by
  have hmask := h.mask
  have h2 := h.isSize.two_le
  have hle : (s.buffer h).elements ≤ s.ring.mask.toNat := (s.buffer h).elements_le
  have hlen : (s.buffer h).toList.length = (s.buffer h).elements := RingBuffer.length_toList _
  -- The four answers compare the same number with the size.
  have hfull : masked s.ring = s.ring.mask.toUInt32 ↔ (s.buffer h).toList.length = size - 1 := by
    rw [masked_full_iff h, hlen]
    change (s.buffer h).elements = s.ring.mask.toNat ↔ _
    omega
  have hpos : 0 < masked s.ring ↔ (s.buffer h).cells ≠ [] := by
    rw [masked_pos_iff h, ← RingBuffer.length_cells, List.length_pos_iff]
  have hempty : (s.buffer h).toList = [] ↔ (s.buffer h).elements = 0 := by
    rw [← hlen, List.length_eq_zero_iff]
  have hhead : ∀ hne : (s.buffer h).cells ≠ [],
      (s.buffer h).cells.head hne = s.ring.getPtr.toNat := by
    intro hne
    have hpos' := (masked_pos_iff h).1 (hpos.2 hne)
    have hsome := RingBuffer.head?_cells hpos'
    rw [List.head?_eq_some_head hne, Option.some.injEq] at hsome
    exact hsome
  have hindex : (ringbufindexGet s.ring).1 = ringbufindexPeekGet s.ring := by
    unfold ringbufindexGet ringbufindexPeekGet
    split <;> rfl
  have hoccupied : ringbufindexPeekGet s.ring =
      if hc : (s.buffer h).cells = [] then (-1 : ℤ) else (s.buffer h).cells.head hc := by
    unfold ringbufindexPeekGet
    by_cases hc : (s.buffer h).cells = []
    · rw [if_neg (fun hp => hpos.1 hp hc), dif_pos hc]
    · rw [if_pos (hpos.2 hc), dif_neg hc, hhead hc]
  refine ⟨RingBuffer.map_cells (s.buffer h), RingBuffer.cells_nodup _, ?_, ?_, by omega, ?_, ?_, ?_, ?_, ?_,
    hoccupied, hindex.trans hoccupied⟩
  · intro i hi
    have hi' : i ≤ s.ring.mask.toNat := RingBuffer.cells_le hi
    omega
  · change ((masked s.ring).toNat : ℤ) = _
    rw [masked_eq_elements h, hlen]
  · exact if_congr hfull rfl rfl
  · refine if_congr ?_ rfl rfl
    change ((masked s.ring).toNat : ℤ) = 0 ↔ _
    rw [masked_eq_elements h, Int.natCast_eq_zero, hempty]
  · change (s.ring.mask.toNat : ℤ) + 1 = size
    omega
  · change (if masked s.ring = s.ring.mask.toUInt32 then (-1 : ℤ) else s.ring.putPtr.toNat) = -1 ∧ _
      ∨ _
    by_cases hf : masked s.ring = s.ring.mask.toUInt32
    · exact .inl ⟨if_pos hf, hfull.1 hf⟩
    · have hnot := mt hfull.2 hf
      exact .inr ⟨s.ring.putPtr.toNat, if_neg hf, h.putPtr, RingBuffer.putPtr_notMem_cells,
        by omega⟩
  · intro a
    change (ringbufindexPut s.ring).1 = _
    unfold ringbufindexPut
    by_cases hf : masked s.ring = s.ring.mask.toUInt32
    · rw [if_pos hf, if_neg (by have := hfull.1 hf; omega)]
    · have hnot := mt hfull.2 hf
      rw [if_neg hf, if_pos (by omega)]

end Buffer

/-! ## Result -/

/-- A run keeps the pointers inside, and the buffer holds the queue of the calls. -/
theorem run_spec {size : ℕ} (hsize : IsSize size) (array : ℕ → α) (calls : List (Call α)) :
    ∃ h : Within size (User.run size array calls).ring,
      ((User.run size array calls).buffer h).toList = fifoRun (size - 1) calls := by
  induction calls using List.reverseRec with
  | nil =>
    refine ⟨within_init hsize, ?_⟩
    apply RingBuffer.toList_eq_nil
    unfold RingBuffer.peekGet
    have hzero : ¬ 0 < masked (User.run size array []).ring := by
      simp [User.run, ringbufindexInit, masked]
    exact if_neg (mt (masked_pos_iff (s := User.run size array []) (within_init hsize)).2 hzero)
  | append_singleton calls c ih =>
    obtain ⟨h, hq⟩ := ih
    obtain ⟨h', hq'⟩ := call_spec h c
    have hrun : User.run size array (calls ++ [c]) = ((User.run size array calls).call c).2 := by
      rw [User.run, List.foldl_append]
      rfl
    have hfifo : fifoRun (size - 1) (calls ++ [c]) =
        fifoStep (size - 1) (fifoRun (size - 1) calls) c := by
      rw [fifoRun, List.foldl_append]
      rfl
    rw [hrun, hfifo, ← hq]
    exact ⟨h', hq'⟩

/-- After any sequence of calls the index buffer and the array hold the queue that the calls make
of an empty one, and every call returns what it should. -/
theorem ring_index_refines_fifo {size : ℕ} (hsize : IsSize size) (array : ℕ → α)
    (calls : List (Call α)) :
    ∃ cells, Holds size (User.run size array calls) (fifoRun (size - 1) calls) cells := by
  obtain ⟨h, hq⟩ := run_spec hsize array calls
  rw [← hq]
  exact ⟨_, holds_buffer h⟩

/-- A buffer of size 256: what was put first is the first to be taken. -/
theorem ring_index_refines_fifo_256 :
    IsSize 256 ∧ ∃ cells, Holds 256 (User.run 256 (fun _ => 0) [.put 7, .put 8, .get]) [8] cells :=
  have hsize : IsSize 256 := ⟨8, by decide, by decide, rfl⟩
  ⟨hsize, ring_index_refines_fifo hsize (fun _ => 0) [.put 7, .put 8, .get]⟩

end MasterScheduler.Mote.RingIndex

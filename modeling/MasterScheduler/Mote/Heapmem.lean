import MasterScheduler.Lib.Linked
import MasterScheduler.Lib.Signed
import MasterScheduler.Lib.Tiling
import MasterScheduler.Lib.Words

/-!
# MasterScheduler.Mote.Heapmem — the heap allocator

`heapmem.c` keeps its chunks in the bytes of the arena: the header of a chunk
stands in front of its data, and the headers of free chunks are linked.

1. **Model**: the functions on a memory of bytes. Sizes and pointers are words
   that wrap, the difference of two sizes is an `int`.
2. **Headers**: a write to one header and a read of another.
3. **Free list**: what `allocate_chunk` and `free_chunk` do to the links.

The debugging fields of a chunk and the statistics are left out.
-/

namespace MasterScheduler.Mote.Heapmem

open Lib

/-! ## Model -/

/-- What the platform and the configuration fix. -/
structure Target where
  /-- `sizeof(size_t)`, which is also the size of a pointer. -/
  wordBytes : ℕ
  /-- The bits of an `int`. -/
  intBits : ℕ
  /-- `sizeof(chunk_t)`, with its padding. -/
  chunkBytes : ℕ
  /-- `HEAPMEM_ALIGNMENT` is this power of two. -/
  alignBits : ℕ
  /-- `CHUNK_SEARCH_MAX`. -/
  searchMax : ℕ
  /-- The address of `heap_base`. -/
  heapBase : ℕ
  /-- `HEAPMEM_ARENA_SIZE`. -/
  arenaSize : ℕ
  chunk_fits : 3 * wordBytes < chunkBytes
  base_pos : 0 < heapBase
  arena_fits : heapBase + arenaSize < 256 ^ wordBytes
  align_fits : alignBits ≤ 8 * wordBytes
  int_pos : 0 < intBits
  int_fits : intBits ≤ 8 * wordBytes

variable (t : Target)

/-- What a `size_t` or a pointer keeps of a number. -/
def Target.wrap (n : ℕ) : ℕ := n % 256 ^ t.wordBytes

/-- The difference of two words. -/
def Target.sub (m n : ℕ) : ℕ := t.wrap (m + 256 ^ t.wordBytes - n)

/-- `HEAPMEM_ALIGNMENT`. -/
def Target.alignment : ℕ := 2 ^ t.alignBits

/-- `ALIGN`. -/
def Target.align (size : ℕ) : ℕ :=
  t.wrap (size + (t.alignment - 1)) &&& (256 ^ t.wordBytes - 1 - (t.alignment - 1))

/-- The fields of a `chunk_t`. -/
inductive Field
  | prev
  | next
  | size
  | flags
deriving DecidableEq

/-- Where a field is in the header. -/
def Field.offset : Field → ℕ
  | .prev => 0
  | .next => t.wordBytes
  | .size => 2 * t.wordBytes
  | .flags => 3 * t.wordBytes

/-- The bytes of a field. -/
def Field.bytes : Field → ℕ
  | .flags => 1
  | _ => t.wordBytes

/-- The memory and the variables of `heapmem.c`. -/
structure State where
  mem : Memory
  heapUsage : ℕ
  freeList : ℕ

/-- `chunk->f`. -/
def State.get (s : State) (f : Field) (chunk : ℕ) : ℕ :=
  s.mem.load (chunk + f.offset t) (f.bytes t)

/-- `chunk->f = v`. -/
def State.set (s : State) (f : Field) (chunk v : ℕ) : State :=
  { s with mem := s.mem.store (chunk + f.offset t) (f.bytes t) v }

/-- `free_list = chunk`. -/
def State.setFreeList (s : State) (chunk : ℕ) : State := { s with freeList := chunk }

/-- `chunk->prev = v`, unless the chunk is null. -/
def State.setPrev (s : State) (chunk v : ℕ) : State :=
  if chunk = 0 then s else s.set t .prev chunk v

/-- `CHUNK_ALLOCATED`. -/
def chunkAllocated (s : State) (chunk : ℕ) : Bool := s.get t .flags chunk &&& 1 != 0

/-- `NEXT_CHUNK`. -/
def nextChunk (s : State) (chunk : ℕ) : ℕ := t.wrap (chunk + t.chunkBytes + s.get t .size chunk)

/-- `&heap_base[heap_usage]`. -/
def heapEnd (s : State) : ℕ := t.wrap (t.heapBase + s.heapUsage)

/-- `IS_LAST_CHUNK`. -/
def isLastChunk (s : State) (chunk : ℕ) : Bool := decide (nextChunk t s chunk = heapEnd t s)

/-- `GET_CHUNK`. -/
def getChunk (ptr : ℕ) : ℕ := t.sub ptr t.chunkBytes

/-- `GET_PTR`. -/
def getPtr (chunk : ℕ) : ℕ := t.wrap (chunk + t.chunkBytes)

/-- `extend_space`. -/
def extendSpace (s : State) (size : ℕ) : Option (ℕ × State) :=
  if t.wrap (s.heapUsage + size) > t.arenaSize then none
  else some (heapEnd t s, { s with heapUsage := t.wrap (s.heapUsage + size) })

/-- `free_chunk`. -/
def freeChunk (s : State) (chunk : ℕ) : State :=
  let s := s.set t .flags chunk (s.get t .flags chunk &&& 254)
  if isLastChunk t s chunk then
    { s with heapUsage := t.sub s.heapUsage (t.wrap (t.chunkBytes + s.get t .size chunk)) }
  else
    let s := (s.set t .prev chunk 0).set t .next chunk s.freeList
    (s.setPrev t s.freeList chunk).setFreeList chunk

/-- `allocate_chunk`. -/
def allocateChunk (s : State) (chunk : ℕ) : State :=
  let s := s.set t .flags chunk (s.get t .flags chunk ||| 1)
  let s :=
    if chunk = s.freeList then
      let s := s.setFreeList (s.get t .next chunk)
      s.setPrev t s.freeList 0
    else s.set t .next (s.get t .prev chunk) (s.get t .next chunk)
  s.setPrev t (s.get t .next chunk) (s.get t .prev chunk)

/-- `split_chunk`. -/
def splitChunk (s : State) (chunk offset : ℕ) : State :=
  let offset := t.align offset
  if t.wrap (offset + t.chunkBytes) < s.get t .size chunk then
    let newChunk := t.wrap (getPtr t chunk + offset)
    let s := s.set t .size newChunk (t.sub (t.sub (s.get t .size chunk) t.chunkBytes) offset)
    let s := s.set t .flags newChunk 0
    let s := freeChunk t s newChunk
    let s := s.set t .size chunk offset
    (s.set t .prev chunk 0).set t .next chunk 0
  else s

/-- One round of `coalesce_chunks`. -/
def absorb (s : State) (chunk next : ℕ) : State :=
  allocateChunk t (s.set t .size chunk
    (t.wrap (s.get t .size chunk + t.wrap (t.chunkBytes + s.get t .size next)))) next

/-- The loop of `coalesce_chunks`, with a bound on its rounds. -/
def coalesceLoop : ℕ → State → ℕ → ℕ → State
  | 0, s, _, _ => s
  | fuel + 1, s, chunk, next =>
    if next < heapEnd t s && !chunkAllocated t s next then
      coalesceLoop fuel (absorb t s chunk next) chunk (nextChunk t (absorb t s chunk next) next)
    else s

/-- `coalesce_chunks`. A chunk is not empty, so the arena bounds the rounds. -/
def coalesceChunks (s : State) (chunk : ℕ) : State :=
  coalesceLoop t (t.arenaSize + 1) s chunk (nextChunk t s chunk)

/-- The loop of `defrag_chunks`. -/
def defragLoop : ℕ → State → ℕ → State
  | 0, s, _ => s
  | i + 1, s, chunk =>
    if chunk = 0 then s
    else defragLoop i (coalesceChunks t s chunk) ((coalesceChunks t s chunk).get t .next chunk)

/-- `defrag_chunks`. -/
def defragChunks (s : State) : State := defragLoop t t.searchMax s s.freeList

/-- The smaller one of a chunk and the best one so far. -/
def betterChunk (s : State) (chunk : ℕ) : Option ℕ → ℕ
  | none => chunk
  | some best => if s.get t .size chunk < s.get t .size best then chunk else best

/-- The search of `get_free_chunk`, with the best chunk so far. -/
def searchLoop (s : State) (size : ℕ) : ℕ → ℕ → Option ℕ → Option ℕ
  | 0, _, best => best
  | i + 1, chunk, best =>
    if chunk = 0 then best
    else if size ≤ s.get t .size chunk then
      let best := betterChunk t s chunk best
      if s.get t .size best = size then some best
      else searchLoop s size i (s.get t .next chunk) (some best)
    else searchLoop s size i (s.get t .next chunk) best

/-- `get_free_chunk`. -/
def getFreeChunk (s : State) (size : ℕ) : Option ℕ × State :=
  let s := defragChunks t s
  match searchLoop t s size t.searchMax s.freeList none with
  | some best => (some best, splitChunk t (allocateChunk t s best) best size)
  | none => (none, s)

/-- The chunk for an allocation: a free one, or one at the end of the heap. -/
def takeChunk (s : State) (size : ℕ) : Option ℕ × State :=
  match getFreeChunk t s size with
  | (some chunk, s) => (some chunk, s)
  | (none, s) =>
    match extendSpace t s (t.wrap (t.chunkBytes + size)) with
    | some (chunk, s) => (some chunk, s.set t .size chunk size)
    | none => (none, s)

/-- `heapmem_alloc`. The null pointer is `0`. -/
def heapmemAlloc (s : State) (size : ℕ) : ℕ × State :=
  match takeChunk t s (t.align size) with
  | (some chunk, s) => (getPtr t chunk, s.set t .flags chunk 1)
  | (none, s) => (0, s)

/-- `heapmem_free`. -/
def heapmemFree (s : State) (ptr : ℕ) : State :=
  if ptr = 0 then s else freeChunk t s (getChunk t ptr)

/-- The last resort of `heapmem_realloc`: another place. -/
def moveObject (s : State) (ptr size : ℕ) : ℕ × State :=
  match heapmemAlloc t s size with
  | (0, s) => (0, s)
  | (newptr, s) =>
    let s := { s with mem := s.mem.move newptr ptr (s.get t .size (getChunk t ptr)) }
    (newptr, freeChunk t s (getChunk t ptr))

/-- `heapmem_realloc`. -/
def heapmemRealloc (s : State) (ptr size : ℕ) : ℕ × State :=
  if ptr = 0 then heapmemAlloc t s size
  else if size = 0 then (0, heapmemFree t s ptr)
  else
    let chunk := getChunk t ptr
    let size := t.align size
    let sizeAdj := signed t.intBits (t.sub size (s.get t .size chunk))
    if sizeAdj ≤ 0 then (ptr, splitChunk t s chunk size)
    else if isLastChunk t s chunk then
      match extendSpace t s (t.wrap sizeAdj.toNat) with
      | some (_, s) => (ptr, s.set t .size chunk size)
      | none => moveObject t s ptr size
    else
      let s := coalesceChunks t s chunk
      if s.get t .size chunk ≥ size then (ptr, splitChunk t s chunk size)
      else moveObject t s ptr size


/-! ## Headers -/

section

variable {t} {s s' : State} {f g : Field} {a b c i v : ℕ} {hs : List ℕ}

/-- A number that fits is not wrapped. -/
theorem wrap_eq {n : ℕ} (h : n < 256 ^ t.wordBytes) : t.wrap n = n := Nat.mod_eq_of_lt h

/-- Nor is a difference. -/
theorem sub_eq {m n : ℕ} (hm : m < 256 ^ t.wordBytes) (hn : n ≤ m) : t.sub m n = m - n := by
  have hsum : m + 256 ^ t.wordBytes - n = m - n + 256 ^ t.wordBytes := by omega
  rw [Target.sub, Target.wrap, hsum, Nat.add_mod_right, Nat.mod_eq_of_lt (by omega)]

/-- The headers of two chunks do not overlap. -/
def Apart (t : Target) (a b : ℕ) : Prop := a + t.chunkBytes ≤ b ∨ b + t.chunkBytes ≤ a

/-- The headers at these addresses do not overlap. -/
def Separate (t : Target) (hs : List ℕ) : Prop := ∀ a ∈ hs, ∀ b ∈ hs, a ≠ b → Apart t a b

/-- A field is in its header. -/
theorem offset_bytes_le (f : Field) : f.offset t + f.bytes t ≤ t.chunkBytes := by
  have h := t.chunk_fits
  cases f <;> simp only [Field.offset, Field.bytes] <;> omega

/-- Two fields do not overlap. -/
theorem fields_apart (h : f ≠ g) :
    f.offset t + f.bytes t ≤ g.offset t ∨ g.offset t + g.bytes t ≤ f.offset t := by
  cases f <;> cases g <;> simp only [Field.offset, Field.bytes, ne_eq, not_true_eq_false] at h ⊢ <;>
    omega

/-- A field is no part of the usage. -/
@[simp] theorem set_heapUsage (s : State) (f : Field) (c v : ℕ) :
    (s.set t f c v).heapUsage = s.heapUsage := rfl

/-- Nor of the pointer to the free list. -/
@[simp] theorem set_freeList (s : State) (f : Field) (c v : ℕ) :
    (s.set t f c v).freeList = s.freeList := rfl

/-- A field has the bytes of its type. -/
theorem get_lt (s : State) (f : Field) (c : ℕ) : s.get t f c < 256 ^ f.bytes t :=
  Memory.load_lt _ _ _

/-- What was written is read. -/
theorem get_set_self (h : v < 256 ^ f.bytes t) : (s.set t f c v).get t f c = v :=
  Memory.load_store h

/-- Another field is not written. -/
theorem get_set_field (h : f ≠ g) : (s.set t g c v).get t f c = s.get t f c := by
  have h' := fields_apart (t := t) h
  exact Memory.load_store_of_apart (by omega)

/-- Another header is not written. -/
theorem get_set_apart (h : Apart t a c) : (s.set t g c v).get t f a = s.get t f a := by
  have hf := offset_bytes_le (t := t) f
  have hg := offset_bytes_le (t := t) g
  unfold Apart at h
  exact Memory.load_store_of_apart (by omega)

/-- What a write to one of several headers leaves of the others. -/
theorem get_set (hsep : Separate t hs) (ha : a ∈ hs) (hc : c ∈ hs) (hv : v < 256 ^ g.bytes t) :
    (s.set t g c v).get t f a = if f = g ∧ a = c then v else s.get t f a := by
  by_cases hac : a = c
  · subst hac
    by_cases hfg : f = g
    · subst hfg
      rw [if_pos ⟨rfl, rfl⟩, get_set_self hv]
    · rw [if_neg (fun h => hfg h.1), get_set_field hfg]
  · rw [if_neg (fun h => hac h.2), get_set_apart (hsep a ha c hc hac)]

/-- Fields depend on the memory only. -/
theorem get_congr (h : s'.mem = s.mem) : s'.get t f c = s.get t f c := by
  rw [State.get, State.get, h]

/-- Only the headers at these addresses changed. -/
def OnlyHeaders (t : Target) (hs : List ℕ) (s s' : State) : Prop :=
  ∀ i, (∀ c ∈ hs, i < c ∨ c + t.chunkBytes ≤ i) → s'.mem i = s.mem i

/-- Nothing is written. -/
theorem OnlyHeaders.refl (hs : List ℕ) (s : State) : OnlyHeaders t hs s s := fun _ _ => rfl

/-- Writes one after the other. -/
theorem OnlyHeaders.trans {s'' : State} (h : OnlyHeaders t hs s s')
    (h' : OnlyHeaders t hs s' s'') : OnlyHeaders t hs s s'' :=
  fun i hi => (h' i hi).trans (h i hi)

/-- A field is written in its header. -/
theorem onlyHeaders_set (hc : c ∈ hs) : OnlyHeaders t hs s (s.set t f c v) := by
  intro i hi
  have hf := offset_bytes_le (t := t) f
  have h := hi c hc
  exact Memory.store_of_apart (by omega)

/-- One field more is written. -/
theorem OnlyHeaders.set (h : OnlyHeaders t hs s s') (hc : c ∈ hs) :
    OnlyHeaders t hs s (s'.set t f c v) :=
  h.trans (onlyHeaders_set hc)

end

/-! ## Free list -/

section

variable {t} {s s' : State} {a c : ℕ} {hs fl : List ℕ}

/-- Headers that do not overlap, at addresses that a pointer can hold. -/
structure Placed (t : Target) (hs : List ℕ) : Prop where
  separate : Separate t hs
  ne_zero : ∀ a ∈ hs, a ≠ 0
  lt : ∀ a ∈ hs, a < 256 ^ t.wordBytes

/-- The free list of a state. -/
def FreeList (t : Target) (s : State) (fl : List ℕ) : Prop :=
  Linked (s.get t .prev) (s.get t .next) 0 s.freeList fl

/-- A flag that is set fits the field. -/
theorem flags_or_lt (s : State) (c : ℕ) : s.get t .flags c ||| 1 < 256 :=
  Nat.or_lt_two_pow (n := 8) (get_lt (t := t) s .flags c) (by decide)

/-- So does one that is cleared. -/
theorem flags_and_lt (s : State) (c : ℕ) : s.get t .flags c &&& 254 < 256 :=
  Nat.and_lt_two_pow (n := 8) _ (by decide)

/-- The fields of all headers after `allocate_chunk`. -/
structure Unlinked (t : Target) (hs : List ℕ) (c : ℕ) (s s' : State) : Prop where
  usage : s'.heapUsage = s.heapUsage
  head : s'.freeList = if s.freeList = c then s.get t .next c else s.freeList
  size : ∀ a ∈ hs, s'.get t .size a = s.get t .size a
  flags : ∀ a ∈ hs, s'.get t .flags a =
    if a = c then s.get t .flags c ||| 1 else s.get t .flags a
  prev : ∀ a ∈ hs, s'.get t .prev a =
    if a = s.get t .next c then s.get t .prev c else s.get t .prev a
  next : ∀ a ∈ hs, s'.get t .next a =
    if a = s.get t .prev c then s.get t .next c else s.get t .next a
  mem : OnlyHeaders t hs s s'

/-- The pointer to the free list is no part of the memory. -/
@[simp] theorem get_setFreeList (s : State) (x : ℕ) (f : Field) (c : ℕ) :
    (s.setFreeList x).get t f c = s.get t f c := rfl

/-- Nor of the usage. -/
@[simp] theorem setFreeList_heapUsage (s : State) (x : ℕ) :
    (s.setFreeList x).heapUsage = s.heapUsage := rfl

/-- The pointer that was set. -/
@[simp] theorem setFreeList_freeList (s : State) (x : ℕ) : (s.setFreeList x).freeList = x := rfl

/-- A back link is no part of the usage. -/
@[simp] theorem setPrev_heapUsage (s : State) (c v : ℕ) :
    (s.setPrev t c v).heapUsage = s.heapUsage := by
  unfold State.setPrev
  split <;> rfl

/-- Nor of the pointer to the free list. -/
@[simp] theorem setPrev_freeList (s : State) (c v : ℕ) :
    (s.setPrev t c v).freeList = s.freeList := by
  unfold State.setPrev
  split <;> rfl

/-- A back link is written, unless it is that of chunk 0. -/
theorem get_setPrev {f : Field} {v : ℕ} (hp : Placed t hs) (ha : a ∈ hs) (hc : c = 0 ∨ c ∈ hs)
    (hv : v < 256 ^ t.wordBytes) :
    (s.setPrev t c v).get t f a = if f = .prev ∧ a = c then v else s.get t f a := by
  unfold State.setPrev
  rcases hc with rfl | hc
  · rw [if_pos rfl, if_neg (fun h => hp.ne_zero a ha h.2)]
  · rw [if_neg (hp.ne_zero c hc), get_set hp.separate ha hc hv]

/-- Only the header of the chunk is written. -/
theorem onlyHeaders_setPrev {v : ℕ} (hc : c = 0 ∨ c ∈ hs) :
    OnlyHeaders t hs s (s.setPrev t c v) := by
  unfold State.setPrev
  split
  · exact .refl hs s
  · rename_i hne
    exact onlyHeaders_set (hc.resolve_left hne)

/-- An allocated chunk is out of the free list. -/
theorem allocateChunk_unlinked (hp : Placed t hs) (hsub : ∀ a ∈ fl, a ∈ hs)
    (hfl : FreeList t s fl) (hc : c ∈ fl) : Unlinked t hs c s (allocateChunk t s c) := by
  have hchs := hsub c hc
  have hnext : s.get t .next c = 0 ∨ s.get t .next c ∈ hs := (hfl.next_mem hc).imp_right (hsub _)
  have hnextlt : s.get t .next c < 256 ^ t.wordBytes := get_lt (t := t) s .next c
  have hprevlt : s.get t .prev c < 256 ^ t.wordBytes := get_lt (t := t) s .prev c
  have hzero : 0 < 256 ^ t.wordBytes := Nat.pow_pos (by decide)
  have hflag : ∀ f, ∀ a ∈ hs, (s.set t .flags c (s.get t .flags c ||| 1)).get t f a =
      if f = .flags ∧ a = c then s.get t .flags c ||| 1 else s.get t f a :=
    fun f a ha => get_set hp.separate ha hchs (flags_or_lt s c)
  -- The chunk is the first of the free list, or it has a free chunk before it.
  by_cases hhead : c = s.freeList
  · have hprev : s.get t .prev c = 0 := by
      rw [hhead]
      exact hfl.prev_head (hhead ▸ hc)
    have heq : allocateChunk t s c =
        (((s.set t .flags c (s.get t .flags c ||| 1)).setFreeList (s.get t .next c)).setPrev t
          (s.get t .next c) 0).setPrev t (s.get t .next c) 0 := by
      simp [allocateChunk, ← hhead, hflag _ c hchs, get_setPrev hp hchs hnext hzero, hprev]
    have hget : ∀ f, ∀ a ∈ hs, (allocateChunk t s c).get t f a =
        if f = .prev ∧ a = s.get t .next c then 0
        else if f = .flags ∧ a = c then s.get t .flags c ||| 1 else s.get t f a := by
      intro f a ha
      rw [heq, get_setPrev hp ha hnext hzero, get_setPrev hp ha hnext hzero, get_setFreeList,
        hflag f a ha]
      split <;> rfl
    refine ⟨?_, ?_, ?_, ?_, ?_, ?_, ?_⟩
    · simp [heq]
    · simp [heq, ← hhead]
    · intro a ha
      simp [hget .size a ha]
    · intro a ha
      simp [hget .flags a ha]
    · intro a ha
      simp [hget .prev a ha, hprev]
    · intro a ha
      simp [hget .next a ha, hprev, hp.ne_zero a ha]
    · rw [heq]
      have hfirst : OnlyHeaders t hs s ((s.set t .flags c (s.get t .flags c ||| 1)).setFreeList
          (s.get t .next c)) := onlyHeaders_set (f := .flags) hchs
      exact (hfirst.trans (onlyHeaders_setPrev hnext)).trans (onlyHeaders_setPrev hnext)
  · have hprev : s.get t .prev c ∈ hs := by
      rcases hfl.prev_mem hc with ⟨h, _⟩ | h
      · exact absurd h.symm hhead
      · exact hsub _ h
    have hlink : ∀ f, ∀ a ∈ hs, ((s.set t .flags c (s.get t .flags c ||| 1)).set t .next
        (s.get t .prev c) (s.get t .next c)).get t f a =
          if f = .next ∧ a = s.get t .prev c then s.get t .next c
          else if f = .flags ∧ a = c then s.get t .flags c ||| 1 else s.get t f a := by
      intro f a ha
      rw [get_set hp.separate ha hprev (g := .next) hnextlt, hflag f a ha]
    have heq : allocateChunk t s c =
        ((s.set t .flags c (s.get t .flags c ||| 1)).set t .next (s.get t .prev c)
          (s.get t .next c)).setPrev t (s.get t .next c) (s.get t .prev c) := by
      simp [allocateChunk, hhead, hflag _ c hchs, hlink _ c hchs]
    have hget : ∀ f, ∀ a ∈ hs, (allocateChunk t s c).get t f a =
        if f = .prev ∧ a = s.get t .next c then s.get t .prev c
        else if f = .next ∧ a = s.get t .prev c then s.get t .next c
        else if f = .flags ∧ a = c then s.get t .flags c ||| 1 else s.get t f a := by
      intro f a ha
      rw [heq, get_setPrev hp ha hnext hprevlt, hlink f a ha]
    refine ⟨?_, ?_, ?_, ?_, ?_, ?_, ?_⟩
    · simp [heq]
    · simp [heq, Ne.symm hhead]
    · intro a ha
      simp [hget .size a ha]
    · intro a ha
      simp [hget .flags a ha]
    · intro a ha
      simp [hget .prev a ha]
    · intro a ha
      simp [hget .next a ha]
    · rw [heq]
      have hfirst : OnlyHeaders t hs s (s.set t .flags c (s.get t .flags c ||| 1)) :=
        onlyHeaders_set hchs
      exact (hfirst.set hprev).trans (onlyHeaders_setPrev hnext)

/-- What becomes of the headers when one chunk is marked as allocated or free. -/
structure Marked (t : Target) (hs : List ℕ) (c : ℕ) (allocated : Bool) (s s' : State) : Prop where
  size : ∀ a ∈ hs, s'.get t .size a = s.get t .size a
  self : chunkAllocated t s' c = allocated
  other : ∀ a ∈ hs, a ≠ c → chunkAllocated t s' a = chunkAllocated t s a
  mem : OnlyHeaders t hs s s'

/-- The lowest bit is set. -/
theorem allocated_or (n : ℕ) : ((n ||| 1) &&& 1 != 0) = true := by
  rw [Nat.and_or_distrib_right, Nat.and_one_is_mod]
  rcases Nat.mod_two_eq_zero_or_one n with h | h <;> rw [h] <;> rfl

/-- An allocated chunk is marked and leaves the free list, the others stay in order. -/
theorem allocateChunk_spec (hp : Placed t hs) (hsub : ∀ a ∈ fl, a ∈ hs)
    (hfl : FreeList t s fl) (hnodup : fl.Nodup) (hc : c ∈ fl) :
    Marked t hs c true s (allocateChunk t s c) ∧ FreeList t (allocateChunk t s c) (fl.erase c) ∧
      (allocateChunk t s c).heapUsage = s.heapUsage := by
  have h := allocateChunk_unlinked hp hsub hfl hc
  refine ⟨⟨h.size, ?_, ?_, h.mem⟩, ?_, h.usage⟩
  · rw [chunkAllocated, h.flags c (hsub c hc), if_pos rfl]
    exact allocated_or _
  · intro a ha hne
    rw [chunkAllocated, h.flags a ha, if_neg hne]
    rfl
  · rw [FreeList, h.head]
    apply Linked.unlink hfl hnodup _ hc
    · intro a ha
      exact h.prev a (hsub a ha)
    · intro a ha
      exact h.next a (hsub a ha)
    · intro h₀
      exact hfl.ne_zero h₀ rfl

/-- A chunk is freed that is not the last one. -/
theorem freeChunk_spec (hp : Placed t hs) (hsub : ∀ a ∈ fl, a ∈ hs) (hfl : FreeList t s fl)
    (hnodup : fl.Nodup) (hc : c ∈ hs) (hnew : c ∉ fl) (hlast : isLastChunk t s c = false) :
    Marked t hs c false s (freeChunk t s c) ∧ FreeList t (freeChunk t s c) (c :: fl) ∧
      (freeChunk t s c).heapUsage = s.heapUsage := by
  have hhead : s.freeList = 0 ∨ s.freeList ∈ hs := hfl.head_mem.imp_right (hsub _)
  have hheadlt : s.freeList < 256 ^ t.wordBytes := by
    rcases hhead with h | h
    · rw [h]
      exact Nat.pow_pos (by decide)
    · exact hp.lt _ h
  have hheadne : c ≠ s.freeList := by
    rintro rfl
    rcases hfl.head_mem with h | h
    · exact hp.ne_zero _ hc h
    · exact hnew h
  have hzero : 0 < 256 ^ t.wordBytes := Nat.pow_pos (by decide)
  -- The flag is no part of the size, so the chunk is still not the last one.
  have hsize : isLastChunk t (s.set t .flags c (s.get t .flags c &&& 254)) c = false := by
    rw [← hlast, isLastChunk, isLastChunk, nextChunk, nextChunk, get_set_field (by decide)]
    rfl
  have heq : freeChunk t s c =
      ((((s.set t .flags c (s.get t .flags c &&& 254)).set t .prev c 0).set t .next c
        s.freeList).setPrev t s.freeList c).setFreeList c := by
    simp [freeChunk, hsize]
  -- The chunk and the old head of the free list are all that is written.
  have hget : ∀ f, ∀ a ∈ hs, (freeChunk t s c).get t f a =
      if f = .prev ∧ a = s.freeList then c
      else if f = .next ∧ a = c then s.freeList
      else if f = .prev ∧ a = c then 0
      else if f = .flags ∧ a = c then s.get t .flags c &&& 254 else s.get t f a := by
    intro f a ha
    rw [heq, get_setFreeList, get_setPrev hp ha hhead (hp.lt c hc),
      get_set hp.separate ha hc (g := .next) hheadlt, get_set hp.separate ha hc (g := .prev) hzero,
      get_set hp.separate ha hc (flags_and_lt s c)]
  refine ⟨⟨?_, ?_, ?_, ?_⟩, ?_, ?_⟩
  · intro a ha
    simp [hget .size a ha]
  · simp only [chunkAllocated, hget .flags c hc]
    simp
  · intro a ha hne
    simp [chunkAllocated, hget .flags a ha, hne]
  · rw [heq]
    have hfirst : OnlyHeaders t hs s (s.set t .flags c (s.get t .flags c &&& 254)) :=
      onlyHeaders_set hc
    exact ((hfirst.set hc).set hc).trans (onlyHeaders_setPrev hhead)
  · have hfree : (freeChunk t s c).freeList = c := by simp [heq]
    rw [FreeList, hfree]
    apply Linked.push hfl hnodup (hp.ne_zero c hc)
    · intro a ha
      have hne : a ≠ c := fun h => hnew (h ▸ ha)
      simp [hget .prev a (hsub a ha), hne]
    · simp [hget .prev c hc, hheadne]
    · intro a ha
      have hne : a ≠ c := fun h => hnew (h ▸ ha)
      simp [hget .next a (hsub a ha), hne]
    · simp [hget .next c hc]
  · simp [heq]

/-- The last chunk is freed: it leaves the heap. -/
theorem freeChunk_last (hp : Placed t hs) (hsub : ∀ a ∈ fl, a ∈ hs) (hfl : FreeList t s fl)
    (hc : c ∈ hs) (hlast : isLastChunk t s c = true) :
    Marked t hs c false s (freeChunk t s c) ∧ FreeList t (freeChunk t s c) fl ∧
      (freeChunk t s c).heapUsage =
        t.sub s.heapUsage (t.wrap (t.chunkBytes + s.get t .size c)) := by
  have hsize : (s.set t .flags c (s.get t .flags c &&& 254)).get t .size c = s.get t .size c :=
    get_set_field (by decide)
  have hlast' : isLastChunk t (s.set t .flags c (s.get t .flags c &&& 254)) c = true := by
    rw [← hlast, isLastChunk, isLastChunk, nextChunk, nextChunk, hsize]
    rfl
  -- The last chunk does not enter the free list.
  have hfree : (freeChunk t s c).freeList = s.freeList := by
    simp [freeChunk, hlast']
  have hmem : (freeChunk t s c).mem = (s.set t .flags c (s.get t .flags c &&& 254)).mem := by
    simp [freeChunk, hlast']
  have hget : ∀ f, ∀ a ∈ hs, (freeChunk t s c).get t f a =
      if f = .flags ∧ a = c then s.get t .flags c &&& 254 else s.get t f a := by
    intro f a ha
    rw [get_congr hmem, get_set hp.separate ha hc (flags_and_lt s c)]
  refine ⟨⟨?_, ?_, ?_, ?_⟩, ?_, ?_⟩
  · intro a ha
    simp [hget .size a ha]
  · simp only [chunkAllocated, hget .flags c hc]
    simp
  · intro a ha hne
    simp [chunkAllocated, hget .flags a ha, hne]
  · intro i hi
    rw [hmem]
    exact onlyHeaders_set hc i hi
  · rw [FreeList, hfree]
    apply Linked.congr hfl
    · intro a ha
      simp [hget .prev a (hsub a ha)]
    · intro a ha
      simp [hget .next a (hsub a ha)]
  · simp [freeChunk, hlast', hsize]

end

end MasterScheduler.Mote.Heapmem

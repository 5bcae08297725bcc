import MasterScheduler.Lib.Transition
import MasterScheduler.Mote.HeapmemShape

/-!
# MasterScheduler.Mote.HeapmemRuns — a client of the heap

A client allocates, frees and reallocates in any order, and writes to the blocks
it holds. What it holds is recorded next to the state of the allocator.

1. **Client**: the calls, and when a pointer may be passed.
2. **Invariant**: the chunks of the heap are the blocks of the client.
3. **Result**: what holds in every run in which no size wraps. A request that
   wraps is granted with a block that is too small.
-/

namespace MasterScheduler.Mote.Heapmem

open Lib

/-! ## Client -/

/-- The allocator, and the blocks that the client holds with their requested sizes. -/
structure World where
  state : State
  live : List (ℕ × ℕ)

/-- What a client does. -/
inductive Call
  | alloc (size : ℕ)
  | free (ptr : ℕ)
  | realloc (ptr size : ℕ)
  | write (ptr i : ℕ) (byte : UInt8)

variable (t : Target)

/-- The blocks without the one at a pointer. -/
def World.drop (w : World) (ptr : ℕ) : List (ℕ × ℕ) := w.live.filter fun b => b.1 ≠ ptr

/-- The client holds a block at a pointer. -/
def World.Holds (w : World) (ptr : ℕ) : Prop := ∃ b ∈ w.live, b.1 = ptr

/-- Only live pointers are passed, or the null pointer; only own bytes are written. -/
def Call.Valid (w : World) : Call → Prop
  | .alloc size => size < 256 ^ t.wordBytes
  | .free ptr => ptr = 0 ∨ w.Holds ptr
  | .realloc ptr size => (ptr = 0 ∨ w.Holds ptr) ∧ size < 256 ^ t.wordBytes
  | .write ptr i _ => ∃ b ∈ w.live, b.1 = ptr ∧ i < b.2

/-- A call, with what it returns. -/
def World.call (w : World) : Call → ℕ × World
  | .alloc size =>
    let r := heapmemAlloc t w.state size
    (r.1, ⟨r.2, if r.1 = 0 then w.live else (r.1, size) :: w.live⟩)
  | .free ptr => (0, ⟨heapmemFree t w.state ptr, w.drop ptr⟩)
  | .realloc ptr size =>
    let r := heapmemRealloc t w.state ptr size
    -- a block is freed by a reallocation to nothing, and kept by one that fails
    (r.1, ⟨r.2, if ptr ≠ 0 ∧ size = 0 then w.drop ptr
      else if r.1 = 0 then w.live else (r.1, size) :: w.drop ptr⟩)
  | .write ptr i byte =>
    (0, ⟨{ w.state with mem := w.state.mem.write (ptr + i) [byte] }, w.live⟩)

/-- No size wraps in a call. -/
def Call.NoWrap (w : World) : Call → Prop
  | .alloc size => Moderate t w.state size
  | .realloc ptr size =>
    if ptr = 0 then Moderate t w.state size
    else size = 0 ∨
      (t.roundUp size ≤ w.state.get t .size (getChunk t ptr) ∨ Moderate t w.state size) ∧
        FitsInt t ((t.roundUp size : ℤ) - w.state.get t .size (getChunk t ptr))
  | _ => True

/-- The world before the first call. -/
def World.initial (mem : Memory) : World := ⟨⟨mem, 0, 0⟩, []⟩

/-- One call of a client. -/
def World.step (w : World) (c : Call) : Option World := some (w.call t c).2

/-- The runs in which no size wraps. -/
def Call.Good (w : World) (c : Call) : Prop := c.Valid t w ∧ c.NoWrap t w

instance (w : World) (ptr : ℕ) : Decidable (w.Holds ptr) :=
  inferInstanceAs (Decidable (∃ b ∈ w.live, b.1 = ptr))

instance (size : ℕ) (s : State) : Decidable (Moderate t s size) :=
  inferInstanceAs (Decidable (_ < _))

instance (x : ℤ) : Decidable (FitsInt t x) := inferInstanceAs (Decidable (_ ∧ _))

instance (w : World) : (c : Call) → Decidable (c.Valid t w)
  | .alloc _ => inferInstanceAs (Decidable (_ < _))
  | .free _ => inferInstanceAs (Decidable (_ ∨ _))
  | .realloc _ _ => inferInstanceAs (Decidable (_ ∧ _))
  | .write ptr i _ => inferInstanceAs (Decidable (∃ b ∈ w.live, b.1 = ptr ∧ i < b.2))

instance (w : World) : (c : Call) → Decidable (c.NoWrap t w)
  | .alloc _ => inferInstanceAs (Decidable (Moderate t _ _))
  | .free _ => inferInstanceAs (Decidable True)
  | .realloc _ _ => inferInstanceAs (Decidable (ite _ _ _))
  | .write _ _ _ => inferInstanceAs (Decidable True)

instance (w : World) (c : Call) : Decidable (c.Good t w) := inferInstanceAs (Decidable (_ ∧ _))

/-! ## Properties -/

/-- What the allocator promises of a state. -/
structure Sound (t : Target) (w : World) : Prop where
  /-- Chunks tile the heap up to the footprint, and the free ones are listed. -/
  chunks : ∃ cs fl, Tiled (chunkLen t w.state) t.heapBase cs (t.heapBase + w.state.heapUsage) ∧
    FreeList t w.state fl ∧ fl.Nodup ∧
    (∀ a, a ∈ fl ↔ a ∈ cs ∧ ¬ w.Holds (a + t.chunkBytes)) ∧
    ∀ b ∈ w.live, ∃ c ∈ cs, b.1 = c + t.chunkBytes ∧ b.2 ≤ w.state.get t .size c
  fits : w.state.heapUsage ≤ t.arenaSize
  inside : ∀ b ∈ w.live, t.heapBase ≤ b.1 ∧ b.1 + b.2 ≤ t.heapBase + t.arenaSize
  disjoint : w.live.Pairwise fun b b' => b.1 + b.2 ≤ b'.1 ∨ b'.1 + b'.2 ≤ b.1

/-- A call works on the block at a pointer. -/
def Call.On (ptr : ℕ) : Call → Prop
  | .alloc _ => False
  | .free p => p = ptr
  | .realloc p _ => p = ptr
  | .write p _ _ => p = ptr

/-- What a call does to the blocks of the client. -/
structure Respects (t : Target) (w : World) (c : Call) : Prop where
  /-- Other blocks stay as they are. -/
  others : ∀ b ∈ w.live, ¬ c.On b.1 → b ∈ (w.call t c).2.live ∧
    ∀ i < b.2, (w.call t c).2.state.mem (b.1 + i) = w.state.mem (b.1 + i)
  /-- A reallocation that succeeds keeps the bytes that fit. -/
  moved : ∀ ptr old size, c = .realloc ptr size → (ptr, old) ∈ w.live → (w.call t c).1 ≠ 0 →
    ∀ i < min old size,
      (w.call t c).2.state.mem ((w.call t c).1 + i) = w.state.mem (ptr + i)
  /-- One that fails keeps the block. -/
  failed : ∀ ptr old size, c = .realloc ptr size → size ≠ 0 → (ptr, old) ∈ w.live →
    (w.call t c).1 = 0 → (ptr, old) ∈ (w.call t c).2.live ∧
      ∀ i < old, (w.call t c).2.state.mem (ptr + i) = w.state.mem (ptr + i)

/-! ## Invariant -/

section

variable {t} {w : World} {cs fl : List ℕ} {p n i : ℕ}

/-- The allocated chunks are the blocks that the client holds. -/
structure Inv (t : Target) (w : World) (cs fl : List ℕ) : Prop where
  shape : Shape t w.state cs fl
  rooms : ∀ b ∈ w.live, Block t w.state cs b.1 b.2
  held : ∀ p, Block t w.state cs p 0 → w.Holds p
  nodup : (w.live.map Prod.fst).Nodup

theorem Inv.ne_zero (h : Inv t w cs fl) {b : ℕ × ℕ} (hb : b ∈ w.live) : b.1 ≠ 0 := by
  have hin := h.shape.block_inside (h.rooms b hb)
  have hbase := t.base_pos
  omega

theorem Inv.sound (h : Inv t w cs fl) : Sound t w := by
  refine ⟨⟨cs, fl, h.shape.tiled, h.shape.linked, h.shape.nodup, ?_, ?_⟩, h.shape.fits, ?_, ?_⟩
  · intro a
    rw [h.shape.free a]
    apply and_congr_right
    intro ha
    constructor
    · rintro hfree ⟨b, hb, heq⟩
      have hroom := h.rooms b hb
      rw [heq, block_iff, hfree] at hroom
      cases hroom.2.1
    · intro hnot
      cases halloc : chunkAllocated t w.state a with
      | false => rfl
      | true => exact absurd (h.held _ (block_iff.mpr ⟨ha, halloc, Nat.zero_le _⟩)) hnot
  · intro b hb
    obtain ⟨c, hc, _, hp, hlen⟩ := h.rooms b hb
    exact ⟨c, hc, hp, hlen⟩
  · intro b hb
    exact h.shape.block_inside (h.rooms b hb)
  · have hpair := List.pairwise_map.mp h.nodup
    apply hpair.imp_of_mem
    intro b b' hb hb' hne
    exact h.shape.blocks_apart (h.rooms b hb) (h.rooms b' hb') hne

theorem inv_initial (mem : Memory) : Inv t (World.initial mem) [] [] := by
  refine ⟨⟨rfl, Nat.zero_le _, rfl, List.nodup_nil, ?_⟩, ?_, ?_, List.nodup_nil⟩
  · simp
  · intro b hb
    cases hb
  · rintro p ⟨c, hc, -⟩
    cases hc

theorem mem_drop {b : ℕ × ℕ} : b ∈ w.drop p ↔ b ∈ w.live ∧ b.1 ≠ p := by
  simp [World.drop]

theorem Inv.nodup_drop (h : Inv t w cs fl) (p : ℕ) : ((w.drop p).map Prod.fst).Nodup :=
  (List.filter_sublist.map Prod.fst).nodup h.nodup

theorem Inv.drop_zero (h : Inv t w cs fl) : w.drop 0 = w.live := by
  apply List.filter_eq_self.mpr
  intro b hb
  simpa using h.ne_zero hb

section

variable {s' : State} {cs' fl' : List ℕ} {ptr r size : ℕ} {new : ℕ → Prop}

/-- The client holds what it held before. -/
theorem Inv.keep (h : Inv t w cs fl) (hshape : Shape t s' cs' fl')
    (hev : Evolves t AnyBlock new w.state cs s' cs') (hnew : ∀ p, new p → w.Holds p) :
    Inv t ⟨s', w.live⟩ cs' fl' := by
  refine ⟨hshape, ?_, ?_, h.nodup⟩
  · intro b hb
    exact hev.kept _ _ trivial (h.rooms b hb)
  · intro p hb
    rcases hev.blocks p 0 hb with hb' | hp
    · exact h.held p hb'
    · exact hnew p hp

/-- A block is given back. -/
theorem Inv.remove (h : Inv t w cs fl) (hshape : Shape t s' cs' fl')
    (hev : Evolves t (fun p _ => p ≠ ptr) NoBlock w.state cs s' cs')
    (hgone : ¬ Block t s' cs' ptr 0) : Inv t ⟨s', w.drop ptr⟩ cs' fl' := by
  refine ⟨hshape, ?_, ?_, h.nodup_drop ptr⟩
  · intro b hb
    obtain ⟨hb', hne⟩ := mem_drop.mp hb
    exact hev.kept _ _ hne (h.rooms b hb')
  · intro p hb
    rcases hev.blocks p 0 hb with hb' | hp
    · obtain ⟨b, hmem, rfl⟩ := h.held p hb'
      exact ⟨b, mem_drop.mpr ⟨hmem, fun hbp => hgone (hbp ▸ hb)⟩, rfl⟩
    · exact hp.elim

/-- A block takes the place of another one, which may be null. -/
theorem Inv.replace (h : Inv t w cs fl) (hshape : Shape t s' cs' fl')
    (hev : Evolves t (fun p _ => p ≠ ptr) (· = r) w.state cs s' cs')
    (hroom : Block t s' cs' r size) (hfresh : ∀ b ∈ w.drop ptr, b.1 ≠ r)
    (hgone : ptr ≠ r → ¬ Block t s' cs' ptr 0) :
    Inv t ⟨s', (r, size) :: w.drop ptr⟩ cs' fl' := by
  refine ⟨hshape, ?_, ?_, ?_⟩
  · intro b hb
    rcases List.mem_cons.mp hb with rfl | hb
    · exact hroom
    · obtain ⟨hb', hne⟩ := mem_drop.mp hb
      exact hev.kept _ _ hne (h.rooms b hb')
  · intro p hb
    rcases hev.blocks p 0 hb with hb' | rfl
    · obtain ⟨b, hmem, rfl⟩ := h.held p hb'
      by_cases hbp : b.1 = ptr
      · by_cases hpr : ptr = r
        · exact ⟨(r, size), by simp, by rw [hbp, hpr]⟩
        · exact absurd (hbp ▸ hb) (hgone hpr)
      · exact ⟨b, List.mem_cons_of_mem _ (mem_drop.mpr ⟨hmem, hbp⟩), rfl⟩
    · exact ⟨(p, size), by simp, rfl⟩
  · rw [List.map_cons, List.nodup_cons]
    refine ⟨?_, h.nodup_drop ptr⟩
    rintro hmem
    obtain ⟨b, hb, hbr⟩ := List.mem_map.mp hmem
    exact hfresh b hb hbr

end

/-- What a call keeps: the invariant, and the blocks of the client. -/
def Step (t : Target) (w : World) (c : Call) : Prop :=
  (∃ cs fl, Inv t (w.call t c).2 cs fl) ∧ Respects t w c

theorem Inv.alloc {size : ℕ} (h : Inv t w cs fl) (hmod : Moderate t w.state size) :
    Step t w (.alloc size) := by
  obtain ⟨cs', fl', hshape, hcase⟩ := h.shape.heapmemAlloc_spec hmod
  generalize hr : heapmemAlloc t w.state size = r at *
  have hcall : w.call t (.alloc size) =
      (r.1, ⟨r.2, if r.1 = 0 then w.live else (r.1, size) :: w.live⟩) := by
    rw [World.call, hr]
  have hnone : ∀ {P : Prop}, ∀ ptr n, Call.alloc size = .realloc ptr n → P := by
    rintro P ptr n ⟨⟩
  rw [Step, hcall]
  -- Without room nothing happens. Else a block appears that is apart from the live ones.
  rcases hcase with ⟨hzero, hev⟩ | ⟨hne, hev, hroom, hfresh⟩
  · rw [if_pos hzero]
    refine ⟨⟨cs', fl', h.keep hshape hev (fun _ h => h.elim)⟩, ?_, ?_, ?_⟩
    · intro b hb _
      rw [hcall, if_pos hzero]
      exact ⟨hb, hev.bytes _ _ trivial (h.rooms b hb)⟩
    · exact fun ptr _ n hc => hnone ptr n hc
    · exact fun ptr _ n hc => hnone ptr n hc
  · rw [if_neg hne]
    have hold : ∀ b ∈ w.live, b.1 ≠ r.1 := by
      intro b hb hbr
      exact hfresh (hbr ▸ (h.rooms b hb).mono (Nat.zero_le _))
    refine ⟨⟨cs', fl', ?_⟩, ?_, ?_, ?_⟩
    · rw [← h.drop_zero]
      apply h.replace hshape (hev.mono (fun _ _ _ => trivial) (fun _ h => h))
        (hroom.mono (le_roundUp t size))
      · intro b hb
        exact hold b (mem_drop.mp hb).1
      · intro _ hb
        have hin := hshape.block_inside hb
        have hbase := t.base_pos
        omega
    · intro b hb _
      rw [hcall, if_neg hne]
      exact ⟨List.mem_cons_of_mem _ hb, hev.bytes _ _ trivial (h.rooms b hb)⟩
    · exact fun ptr _ n hc => hnone ptr n hc
    · exact fun ptr _ n hc => hnone ptr n hc

/-- The chunk of a block of the client. -/
theorem Inv.chunk {ptr : ℕ} (h : Inv t w cs fl) (hp : w.Holds ptr) :
    ∃ c ∈ cs, chunkAllocated t w.state c = true ∧ ptr = c + t.chunkBytes := by
  obtain ⟨b, hb, rfl⟩ := hp
  obtain ⟨c, hc, halloc, hcp, -⟩ := h.rooms b hb
  exact ⟨c, hc, halloc, hcp⟩

theorem Inv.holds_ne_zero {ptr : ℕ} (h : Inv t w cs fl) (hp : w.Holds ptr) : ptr ≠ 0 := by
  obtain ⟨b, hb, rfl⟩ := hp
  exact h.ne_zero hb

/-- A block is freed. -/
theorem Inv.release {ptr : ℕ} (h : Inv t w cs fl) (hp : w.Holds ptr) :
    ∃ cs' fl', Inv t ⟨heapmemFree t w.state ptr, w.drop ptr⟩ cs' fl' ∧
      ∀ b ∈ w.live, b.1 ≠ ptr →
        ∀ i < b.2, (heapmemFree t w.state ptr).mem (b.1 + i) = w.state.mem (b.1 + i) := by
  have hne := h.holds_ne_zero hp
  obtain ⟨c, hc, halloc, rfl⟩ := h.chunk hp
  obtain ⟨cs', fl', hshape, hev, hgone⟩ := h.shape.freeChunk_spec hc halloc
  rw [heapmemFree, if_neg hne, h.shape.getChunk_eq hc]
  refine ⟨cs', fl', h.remove hshape hev hgone, ?_⟩
  intro b hb hbp
  exact hev.bytes _ _ hbp (h.rooms b hb)

theorem Inv.free {ptr : ℕ} (h : Inv t w cs fl) (hvalid : ptr = 0 ∨ w.Holds ptr) :
    Step t w (.free ptr) := by
  have hnone : ∀ {P : Prop}, ∀ p n, Call.free ptr = .realloc p n → P := by
    rintro P p n ⟨⟩
  by_cases hzero : ptr = 0
  · have hcall : w.call t (.free ptr) = (0, ⟨w.state, w.live⟩) := by
      rw [World.call, hzero, heapmemFree, if_pos rfl, h.drop_zero]
    rw [Step, hcall]
    refine ⟨⟨cs, fl, h⟩, ?_, ?_, ?_⟩
    · intro b hb _
      rw [hcall]
      exact ⟨hb, fun _ _ => rfl⟩
    · exact fun p _ n hc => hnone p n hc
    · exact fun p _ n hc => hnone p n hc
  · obtain ⟨cs', fl', hinv, hbytes⟩ := h.release (hvalid.resolve_left hzero)
    refine ⟨⟨cs', fl', hinv⟩, ?_, ?_, ?_⟩
    · intro b hb hon
      have hne : b.1 ≠ ptr := fun hbp => hon hbp.symm
      exact ⟨mem_drop.mpr ⟨hb, hne⟩, hbytes b hb hne⟩
    · exact fun p _ n hc => hnone p n hc
    · exact fun p _ n hc => hnone p n hc

theorem Inv.write {ptr i : ℕ} {byte : UInt8} (h : Inv t w cs fl)
    (hvalid : ∃ b ∈ w.live, b.1 = ptr ∧ i < b.2) : Step t w (.write ptr i byte) := by
  have hnone : ∀ {P : Prop}, ∀ p n, Call.write ptr i byte = .realloc p n → P := by
    rintro P p n ⟨⟩
  obtain ⟨b, hb, rfl, hi⟩ := hvalid
  have hmem : ∀ j, j < b.1 ∨ b.1 + b.2 ≤ j →
      ({ w.state with mem := w.state.mem.write (b.1 + i) [byte] } : State).mem j =
        w.state.mem j := by
    intro j hj
    rcases hj with hj | hj
    · exact Memory.write_below (by omega)
    · apply Memory.write_above
      simp only [List.length_singleton]
      omega
  obtain ⟨hshape, hblocks, hbytes⟩ := h.shape.write_spec (h.rooms b hb) hmem rfl rfl
  refine ⟨⟨cs, fl, hshape, ?_, ?_, h.nodup⟩, ?_, ?_, ?_⟩
  · intro b' hb'
    exact (hblocks _ _).mpr (h.rooms b' hb')
  · intro p hp
    exact h.held p ((hblocks p 0).mp hp)
  · intro b' hb' hon
    exact ⟨hb', hbytes _ _ (fun heq => hon heq.symm) (h.rooms b' hb')⟩
  · exact fun p _ n hc => hnone p n hc
  · exact fun p _ n hc => hnone p n hc

/-- A reallocation of the null pointer is an allocation. -/
theorem Inv.realloc_null {size : ℕ} (h : Inv t w cs fl) (hmod : Moderate t w.state size) :
    Step t w (.realloc 0 size) := by
  have hstep := h.alloc hmod
  have hcall : w.call t (.realloc 0 size) = w.call t (.alloc size) := by
    simp [World.call, heapmemRealloc, h.drop_zero]
  obtain ⟨hinv, hrespects⟩ := hstep
  rw [Step, hcall]
  refine ⟨hinv, ?_, ?_, ?_⟩
  · intro b hb _
    rw [hcall]
    exact hrespects.others b hb id
  · rintro ptr old n ⟨⟩ hmem
    exact absurd rfl (h.ne_zero hmem)
  · rintro ptr old n ⟨⟩ _ hmem
    exact absurd rfl (h.ne_zero hmem)

/-- A reallocation to nothing frees the block. -/
theorem Inv.realloc_zero {ptr : ℕ} (h : Inv t w cs fl) (hp : w.Holds ptr) :
    Step t w (.realloc ptr 0) := by
  have hne := h.holds_ne_zero hp
  have hcall : w.call t (.realloc ptr 0) = (0, ⟨heapmemFree t w.state ptr, w.drop ptr⟩) := by
    simp [World.call, heapmemRealloc, hne]
  obtain ⟨cs', fl', hinv, hbytes⟩ := h.release hp
  rw [Step, hcall]
  refine ⟨⟨cs', fl', hinv⟩, ?_, ?_, ?_⟩
  · intro b hb hon
    have hbp : b.1 ≠ ptr := fun hbp => hon hbp.symm
    rw [hcall]
    exact ⟨mem_drop.mpr ⟨hb, hbp⟩, hbytes b hb hbp⟩
  · intro p old n _ _ hr
    rw [hcall] at hr
    exact absurd rfl hr
  · rintro p old n ⟨⟩ hn
    exact absurd rfl hn

theorem Inv.realloc {ptr size : ℕ} (h : Inv t w cs fl) (hp : w.Holds ptr) (hsize : size ≠ 0)
    (hmod : t.roundUp size ≤ w.state.get t .size (getChunk t ptr) ∨ Moderate t w.state size)
    (hint : FitsInt t ((t.roundUp size : ℤ) - w.state.get t .size (getChunk t ptr))) :
    Step t w (.realloc ptr size) := by
  have hne := h.holds_ne_zero hp
  obtain ⟨c, hc, halloc, rfl⟩ := h.chunk hp
  rw [h.shape.getChunk_eq hc] at hmod hint
  obtain ⟨cs', fl', hshape, hcase⟩ := h.shape.heapmemRealloc_spec hc halloc hsize hmod hint
  have hround := le_roundUp t size
  generalize hr : heapmemRealloc t w.state (c + t.chunkBytes) size = r at *
  generalize hptr : c + t.chunkBytes = ptr at *
  have hcall : w.call t (.realloc ptr size) =
      (r.1, ⟨r.2, if r.1 = 0 then w.live else (r.1, size) :: w.drop ptr⟩) := by
    simp [World.call, hr, hne, hsize]
  rw [Step, hcall]
  -- Failure, the block in its place, or a new block with the old content.
  rcases hcase with ⟨hzero, hev⟩ | ⟨hsame, hev, hroom⟩ |
    ⟨hrne, hmoved, hev, hroom, hfresh, hgone, hcopy⟩
  · rw [if_pos hzero]
    refine ⟨⟨cs', fl', h.keep hshape hev (fun p hpp => hpp ▸ hp)⟩, ?_, ?_, ?_⟩
    · intro b hb _
      rw [hcall, if_pos hzero]
      exact ⟨hb, hev.bytes _ _ trivial (h.rooms b hb)⟩
    · intro p old n _ _ hr'
      rw [hcall] at hr'
      exact absurd hzero hr'
    · rintro p old n ⟨⟩ _ hmem _
      rw [hcall, if_pos hzero]
      exact ⟨hmem, hev.bytes _ _ trivial (h.rooms _ hmem)⟩
  · rw [if_neg (hsame ▸ hne)]
    refine ⟨⟨cs', fl', ?_⟩, ?_, ?_, ?_⟩
    · rw [hsame]
      apply h.replace hshape (hev.mono (fun p len hpp h' => absurd h' hpp) (fun _ h => h))
        (hroom.mono hround)
      · intro b hb
        exact (mem_drop.mp hb).2
      · intro hpp
        exact absurd rfl hpp
    · intro b hb hon
      have hbp : b.1 ≠ ptr := fun hbp => hon hbp.symm
      rw [hcall, if_neg (hsame ▸ hne)]
      exact ⟨List.mem_cons_of_mem _ (mem_drop.mpr ⟨hb, hbp⟩),
        hev.bytes _ _ (fun h' => absurd h' hbp) (h.rooms b hb)⟩
    · rintro p old n ⟨⟩ hmem _ i hi
      rw [hcall, hsame]
      have hpart := (h.rooms _ hmem).mono (Nat.min_le_left old size)
      exact hev.bytes _ _ (fun _ => (Nat.min_le_right old size).trans hround) hpart i hi
    · rintro p old n ⟨⟩ _ _ hr'
      rw [hcall] at hr'
      exact absurd (hsame.symm.trans hr') hne
  · rw [if_neg hrne]
    refine ⟨⟨cs', fl', ?_⟩, ?_, ?_, ?_⟩
    · apply h.replace hshape hev (hroom.mono hround)
      · intro b hb hbr
        exact hfresh (hbr ▸ (h.rooms b (mem_drop.mp hb).1).mono (Nat.zero_le _))
      · intro _
        exact hgone
    · intro b hb hon
      have hbp : b.1 ≠ ptr := fun hbp => hon hbp.symm
      rw [hcall, if_neg hrne]
      exact ⟨List.mem_cons_of_mem _ (mem_drop.mpr ⟨hb, hbp⟩), hev.bytes _ _ hbp (h.rooms b hb)⟩
    · rintro p old n ⟨⟩ hmem _ i hi
      rw [hcall]
      exact hcopy old (h.rooms _ hmem) i (hi.trans_le (Nat.min_le_left _ _))
    · rintro p old n ⟨⟩ _ _ hr'
      rw [hcall] at hr'
      exact absurd hr' hrne

/-- Every call in which no size wraps. -/
theorem Inv.step {c : Call} (h : Inv t w cs fl) (hgood : c.Good t w) : Step t w c := by
  obtain ⟨hvalid, hwrap⟩ := hgood
  cases c with
  | alloc size => exact h.alloc hwrap
  | free ptr => exact h.free hvalid
  | write ptr i byte => exact h.write hvalid
  | realloc ptr size =>
    simp only [Call.NoWrap] at hwrap
    rcases hvalid.1 with hzero | hp
    · rw [if_pos hzero] at hwrap
      rw [hzero]
      exact h.realloc_null hwrap
    · rw [if_neg (h.holds_ne_zero hp)] at hwrap
      by_cases hsize : size = 0
      · rw [hsize]
        exact h.realloc_zero hp
      · obtain ⟨hmod, hint⟩ := hwrap.resolve_left hsize
        exact h.realloc hp hsize hmod hint

/-! ## Result -/

theorem inv_of_run {mem : Memory} (h : Run (World.step t) (Call.Good t) (World.initial mem) w) :
    ∃ cs fl, Inv t w cs fl := by
  apply h.invariant (I := fun w => ∃ cs fl, Inv t w cs fl)
  · rintro w c w' ⟨cs, fl, hinv⟩ hgood hstep
    obtain rfl := Option.some.inj hstep
    exact (hinv.step hgood).1
  · exact ⟨[], [], inv_initial mem⟩

/-- In every run in which no size wraps, the heap is sound and every further call respects the
blocks of the client. -/
theorem heap_sound_of_run {mem : Memory}
    (h : Run (World.step t) (Call.Good t) (World.initial mem) w) :
    Sound t w ∧ ∀ c, c.Good t w → Sound t (w.call t c).2 ∧ Respects t w c := by
  obtain ⟨cs, fl, hinv⟩ := inv_of_run h
  refine ⟨hinv.sound, ?_⟩
  intro c hgood
  obtain ⟨⟨cs', fl', hinv'⟩, hrespects⟩ := hinv.step hgood
  exact ⟨hinv'.sound, hrespects⟩

/-- A small heap on a target of 16 bits. -/
def smallHeap : Target where
  wordBytes := 2
  intBits := 16
  chunkBytes := 8
  alignBits := 1
  searchMax := 16
  heapBase := 512
  arenaSize := 64
  chunk_fits := by decide
  base_pos := by decide
  arena_fits := by decide
  align_fits := by decide
  int_pos := by decide
  int_fits := by decide

/-- Two blocks are allocated, the first is freed, and the second grows. -/
theorem heap_sound_of_run_growing : ∃ w, w.live = [(538, 20)] ∧ Sound smallHeap w ∧
    Respects smallHeap w (.realloc 538 4) := by
  obtain ⟨w, hrun, hlive, hgood⟩ := exists_run_of_runEvents (World.step smallHeap)
    (Call.Good smallHeap) (World.initial fun _ => 0)
    [.alloc 9, .alloc 6, .free 520, .realloc 538 20]
    (fun w => w.live = [(538, 20)] ∧ (Call.realloc 538 4).Good smallHeap w) (by decide +kernel)
  have hsound := heap_sound_of_run hrun
  exact ⟨w, hlive, hsound.1, (hsound.2 _ hgood).2⟩

/-- A request for 65535 bytes is granted in a heap of 64: its size wraps to nothing. -/
theorem wrapped_request :
    (Call.alloc 65535).Valid smallHeap (World.initial fun _ => 0) ∧
      ((World.initial fun _ => 0).call smallHeap (.alloc 65535)).1 = 520 ∧
      ¬ Sound smallHeap ((World.initial fun _ => 0).call smallHeap (.alloc 65535)).2 := by
  refine ⟨by decide, by decide, ?_⟩
  intro h
  have hlive : ((World.initial fun _ => 0).call smallHeap (.alloc 65535)).2.live =
      [(520, 65535)] := by decide
  have hinside := (h.inside (520, 65535) (by rw [hlive]; simp)).2
  exact absurd hinside (by decide)

end

end MasterScheduler.Mote.Heapmem

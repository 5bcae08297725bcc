import MasterScheduler.Mote.Heapmem

/-!
# MasterScheduler.Mote.HeapmemShape — chunks that tile the arena

1. **Shape**: chunks that follow each other up to the footprint, and a list of
   the free ones.
2. **Blocks**: what is handed out, and what an operation keeps of it.
3. **Coalescing**: free neighbors become part of a chunk.
4. **Splitting**: the rest of a chunk becomes a free one.
5. **Allocation**, **Release** and **Reallocation**, as long as no size wraps.
-/

namespace MasterScheduler.Mote.Heapmem

open Lib

variable {t : Target} {s s' s'' : State} {a b c n p q i size : ℕ} {cs cs' cs'' fl pre post hs : List ℕ}

/-! ## Shape -/

/-- The bytes of a chunk, with its header. -/
def chunkLen (t : Target) (s : State) (c : ℕ) : ℕ := t.chunkBytes + s.get t .size c

/-- The chunks tile the heap, and the free list contains the free ones. -/
structure Shape (t : Target) (s : State) (cs fl : List ℕ) : Prop where
  tiled : Tiled (chunkLen t s) t.heapBase cs (t.heapBase + s.heapUsage)
  fits : s.heapUsage ≤ t.arenaSize
  linked : FreeList t s fl
  nodup : fl.Nodup
  free : ∀ a, a ∈ fl ↔ a ∈ cs ∧ chunkAllocated t s a = false

/-- A chunk header has some bytes. -/
theorem chunkBytes_pos (t : Target) : 0 < t.chunkBytes := by
  have h := t.chunk_fits
  omega

theorem chunkLen_pos (t : Target) (s : State) (c : ℕ) : 0 < chunkLen t s c :=
  Nat.lt_of_lt_of_le (chunkBytes_pos t) (Nat.le_add_right _ _)

/-- Headers of chunks that tile the heap do not overlap. -/
theorem separate_of_tiled {len : ℕ → ℕ} {e : ℕ} (h : Tiled len a cs e)
    (hlen : ∀ x ∈ cs, t.chunkBytes ≤ len x) : Separate t cs := by
  intro x hx y hy hne
  have hapart := h.apart hx hy hne
  have hx' := hlen x hx
  have hy' := hlen y hy
  unfold Apart
  omega

namespace Shape

/-- Free chunks are chunks. -/
theorem sub (h : Shape t s cs fl) : ∀ a ∈ fl, a ∈ cs := fun a ha => ((h.free a).mp ha).1

/-- A chunk lies inside the heap. -/
theorem bounds (h : Shape t s cs fl) (ha : a ∈ cs) :
    t.heapBase ≤ a ∧ a + chunkLen t s a ≤ t.heapBase + s.heapUsage := h.tiled.bounds ha

/-- The headers are apart from each other. -/
theorem placed (h : Shape t s cs fl) : Placed t cs := by
  have hbase := t.base_pos
  have harena := t.arena_fits
  have hfits := h.fits
  refine ⟨separate_of_tiled h.tiled (fun x _ => Nat.le_add_right _ _), ?_, ?_⟩
  · intro a ha
    have hb := h.bounds ha
    omega
  · intro a ha
    have hb := h.bounds ha
    have hpos := chunkLen_pos t s a
    omega

/-- The end of the heap that the code computes. -/
theorem heapEnd_eq (h : Shape t s cs fl) : heapEnd t s = t.heapBase + s.heapUsage := by
  have harena := t.arena_fits
  have hfits := h.fits
  exact wrap_eq (by omega)

/-- The next chunk begins where this one ends. -/
theorem nextChunk_eq (h : Shape t s cs fl) (ha : a ∈ cs) :
    nextChunk t s a = a + chunkLen t s a := by
  have harena := t.arena_fits
  have hfits := h.fits
  have hb := h.bounds ha
  unfold chunkLen at hb
  rw [nextChunk, wrap_eq (by omega), chunkLen, Nat.add_assoc]

/-- The end of a chunk, as `IS_LAST_CHUNK` sees it. -/
theorem isLastChunk_iff (h : Shape t s cs fl) (ha : a ∈ cs) :
    isLastChunk t s a = true ↔ a + chunkLen t s a = t.heapBase + s.heapUsage := by
  rw [isLastChunk, h.nextChunk_eq ha, h.heapEnd_eq, decide_eq_true_iff]

theorem nodup_chunks (h : Shape t s cs fl) : cs.Nodup := h.tiled.nodup (chunkLen_pos t s)

/-- A shape does not depend on what the chunks contain. -/
theorem congr (h : Shape t s cs fl)
    (hget : ∀ f, f ≠ .flags → ∀ a ∈ cs, s'.get t f a = s.get t f a)
    (halloc : ∀ a ∈ cs, chunkAllocated t s' a = chunkAllocated t s a)
    (husage : s'.heapUsage = s.heapUsage) (hlist : s'.freeList = s.freeList) :
    Shape t s' cs fl := by
  refine ⟨?_, ?_, ?_, h.nodup, ?_⟩
  · rw [husage]
    apply h.tiled.congr
    intro a ha
    rw [chunkLen, hget .size (by decide) a ha, chunkLen]
  · rw [husage]
    exact h.fits
  · rw [FreeList, hlist]
    apply Linked.congr h.linked
    · intro a ha
      exact hget .prev (by decide) a (h.sub a ha)
    · intro a ha
      exact hget .next (by decide) a (h.sub a ha)
  · intro a
    rw [h.free a]
    apply and_congr_right
    intro ha
    rw [halloc a ha]

end Shape

/-! ## Blocks -/

/-- At `p` starts the data of an allocated chunk with room for `len` bytes. -/
def Block (t : Target) (s : State) (cs : List ℕ) (p len : ℕ) : Prop :=
  ∃ c ∈ cs, chunkAllocated t s c = true ∧ p = c + t.chunkBytes ∧ len ≤ s.get t .size c

/-- The blocks for which `keep` holds stay as they are, and only `new` ones are added or grow. -/
structure Evolves (t : Target) (keep : ℕ → ℕ → Prop) (new : ℕ → Prop)
    (s : State) (cs : List ℕ) (s' : State) (cs' : List ℕ) : Prop where
  kept : ∀ p len, keep p len → Block t s cs p len → Block t s' cs' p len
  bytes : ∀ p len, keep p len → Block t s cs p len → ∀ i < len, s'.mem (p + i) = s.mem (p + i)
  blocks : ∀ p len, Block t s' cs' p len → Block t s cs p len ∨ new p

/-- All blocks stay. -/
def AnyBlock (_ _ : ℕ) : Prop := True

/-- No block is new. -/
def NoBlock (_ : ℕ) : Prop := False

section

variable {keep keep' : ℕ → ℕ → Prop} {new new' : ℕ → Prop} {len : ℕ}

/-- Nothing changes. -/
theorem Evolves.refl (keep : ℕ → ℕ → Prop) (new : ℕ → Prop) (s : State) (cs : List ℕ) :
    Evolves t keep new s cs s cs :=
  ⟨fun _ _ _ h => h, fun _ _ _ _ _ _ => rfl, fun _ _ h => .inl h⟩

/-- Two changes, one after the other. -/
theorem Evolves.trans (h : Evolves t keep new s cs s' cs')
    (h' : Evolves t keep' new s' cs' s'' cs'')
    (hk : ∀ p len, keep p len → Block t s' cs' p len → Block t s cs p len → keep' p len) :
    Evolves t keep new s cs s'' cs'' := by
  refine ⟨?_, ?_, ?_⟩
  · intro p len hkeep hb
    have hb' := h.kept p len hkeep hb
    exact h'.kept p len (hk p len hkeep hb' hb) hb'
  · intro p len hkeep hb i hi
    have hb' := h.kept p len hkeep hb
    rw [h'.bytes p len (hk p len hkeep hb' hb) hb' i hi, h.bytes p len hkeep hb i hi]
  · intro p len hb
    rcases h'.blocks p len hb with hb | hn
    · exact h.blocks p len hb
    · exact .inr hn

/-- A change that keeps fewer blocks, or brings more. -/
theorem Evolves.mono (h : Evolves t keep new s cs s' cs') (hk : ∀ p len, keep' p len → keep p len)
    (hn : ∀ p, new p → new' p) : Evolves t keep' new' s cs s' cs' :=
  ⟨fun p len h₁ => h.kept p len (hk p len h₁), fun p len h₁ => h.bytes p len (hk p len h₁),
    fun p len hb => (h.blocks p len hb).imp_right (hn p)⟩

/-- A part of a block is a block. -/
theorem Block.mono {len' : ℕ} (h : Block t s cs p len) (hle : len' ≤ len) :
    Block t s cs p len' := by
  obtain ⟨c, hc, halloc, hp, hlen⟩ := h
  exact ⟨c, hc, halloc, hp, hle.trans hlen⟩

/-- The chunk of a block, of which there is one. -/
theorem block_iff : Block t s cs (c + t.chunkBytes) len ↔
    c ∈ cs ∧ chunkAllocated t s c = true ∧ len ≤ s.get t .size c := by
  constructor
  · rintro ⟨c', hc', halloc, hp, hlen⟩
    obtain rfl : c = c' := Nat.add_right_cancel hp
    exact ⟨hc', halloc, hlen⟩
  · rintro ⟨hc, halloc, hlen⟩
    exact ⟨c, hc, halloc, rfl, hlen⟩

/-- A block does not overlap a header. -/
theorem Shape.block_clear (h : Shape t s cs fl) (hb : Block t s cs p len) (ha : a ∈ cs) :
    p + len ≤ a ∨ a + t.chunkBytes ≤ p := by
  obtain ⟨c, hc, _, rfl, hlen⟩ := hb
  by_cases hac : c = a
  · right
    rw [hac]
  · have hapart := h.tiled.apart hc ha hac
    unfold chunkLen at hapart
    omega

/-- A chunk on the free list is not a block. -/
theorem Shape.not_block (h : Shape t s cs fl) (hb : b ∈ fl) :
    ¬ Block t s cs (b + t.chunkBytes) 0 := by
  intro hblock
  have hfree := ((h.free b).mp hb).2
  rw [(block_iff.mp hblock).2.1] at hfree
  cases hfree

/-- What is apart from the headers keeps its bytes when only headers are written. -/
theorem bytes_of_onlyHeaders (h : OnlyHeaders t hs s s')
    (hclear : ∀ a ∈ hs, p + len ≤ a ∨ a + t.chunkBytes ≤ p) (hi : i < len) :
    s'.mem (p + i) = s.mem (p + i) := by
  apply h
  intro a ha
  have hclear' := hclear a ha
  omega

/-- Two blocks do not overlap. -/
theorem Shape.blocks_apart {len' : ℕ} (h : Shape t s cs fl) (hb : Block t s cs p len)
    (hb' : Block t s cs q len') (hne : p ≠ q) : p + len ≤ q ∨ q + len' ≤ p := by
  obtain ⟨c, hc, _, rfl, hlen⟩ := hb
  obtain ⟨c', hc', _, rfl, hlen'⟩ := hb'
  have hapart := h.tiled.apart hc hc' (by omega)
  unfold chunkLen at hapart
  omega

/-- A block lies inside the arena. -/
theorem Shape.block_inside (h : Shape t s cs fl) (hb : Block t s cs p len) :
    t.heapBase ≤ p ∧ p + len ≤ t.heapBase + t.arenaSize := by
  obtain ⟨c, hc, _, rfl, hlen⟩ := hb
  have hbounds := h.bounds hc
  have hfits := h.fits
  unfold chunkLen at hbounds
  omega

end

/-! ## Coalescing -/

/-- What coalescing does to a chunk and to everything else. -/
structure Coalesced (t : Target) (c : ℕ) (s : State) (cs : List ℕ) (s' : State) (cs' : List ℕ) :
    Prop where
  evolves : Evolves t AnyBlock (· = c + t.chunkBytes) s cs s' cs'
  usage : s'.heapUsage = s.heapUsage
  mem : c ∈ cs'
  grows : s.get t .size c ≤ s'.get t .size c
  allocated : chunkAllocated t s' c = chunkAllocated t s c

/-- Chunks are merged one after the other. -/
theorem Coalesced.trans (h : Coalesced t c s cs s' cs') (h' : Coalesced t c s' cs' s'' cs'') :
    Coalesced t c s cs s'' cs'' :=
  ⟨h.evolves.trans h'.evolves (fun _ _ h _ _ => h), h'.usage.trans h.usage, h'.mem, h.grows.trans h'.grows,
    h'.allocated.trans h.allocated⟩

/-- One round: a free chunk becomes part of the chunk before it. -/
theorem Shape.absorb_spec (h : Shape t s (pre ++ c :: n :: post) fl)
    (hfree : chunkAllocated t s n = false) :
    Shape t (absorb t s c n) (pre ++ c :: post) (fl.erase n) ∧
      Coalesced t c s (pre ++ c :: n :: post) (absorb t s c n) (pre ++ c :: post) ∧
      nextChunk t (absorb t s c n) n = c + chunkLen t (absorb t s c n) c := by
  have hc : c ∈ pre ++ c :: n :: post := by simp
  have hn : n ∈ pre ++ c :: n :: post := by simp
  have hnfl : n ∈ fl := (h.free n).mpr ⟨hn, hfree⟩
  have hnodup := h.nodup_chunks
  have hp := h.placed
  have hnext := h.tiled.next_eq
  have hbc := h.bounds hc
  have hbn := h.bounds hn
  have harena := t.arena_fits
  have hfits := h.fits
  have hsub : ∀ a ∈ pre ++ c :: post, a ∈ pre ++ c :: n :: post := by
    intro a ha
    simp only [List.mem_append, List.mem_cons] at ha ⊢
    tauto
  have hother : ∀ a ∈ pre ++ c :: n :: post, a ≠ n ↔ a ∈ pre ++ c :: post := by
    intro a ha
    have hne : n ∉ pre ++ c :: post := by
      have hmid : (pre ++ [c] ++ n :: post).Nodup := by simpa using hnodup
      simpa using (List.nodup_cons.mp (List.nodup_middle.mp hmid)).1
    constructor
    · intro han
      simp only [List.mem_append, List.mem_cons] at ha ⊢
      tauto
    · rintro ha' rfl
      exact hne ha'
  -- the new size does not wrap: the two chunks lie in the arena
  have hv : t.wrap (s.get t .size c + t.wrap (t.chunkBytes + s.get t .size n)) =
      s.get t .size c + chunkLen t s n := by
    unfold chunkLen at hbc hbn hnext ⊢
    rw [wrap_eq (n := t.chunkBytes + s.get t .size n) (by omega), wrap_eq (by omega)]
  have hvlt : s.get t .size c + chunkLen t s n < 256 ^ t.wordBytes := by
    unfold chunkLen at hbc hbn hnext ⊢
    omega
  have hget : ∀ f, ∀ a ∈ pre ++ c :: n :: post,
      (s.set t .size c (s.get t .size c + chunkLen t s n)).get t f a =
        if f = .size ∧ a = c then s.get t .size c + chunkLen t s n else s.get t f a :=
    fun f a ha => get_set hp.separate ha hc (g := .size) hvlt
  have hlist : FreeList t (s.set t .size c (s.get t .size c + chunkLen t s n)) fl := by
    apply Linked.congr h.linked
    · intro a ha
      simp [hget .prev a (h.sub a ha)]
    · intro a ha
      simp [hget .next a (h.sub a ha)]
  have hspec := allocateChunk_spec hp h.sub hlist h.nodup hnfl
  obtain ⟨hmark, hlist', husage⟩ := hspec
  have heq : absorb t s c n =
      allocateChunk t (s.set t .size c (s.get t .size c + chunkLen t s n)) n := by
    rw [absorb, hv]
  rw [← heq] at hmark hlist' husage
  have hsizec : (absorb t s c n).get t .size c = s.get t .size c + chunkLen t s n := by
    rw [hmark.size c hc, hget .size c hc, if_pos ⟨rfl, rfl⟩]
  have hsize : ∀ a ∈ pre ++ c :: n :: post, a ≠ c →
      (absorb t s c n).get t .size a = s.get t .size a := by
    intro a ha hne
    rw [hmark.size a ha, hget .size a ha, if_neg (fun h => hne h.2)]
  have halloc : ∀ a ∈ pre ++ c :: n :: post, a ≠ n →
      chunkAllocated t (absorb t s c n) a = chunkAllocated t s a := by
    intro a ha hne
    rw [hmark.other a ha hne, chunkAllocated, hget .flags a ha, if_neg (by simp)]
    rfl
  have hgrows : ∀ a ∈ pre ++ c :: n :: post,
      s.get t .size a ≤ (absorb t s c n).get t .size a := by
    intro a ha
    by_cases hac : a = c
    · rw [hac, hsizec]
      exact Nat.le_add_right _ _
    · rw [hsize a ha hac]
  have hcn : c ≠ n := by
    have hpos := chunkLen_pos t s c
    omega
  have hmem : OnlyHeaders t (pre ++ c :: n :: post) s (absorb t s c n) :=
    (onlyHeaders_set hc).trans hmark.mem
  refine ⟨⟨?_, ?_, hlist', h.nodup.erase n, ?_⟩, ⟨⟨?_, ?_, ?_⟩, husage, by simp, hgrows c hc,
    halloc c hc hcn⟩, ?_⟩
  · rw [husage]
    apply h.tiled.join
    · simp only [chunkLen, hsizec]
      omega
    · intro z hz
      have hz' : z ∈ pre ++ c :: n :: post := by
        simp only [List.mem_append, List.mem_cons] at hz ⊢
        tauto
      have hzc : z ≠ c := by
        rintro rfl
        apply (List.nodup_cons.mp (List.nodup_middle.mp hnodup)).1
        simp only [List.mem_append, List.mem_cons] at hz ⊢
        tauto
      rw [chunkLen, hsize z hz' hzc, chunkLen]
  · rw [husage]
    exact h.fits
  · intro a
    rw [h.nodup.mem_erase_iff, h.free a]
    constructor
    · rintro ⟨hne, ha, hf⟩
      exact ⟨(hother a ha).mp hne, by rw [halloc a ha hne, hf]⟩
    · rintro ⟨ha, hf⟩
      have hne := (hother a (hsub a ha)).mpr ha
      exact ⟨hne, hsub a ha, by rw [← halloc a (hsub a ha) hne, hf]⟩
  · rintro p len - ⟨a, ha, hf, hpa, hlen⟩
    have hne : a ≠ n := by
      rintro rfl
      rw [hfree] at hf
      cases hf
    exact ⟨a, (hother a ha).mp hne, by rw [halloc a ha hne, hf], hpa, hlen.trans (hgrows a ha)⟩
  · intro p len _ hb i hi
    exact bytes_of_onlyHeaders hmem (fun a ha => h.block_clear hb ha) hi
  · rintro p len ⟨a, ha, hf, hpa, hlen⟩
    by_cases hac : a = c
    · exact .inr (hac ▸ hpa)
    · have hne := (hother a (hsub a ha)).mpr ha
      exact .inl ⟨a, hsub a ha, by rw [← halloc a (hsub a ha) hne, hf], hpa,
        by rwa [← hsize a (hsub a ha) hac]⟩
  · have hsizen := hsize n hn (Ne.symm hcn)
    unfold chunkLen at hbc hbn hnext hv
    rw [nextChunk, hsizen, wrap_eq (by omega)]
    simp only [chunkLen, hsizec]
    omega

/-- The loop: `fuel` is enough, and it ends before an allocated chunk or at the end. -/
theorem Shape.coalesceLoop_spec {fuel : ℕ} (h : Shape t s (pre ++ c :: post) fl)
    (hnext : n = c + chunkLen t s c) (hfuel : post.length < fuel) :
    ∃ post' fl', Shape t (coalesceLoop t fuel s c n) (pre ++ c :: post') fl' ∧
      Coalesced t c s (pre ++ c :: post) (coalesceLoop t fuel s c n) (pre ++ c :: post') ∧
      ∀ a ∈ post'.head?, chunkAllocated t (coalesceLoop t fuel s c n) a = true := by
  -- On the chunks behind `c`, which are taken in as long as they are free.
  induction post generalizing fuel s n fl with
  | nil =>
    cases fuel with
    | zero => cases hfuel
    | succ fuel =>
      have hend := h.tiled.last_eq
      have hguard : decide (n < heapEnd t s) = false := by
        rw [h.heapEnd_eq, hnext, hend]
        simp
      have heq : coalesceLoop t (fuel + 1) s c n = s := by
        simp [coalesceLoop, hguard]
      rw [heq]
      exact ⟨[], fl, h, ⟨.refl _ _ s _, rfl, by simp, le_rfl, rfl⟩, by simp⟩
  | cons m post ih =>
    cases fuel with
    | zero => cases hfuel
    | succ fuel =>
      have hm : n = m := hnext.trans h.tiled.next_eq
      subst hm
      have hmem : n ∈ pre ++ c :: n :: post := by simp
      have hb := h.bounds hmem
      have hpos := chunkLen_pos t s n
      have hguard : decide (n < heapEnd t s) = true := by
        rw [h.heapEnd_eq, decide_eq_true_iff]
        omega
      cases hfree : chunkAllocated t s n with
      | true =>
        have heq : coalesceLoop t (fuel + 1) s c n = s := by
          simp [coalesceLoop, hfree]
        rw [heq]
        exact ⟨n :: post, fl, h, ⟨.refl _ _ s _, rfl, by simp, le_rfl, rfl⟩, by simpa using hfree⟩
      | false =>
        have heq : coalesceLoop t (fuel + 1) s c n =
            coalesceLoop t fuel (absorb t s c n) c (nextChunk t (absorb t s c n) n) := by
          simp [coalesceLoop, hguard, hfree]
        obtain ⟨hshape, hco, hnext'⟩ := h.absorb_spec hfree
        obtain ⟨post', fl', hshape', hco', hstop⟩ :=
          ih hshape hnext' (by simpa using hfuel)
        rw [heq]
        exact ⟨post', fl', hshape', hco.trans hco', hstop⟩

/-- Merging with the next chunks, until one is in use. -/
theorem Shape.coalesceChunks_spec (h : Shape t s cs fl) (hc : c ∈ cs) :
    ∃ cs' fl', Shape t (coalesceChunks t s c) cs' fl' ∧
      Coalesced t c s cs (coalesceChunks t s c) cs' := by
  obtain ⟨pre, post, rfl⟩ := List.append_of_mem hc
  have hlen := h.tiled.length_le (chunkLen_pos t s)
  have hfits := h.fits
  have hfuel : post.length < t.arenaSize + 1 := by
    simp only [List.length_append, List.length_cons] at hlen
    omega
  obtain ⟨post', fl', hshape, hco, -⟩ := h.coalesceLoop_spec (h.nextChunk_eq hc) hfuel
  exact ⟨_, fl', hshape, hco⟩

/-- A link of the free list leads to a free chunk or nowhere. -/
theorem Shape.next_mem (h : Shape t s cs fl) (hc : c ∈ fl) :
    s.get t .next c = 0 ∨ s.get t .next c ∈ fl := h.linked.next_mem hc

/-- Merging over the whole free list. -/
theorem Shape.defragLoop_spec (h : Shape t s cs fl) (hc : c = 0 ∨ c ∈ fl) :
    ∃ cs' fl', Shape t (defragLoop t i s c) cs' fl' ∧
      Evolves t AnyBlock NoBlock s cs (defragLoop t i s c) cs' ∧
      (defragLoop t i s c).heapUsage = s.heapUsage := by
  induction i generalizing s cs fl c with
  | zero => exact ⟨cs, fl, h, .refl _ _ s cs, rfl⟩
  | succ i ih =>
    by_cases hzero : c = 0
    · have heq : defragLoop t (i + 1) s c = s := by
        simp [defragLoop, hzero]
      rw [heq]
      exact ⟨cs, fl, h, .refl _ _ s cs, rfl⟩
    · have heq : defragLoop t (i + 1) s c =
          defragLoop t i (coalesceChunks t s c) ((coalesceChunks t s c).get t .next c) := by
        simp [defragLoop, hzero]
      have hcfl := hc.resolve_left hzero
      obtain ⟨hcs, hfree⟩ := (h.free c).mp hcfl
      obtain ⟨cs₁, fl₁, h₁, hco⟩ := h.coalesceChunks_spec hcs
      have hcfl₁ : c ∈ fl₁ := (h₁.free c).mpr ⟨hco.mem, by rw [hco.allocated, hfree]⟩
      have hev₁ : Evolves t AnyBlock NoBlock s cs (coalesceChunks t s c) cs₁ := by
        refine ⟨hco.evolves.kept, hco.evolves.bytes, ?_⟩
        intro p len hb
        rcases hco.evolves.blocks p len hb with hb' | rfl
        · exact .inl hb'
        · exact absurd (hb.mono (Nat.zero_le _)) (h₁.not_block hcfl₁)
      obtain ⟨cs₂, fl₂, h₂, hev, husage⟩ := ih h₁ (h₁.next_mem hcfl₁)
      rw [heq]
      exact ⟨cs₂, fl₂, h₂, hev₁.trans hev (fun _ _ h _ _ => h), husage.trans hco.usage⟩

/-- What the search returns is a free chunk that is large enough. -/
theorem Shape.searchLoop_spec (h : Shape t s cs fl) (size i : ℕ) (best : Option ℕ)
    (hc : c = 0 ∨ c ∈ fl)
    (hbest : ∀ b ∈ best, b ∈ fl ∧ size ≤ s.get t .size b) :
    ∀ b ∈ searchLoop t s size i c best, b ∈ fl ∧ size ≤ s.get t .size b := by
  induction i generalizing c best with
  | zero => exact hbest
  | succ i ih =>
    by_cases hzero : c = 0
    · simpa [searchLoop, hzero] using hbest
    · have hcfl := hc.resolve_left hzero
      by_cases hsize : size ≤ s.get t .size c
      · have hbetter : betterChunk t s c best ∈ fl ∧
            size ≤ s.get t .size (betterChunk t s c best) := by
          cases best with
          | none => exact ⟨hcfl, hsize⟩
          | some b =>
            by_cases hlt : s.get t .size c < s.get t .size b
            · rw [betterChunk, if_pos hlt]
              exact ⟨hcfl, hsize⟩
            · rw [betterChunk, if_neg hlt]
              exact hbest b rfl
        by_cases hperfect : s.get t .size (betterChunk t s c best) = size
        · simpa [searchLoop, hzero, hsize, hperfect] using hbetter.1
        · have hbest' : ∀ b ∈ some (betterChunk t s c best), b ∈ fl ∧ size ≤ s.get t .size b := by
            simpa using hbetter
          have hrest := ih _ (h.next_mem hcfl) hbest'
          simpa [searchLoop, hzero, hsize, hperfect] using hrest
      · simpa [searchLoop, hzero, hsize] using ih _ (h.next_mem hcfl) hbest

/-! ## Splitting -/

/-- A free chunk is handed out. -/
theorem Shape.allocateChunk_spec (h : Shape t s cs fl) (hb : b ∈ fl) :
    Shape t (allocateChunk t s b) cs (fl.erase b) ∧
      Evolves t AnyBlock (· = b + t.chunkBytes) s cs (allocateChunk t s b) cs ∧
      (allocateChunk t s b).heapUsage = s.heapUsage ∧
      chunkAllocated t (allocateChunk t s b) b = true ∧
      (allocateChunk t s b).get t .size b = s.get t .size b := by
  obtain ⟨hmark, hlist, husage⟩ := Heapmem.allocateChunk_spec h.placed h.sub h.linked h.nodup hb
  obtain ⟨hbcs, hfree⟩ := (h.free b).mp hb
  -- Only the flag and the free list change, so the tiling stays.
  refine ⟨⟨?_, ?_, hlist, h.nodup.erase b, ?_⟩, ⟨?_, ?_, ?_⟩, husage, hmark.self,
    hmark.size b hbcs⟩
  · rw [husage]
    apply h.tiled.congr
    intro a ha
    rw [chunkLen, hmark.size a ha, chunkLen]
  · rw [husage]
    exact h.fits
  · intro a
    rw [h.nodup.mem_erase_iff, h.free a]
    constructor
    · rintro ⟨hne, ha, hf⟩
      exact ⟨ha, by rw [hmark.other a ha hne, hf]⟩
    · rintro ⟨ha, hf⟩
      have hne : a ≠ b := by
        rintro rfl
        rw [hmark.self] at hf
        cases hf
      exact ⟨hne, ha, by rw [← hmark.other a ha hne, hf]⟩
  · rintro p len - ⟨a, ha, hf, hpa, hlen⟩
    have hne : a ≠ b := by
      rintro rfl
      rw [hfree] at hf
      cases hf
    exact ⟨a, ha, by rw [hmark.other a ha hne, hf], hpa, by rwa [hmark.size a ha]⟩
  · intro p len _ hblock i hi
    exact bytes_of_onlyHeaders hmark.mem (fun a ha => h.block_clear hblock ha) hi
  · rintro p len ⟨a, ha, hf, hpa, hlen⟩
    by_cases hne : a = b
    · exact .inr (hne ▸ hpa)
    · exact .inl ⟨a, ha, by rw [← hmark.other a ha hne, hf], hpa, by rwa [← hmark.size a ha]⟩

/-- The headers where a chunk is divided. -/
theorem Shape.divided {offset : ℕ} (h : Shape t s (pre ++ c :: post) fl)
    (hfit : offset + t.chunkBytes < s.get t .size c) :
    Placed t (pre ++ c :: (c + t.chunkBytes + offset) :: post) ∧
      c + t.chunkBytes + offset ∉ pre ++ c :: post := by
  have hc : c ∈ pre ++ c :: post := by simp
  have hpos := chunkBytes_pos t
  have hb := h.bounds hc
  have hbase := t.base_pos
  have harena := t.arena_fits
  have hfits := h.fits
  -- The new header lies in the payload of `c`, apart from all headers.
  have hnew : c + t.chunkBytes + offset ∉ pre ++ c :: post := by
    intro hmem
    rcases h.tiled.apart hc hmem (by omega) with hlt | hlt <;>
      unfold chunkLen at hlt <;> omega
  have hnodup := h.nodup_chunks
  have hrest : ∀ z ∈ pre ++ post, z ∈ pre ++ c :: post ∧ z ≠ c := by
    intro z hz
    have hmid := List.nodup_cons.mp (List.nodup_middle.mp hnodup)
    refine ⟨?_, fun hzc => hmid.1 (hzc ▸ hz)⟩
    simp only [List.mem_append, List.mem_cons] at hz ⊢
    tauto
  -- The tiling of `c` is cut in two.
  have htiled : Tiled (fun x => if x = c then t.chunkBytes + offset
      else if x = c + t.chunkBytes + offset then s.get t .size c - offset else chunkLen t s x)
      t.heapBase (pre ++ c :: (c + t.chunkBytes + offset) :: post) (t.heapBase + s.heapUsage) := by
    apply h.tiled.divide
    · simp [Nat.add_assoc]
    · rw [if_pos rfl, if_neg (by omega), if_pos rfl, chunkLen]
      omega
    · intro z hz
      obtain ⟨hz', hzc⟩ := hrest z hz
      rw [if_neg hzc, if_neg]
      rintro rfl
      exact hnew hz'
  refine ⟨⟨?_, ?_, ?_⟩, hnew⟩
  · apply separate_of_tiled htiled
    intro x _
    unfold chunkLen
    split_ifs <;> omega
  · intro a ha
    have hba := (htiled.bounds ha).1
    omega
  · intro a ha
    have hba := htiled.bounds ha
    unfold chunkLen at hba
    split_ifs at hba <;> omega

/-- The headers after a chunk `c` was split, with the rest of it in a new chunk `n`. -/
structure Split (t : Target) (hs fl : List ℕ) (c n offset rest : ℕ) (s s' : State) : Prop where
  size : ∀ a ∈ hs, s'.get t .size a =
    if a = c then offset else if a = n then rest else s.get t .size a
  self : chunkAllocated t s' n = false
  other : ∀ a ∈ hs, a ≠ n → chunkAllocated t s' a = chunkAllocated t s a
  mem : OnlyHeaders t hs s s'
  /-- The new chunk is listed, or it was the last one and left the heap. -/
  freed : n + t.chunkBytes + rest ≠ t.heapBase + s.heapUsage ∧ s'.heapUsage = s.heapUsage ∧
      FreeList t s' (n :: fl) ∨
    n + t.chunkBytes + rest = t.heapBase + s.heapUsage ∧
      s'.heapUsage = s.heapUsage - (t.chunkBytes + rest) ∧ FreeList t s' fl

/-- The free list does not change with the header of an allocated chunk. -/
theorem FreeList.set_other {f : Field} {v : ℕ} (h : FreeList t s fl) (hp : Placed t hs)
    (hsub : ∀ a ∈ fl, a ∈ hs) (hc : c ∈ hs) (hnew : c ∉ fl) : FreeList t (s.set t f c v) fl := by
  have hget : ∀ g, ∀ a ∈ fl, (s.set t f c v).get t g a = s.get t g a := by
    intro g a ha
    have hne : a ≠ c := fun hac => hnew (hac ▸ ha)
    exact get_set_apart (hp.separate a (hsub a ha) c hc hne)
  exact Linked.congr h (hget .prev) (hget .next)

/-- What the two writes of a split do to the headers and to the free list. -/
theorem Shape.splitChunk_split {offset : ℕ} (h : Shape t s (pre ++ c :: post) fl)
    (halloc : chunkAllocated t s c = true) (hoff : t.align offset = offset)
    (hfit : offset + t.chunkBytes < s.get t .size c) :
    Split t (pre ++ c :: (c + t.chunkBytes + offset) :: post) fl c (c + t.chunkBytes + offset)
      offset (s.get t .size c - t.chunkBytes - offset) s (splitChunk t s c offset) := by
  obtain ⟨hp, hnew⟩ := h.divided hfit
  have hc : c ∈ pre ++ c :: post := by simp
  have hchs : c ∈ pre ++ c :: (c + t.chunkBytes + offset) :: post := by simp
  have hnhs : c + t.chunkBytes + offset ∈ pre ++ c :: (c + t.chunkBytes + offset) :: post := by simp
  have hcfl : c ∉ fl := by
    intro hmem
    rw [((h.free c).mp hmem).2] at halloc
    cases halloc
  have hsub : ∀ a ∈ pre ++ c :: post, a ∈ pre ++ c :: (c + t.chunkBytes + offset) :: post := by
    intro a ha
    simp only [List.mem_append, List.mem_cons] at ha ⊢
    tauto
  have hpos := chunkBytes_pos t
  have hbounds := h.bounds hc
  have harena := t.arena_fits
  have hfits := h.fits
  unfold chunkLen at hbounds
  have hsizelt : s.get t .size c < 256 ^ t.wordBytes := get_lt s .size c
  -- none of the words wraps
  have hnewChunk : t.wrap (getPtr t c + offset) = c + t.chunkBytes + offset := by
    rw [getPtr, wrap_eq (n := c + t.chunkBytes) (by omega), wrap_eq (by omega)]
  have hrest : t.sub (t.sub (s.get t .size c) t.chunkBytes) offset =
      s.get t .size c - t.chunkBytes - offset := by
    rw [sub_eq hsizelt (by omega), sub_eq (by omega) (by omega)]
  have hcond : t.wrap (offset + t.chunkBytes) < s.get t .size c := by
    rw [wrap_eq (by omega)]
    exact hfit
  generalize hn : c + t.chunkBytes + offset = n at *
  generalize hm : s.get t .size c - t.chunkBytes - offset = m at *
  have hcn : c ≠ n := by omega
  have heq : splitChunk t s c offset =
      (((freeChunk t ((s.set t .size n m).set t .flags n 0) n).set t .size c offset).set t
        .prev c 0).set t .next c 0 := by
    simp only [splitChunk, hoff, if_pos hcond, hnewChunk, hrest]
  have hmlt : m < 256 ^ t.wordBytes := by omega
  have hofflt : offset < 256 ^ t.wordBytes := by omega
  have hzero : 0 < 256 ^ t.wordBytes := Nat.pow_pos (by decide)
  have hget₁ : ∀ f, ∀ a ∈ pre ++ c :: n :: post,
      ((s.set t .size n m).set t .flags n 0).get t f a =
        if f = .flags ∧ a = n then 0 else if f = .size ∧ a = n then m else s.get t f a := by
    intro f a ha
    rw [get_set hp.separate ha hnhs (g := .flags) (Nat.pow_pos (by decide)),
      get_set hp.separate ha hnhs (g := .size) hmlt]
  generalize hs₁ : (s.set t .size n m).set t .flags n 0 = s₁ at heq hget₁
  have hnfl : n ∉ fl := fun hmem => hnew (h.sub n hmem)
  have hflhs : ∀ a ∈ fl, a ∈ pre ++ c :: n :: post := fun a ha => hsub a (h.sub a ha)
  have hlist₁ : FreeList t s₁ fl := by
    rw [← hs₁]
    exact (h.linked.set_other hp hflhs hnhs hnfl).set_other hp hflhs hnhs hnfl
  have husage₁ : s₁.heapUsage = s.heapUsage := by
    rw [← hs₁]
    rfl
  have hmem₁ : OnlyHeaders t (pre ++ c :: n :: post) s s₁ := by
    rw [← hs₁]
    exact (onlyHeaders_set hnhs).set hnhs
  have hsizen : s₁.get t .size n = m := by
    simp [hget₁ .size n hnhs]
  have hlast : isLastChunk t s₁ n = true ↔ n + t.chunkBytes + m = t.heapBase + s.heapUsage := by
    rw [isLastChunk, nextChunk, heapEnd, hsizen, husage₁, decide_eq_true_iff,
      wrap_eq (by omega), wrap_eq (by omega)]
  -- the rest of the proof follows from what `free_chunk` says of the new chunk
  have hfinish : ∀ fl', Marked t (pre ++ c :: n :: post) n false s₁ (freeChunk t s₁ n) →
      FreeList t (freeChunk t s₁ n) fl' → (∀ a ∈ fl', a ∈ pre ++ c :: n :: post) → c ∉ fl' →
      (n + t.chunkBytes + m ≠ t.heapBase + s.heapUsage ∧
          (freeChunk t s₁ n).heapUsage = s.heapUsage ∧ fl' = n :: fl ∨
        n + t.chunkBytes + m = t.heapBase + s.heapUsage ∧
          (freeChunk t s₁ n).heapUsage = s.heapUsage - (t.chunkBytes + m) ∧ fl' = fl) →
      Split t (pre ++ c :: n :: post) fl c n offset m s (splitChunk t s c offset) := by
    intro fl' hmark hlist hsub' hcfl' hcase
    have hget : ∀ f, ∀ a ∈ pre ++ c :: n :: post, (splitChunk t s c offset).get t f a =
        if f = .next ∧ a = c then 0 else if f = .prev ∧ a = c then 0
        else if f = .size ∧ a = c then offset else (freeChunk t s₁ n).get t f a := by
      intro f a ha
      rw [heq, get_set hp.separate ha hchs (g := .next) hzero,
        get_set hp.separate ha hchs (g := .prev) hzero,
        get_set hp.separate ha hchs (g := .size) hofflt]
    have hfree : FreeList t (splitChunk t s c offset) fl' := by
      rw [heq]
      exact ((hlist.set_other hp hsub' hchs hcfl').set_other hp hsub' hchs hcfl').set_other hp
        hsub' hchs hcfl'
    have husage : (splitChunk t s c offset).heapUsage = (freeChunk t s₁ n).heapUsage := by
      rw [heq]
      rfl
    refine ⟨?_, ?_, ?_, ?_, ?_⟩
    · intro a ha
      rw [hget .size a ha, if_neg (by simp), if_neg (by simp), hmark.size a ha, hget₁ .size a ha]
      simp
    · rw [chunkAllocated, hget .flags n hnhs]
      simpa [chunkAllocated] using hmark.self
    · intro a ha hne
      have hmarked := hmark.other a ha hne
      simp only [chunkAllocated] at hmarked ⊢
      rw [hget .flags a ha]
      simp only [reduceCtorEq, false_and, if_false]
      rw [hmarked, hget₁ .flags a ha]
      simp [hne]
    · rw [heq]
      exact (((hmem₁.trans hmark.mem).set hchs).set hchs).set hchs
    · rw [husage]
      rcases hcase with ⟨hne, hu, rfl⟩ | ⟨he, hu, rfl⟩
      · exact .inl ⟨hne, hu, hfree⟩
      · exact .inr ⟨he, hu, hfree⟩
  cases hlast' : isLastChunk t s₁ n with
  | true =>
    have hend := hlast.mp hlast'
    obtain ⟨hmark, hlist, husage⟩ := freeChunk_last hp hflhs hlist₁ hnhs hlast'
    apply hfinish fl hmark hlist hflhs hcfl
    refine .inr ⟨hend, ?_, rfl⟩
    have hbase := t.base_pos
    rw [husage, hsizen, husage₁, wrap_eq (n := t.chunkBytes + m) (by omega),
      sub_eq (m := s.heapUsage) (by omega) (by omega)]
  | false =>
    have hend : n + t.chunkBytes + m ≠ t.heapBase + s.heapUsage := by
      intro hend
      rw [hlast.mpr hend] at hlast'
      cases hlast'
    obtain ⟨hmark, hlist, husage⟩ := freeChunk_spec hp hflhs hlist₁ h.nodup hnhs hnfl hlast'
    have hsub' : ∀ a ∈ n :: fl, a ∈ pre ++ c :: n :: post := by
      intro a ha
      rcases List.mem_cons.mp ha with rfl | ha
      · exact hnhs
      · exact hflhs a ha
    apply hfinish (n :: fl) hmark hlist hsub' (by simp [hcn, hcfl])
    exact .inl ⟨hend, by rw [husage, husage₁], rfl⟩

/-- A split leaves at most the offset to the block, and the rest becomes a free chunk. -/
theorem Shape.splitChunk_spec {offset : ℕ} (h : Shape t s cs fl) (hc : c ∈ cs)
    (halloc : chunkAllocated t s c = true) (hoff : t.align offset = offset)
    (hle : offset ≤ s.get t .size c) :
    ∃ cs' fl', Shape t (splitChunk t s c offset) cs' fl' ∧
      Evolves t (fun p len => p = c + t.chunkBytes → len ≤ offset) NoBlock s cs
        (splitChunk t s c offset) cs' := by
  obtain ⟨pre, post, rfl⟩ := List.append_of_mem hc
  have hbounds := h.bounds hc
  have harena := t.arena_fits
  have hfits := h.fits
  unfold chunkLen at hbounds
  by_cases hfit : offset + t.chunkBytes < s.get t .size c
  · have hsplit := h.splitChunk_split halloc hoff hfit
    obtain ⟨hp, hnew⟩ := h.divided hfit
    generalize hn : c + t.chunkBytes + offset = n at *
    generalize hm : s.get t .size c - t.chunkBytes - offset = m at *
    have hcn : c ≠ n := by
      have hpos := chunkBytes_pos t
      omega
    have hsub : ∀ a ∈ pre ++ c :: post, a ∈ pre ++ c :: n :: post := by
      intro a ha
      simp only [List.mem_append, List.mem_cons] at ha ⊢
      tauto
    have hold : ∀ a ∈ pre ++ c :: n :: post, a ≠ n → a ∈ pre ++ c :: post := by
      intro a ha hne
      simp only [List.mem_append, List.mem_cons] at ha ⊢
      tauto
    have hne : ∀ a ∈ pre ++ c :: post, a ≠ n := fun a ha han => hnew (han ▸ ha)
    have hsizec : (splitChunk t s c offset).get t .size c = offset := by
      rw [hsplit.size c (hsub c hc), if_pos rfl]
    have hsizen : (splitChunk t s c offset).get t .size n = m := by
      rw [hsplit.size n (by simp), if_neg (Ne.symm hcn), if_pos rfl]
    have hsize : ∀ a ∈ pre ++ c :: post, a ≠ c →
        (splitChunk t s c offset).get t .size a = s.get t .size a := by
      intro a ha hac
      rw [hsplit.size a (hsub a ha), if_neg hac, if_neg (hne a ha)]
    have hother : ∀ a ∈ pre ++ c :: post,
        chunkAllocated t (splitChunk t s c offset) a = chunkAllocated t s a :=
      fun a ha => hsplit.other a (hsub a ha) (hne a ha)
    have hdivide : Tiled (chunkLen t (splitChunk t s c offset)) t.heapBase
        (pre ++ c :: n :: post) (t.heapBase + s.heapUsage) := by
      apply h.tiled.divide
      · rw [chunkLen, hsizec]
        omega
      · rw [chunkLen, chunkLen, chunkLen, hsizec, hsizen]
        omega
      · intro z hz
        have hmid := List.nodup_cons.mp (List.nodup_middle.mp h.nodup_chunks)
        have hz' : z ∈ pre ++ c :: post := by
          simp only [List.mem_append, List.mem_cons] at hz ⊢
          tauto
        rw [chunkLen, hsize z hz' (fun hzc => hmid.1 (hzc ▸ hz)), chunkLen]
    -- the blocks are those of before, the divided one with less room
    have hkept : ∀ cs', (∀ a ∈ pre ++ c :: post, a ∈ cs') → (∀ a ∈ cs', a ∈ pre ++ c :: n :: post) →
        Evolves t (fun p len => p = c + t.chunkBytes → len ≤ offset) NoBlock s (pre ++ c :: post)
          (splitChunk t s c offset) cs' := by
      intro cs' hin hout
      refine ⟨?_, ?_, ?_⟩
      · rintro p len hkeep ⟨a, ha, hf, rfl, hlen⟩
        refine ⟨a, hin a ha, by rw [hother a ha, hf], rfl, ?_⟩
        by_cases hac : a = c
        · rw [hac, hsizec]
          exact hkeep (by rw [hac])
        · rw [hsize a ha hac]
          exact hlen
      · intro p len hkeep hblock i hi
        apply bytes_of_onlyHeaders hsplit.mem _ hi
        intro a ha
        by_cases han : a = n
        · obtain ⟨b, hb, _, rfl, hlen⟩ := hblock
          by_cases hbc : b = c
          · have hlen' := hkeep (by rw [hbc])
            omega
          · have hapart := h.tiled.apart hb hc hbc
            unfold chunkLen at hapart
            omega
        · exact h.block_clear hblock (hold a ha han)
      · rintro p len ⟨a, ha, hf, hpa, hlen⟩
        have han : a ≠ n := by
          rintro rfl
          rw [hsplit.self] at hf
          cases hf
        have ha' := hold a (hout a ha) han
        refine .inl ⟨a, ha', by rw [← hother a ha', hf], hpa, ?_⟩
        by_cases hac : a = c
        · rw [hac, hsizec] at hlen
          rw [hac]
          exact hlen.trans hle
        · rwa [← hsize a ha' hac]
    rcases hsplit.freed with ⟨hend, husage, hlist⟩ | ⟨hend, husage, hlist⟩
    · refine ⟨pre ++ c :: n :: post, n :: fl, ⟨?_, ?_, hlist, ?_, ?_⟩, hkept _ hsub (fun a ha => ha)⟩
      · rw [husage]
        exact hdivide
      · rw [husage]
        exact h.fits
      · exact List.nodup_cons.mpr ⟨fun hmem => hnew (h.sub n hmem), h.nodup⟩
      · intro a
        by_cases han : a = n
        · rw [han]
          simp [hsplit.self]
        · rw [List.mem_cons, or_iff_right han, h.free a]
          constructor
          · rintro ⟨ha, hf⟩
            exact ⟨hsub a ha, by rw [hother a ha, hf]⟩
          · rintro ⟨ha, hf⟩
            have ha' := hold a ha han
            exact ⟨ha', by rw [← hother a ha', hf]⟩
    · -- the new chunk was the last one
      have happend : pre ++ c :: n :: post = (pre ++ [c]) ++ n :: post := by simp
      rw [happend] at hdivide
      have hpost : post = [] := by
        apply hdivide.post_eq_nil (chunkLen_pos t (splitChunk t s c offset))
        rw [chunkLen, hsizen, ← hend, Nat.add_assoc]
      subst hpost
      refine ⟨pre ++ [c], fl, ⟨?_, ?_, hlist, h.nodup, ?_⟩, hkept _ (fun a ha => ha) hsub⟩
      · have hn' : n = t.heapBase + (splitChunk t s c offset).heapUsage := by omega
        rw [← hn']
        exact hdivide.dropLast
      · rw [husage]
        omega
      · intro a
        rw [h.free a]
        apply and_congr_right
        intro ha
        rw [hother a ha]
  · have heq : splitChunk t s c offset = s := by
      have hcond : ¬ t.wrap (offset + t.chunkBytes) < s.get t .size c := by
        rw [wrap_eq (by omega)]
        exact hfit
      simp only [splitChunk, hoff, if_neg hcond]
    rw [heq]
    exact ⟨_, fl, h, .refl _ _ s _⟩

/-! ## Allocation -/

/-- The least multiple of the alignment that is not less than a number. -/
def Target.roundUp (t : Target) (n : ℕ) : ℕ := (n + (t.alignment - 1)) / t.alignment * t.alignment

theorem alignment_pos (t : Target) : 0 < t.alignment := Nat.two_pow_pos _

theorem words_eq (t : Target) : 256 ^ t.wordBytes = 2 ^ (8 * t.wordBytes) := by
  rw [Nat.pow_mul]

theorem le_roundUp (t : Target) (n : ℕ) : n ≤ t.roundUp n := by
  have hpos := alignment_pos t
  have hdiv := Nat.div_add_mod' (n + (t.alignment - 1)) t.alignment
  have hmod := Nat.mod_lt (n + (t.alignment - 1)) hpos
  unfold Target.roundUp
  omega

/-- Rounding up is idempotent. -/
theorem roundUp_roundUp (t : Target) (n : ℕ) : t.roundUp (t.roundUp n) = t.roundUp n := by
  have hpos := alignment_pos t
  have hless : t.alignment - 1 < t.alignment := by omega
  generalize hk : (n + (t.alignment - 1)) / t.alignment = k
  have hround : t.roundUp n = k * t.alignment := by rw [Target.roundUp, hk]
  rw [hround, Target.roundUp, Nat.add_comm, Nat.add_mul_div_right _ _ hpos,
    Nat.div_eq_of_lt hless, Nat.zero_add]

/-- `ALIGN` rounds up, unless the sum wraps. -/
theorem align_eq {n : ℕ} (h : t.roundUp n < 256 ^ t.wordBytes) : t.align n = t.roundUp n := by
  have hpos := alignment_pos t
  have hwords := words_eq t
  have hdvd : t.alignment ∣ 256 ^ t.wordBytes := by
    rw [hwords]
    exact Nat.pow_dvd_pow 2 t.align_fits
  have hmod := Nat.mod_lt (n + (t.alignment - 1)) hpos
  have hdiv := Nat.div_add_mod' (n + (t.alignment - 1)) t.alignment
  have hnext : t.roundUp n + t.alignment ≤ 256 ^ t.wordBytes := by
    have hdvd' : t.alignment ∣ 256 ^ t.wordBytes - t.roundUp n :=
      Nat.dvd_sub hdvd (Nat.dvd_mul_left _ _)
    have hle := Nat.le_of_dvd (by omega) hdvd'
    omega
  have hsum : n + (t.alignment - 1) < 256 ^ t.wordBytes := by
    unfold Target.roundUp at hnext
    omega
  rw [Target.align, wrap_eq hsum]
  rw [hwords] at hsum ⊢
  exact and_complement hsum t.align_fits

/-- So is alignment where nothing wraps. -/
theorem align_align {n : ℕ} (h : t.roundUp n < 256 ^ t.wordBytes) :
    t.align (t.align n) = t.align n := by
  have hround := roundUp_roundUp t n
  rw [align_eq h, align_eq (by rw [hround]; exact h), hround]

/-- The result of an allocation: nothing, or a new block. -/
def Allocated (t : Target) (s : State) (cs : List ℕ) (size : ℕ) (r : ℕ × State) : Prop :=
  ∃ cs' fl', Shape t r.2 cs' fl' ∧
    (r.1 = 0 ∧ Evolves t AnyBlock NoBlock s cs r.2 cs' ∨
      r.1 ≠ 0 ∧ Evolves t AnyBlock (· = r.1) s cs r.2 cs' ∧ Block t r.2 cs' r.1 size ∧
        ¬ Block t s cs r.1 0)

/-- A free chunk that was found is divided, and nothing else is. -/
theorem Shape.getFreeChunk_some {r : State} (h : Shape t s cs fl) (hsize : t.align size = size)
    (hr : getFreeChunk t s size = (some b, r)) :
    ∃ cs' fl', Shape t r cs' fl' ∧ Evolves t AnyBlock (· = b + t.chunkBytes) s cs r cs' ∧
      Block t r cs' (b + t.chunkBytes) size ∧ ¬ Block t s cs (b + t.chunkBytes) 0 := by
  obtain ⟨cs₁, fl₁, h₁, hev₁, -⟩ := h.defragLoop_spec (i := t.searchMax) h.linked.head_mem
  have hsearch := h₁.searchLoop_spec size t.searchMax none h₁.linked.head_mem (by simp)
  simp only [getFreeChunk, defragChunks] at hr
  generalize defragLoop t t.searchMax s s.freeList = s₁ at *
  cases hfound : searchLoop t s₁ size t.searchMax s₁.freeList none with
  | none =>
    rw [hfound] at hr
    cases hr
  | some best =>
    rw [hfound] at hr hsearch
    cases hr
    obtain ⟨hbfl, hbsize⟩ := hsearch b rfl
    obtain ⟨h₂, hev₂, -, halloc₂, hsize₂⟩ := h₁.allocateChunk_spec hbfl
    have hnot := h₁.not_block hbfl
    have hbcs := h₁.sub b hbfl
    obtain ⟨cs₃, fl₃, h₃, hev₃⟩ := h₂.splitChunk_spec hbcs halloc₂ hsize (by rwa [hsize₂])
    have hfresh : ¬ Block t s cs (b + t.chunkBytes) 0 :=
      fun hb => hnot (hev₁.kept _ _ trivial hb)
    refine ⟨cs₃, fl₃, h₃, ?_, ?_, hfresh⟩
    · apply ((hev₁.mono (fun _ _ h => h) (fun _ h => h.elim)).trans hev₂ (fun _ _ h _ _ => h)).trans
        (hev₃.mono (fun _ _ h => h) (fun _ h => h.elim))
      intro p len _ _ hb hp
      exact absurd (hb.mono (Nat.zero_le _)) (hp ▸ hfresh)
    · apply hev₃.kept _ _ (fun _ => le_rfl)
      exact block_iff.mpr ⟨hbcs, halloc₂, by rwa [hsize₂]⟩

/-- Without a chunk that is large enough, the heap is merged only. -/
theorem Shape.getFreeChunk_none {r : State} (h : Shape t s cs fl)
    (hr : getFreeChunk t s size = (none, r)) :
    ∃ cs' fl', Shape t r cs' fl' ∧ Evolves t AnyBlock NoBlock s cs r cs' ∧
      r.heapUsage = s.heapUsage := by
  obtain ⟨cs₁, fl₁, h₁, hev₁, husage⟩ := h.defragLoop_spec (i := t.searchMax) h.linked.head_mem
  simp only [getFreeChunk, defragChunks] at hr
  generalize defragLoop t t.searchMax s s.freeList = s₁ at *
  cases hfound : searchLoop t s₁ size t.searchMax s₁.freeList none with
  | none =>
    rw [hfound] at hr
    cases hr
    exact ⟨cs₁, fl₁, h₁, hev₁, husage⟩
  | some best =>
    rw [hfound] at hr
    cases hr

/-- The state with a new chunk behind the last one. -/
def appendChunk (t : Target) (s : State) (size : ℕ) : State :=
  (({ s with heapUsage := s.heapUsage + (t.chunkBytes + size) } : State).set t .size
    (t.heapBase + s.heapUsage) size).set t .flags (t.heapBase + s.heapUsage) 1

/-- A new chunk at the end of the heap. -/
theorem Shape.appendChunk_spec (h : Shape t s cs fl)
    (hfit : s.heapUsage + (t.chunkBytes + size) ≤ t.arenaSize) :
    Allocated t s cs size (t.heapBase + s.heapUsage + t.chunkBytes, appendChunk t s size) := by
  have harena := t.arena_fits
  have hbase := t.base_pos
  generalize he : t.heapBase + s.heapUsage = e
  -- The new chunk is behind all others.
  have hapart : ∀ a ∈ cs, Apart t a e := by
    intro a ha
    have hb := (h.bounds ha).2
    unfold chunkLen at hb
    exact .inl (by omega)
  have hget : ∀ f, ∀ a ∈ cs, (appendChunk t s size).get t f a = s.get t f a := by
    intro f a ha
    rw [appendChunk, he, get_set_apart (hapart a ha), get_set_apart (hapart a ha)]
    rfl
  have halloc : ∀ a ∈ cs, chunkAllocated t (appendChunk t s size) a = chunkAllocated t s a := by
    intro a ha
    rw [chunkAllocated, hget .flags a ha]
    rfl
  have hnew : e ∉ cs := by
    intro hmem
    have hb := (h.bounds hmem).2
    have hpos := chunkLen_pos t s e
    omega
  have hsize : (appendChunk t s size).get t .size e = size := by
    rw [appendChunk, he, get_set_field (by decide),
      get_set_self (by exact (by omega : size < 256 ^ t.wordBytes))]
  have hflag : chunkAllocated t (appendChunk t s size) e = true := by
    rw [chunkAllocated, appendChunk, he, get_set_self (by exact (by decide : 1 < 256 ^ 1))]
    rfl
  have hmem : OnlyHeaders t [e] s (appendChunk t s size) := by
    rw [appendChunk, he]
    have hfirst : OnlyHeaders t [e] s ({ s with
        heapUsage := s.heapUsage + (t.chunkBytes + size) } : State) := .refl [e] s
    exact (hfirst.set (by simp)).set (by simp)
  -- The other chunks are as before, the new one is not free.
  have hold : ∀ a ∈ cs ++ [e], a ≠ e → a ∈ cs := by
    intro a ha hne
    simpa [hne] using ha
  have hne : ∀ a ∈ cs, a ≠ e := fun a ha hae => hnew (hae ▸ ha)
  refine ⟨cs ++ [e], fl, ⟨?_, hfit, ?_, h.nodup, ?_⟩, .inr ⟨?_, ⟨?_, ?_, ?_⟩, ?_, ?_⟩⟩
  · have hconcat := h.tiled.concat (chunkLen t (appendChunk t s size)) (by
      intro a ha
      rw [chunkLen, hget .size a ha, chunkLen])
    rw [he] at hconcat
    have hend : t.heapBase + (appendChunk t s size).heapUsage =
        e + chunkLen t (appendChunk t s size) e := by
      rw [chunkLen, hsize, ← he, Nat.add_assoc]
      rfl
    rw [hend]
    exact hconcat
  · apply Linked.congr h.linked
    · intro a ha
      exact hget .prev a (h.sub a ha)
    · intro a ha
      exact hget .next a (h.sub a ha)
  · intro a
    rw [h.free a]
    constructor
    · rintro ⟨ha, hf⟩
      exact ⟨by simp [ha], by rw [halloc a ha, hf]⟩
    · rintro ⟨ha, hf⟩
      have hae : a ≠ e := by
        rintro rfl
        rw [hflag] at hf
        cases hf
      exact ⟨hold a ha hae, by rw [← halloc a (hold a ha hae), hf]⟩
  · have hpos := chunkBytes_pos t
    simp only [ne_eq]
    omega
  · rintro p len - ⟨a, ha, hf, hpa, hlen⟩
    exact ⟨a, by simp [ha], by rw [halloc a ha, hf], hpa, by rwa [hget .size a ha]⟩
  · intro p len _ hb i hi
    apply bytes_of_onlyHeaders hmem _ hi
    intro a ha
    obtain rfl := List.mem_singleton.mp ha
    obtain ⟨c, hc, -, rfl, hlen⟩ := hb
    have hbounds := (h.bounds hc).2
    unfold chunkLen at hbounds
    omega
  · rintro p len ⟨a, ha, hf, hpa, hlen⟩
    by_cases hae : a = e
    · exact .inr (hae ▸ hpa)
    · have ha' := hold a ha hae
      exact .inl ⟨a, ha', by rw [← halloc a ha', hf], hpa, by rwa [← hget .size a ha']⟩
  · exact block_iff.mpr ⟨by simp, hflag, le_of_eq hsize.symm⟩
  · intro hb
    exact hnew (block_iff.mp hb).1

/-- The pointer to a chunk's data. -/
theorem Shape.getPtr_eq (h : Shape t s cs fl) (hc : c ∈ cs) : getPtr t c = c + t.chunkBytes := by
  have hb := (h.bounds hc).2
  have hfits := h.fits
  have harena := t.arena_fits
  unfold chunkLen at hb
  exact wrap_eq (by omega)

/-- And back. -/
theorem Shape.getChunk_eq (h : Shape t s cs fl) (hc : c ∈ cs) :
    getChunk t (c + t.chunkBytes) = c := by
  have hb := (h.bounds hc).2
  have hfits := h.fits
  have harena := t.arena_fits
  unfold chunkLen at hb
  rw [getChunk, sub_eq (by omega) (by omega), Nat.add_sub_cancel]

/-- The flags of an allocated chunk are written once more. -/
theorem Shape.setFlags (h : Shape t s cs fl) (hc : c ∈ cs)
    (halloc : chunkAllocated t s c = true) :
    Shape t (s.set t .flags c 1) cs fl ∧
      Evolves t AnyBlock NoBlock s cs (s.set t .flags c 1) cs := by
  have hp := h.placed
  have hone : 1 < 256 ^ Field.bytes t .flags := by
    have hbytes : Field.bytes t .flags = 1 := rfl
    rw [hbytes]
    decide
  have hget : ∀ f, f ≠ .flags → ∀ a ∈ cs, (s.set t .flags c 1).get t f a = s.get t f a := by
    intro f hf a ha
    rw [get_set hp.separate ha hc hone, if_neg (fun hfa => hf hfa.1)]
  have hflag : ∀ a ∈ cs, chunkAllocated t (s.set t .flags c 1) a = chunkAllocated t s a := by
    intro a ha
    by_cases hac : a = c
    · rw [hac, halloc, chunkAllocated, get_set_self hone]
      rfl
    · rw [chunkAllocated, get_set hp.separate ha hc hone, if_neg (fun hfa => hac hfa.2)]
      rfl
  refine ⟨h.congr hget hflag rfl rfl, ?_, ?_, ?_⟩
  · rintro p len - ⟨a, ha, hf, hpa, hlen⟩
    exact ⟨a, ha, by rw [hflag a ha, hf], hpa, by rwa [hget .size (by decide) a ha]⟩
  · intro p len _ hb i hi
    exact bytes_of_onlyHeaders (onlyHeaders_set hc) (fun a ha => h.block_clear hb ha) hi
  · rintro p len ⟨a, ha, hf, hpa, hlen⟩
    exact .inl ⟨a, ha, by rw [← hflag a ha, hf], hpa, by rwa [← hget .size (by decide) a ha]⟩

/-- No size wraps in an allocation. -/
def Moderate (t : Target) (s : State) (size : ℕ) : Prop :=
  s.heapUsage + t.chunkBytes + t.roundUp size < 256 ^ t.wordBytes

/-- `heapmem_alloc` for a size that does not wrap. -/
theorem Shape.heapmemAlloc_spec (h : Shape t s cs fl) (hsize : Moderate t s size) :
    Allocated t s cs (t.roundUp size) (heapmemAlloc t s size) := by
  unfold Moderate at hsize
  have halign : t.align size = t.roundUp size := align_eq (by omega)
  -- The size is aligned a second time, for a new chunk, which changes nothing.
  have halign' : t.align (t.roundUp size) = t.roundUp size := by
    rw [← halign]
    exact align_align (by omega)
  generalize t.roundUp size = rounded at *
  -- A free chunk is split and taken, or a chunk is appended.
  rcases hfree : getFreeChunk t s rounded with ⟨found, s₁⟩
  cases found with
  | some b =>
    obtain ⟨cs₁, fl₁, h₁, hev₁, hblock, hfresh⟩ := h.getFreeChunk_some halign' hfree
    obtain ⟨hb, halloc, hlen⟩ := block_iff.mp hblock
    obtain ⟨h₂, hev₂⟩ := h₁.setFlags hb halloc
    have hr : heapmemAlloc t s size = (b + t.chunkBytes, s₁.set t .flags b 1) := by
      simp [heapmemAlloc, takeChunk, halign, hfree, h₁.getPtr_eq hb]
    rw [hr]
    have hpos := chunkBytes_pos t
    refine ⟨cs₁, fl₁, h₂, .inr ⟨?_, ?_, ?_, hfresh⟩⟩
    · simp only [ne_eq]
      omega
    · exact hev₁.trans (hev₂.mono (fun _ _ h => h) (fun _ h => h.elim)) (fun _ _ h _ _ => h)
    · exact hev₂.kept _ _ trivial hblock
  | none =>
    obtain ⟨cs₁, fl₁, h₁, hev₁, husage⟩ := h.getFreeChunk_none hfree
    have hwrap : t.wrap (s₁.heapUsage + t.wrap (t.chunkBytes + rounded)) =
        s₁.heapUsage + (t.chunkBytes + rounded) := by
      rw [wrap_eq (n := t.chunkBytes + rounded) (by omega), wrap_eq (by omega)]
    by_cases hfit : s₁.heapUsage + (t.chunkBytes + rounded) ≤ t.arenaSize
    · have hr : heapmemAlloc t s size =
          (t.heapBase + s₁.heapUsage + t.chunkBytes, appendChunk t s₁ rounded) := by
        have hbase := t.arena_fits
        have hptr : getPtr t (t.heapBase + s₁.heapUsage) =
            t.heapBase + s₁.heapUsage + t.chunkBytes := wrap_eq (by omega)
        have hend := h₁.heapEnd_eq
        simp [heapmemAlloc, takeChunk, halign, hfree, extendSpace, hwrap, Nat.not_lt.mpr hfit,
          hend, hptr, appendChunk]
      rw [hr]
      obtain ⟨cs₂, fl₂, h₂, hcase⟩ := h₁.appendChunk_spec hfit
      refine ⟨cs₂, fl₂, h₂, ?_⟩
      rcases hcase with ⟨hzero, hev₂⟩ | ⟨hne, hev₂, hblock, hfresh⟩
      · exact .inl ⟨hzero, hev₁.trans hev₂ (fun _ _ h _ _ => h)⟩
      · refine .inr ⟨hne, ?_, hblock, fun hb => hfresh (hev₁.kept _ _ trivial hb)⟩
        exact (hev₁.mono (fun _ _ h => h) (fun _ h => h.elim)).trans hev₂ (fun _ _ h _ _ => h)
    · have hr : heapmemAlloc t s size = (0, s₁) := by
        simp [heapmemAlloc, takeChunk, halign, hfree, extendSpace, hwrap, Nat.not_le.mp hfit]
      rw [hr]
      exact ⟨cs₁, fl₁, h₁, .inl ⟨rfl, hev₁⟩⟩

/-! ## Release -/

/-- `heapmem_free`: the other blocks stay, and this one is gone. -/
theorem Shape.freeChunk_spec (h : Shape t s cs fl) (hc : c ∈ cs)
    (halloc : chunkAllocated t s c = true) :
    ∃ cs' fl', Shape t (freeChunk t s c) cs' fl' ∧
      Evolves t (fun p _ => p ≠ c + t.chunkBytes) NoBlock s cs (freeChunk t s c) cs' ∧
      ¬ Block t (freeChunk t s c) cs' (c + t.chunkBytes) 0 := by
  have hp := h.placed
  have hbounds := h.bounds hc
  have harena := t.arena_fits
  have hbase := t.base_pos
  have hfits := h.fits
  have hcfl : c ∉ fl := by
    intro hmem
    rw [((h.free c).mp hmem).2] at halloc
    cases halloc
  have hnot : ∀ cs', Marked t cs c false s (freeChunk t s c) →
      ¬ Block t (freeChunk t s c) cs' (c + t.chunkBytes) 0 := by
    intro cs' hmark hb
    have halloc' := (block_iff.mp hb).2.1
    rw [hmark.self] at halloc'
    cases halloc'
  have hevolves : ∀ cs', Marked t cs c false s (freeChunk t s c) → (∀ a ∈ cs', a ∈ cs) →
      (∀ a ∈ cs, a ≠ c → a ∈ cs') →
      Evolves t (fun p _ => p ≠ c + t.chunkBytes) NoBlock s cs (freeChunk t s c) cs' := by
    intro cs' hmark hsub hin
    refine ⟨?_, ?_, ?_⟩
    · rintro p len hne ⟨a, ha, hf, rfl, hlen⟩
      have hac : a ≠ c := fun hac => hne (by rw [hac])
      exact ⟨a, hin a ha hac, by rw [hmark.other a ha hac, hf], rfl, by rwa [hmark.size a ha]⟩
    · intro p len _ hb i hi
      exact bytes_of_onlyHeaders hmark.mem (fun a ha => h.block_clear hb ha) hi
    · rintro p len ⟨a, ha, hf, hpa, hlen⟩
      have hac : a ≠ c := by
        rintro rfl
        rw [hmark.self] at hf
        cases hf
      exact .inl ⟨a, hsub a ha, by rw [← hmark.other a (hsub a ha) hac, hf], hpa,
        by rwa [← hmark.size a (hsub a ha)]⟩
  -- The last chunk is given back to the arena, another one enters the free list.
  cases hlast : isLastChunk t s c with
  | true =>
    obtain ⟨hmark, hlist, husage⟩ := freeChunk_last hp h.sub h.linked hc hlast
    have hend := (h.isLastChunk_iff hc).mp hlast
    obtain ⟨pre, post, rfl⟩ := List.append_of_mem hc
    obtain rfl := h.tiled.post_eq_nil (chunkLen_pos t s) hend
    have husage' : (freeChunk t s c).heapUsage = s.heapUsage - chunkLen t s c := by
      unfold chunkLen at hbounds ⊢
      rw [husage, wrap_eq (n := t.chunkBytes + s.get t .size c) (by omega),
        sub_eq (m := s.heapUsage) (by omega) (by omega)]
    have hcpre : c ∉ pre := by
      simpa using (List.nodup_cons.mp (List.nodup_middle.mp h.nodup_chunks)).1
    refine ⟨pre, fl, ⟨?_, ?_, hlist, h.nodup, ?_⟩, hevolves pre hmark (by simp +contextual) ?_,
      hnot pre hmark⟩
    · have hstart : t.heapBase + (freeChunk t s c).heapUsage = c := by omega
      rw [hstart]
      apply h.tiled.dropLast.congr
      intro a ha
      rw [chunkLen, hmark.size a (by simp [ha]), chunkLen]
    · omega
    · intro a
      rw [h.free a]
      constructor
      · rintro ⟨ha, hf⟩
        have hac : a ≠ c := by
          rintro rfl
          rw [halloc] at hf
          cases hf
        exact ⟨by simpa [hac] using ha, by rw [hmark.other a ha hac, hf]⟩
      · rintro ⟨ha, hf⟩
        have hac : a ≠ c := fun hac => hcpre (hac ▸ ha)
        have ha' : a ∈ pre ++ [c] := by simp [ha]
        exact ⟨ha', by rw [← hmark.other a ha' hac, hf]⟩
    · intro a ha hac
      simpa [hac] using ha
  | false =>
    obtain ⟨hmark, hlist, husage⟩ :=
      Heapmem.freeChunk_spec hp h.sub h.linked h.nodup hc hcfl hlast
    refine ⟨cs, c :: fl, ⟨?_, ?_, hlist, List.nodup_cons.mpr ⟨hcfl, h.nodup⟩, ?_⟩,
      hevolves cs hmark (fun a ha => ha) (fun a ha _ => ha), hnot cs hmark⟩
    · rw [husage]
      apply h.tiled.congr
      intro a ha
      rw [chunkLen, hmark.size a ha, chunkLen]
    · rw [husage]
      exact hfits
    · intro a
      by_cases hac : a = c
      · rw [hac]
        simp [hc, hmark.self]
      · rw [List.mem_cons, or_iff_right hac, h.free a]
        apply and_congr_right
        intro ha
        rw [hmark.other a ha hac]

/-! ## Reallocation -/

/-- Bytes of one block are written. -/
theorem Shape.write_spec {len : ℕ} (h : Shape t s cs fl) (hb : Block t s cs p len)
    (hmem : ∀ i, i < p ∨ p + len ≤ i → s'.mem i = s.mem i)
    (husage : s'.heapUsage = s.heapUsage) (hlist : s'.freeList = s.freeList) :
    Shape t s' cs fl ∧ (∀ q n, Block t s' cs q n ↔ Block t s cs q n) ∧
      ∀ q n, q ≠ p → Block t s cs q n → ∀ i < n, s'.mem (q + i) = s.mem (q + i) := by
  have hget : ∀ f, ∀ a ∈ cs, s'.get t f a = s.get t f a := by
    intro f a ha
    have hclear := h.block_clear hb ha
    have hf := offset_bytes_le (t := t) f
    apply Memory.load_congr
    intro i hi hi'
    exact hmem i (by omega)
  have halloc : ∀ a ∈ cs, chunkAllocated t s' a = chunkAllocated t s a := by
    intro a ha
    rw [chunkAllocated, hget .flags a ha]
    rfl
  refine ⟨h.congr (fun f _ => hget f) halloc husage hlist, ?_, ?_⟩
  · intro q n
    constructor
    · rintro ⟨a, ha, hf, hq, hn⟩
      exact ⟨a, ha, by rw [← halloc a ha, hf], hq, by rwa [← hget .size a ha]⟩
    · rintro ⟨a, ha, hf, hq, hn⟩
      exact ⟨a, ha, by rw [halloc a ha, hf], hq, by rwa [hget .size a ha]⟩
  · intro q n hne hq i hi
    have hapart := h.blocks_apart hq hb hne
    exact hmem (q + i) (by omega)

/-- The result of a reallocation: nothing, the block in its place, or a block elsewhere. -/
def Reallocated (t : Target) (s : State) (cs : List ℕ) (ptr size : ℕ) (r : ℕ × State) : Prop :=
  ∃ cs' fl', Shape t r.2 cs' fl' ∧
    (r.1 = 0 ∧ Evolves t AnyBlock (· = ptr) s cs r.2 cs' ∨
      r.1 = ptr ∧ Evolves t (fun p len => p = ptr → len ≤ size) (· = ptr) s cs r.2 cs' ∧
        Block t r.2 cs' ptr size ∨
      r.1 ≠ 0 ∧ r.1 ≠ ptr ∧ Evolves t (fun p _ => p ≠ ptr) (· = r.1) s cs r.2 cs' ∧
        Block t r.2 cs' r.1 size ∧ ¬ Block t s cs r.1 0 ∧ ¬ Block t r.2 cs' ptr 0 ∧
        ∀ len, Block t s cs ptr len → ∀ i < len, r.2.mem (r.1 + i) = s.mem (ptr + i))

/-- The object is moved to a larger chunk with its bytes. -/
theorem Shape.moveObject_spec (h : Shape t s cs fl) (hc : c ∈ cs)
    (halloc : chunkAllocated t s c = true) (hsize : Moderate t s size)
    (hlt : s.get t .size c < t.roundUp size) :
    Reallocated t s cs (c + t.chunkBytes) (t.roundUp size)
      (moveObject t s (c + t.chunkBytes) size) := by
  obtain ⟨cs₁, fl₁, h₁, hcase⟩ := h.heapmemAlloc_spec hsize
  generalize hrounded : t.roundUp size = rounded at *
  generalize hr : heapmemAlloc t s size = r at *
  obtain ⟨newptr, s₁⟩ := r
  have hold : ∀ len, len ≤ s.get t .size c → Block t s cs (c + t.chunkBytes) len :=
    fun len hlen => block_iff.mpr ⟨hc, halloc, hlen⟩
  rcases hcase with ⟨hzero, hev₁⟩ | ⟨hne, hev₁, hblock, hfresh⟩
  · have heq : moveObject t s (c + t.chunkBytes) size = (0, s₁) := by
      simp only at hzero
      simp [moveObject, hr, hzero]
    rw [heq]
    exact ⟨cs₁, fl₁, h₁, .inl ⟨rfl, hev₁.mono (fun _ _ h => h) (fun _ h => h.elim)⟩⟩
  · simp only at hne hev₁ hblock hfresh h₁
    have hptr : newptr ≠ c + t.chunkBytes := by
      rintro rfl
      exact hfresh (hold 0 (Nat.zero_le _))
    obtain ⟨hc₁, halloc₁, -⟩ :=
      block_iff.mp (hev₁.kept (c + t.chunkBytes) 0 trivial (hold 0 (Nat.zero_le _)))
    have hchunk := h.getChunk_eq hc
    -- the old chunk has not grown, so it fits into the new one
    have hsame : s₁.get t .size c ≤ s.get t .size c := by
      have hblock' : Block t s₁ cs₁ (c + t.chunkBytes) (s₁.get t .size c) :=
        block_iff.mpr ⟨hc₁, halloc₁, le_rfl⟩
      rcases hev₁.blocks _ _ hblock' with hb | hb
      · exact (block_iff.mp hb).2.2
      · exact absurd hb.symm hptr
    generalize hs₂ : ({ s₁ with
      mem := s₁.mem.move newptr (c + t.chunkBytes) (s₁.get t .size c) } : State) = s₂
    have heq : moveObject t s (c + t.chunkBytes) size = (newptr, freeChunk t s₂ c) := by
      obtain ⟨k, rfl⟩ := Nat.exists_eq_succ_of_ne_zero hne
      simp only [moveObject, hr, hchunk, hs₂]
    have hmem₂ : ∀ i, i < newptr ∨ newptr + rounded ≤ i → s₂.mem i = s₁.mem i := by
      intro i hi
      rw [← hs₂]
      exact Memory.move_of_apart (by omega)
    obtain ⟨h₂, hblocks₂, hbytes₂⟩ := h₁.write_spec hblock hmem₂ (by rw [← hs₂]) (by rw [← hs₂])
    have halloc₂ : chunkAllocated t s₂ c = true :=
      (block_iff.mp ((hblocks₂ (c + t.chunkBytes) 0).mpr
        (block_iff.mpr ⟨hc₁, halloc₁, Nat.zero_le _⟩))).2.1
    obtain ⟨cs₃, fl₃, h₃, hev₃, hgone⟩ := h₂.freeChunk_spec hc₁ halloc₂
    have hev₂ : Evolves t (fun p _ => p ≠ newptr) NoBlock s₁ cs₁ s₂ cs₁ :=
      ⟨fun q n _ hq => (hblocks₂ q n).mpr hq, fun q n hne' hq => hbytes₂ q n hne' hq,
        fun q n hq => .inl ((hblocks₂ q n).mp hq)⟩
    have hnew : ∀ q n, Block t s cs q n → q ≠ newptr := by
      rintro q n hq rfl
      exact hfresh (hq.mono (Nat.zero_le _))
    rw [heq]
    refine ⟨cs₃, fl₃, h₃, .inr (.inr ⟨hne, hptr, ?_, ?_, hfresh, hgone, ?_⟩)⟩
    · have hfirst : Evolves t (fun p _ => p ≠ c + t.chunkBytes) (· = newptr) s cs s₁ cs₁ :=
        hev₁.mono (fun _ _ _ => trivial) (fun _ h => h)
      have hsecond := hfirst.trans (hev₂.mono (fun _ _ h => h) (fun _ h => h.elim))
        (fun q n _ _ hq => hnew q n hq)
      exact hsecond.trans (hev₃.mono (fun _ _ h => h) (fun _ h => h.elim)) (fun _ _ h _ _ => h)
    · exact hev₃.kept _ _ hptr ((hblocks₂ _ _).mpr hblock)
    · intro len hlen i hi
      have hlen' := (block_iff.mp hlen).2.2
      have hkept := (block_iff.mp (hev₁.kept _ _ trivial hlen)).2.2
      have hroom : Block t s₂ cs₁ newptr rounded := (hblocks₂ _ _).mpr hblock
      have hfree := hev₃.bytes newptr rounded hptr hroom i (by omega)
      have hcopy : s₂.mem (newptr + i) = s₁.mem (c + t.chunkBytes + i) := by
        rw [← hs₂]
        exact Memory.move_apply (by omega)
      have hbefore := hev₁.bytes _ _ trivial hlen i hi
      exact hfree.trans (hcopy.trans hbefore)

/-- The last chunk grows with the heap. -/
theorem Shape.growLast (h : Shape t s cs fl) (hc : c ∈ cs)
    (halloc : chunkAllocated t s c = true) (hlast : isLastChunk t s c = true)
    (hle : s.get t .size c ≤ size)
    (hfit : s.heapUsage + (size - s.get t .size c) ≤ t.arenaSize) :
    ∃ cs' fl', Shape t (({ s with heapUsage := s.heapUsage + (size - s.get t .size c) } :
        State).set t .size c size) cs' fl' ∧
      Evolves t AnyBlock (· = c + t.chunkBytes) s cs
        (({ s with heapUsage := s.heapUsage + (size - s.get t .size c) } : State).set t
          .size c size) cs' ∧
      Block t (({ s with heapUsage := s.heapUsage + (size - s.get t .size c) } : State).set t
        .size c size) cs' (c + t.chunkBytes) size := by
  have hp := h.placed
  have hbounds := h.bounds hc
  have harena := t.arena_fits
  have hbase := t.base_pos
  have hfits := h.fits
  have hend := (h.isLastChunk_iff hc).mp hlast
  unfold chunkLen at hbounds hend
  have hsizelt : size < 256 ^ t.wordBytes := by omega
  -- The usage and the size of the chunk grow by the same amount.
  generalize hs' : (({ s with heapUsage := s.heapUsage + (size - s.get t .size c) } :
    State).set t .size c size) = s'
  have hget : ∀ f, ∀ a ∈ cs, s'.get t f a =
      if f = .size ∧ a = c then size else s.get t f a := by
    intro f a ha
    rw [← hs', get_set hp.separate ha hc (g := .size) hsizelt]
    rfl
  have hsizec : s'.get t .size c = size := by
    rw [hget .size c hc, if_pos ⟨rfl, rfl⟩]
  have hsize : ∀ a ∈ cs, a ≠ c → s'.get t .size a = s.get t .size a := by
    intro a ha hac
    rw [hget .size a ha, if_neg (fun h => hac h.2)]
  have halloc' : ∀ a ∈ cs, chunkAllocated t s' a = chunkAllocated t s a := by
    intro a ha
    rw [chunkAllocated, hget .flags a ha, if_neg (by simp)]
    rfl
  have hmem : OnlyHeaders t cs s s' := by
    rw [← hs']
    have hfirst : OnlyHeaders t cs s ({ s with
        heapUsage := s.heapUsage + (size - s.get t .size c) } : State) := .refl cs s
    exact hfirst.set hc
  have husage : s'.heapUsage = s.heapUsage + (size - s.get t .size c) := by
    rw [← hs']
    rfl
  have hlist : s'.freeList = s.freeList := by
    rw [← hs']
    rfl
  refine ⟨cs, fl, ⟨?_, ?_, ?_, h.nodup, ?_⟩, ⟨?_, ?_, ?_⟩, ?_⟩
  · obtain ⟨pre, post, rfl⟩ := List.append_of_mem hc
    obtain rfl := h.tiled.post_eq_nil (chunkLen_pos t s) ((h.isLastChunk_iff hc).mp hlast)
    have hcpre : c ∉ pre := by
      simpa using (List.nodup_cons.mp (List.nodup_middle.mp h.nodup_chunks)).1
    have hconcat := h.tiled.dropLast.concat (chunkLen t s') (by
      intro a ha
      rw [chunkLen, hsize a (by simp [ha]) (fun hac => hcpre (hac ▸ ha)), chunkLen])
    have hend' : t.heapBase + s'.heapUsage = c + chunkLen t s' c := by
      rw [chunkLen, hsizec, husage]
      omega
    rw [hend']
    exact hconcat
  · rw [husage]
    exact hfit
  · rw [FreeList, hlist]
    apply Linked.congr h.linked
    · intro a ha
      rw [hget .prev a (h.sub a ha), if_neg (by simp)]
    · intro a ha
      rw [hget .next a (h.sub a ha), if_neg (by simp)]
  · intro a
    rw [h.free a]
    apply and_congr_right
    intro ha
    rw [halloc' a ha]
  · rintro p len - ⟨a, ha, hf, hpa, hlen⟩
    refine ⟨a, ha, by rw [halloc' a ha, hf], hpa, ?_⟩
    by_cases hac : a = c
    · rw [hac] at hlen
      rw [hac, hsizec]
      exact hlen.trans hle
    · rwa [hsize a ha hac]
  · intro p len _ hb i hi
    exact bytes_of_onlyHeaders hmem (fun a ha => h.block_clear hb ha) hi
  · rintro p len ⟨a, ha, hf, hpa, hlen⟩
    by_cases hac : a = c
    · exact .inr (hac ▸ hpa)
    · exact .inl ⟨a, ha, by rw [← halloc' a ha, hf], hpa, by rwa [← hsize a ha hac]⟩
  · exact block_iff.mpr ⟨hc, by rw [halloc' c hc, halloc], le_of_eq hsizec.symm⟩

/-- The difference of two sizes is one of an `int`. -/
def FitsInt (t : Target) (x : ℤ) : Prop := -2 ^ t.intBits ≤ x * 2 ∧ x * 2 < 2 ^ t.intBits

/-- `size_adj` is the difference of the sizes. -/
theorem sizeAdj_eq {m n : ℕ} (hm : m < 256 ^ t.wordBytes) (hn : n < 256 ^ t.wordBytes)
    (h : FitsInt t ((m : ℤ) - n)) : signed t.intBits (t.sub m n) = (m : ℤ) - n := by
  have hwrap : signed t.intBits (t.sub m n) = signed t.intBits ((m : ℤ) - n) := by
    by_cases hle : n ≤ m
    · rw [sub_eq hm hle, Nat.cast_sub hle]
    · have hsub : t.sub m n = m + 256 ^ t.wordBytes - n := Nat.mod_eq_of_lt (by omega)
      have hpow : (256 : ℤ) ^ t.wordBytes = 2 ^ t.intBits * 2 ^ (8 * t.wordBytes - t.intBits) := by
        rw [← pow_add, Nat.add_sub_cancel' t.int_fits, pow_mul]
        rfl
      have hcast : (t.sub m n : ℤ) =
          (m : ℤ) - n + ((2 ^ t.intBits : ℕ) : ℤ) * 2 ^ (8 * t.wordBytes - t.intBits) := by
        rw [hsub, Nat.cast_sub (by omega)]
        push_cast
        rw [← hpow]
        omega
      rw [hcast, signed, signed, Int.add_mul_bmod_self_left]
  rw [hwrap, signed_eq h.1 h.2]

/-- A reallocation may begin with coalescing. -/
theorem Reallocated.of_coalesced {ptr : ℕ} {r : ℕ × State}
    (hco : Evolves t AnyBlock (· = ptr) s cs s' cs') (h : Reallocated t s' cs' ptr size r) :
    Reallocated t s cs ptr size r := by
  obtain ⟨cs₂, fl₂, h₂, hcase⟩ := h
  refine ⟨cs₂, fl₂, h₂, ?_⟩
  rcases hcase with ⟨hzero, hev⟩ | ⟨hptr, hev, hblock⟩ |
    ⟨hzero, hptr, hev, hblock, hfresh, hgone, hcopy⟩
  · exact .inl ⟨hzero, hco.trans hev (fun _ _ h _ _ => h)⟩
  · refine .inr (.inl ⟨hptr, ?_, hblock⟩)
    exact (hco.mono (fun _ _ _ => trivial) (fun _ h => h)).trans hev (fun _ _ h _ _ => h)
  · refine .inr (.inr ⟨hzero, hptr, ⟨?_, ?_, ?_⟩, hblock, ?_, hgone, ?_⟩)
    · intro p len hp hb
      exact hev.kept p len hp (hco.kept p len trivial hb)
    · intro p len hp hb i hi
      rw [hev.bytes p len hp (hco.kept p len trivial hb) i hi, hco.bytes p len trivial hb i hi]
    · intro p len hb
      rcases hev.blocks p len hb with hb' | hnew
      · rcases hco.blocks p len hb' with hb'' | rfl
        · exact .inl hb''
        · exact absurd (hb.mono (Nat.zero_le _)) hgone
      · exact .inr hnew
    · intro hb
      exact hfresh (hco.kept _ _ trivial hb)
    · intro len hb i hi
      rw [hcopy len (hco.kept _ _ trivial hb) i hi, hco.bytes _ _ trivial hb i hi]

/-- A block that is large enough stays in its place. -/
theorem Shape.shrink_spec {rounded : ℕ} (h : Shape t s cs fl) (hc : c ∈ cs)
    (halloc : chunkAllocated t s c = true) (halign : t.align rounded = rounded)
    (hle : rounded ≤ s.get t .size c) :
    Reallocated t s cs (c + t.chunkBytes) rounded
      (c + t.chunkBytes, splitChunk t s c rounded) := by
  obtain ⟨cs', fl', h', hev⟩ := h.splitChunk_spec hc halloc halign hle
  refine ⟨cs', fl', h', .inr (.inl ⟨rfl, hev.mono (fun _ _ h => h) (fun _ h => h.elim), ?_⟩)⟩
  exact hev.kept _ _ (fun _ => le_rfl) (block_iff.mpr ⟨hc, halloc, hle⟩)

/-- `heapmem_realloc`, by the four ways it takes. -/
theorem Shape.heapmemRealloc_spec (h : Shape t s cs fl) (hc : c ∈ cs)
    (halloc : chunkAllocated t s c = true) (hsize : size ≠ 0)
    (hmod : t.roundUp size ≤ s.get t .size c ∨ Moderate t s size)
    (hint : FitsInt t ((t.roundUp size : ℤ) - s.get t .size c)) :
    Reallocated t s cs (c + t.chunkBytes) (t.roundUp size)
      (heapmemRealloc t s (c + t.chunkBytes) size) := by
  have hsizelt : s.get t .size c < 256 ^ t.wordBytes := get_lt s .size c
  have hlt : t.roundUp size < 256 ^ t.wordBytes := by
    rcases hmod with hle | hmod
    · exact hle.trans_lt hsizelt
    · unfold Moderate at hmod
      omega
  have halign := align_eq hlt
  have halign' : t.align (t.roundUp size) = t.roundUp size := by
    rw [← halign]
    exact align_align hlt
  have hround := roundUp_roundUp t size
  have hadj := sizeAdj_eq hlt hsizelt hint
  have hchunk := h.getChunk_eq hc
  have hptr : c + t.chunkBytes ≠ 0 := by
    have hpos := chunkBytes_pos t
    omega
  generalize hrounded : t.roundUp size = rounded at *
  have hmod' : ¬ rounded ≤ s.get t .size c → Moderate t s rounded := by
    intro hle
    have hmod'' := hmod.resolve_left hle
    unfold Moderate at hmod'' ⊢
    rwa [hround, ← hrounded]
  simp only [heapmemRealloc, if_neg hptr, if_neg hsize, hchunk, halign, hadj]
  -- A block that shrinks stays in its place.
  by_cases hle : rounded ≤ s.get t .size c
  · rw [if_pos (by omega)]
    exact h.shrink_spec hc halloc halign' hle
  · rw [if_neg (by omega)]
    have hm := hmod' hle
    have hadj' : ((rounded : ℤ) - s.get t .size c).toNat = rounded - s.get t .size c := by omega
    cases hlast : isLastChunk t s c with
    | true =>
      have hwrap : t.wrap (s.heapUsage + t.wrap (rounded - s.get t .size c)) =
          s.heapUsage + (rounded - s.get t .size c) := by
        unfold Moderate at hm
        rw [hround] at hm
        rw [wrap_eq (n := rounded - s.get t .size c) (by omega), wrap_eq (by omega)]
      by_cases hfit : s.heapUsage + (rounded - s.get t .size c) ≤ t.arenaSize
      · obtain ⟨cs', fl', h', hev, hblock⟩ := h.growLast hc halloc hlast (by omega) hfit
        simp only [if_true, extendSpace, hadj', hwrap, if_neg (Nat.not_lt.mpr hfit)]
        exact ⟨cs', fl', h', .inr (.inl ⟨rfl, hev.mono (fun _ _ _ => trivial) (fun _ h => h),
          hblock⟩)⟩
      · simp only [if_true, extendSpace, hadj', hwrap, if_pos (Nat.not_le.mp hfit)]
        have hmove := h.moveObject_spec hc halloc hm (by rw [hround]; omega)
        rwa [hround] at hmove
    | false =>
      obtain ⟨cs₁, fl₁, h₁, hco⟩ := h.coalesceChunks_spec hc
      have halloc₁ : chunkAllocated t (coalesceChunks t s c) c = true := by
        rw [hco.allocated, halloc]
      rw [if_neg (by simp)]
      apply Reallocated.of_coalesced hco.evolves
      by_cases hroom : (coalesceChunks t s c).get t .size c ≥ rounded
      · rw [if_pos hroom]
        exact h₁.shrink_spec hco.mem halloc₁ halign' hroom
      · rw [if_neg hroom]
        have hm₁ : Moderate t (coalesceChunks t s c) rounded := by
          rw [Moderate, hco.usage]
          exact hm
        have hmove := h₁.moveObject_spec hco.mem halloc₁ hm₁ (by rw [hround]; omega)
        rwa [hround] at hmove

end MasterScheduler.Mote.Heapmem

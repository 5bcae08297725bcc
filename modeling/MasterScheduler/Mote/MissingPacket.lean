import MasterScheduler.Mote.Schedule
import Mathlib.Order.Bounds.Basic

/-!
# MasterScheduler.Mote.MissingPacket — the search for a missing packet

The bit arrays of `master-schedule.c` as sets of positions. `1 << (k%32)` is an
`int`, which has 16 bits on some of the targets: there the bits from 15 on
cannot be reached one by one. `getMissingPacket` tests a bit before it compares
the position with the last packet, so it may look at the word behind the array.
A memory is the array with whatever follows it.

1. **Model**: the operations for any width of `int`, and what they mean on sets.
2. **One position**: what an operation does where the width is enough.
3. **Runs**: the array after any history is the set after it.
4. **Result**: `missingPacket_iff`, the widths and histories for which the
   search and the operations do what they should.
-/

namespace MasterScheduler.Mote.MissingPacket

open Lib

/-! ## Model -/

/-- `setBit`, with an `int` of `intBits` bits. -/
def setBit (intBits : ℕ) (bitVector : BitVector) (k : ℕ) : BitVector :=
  bitVector.modify (k / 32) fun x => x ||| intBit intBits 32 (k % 32)

/-- `clearBit`. -/
def clearBit (intBits : ℕ) (bitVector : BitVector) (k : ℕ) : BitVector :=
  bitVector.modify (k / 32) fun x => x &&& intBitComplement intBits 32 (k % 32)

/-- `isBitSet`. -/
def isBitSet (intBits : ℕ) (bitVector : BitVector) (k : ℕ) : Bool :=
  ((bitVector[k / 32]?).getD 0#32 &&& intBit intBits 32 (k % 32)) != 0#32

/-- `getMissingPacket`; `none` is the return value `-1`. -/
def getMissingPacket (intBits : ℕ) (bitVector : BitVector) (lastPacket : ℕ) : Option ℕ :=
  firstMissingBy (isBitSet intBits bitVector) lastPacket

/-- A call on a bit array. -/
inductive BitOp where
  | set (k : ℕ)
  | clear (k : ℕ)
deriving DecidableEq, Repr

def BitOp.position : BitOp → ℕ
  | .set k => k
  | .clear k => k

/-- What the call does to the memory. -/
def BitOp.apply (intBits : ℕ) (memory : BitVector) : BitOp → BitVector
  | .set k => setBit intBits memory k
  | .clear k => clearBit intBits memory k

/-- What the call means. -/
def BitOp.onSet (s : Set ℕ) : BitOp → Set ℕ
  | .set k => insert k s
  | .clear k => s \ {k}

/-- The positions of an array. -/
def capacity (array : BitVector) : ℕ := 32 * array.length

/-- The positions whose bits are set in an array. -/
def positions (array : BitVector) : Set ℕ := {k | testBit array k = true}

/-- The positions up to the last packet that are not in a set. -/
def missing (s : Set ℕ) (lastPacket : ℕ) : Set ℕ := {p | 1 ≤ p ∧ p ≤ lastPacket ∧ p ∉ s}

/-- The memory is the set, for whoever looks at its bits, calls `isBitSet` or searches; what
follows the array is still there. -/
structure Represents (intBits : ℕ) (array behind memory : BitVector) (s : Set ℕ) : Prop where
  bits : ∀ k, k < capacity array → (testBit memory k = true ↔ k ∈ s)
  isBitSet : ∀ k, k < capacity array → (isBitSet intBits memory k = true ↔ k ∈ s)
  least : ∀ lastPacket, lastPacket < capacity array → ∀ p,
    getMissingPacket intBits memory lastPacket = some p ↔ IsLeast (missing s lastPacket) p
  none : ∀ lastPacket, lastPacket < capacity array →
    (getMissingPacket intBits memory lastPacket = none ↔ missing s lastPacket = ∅)
  behind : memory.drop array.length = behind

/-! ## One position -/

section Position

variable {intBits : ℕ} {array behind : BitVector} {op : BitOp} {j k : ℕ}

theorem covers_iff : Covers array k ↔ k < capacity array := by
  unfold Covers capacity
  rw [Nat.div_lt_iff_lt_mul (by norm_num), Nat.mul_comm]

/-- No bit of a set is behind the width of `int` in its word. -/
def Within (intBits : ℕ) (s : Set ℕ) : Prop := 32 ≤ intBits ∨ ∀ k ∈ s, k % 32 < intBits

/-- The call does not set a bit at the sign of `int` or behind it. -/
def BitOp.Fits (intBits : ℕ) (op : BitOp) : Prop :=
  32 ≤ intBits ∨ ∀ k, op = .set k → k % 32 + 1 < intBits

theorem Within.lt (h : Within intBits (positions array)) (hk : k ∈ positions array) :
    k % 32 < intBits := by
  rcases h with h | h
  · omega
  · exact h k hk

theorem setBit_eq_insertBit (h : 32 ≤ intBits ∨ k % 32 + 1 < intBits) :
    setBit intBits array k = insertBit array k := by
  rw [setBit, insertBit, intBit_eq (Nat.mod_lt k (by norm_num)) h]

/-- The complement of a mask that reaches the sign clears more, but nothing that is there. -/
theorem testBit_clearBit (h : Within intBits (positions array)) :
    testBit (clearBit intBits array k) j = (!decide (j = k) && testBit array j) := by
  have hj : j % 32 < 32 := Nat.mod_lt j (by norm_num)
  rw [testBit_eq (by norm_num), testBit_eq (by norm_num), clearBit]
  by_cases hword : k / 32 = j / 32
  · have hjk : j = k ↔ j % 32 = k % 32 := by omega
    have hget : ((array.modify (k / 32) fun x =>
        x &&& intBitComplement intBits 32 (k % 32))[j / 32]?).getD 0#32 =
          (array[j / 32]?).getD 0#32 &&& intBitComplement intBits 32 (k % 32) := by
      cases hx : array[j / 32]? <;> simp [hword, hx]
    rw [hget, BitVec.getLsbD_and]
    cases hbit : ((array[j / 32]?).getD 0#32).getLsbD (j % 32) with
    | false => simp
    | true =>
      have hmem : j ∈ positions array := (testBit_eq (by norm_num) array j).trans hbit
      rw [getLsbD_intBitComplement hj (h.lt hmem), Bool.true_and, Bool.and_true,
        decide_eq_decide.mpr hjk]
  · have hne : j ≠ k := fun h => hword (by rw [h])
    simp [hword, hne]

/-- A mask that reaches the sign tests more, but finds only the bit it is for. -/
theorem isBitSet_eq_testBit (h : Within intBits (positions array)) :
    isBitSet intBits array k = testBit array k := by
  have hk : k % 32 < 32 := Nat.mod_lt k (by norm_num)
  rw [isBitSet]
  cases hbit : testBit array k with
  | true =>
    have hlt : k % 32 < intBits := h.lt hbit
    rw [testBit_eq (by norm_num)] at hbit
    rw [bne_iff_ne]
    intro hzero
    have hand := congrArg (BitVec.getLsbD · (k % 32)) hzero
    simp only [BitVec.getLsbD_and, hbit, getLsbD_intBit hk, if_pos hlt, decide_true,
      Bool.and_true, BitVec.getLsbD_zero] at hand
    cases hand
  | false =>
    rw [bne_eq_false_iff_eq]
    refine BitVec.eq_of_getLsbD_eq fun j hj => ?_
    rw [BitVec.getLsbD_and, BitVec.getLsbD_zero]
    cases hother : ((array[k / 32]?).getD 0#32).getLsbD j with
    | false => rfl
    | true =>
      -- position `j` of the same word
      have hmem : 32 * (k / 32) + j ∈ positions array := by
        change testBit array _ = true
        rw [testBit_eq (by norm_num), Nat.mul_add_div (by norm_num), Nat.div_eq_of_lt hj,
          Nat.mul_add_mod, Nat.mod_eq_of_lt hj]
        exact hother
      have hlt : j < intBits := by
        have := h.lt hmem
        rwa [Nat.mul_add_mod, Nat.mod_eq_of_lt hj] at this
      have hne : j ≠ k % 32 := by
        rintro rfl
        rw [testBit_eq (by norm_num), hother] at hbit
        cases hbit
      rw [getLsbD_intBit hj, if_pos hlt, decide_eq_false hne]
      rfl

/-- Behind the width of `int` no bit is ever found. -/
theorem isBitSet_eq_false (h : intBits ≤ k % 32) : isBitSet intBits array k = false := by
  have hk : k % 32 < 32 := Nat.mod_lt k (by norm_num)
  have hmask : intBit intBits 32 (k % 32) = 0#32 := by
    refine BitVec.eq_of_getLsbD_eq fun j hj => ?_
    rw [getLsbD_intBit hj, BitVec.getLsbD_zero]
    split <;> exact decide_eq_false (by omega)
  rw [isBitSet, hmask, BitVec.and_zero]
  rfl

/-- The bit arrays of `Mote.Schedule` are those of a node whose `int` has 32 bits. -/
theorem int32_eq (array : BitVector) (k lastPacket : ℕ) :
    setBit 32 array k = Mote.setBit array k ∧ isBitSet 32 array k = Mote.isBitSet array k ∧
      getMissingPacket 32 array lastPacket = Mote.getMissingPacket array lastPacket := by
  have htest : isBitSet 32 array = testBit array :=
    funext fun _ => isBitSet_eq_testBit (.inl (le_refl 32))
  refine ⟨setBit_eq_insertBit (.inl (le_refl 32)), congrFun htest k, ?_⟩
  rw [getMissingPacket, htest]
  rfl

theorem length_apply (intBits : ℕ) (array : BitVector) (op : BitOp) :
    (op.apply intBits array).length = array.length := by
  cases op with
  | set k => exact List.length_modify ..
  | clear k => exact List.length_modify ..

/-- What follows the array is left alone. -/
theorem apply_append (hop : op.position < capacity array) (behind : BitVector) :
    op.apply intBits (array ++ behind) = op.apply intBits array ++ behind := by
  cases op with
  | set k => exact modify_append (covers_iff.2 hop) behind _
  | clear k => exact modify_append (covers_iff.2 hop) behind _

theorem positions_apply (hop : op.position < capacity array) (hfits : op.Fits intBits)
    (h : Within intBits (positions array)) :
    positions (op.apply intBits array) = op.onSet (positions array) := by
  ext j
  cases op with
  | set k =>
    have hk : Covers array k := covers_iff.2 hop
    have heq : setBit intBits array k = insertBit array k :=
      setBit_eq_insertBit (hfits.imp_right fun h => h k rfl)
    change testBit (setBit intBits array k) j = true ↔ j = k ∨ testBit array j = true
    rw [heq, testBit_insertBit (by norm_num) hk]
    simp
  | clear k =>
    change testBit (clearBit intBits array k) j = true ↔ testBit array j = true ∧ j ≠ k
    rw [testBit_clearBit h]
    simp [and_comm]

theorem Within.onSet {s : Set ℕ} (h : Within intBits s) (hfits : op.Fits intBits) :
    Within intBits (op.onSet s) := by
  rcases h with h | h
  · exact .inl h
  rcases hfits with hfits | hfits
  · exact .inl hfits
  refine .inr fun j hj => ?_
  cases op with
  | set k =>
    rcases hj with rfl | hj
    · have := hfits j rfl
      omega
    · exact h j hj
  | clear k => exact h j hj.1

end Position

/-! ## Runs -/

section Runs

variable {intBits : ℕ} {array behind : BitVector} {ops : List BitOp}

/-- A run of calls leaves an array of the same size, with the positions of the run on sets. -/
theorem memory_run (behind : BitVector) (hops : ∀ op ∈ ops, op.position < capacity array)
    (hfits : ∀ op ∈ ops, op.Fits intBits) (h : Within intBits (positions array)) :
    ∃ array', array'.length = array.length ∧
      ops.foldl (BitOp.apply intBits) (array ++ behind) = array' ++ behind ∧
      positions array' = ops.foldl BitOp.onSet (positions array) ∧
      Within intBits (positions array') := by
  induction ops generalizing array with
  | nil => exact ⟨array, rfl, rfl, rfl, h⟩
  | cons op ops ih =>
    have hop := hops op List.mem_cons_self
    have hfit := hfits op List.mem_cons_self
    have hpos := positions_apply hop hfit h
    have hlen := length_apply intBits array op
    have hrest : ∀ op' ∈ ops, op'.position < capacity (op.apply intBits array) := by
      intro op' hop'
      rw [capacity, hlen]
      exact hops op' (List.mem_cons_of_mem op hop')
    obtain ⟨array', hlen', hrun, hpos', hwithin⟩ := ih hrest
      (fun op' hop' => hfits op' (List.mem_cons_of_mem op hop')) (hpos ▸ h.onSet hfit)
    refine ⟨array', hlen'.trans hlen, ?_, ?_, hwithin⟩
    · rw [List.foldl_cons, apply_append hop, hrun]
    · rw [List.foldl_cons, hpos', hpos]

/-- Inside the array the word behind it is not seen. -/
theorem isBitSet_append (h : Within intBits (positions array)) {k : ℕ} (hk : k < capacity array) :
    isBitSet intBits (array ++ behind) k = true ↔ k ∈ positions array := by
  have hsame : isBitSet intBits (array ++ behind) k = isBitSet intBits array k := by
    unfold isBitSet
    rw [List.getElem?_append_left (covers_iff.2 hk)]
  rw [hsame, isBitSet_eq_testBit h]
  rfl

/-- The search finds the least missing position, whatever the word behind the array holds. -/
theorem getMissingPacket_append (h : Within intBits (positions array)) {lastPacket : ℕ}
    (hlast : lastPacket < capacity array) :
    (∀ p, getMissingPacket intBits (array ++ behind) lastPacket = some p ↔
      IsLeast (missing (positions array) lastPacket) p) ∧
      (getMissingPacket intBits (array ++ behind) lastPacket = none ↔
        missing (positions array) lastPacket = ∅) := by
  -- Within the array, the bits of the words in front are read.
  have hbit : ∀ k, k ≤ lastPacket →
      (isBitSet intBits (array ++ behind) k = true ↔ k ∈ positions array) :=
    fun k hk => isBitSet_append h (by omega)
  constructor
  · intro p
    rw [getMissingPacket, firstMissingBy_eq_some_iff]
    constructor
    · rintro ⟨⟨h1, hle, hp⟩, hbelow⟩
      have hnot : p ∉ positions array := by
        rw [← hbit p hle, hp]
        exact Bool.false_ne_true
      refine ⟨⟨h1, hle, hnot⟩, ?_⟩
      rintro q ⟨hq1, hql, hq⟩
      by_contra hlt
      exact hq ((hbit q hql).1 (hbelow q hq1 (by omega)))
    · rintro ⟨⟨h1, hle, hp⟩, hleast⟩
      refine ⟨⟨h1, hle, ?_⟩, ?_⟩
      · rw [← hbit p hle] at hp
        exact Bool.eq_false_iff.2 hp
      · intro i hi hip
        by_contra hbad
        rw [hbit i (by omega)] at hbad
        have := hleast ⟨hi, by omega, hbad⟩
        omega
  · rw [getMissingPacket, firstMissingBy_eq_none, Set.eq_empty_iff_forall_notMem]
    constructor
    · rintro h p ⟨h1, hle, hp⟩
      exact hp ((hbit p hle).1 (h p h1 hle))
    · intro h i hi hil
      by_contra hbad
      rw [hbit i hil] at hbad
      exact h i ⟨hi, hil, hbad⟩

theorem represents_append (behind : BitVector) (h : Within intBits (positions array)) :
    Represents intBits array behind (array ++ behind) (positions array) where
  bits k hk := by
    rw [testBit_append (covers_iff.2 hk)]
    rfl
  isBitSet k hk := isBitSet_append h hk
  least lastPacket hlast := (getMissingPacket_append h hlast).1
  none lastPacket hlast := (getMissingPacket_append h hlast).2
  behind := List.drop_left

theorem represents_run (behind : BitVector) (hops : ∀ op ∈ ops, op.position < capacity array)
    (hfits : ∀ op ∈ ops, op.Fits intBits) (h : Within intBits (positions array)) :
    Represents intBits array behind (ops.foldl (BitOp.apply intBits) (array ++ behind))
      (ops.foldl BitOp.onSet (positions array)) := by
  obtain ⟨array', hlen, hrun, hpos, hwithin⟩ := memory_run behind hops hfits h
  have hcap : capacity array' = capacity array := by
    rw [capacity, hlen, capacity]
  obtain ⟨hbits, hset, hleast, hnone, hbehind⟩ := represents_append behind hwithin
  rw [hcap] at hbits hset hleast hnone
  rw [hrun, ← hpos]
  exact ⟨hbits, hset, hleast, hnone, hlen ▸ hbehind⟩

/-- A bit that is set at the sign of `int` brings the next one with it, and one that is set
behind it does not come. -/
theorem not_represents_set {memory : BitVector} {s : Set ℕ} {k : ℕ} (hk : k < capacity array)
    (hword : k / 32 < memory.length) (hint : intBits < 32) (hwide : intBits ≤ k % 32 + 1) :
    ¬ Represents intBits array behind (setBit intBits memory k) (insert k s) := by
  intro h
  have hset : isBitSet intBits (setBit intBits memory k) k = true :=
    (h.isBitSet k hk).mpr (Set.mem_insert k s)
  by_cases hbehind : intBits ≤ k % 32
  · rw [isBitSet_eq_false hbehind] at hset
    cases hset
  · have hsign : intBits = k % 32 + 1 := by omega
    have hdiv : (k + 1) / 32 = k / 32 := by omega
    have hmod : (k + 1) % 32 = k % 32 + 1 := by omega
    have hbit : testBit (setBit intBits memory k) (k + 1) = true := by
      rw [testBit_eq (by norm_num), setBit, hdiv, hmod, List.getElem?_modify_eq,
        List.getElem?_eq_getElem hword]
      rw [Option.map_eq_map, Option.map_some, Option.getD_some, BitVec.getLsbD_or, getLsbD_intBit (by omega),
        if_neg (by omega), decide_eq_true hsign, Bool.or_true]
    have hlt : k + 1 < capacity array := by
      unfold capacity at hk ⊢
      omega
    have hnext := (h.isBitSet (k + 1) hlt).mpr ((h.bits (k + 1) hlt).mp hbit)
    rw [isBitSet_eq_false (by omega)] at hnext
    cases hnext

theorem length_run (intBits : ℕ) (memory : BitVector) (ops : List BitOp) :
    (ops.foldl (BitOp.apply intBits) memory).length = memory.length := by
  induction ops generalizing memory with
  | nil => rfl
  | cons op ops ih => exact (ih _).trans (length_apply intBits memory op)

end Runs

/-! ## Result -/

/-- All along any history of calls on the positions of an array the memory is the set the history
makes, and the search finds the least missing position, exactly if `int` has the width of a word
or no bit lies behind its width at the start and none is set at its sign or behind it. -/
theorem missingPacket_iff (intBits : ℕ) (array behind : BitVector) (ops : List BitOp)
    (hops : ∀ op ∈ ops, op.position < capacity array) :
    (∀ pre, pre <+: ops → Represents intBits array behind
        (pre.foldl (BitOp.apply intBits) (array ++ behind))
        (pre.foldl BitOp.onSet (positions array))) ↔
      32 ≤ intBits ∨ (∀ k ∈ positions array, k % 32 < intBits) ∧
        ∀ k, .set k ∈ ops → k % 32 + 1 < intBits := by
  constructor
  · intro h
    by_contra hnot
    rw [not_or, Nat.not_le] at hnot
    obtain ⟨hint, hnot⟩ := hnot
    refine hnot ⟨fun k hk => ?_, fun k hk => ?_⟩
    · by_contra hbehind
      have hcap : k < capacity array := covers_iff.1 (covers_of_testBit hk)
      have hset := ((h [] List.nil_prefix).isBitSet k hcap).mpr hk
      rw [isBitSet_eq_false (Nat.not_lt.mp hbehind)] at hset
      cases hset
    · by_contra hwide
      obtain ⟨pre, post, rfl⟩ := List.append_of_mem hk
      have hcap : k < capacity array := hops _ hk
      have hrep := h (pre ++ [.set k]) ⟨post, by rw [List.append_assoc, List.singleton_append]⟩
      rw [List.foldl_append, List.foldl_append] at hrep
      refine not_represents_set hcap ?_ hint (Nat.not_lt.mp hwide) hrep
      rw [length_run, List.length_append]
      exact Nat.lt_of_lt_of_le (covers_iff.2 hcap) (Nat.le_add_right _ _)
  · intro h pre hpre
    refine represents_run behind (fun op hop => hops op (hpre.subset hop)) (fun op hop => ?_)
      (h.imp_right And.left)
    refine h.imp_right fun hsmall k hk => ?_
    exact hsmall.2 k (hk ▸ hpre.subset hop)

/-- Position 31 and its neighbour in an array of two words, with 32 bits; and the positions below
the sign with 16. -/
theorem missingPacket_iff_word :
    getMissingPacket 32 ([BitOp.set 1, .set 2, .set 31, .set 32, .clear 2].foldl (BitOp.apply 32)
      ([0, 0] ++ [0xffffffff])) 63 = some 2 ∧
    isBitSet 16 ([BitOp.set 1, .set 14, .set 33, .clear 20].foldl (BitOp.apply 16)
      ([0, 0] ++ [0xffffffff])) 33 = true := by
  have h32 := (missingPacket_iff 32 [0, 0] [0xffffffff]
    [.set 1, .set 2, .set 31, .set 32, .clear 2] (by decide)).mpr (.inl (Nat.le_refl 32)) _
      (List.prefix_refl _)
  have h16 := (missingPacket_iff 16 [0, 0] [0xffffffff]
    [.set 1, .set 14, .set 33, .clear 20] (by decide)).mpr (.inr ⟨?_, ?_⟩) _ (List.prefix_refl _)
  · constructor
    · refine (h32.least 63 (by decide) 2).2 ⟨⟨by norm_num, by norm_num, ?_⟩, ?_⟩
      · simp [BitOp.onSet]
      · rintro q ⟨hq1, -, hq⟩
        by_contra hlt
        obtain rfl : q = 1 := by omega
        simp [BitOp.onSet] at hq
    · refine (h16.isBitSet 33 (by decide)).mpr ?_
      simp [BitOp.onSet]
  · intro k hk
    have hnone : testBit [0, 0] k = false := testBit_replicate_zero (w := 32) 2 k
    exact absurd (hnone.symm.trans hk) (by decide)
  · intro k hk
    simp only [List.mem_cons, BitOp.set.injEq, reduceCtorEq, List.not_mem_nil, or_false] at hk
    omega

/-- With an `int` of 16 bits packet 15 brings the packets up to 31, and packet 16 never comes. -/
theorem sixteenth_packet_lost :
    ¬ Represents 16 [0] [] ([BitOp.set 15].foldl (BitOp.apply 16) ([0] ++ [])) {15} ∧
      setBit 16 [0] 15 = [0xffff8000] ∧ setBit 16 [0] 16 = [0] ∧
      getMissingPacket 16 (((List.range' 1 16).map BitOp.set).foldl (BitOp.apply 16) [0]) 16 =
        some 16 := by
  refine ⟨?_, by decide, by decide, by decide⟩
  have h := @not_represents_set 16 [0] [] [0] ∅ 15 (by decide) (by decide) (by decide) (by decide)
  rwa [insert_empty_eq] at h

end MasterScheduler.Mote.MissingPacket

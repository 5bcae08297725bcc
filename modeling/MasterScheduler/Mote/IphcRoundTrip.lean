import MasterScheduler.Mote.Iphc
import Mathlib.Tactic.IntervalCases

/-!
# MasterScheduler.Mote.IphcRoundTrip — compression and back

Each part of the header is read back from what the compression wrote for it:
the parts before the addresses, the addresses in all their forms, the chain of
next headers by induction. The source address is the exception: its link-local
form is chosen by the destination's bytes.

- `roundTrip_iff`: the packets that arrive as they were sent.
-/

namespace MasterScheduler.Mote.Sicslowpan

open Lib Memory Frame802154

/-! ## Bytes and bits -/

/-- A byte and its two halves. -/
theorem nibbles_or (b : UInt8) : (b &&& 0x0f) ||| (b &&& 0xf0) = b := by
  apply UInt8.eq_of_toBitVec_eq
  ext i hi
  interval_cases i <;> simp

/-- The upper half of a byte, moved there and back. -/
theorem upper_shift (b : UInt8) : (b >>> 4) <<< 4 = b &&& 0xf0 := by
  apply UInt8.eq_of_toBitVec_eq
  ext i hi
  interval_cases i <;> simp

/-- The two halves of the traffic class make the first byte again. -/
theorem vtcOf_ecnDscp (vtc tcflow : UInt8) :
    vtcOf (ecnDscp vtc tcflow) = (0x60 : UInt8) ||| (vtc &&& (0x0f : UInt8)) := by
  apply UInt8.eq_of_toBitVec_eq
  ext i hi
  interval_cases i <;> simp [vtcOf, ecnDscp]

/-- The version in front of the bits of the traffic class. -/
theorem version_or (vtc : UInt8) (h : vtc >>> 4 = 6) :
    (0x60 : UInt8) ||| (vtc &&& (0x0f : UInt8)) = vtc := by
  have hupper : vtc &&& 0xf0 = 0x60 := by rw [← upper_shift, h]; rfl
  rw [← hupper, UInt8.or_comm, nibbles_or]

/-- Version 6 without traffic class is the byte 0x60. -/
theorem version_of_low (vtc : UInt8) (h : vtc >>> 4 = 6) (hlow : vtc &&& 0x0f = 0) :
    vtc = 0x60 := by
  rw [← version_or vtc h, hlow]
  rfl

theorem nibbles_zero (b : UInt8) (hlow : b &&& 0x0f = 0) (hup : b &&& 0xf0 = 0) : b = 0 := by
  rw [← nibbles_or b, hlow, hup]
  rfl

/-- Traffic class and flow label inline. -/
theorem tcflow_inline (vtc tcflow : UInt8) :
    ecnOf (ecnDscp vtc tcflow) ||| (ecnDscp vtc tcflow <<< 6) ||| (tcflow &&& 0x0f) = tcflow := by
  apply UInt8.eq_of_toBitVec_eq
  ext i hi
  interval_cases i <;> simp [ecnOf, ecnDscp]

/-- The traffic class inline, the flow label elided. -/
theorem tcflow_noFlow (vtc tcflow : UInt8) :
    ((ecnDscp vtc tcflow <<< 6) &&& (0xC0 : UInt8)) ||| ecnOf (ecnDscp vtc tcflow) =
      tcflow &&& 0xf0 := by
  apply UInt8.eq_of_toBitVec_eq
  ext i hi
  interval_cases i <;> simp [ecnOf, ecnDscp]

theorem upper_of_low (b : UInt8) (h : b &&& 0x0f = 0) : b &&& 0xf0 = b := by
  have hor := nibbles_or b
  rwa [h, UInt8.zero_or] at hor

/-- The flow label inline, the traffic class elided. -/
theorem tcflow_noClass (vtc tcflow : UInt8) (ht : tcflow &&& 0xf0 = 0) :
    let b := (ecnDscp vtc tcflow &&& (0xc0 : UInt8)) ||| (tcflow &&& (0x0F : UInt8))
    (b &&& 0x0F) ||| ecnOf b = tcflow := by
  have ht' : tcflow.toBitVec &&& 0xf0 = 0 := congrArg UInt8.toBitVec ht
  have hbit (i : ℕ) := congrArg (fun b : BitVec 8 => b.getLsbD i) ht'
  have h4 := hbit 4
  have h5 := hbit 5
  have h6 := hbit 6
  have h7 := hbit 7
  simp at h4 h5 h6 h7
  apply UInt8.eq_of_toBitVec_eq
  ext i hi
  interval_cases i <;> simp [ecnOf, ecnDscp, *]

/-! ## The parts before the addresses -/

variable {ip pb buf : Memory} {p : ℕ}

/-- The bits of the first encoding byte are told apart. -/
theorem iphc0_bits : ∀ tf ∈ [0x18, 0x10, 0x08, (0 : UInt8)], ∀ nh ∈ [0x04, (0 : UInt8)],
    ∀ ttl ∈ [0, 1, 2, (3 : UInt8)],
    let iphc0 := dispatchIphc ||| tf ||| nh ||| ttl
    iphc0 &&& iphcFlC = tf &&& iphcFlC ∧ iphc0 &&& iphcTcC = tf &&& iphcTcC ∧
      iphc0 &&& iphcNhC = nh ∧ iphc0 &&& 0x03 = ttl ∧ iphc0 &&& 0xe0 = dispatchIphc ∧
      isFragment iphc0 = false ∧ iphc0 &&& 0xf0 ≠ 0xf0 := by
  decide +kernel

theorem read_cons (m : Memory) (p n : ℕ) : m.read p (n + 1) = m p :: m.read (p + 1) n := rfl

theorem read_zero (m : Memory) (p : ℕ) : m.read p 0 = [] := rfl

/-- The four ways to send traffic class and flow label. -/
theorem compressTf_cases (ip : Memory) :
    let tmp := ecnDscp (ip 0) (ip 1)
    ((ip 1 &&& 0x0F = 0 ∧ ip 2 = 0 ∧ ip 3 = 0) ∧ (ip 0 &&& 0x0F = 0 ∧ ip 1 &&& 0xF0 = 0) ∧
      compressTf ip = (0x18, [])) ∨
    ((ip 1 &&& 0x0F = 0 ∧ ip 2 = 0 ∧ ip 3 = 0) ∧ compressTf ip = (0x10, [tmp])) ∨
    ((ip 0 &&& 0x0F = 0 ∧ ip 1 &&& 0xF0 = 0) ∧
      compressTf ip = (0x08, [(tmp &&& 0xc0) ||| (ip 1 &&& 0x0F), ip 2, ip 3])) ∨
    compressTf ip = (0, [tmp, ip 1, ip 2, ip 3]) := by
  unfold compressTf
  by_cases hflow : ip 1 &&& 0x0F = 0 ∧ ip 2 = 0 ∧ ip 3 = 0
  · by_cases hclass : ip 0 &&& 0x0F = 0 ∧ ip 1 &&& 0xF0 = 0
    · exact .inl ⟨hflow, hclass, by rw [if_pos hflow, if_pos hclass]; rfl⟩
    · exact .inr (.inl ⟨hflow, by rw [if_pos hflow, if_neg hclass]; rfl⟩)
  · by_cases hclass : ip 0 &&& 0x0F = 0 ∧ ip 1 &&& 0xF0 = 0
    · exact .inr (.inr (.inl ⟨hclass, by rw [if_neg hflow, if_pos hclass]; rfl⟩))
    · exact .inr (.inr (.inr (by rw [if_neg hflow, if_neg hclass])))

/-- The bits that say how traffic class and flow label are sent. -/
theorem compressTf_bits (ip : Memory) : (compressTf ip).1 ∈ [0x18, 0x10, 0x08, (0 : UInt8)] := by
  rcases compressTf_cases ip with ⟨_, _, h⟩ | ⟨_, h⟩ | ⟨_, h⟩ | h <;> rw [h] <;> simp

/-- Traffic class and flow label are restored. -/
theorem uncompressTf_compressTf {iphc0 : UInt8} (hversion : ip 0 >>> 4 = 6)
    (hfl : iphc0 &&& iphcFlC = (compressTf ip).1 &&& iphcFlC)
    (htc : iphc0 &&& iphcTcC = (compressTf ip).1 &&& iphcTcC)
    (h : pb.read p (compressTf ip).2.length = (compressTf ip).2) :
    uncompressTf pb iphc0 p = (ip.read 0 4, p + (compressTf ip).2.length) := by
  have hread : ip.read 0 4 = [ip 0, ip 1, ip 2, ip 3] := rfl
  rw [hread]
  rcases compressTf_cases ip with ⟨⟨hlow, h2, h3⟩, hclass, hcode⟩ | ⟨⟨hlow, h2, h3⟩, hcode⟩ |
      ⟨hclass, hcode⟩ | hcode <;> rw [hcode] at h hfl htc ⊢ <;>
    simp only [List.length_cons, List.length_nil, read_cons, read_zero, List.cons.injEq,
      and_true] at h
  · -- Both elided: the bytes are those of version 6 and nothing else.
    have hfl' : iphc0 &&& iphcFlC ≠ 0 := by rw [hfl]; dsimp only; decide
    have htc' : iphc0 &&& iphcTcC ≠ 0 := by rw [htc]; dsimp only; decide
    rw [uncompressTf, if_neg hfl', if_neg htc', version_of_low _ hversion hclass.1,
      nibbles_zero _ hlow hclass.2, h2, h3]
    rfl
  -- The flow label is elided, the class is sent.
  · have hfl' : iphc0 &&& iphcFlC ≠ 0 := by rw [hfl]; dsimp only; decide
    have htc' : iphc0 &&& iphcTcC = 0 := by rw [htc]; dsimp only; decide
    have hv : vtcOf (pb p) = ip 0 := by rw [h, vtcOf_ecnDscp, version_or _ hversion]
    have ht : ((pb p <<< 6) &&& (0xC0 : UInt8)) ||| ecnOf (pb p) = ip 1 := by
      rw [h, tcflow_noFlow, upper_of_low _ hlow]
    rw [uncompressTf, if_neg hfl', if_pos htc', hv, ht, h2, h3]
    rfl
  -- The class is elided, the flow label is sent.
  · rcases h with ⟨hp, h2, h3⟩
    have hfl' : iphc0 &&& iphcFlC = 0 := by rw [hfl]; dsimp only; decide
    have htc' : iphc0 &&& iphcTcC ≠ 0 := by rw [htc]; dsimp only; decide
    have ht : (pb p &&& 0x0F) ||| ecnOf (pb p) = ip 1 := by
      rw [hp]
      exact tcflow_noClass _ _ hclass.2
    rw [uncompressTf, if_pos hfl', if_neg htc', ht, h2, h3, version_of_low _ hversion hclass.1]
    rfl
  -- Both are sent.
  · rcases h with ⟨hp, h1, h2, h3⟩
    have hfl' : iphc0 &&& iphcFlC = 0 := by rw [hfl]; dsimp only; decide
    have htc' : iphc0 &&& iphcTcC = 0 := by rw [htc]; dsimp only; decide
    have hv : vtcOf (pb p) = ip 0 := by rw [hp, vtcOf_ecnDscp, version_or _ hversion]
    have ht : ecnOf (pb p) ||| (pb p <<< 6) ||| (pb (p + 1) &&& 0x0f) = ip 1 := by
      rw [hp, h1]
      exact tcflow_inline _ _
    rw [uncompressTf, if_pos hfl', if_pos htc', hv, ht, h2, h3]
    rfl

/-- The bit that says whether the next header is sent. -/
theorem compressNh_bits (ip : Memory) : (compressNh ip).1 ∈ [0x04, (0 : UInt8)] := by
  unfold compressNh
  split <;> simp [iphcNhC]

/-- An inline next header is stored; an elided one is left to its own encoding. -/
theorem uncompressNh_compressNh {iphc0 : UInt8} (hnh : iphc0 &&& iphcNhC = (compressNh ip).1)
    (h : pb.read p (compressNh ip).2.length = (compressNh ip).2) :
    uncompressNh pb iphc0 buf p =
      (if isCompressableProto (ip 6) then buf else buf.write 6 [ip 6],
        p + (compressNh ip).2.length) := by
  unfold uncompressNh
  rw [hnh]
  unfold compressNh at h ⊢
  by_cases hproto : isCompressableProto (ip 6) = true
  · rw [if_pos hproto, if_neg (by simp [iphcNhC]), if_pos hproto]
    rfl
  · rw [if_neg hproto] at h ⊢
    have hp : pb p = ip 6 := by simpa [read_cons, read_zero] using h
    rw [if_pos rfl, if_neg hproto, hp]
    rfl

/-- The bits that say how the hop limit is sent. -/
theorem compressTtl_bits (ip : Memory) : (compressTtl ip).1 ∈ [0, 1, 2, (3 : UInt8)] := by
  unfold compressTtl
  split_ifs <;> simp

/-- The hop limit is restored. -/
theorem uncompressTtl_compressTtl {iphc0 : UInt8} (httl : iphc0 &&& 0x03 = (compressTtl ip).1)
    (h : pb.read p (compressTtl ip).2.length = (compressTtl ip).2) :
    uncompressTtl pb iphc0 p = (ip 7, p + (compressTtl ip).2.length) := by
  unfold uncompressTtl
  rw [httl]
  unfold compressTtl at h ⊢
  by_cases h1 : ip 7 = 1
  · rw [if_pos h1, h1]
    rfl
  by_cases h64 : ip 7 = 64
  · rw [if_neg h1, if_pos h64, h64]
    rfl
  by_cases h255 : ip 7 = 255
  · rw [if_neg h1, if_neg h64, if_pos h255, h255]
    rfl
  · rw [if_neg h1, if_neg h64, if_neg h255] at h ⊢
    have hp : pb p = ip 7 := by simpa [read_cons, read_zero] using h
    simp [hp]

/-! ## Addresses -/

variable {cs : AddrContexts} {a : List UInt8} {lladdr : Linkaddr}

/-- A context that is found by its prefix has this prefix. -/
theorem mem_of_lookupByPrefix {c : AddrContext} (h : lookupByPrefix cs a = some c) :
    c ∈ cs.entries ∧ c.used = true ∧ c.prefixBytes = a.take 8 := by
  have hc := List.find?_some h
  simp only [Bool.and_eq_true, beq_iff_eq] at hc
  exact ⟨List.mem_of_find?_eq_some h, hc.1, hc.2⟩

/-- A context found by its prefix is found again by its number. -/
theorem lookupByNumber_of_lookupByPrefix {c : AddrContext} (h : lookupByPrefix cs a = some c) :
    lookupByNumber cs c.number = some c := by
  rcases mem_of_lookupByPrefix h with ⟨hmem, hused, _⟩
  cases hfind : lookupByNumber cs c.number with
  | none =>
    have hnone := List.find?_eq_none.mp hfind c hmem
    simp [hused] at hnone
  | some c' =>
    have hc' := List.find?_some hfind
    simp only [Bool.and_eq_true, beq_iff_eq] at hc'
    rw [cs.number_inj c' (List.mem_of_find?_eq_some hfind) c hmem hc'.1 hused hc'.2]

/-- The bytes of a prefix. -/
theorem exists_eight (h : a.length = 8) : ∃ b₀ b₁ b₂ b₃ b₄ b₅ b₆ b₇,
    a = [b₀, b₁, b₂, b₃, b₄, b₅, b₆, b₇] := by
  match a, h with
  | [b₀, b₁, b₂, b₃, b₄, b₅, b₆, b₇], _ => exact ⟨b₀, b₁, b₂, b₃, b₄, b₅, b₆, b₇, rfl⟩

/-- The bytes of an address. -/
theorem exists_sixteen (h : a.length = 16) :
    ∃ b₀ b₁ b₂ b₃ b₄ b₅ b₆ b₇ b₈ b₉ b₁₀ b₁₁ b₁₂ b₁₃ b₁₄ b₁₅,
      a = [b₀, b₁, b₂, b₃, b₄, b₅, b₆, b₇, b₈, b₉, b₁₀, b₁₁, b₁₂, b₁₃, b₁₄, b₁₅] := by
  match a, h with
  | [b₀, b₁, b₂, b₃, b₄, b₅, b₆, b₇, b₈, b₉, b₁₀, b₁₁, b₁₂, b₁₃, b₁₄, b₁₅], _ =>
    exact ⟨b₀, b₁, b₂, b₃, b₄, b₅, b₆, b₇, b₈, b₉, b₁₀, b₁₁, b₁₂, b₁₃, b₁₄, b₁₅, rfl⟩

theorem word_eq_zero {lo hi : UInt8} : word lo hi = 0 ↔ lo = 0 ∧ hi = 0 := by
  rw [← UInt8.toNat_inj, ← UInt8.toNat_inj]
  simp only [word, UInt8.toNat_zero]
  omega

/-- The upper half that the modes of a table give to an address. -/
def Completes (conf : List ℕ) (prefixBytes upper : List UInt8) : Prop :=
  ∀ (pb : Memory) (p : ℕ) (l : Linkaddr),
    uncompressAddr pb p prefixBytes (conf.getD 3 0) l = (upper ++ iid l, p) ∧
    uncompressAddr pb p prefixBytes (conf.getD 2 0) l =
      (upper ++ ([0, 0, 0, 0xff, 0xfe, 0] ++ pb.read p 2), p + 2) ∧
    uncompressAddr pb p prefixBytes (conf.getD 1 0) l = (upper ++ pb.read p 8, p + 8)

/-- A context's prefix completes to itself. -/
theorem completes_context {prefixBytes : List UInt8} (h : prefixBytes.length = 8) :
    Completes uncCtxconf prefixBytes prefixBytes := by
  rcases exists_eight h with ⟨b₀, b₁, b₂, b₃, b₄, b₅, b₆, b₇, rfl⟩
  intro pb p l
  exact ⟨rfl, rfl, rfl⟩

/-- The link-local prefix is completed with zeros. -/
theorem completes_linklocal : Completes uncLlconf llprefixBytes (llprefixBytes ++ List.replicate 6 0) :=
  fun _ _ _ => ⟨rfl, rfl, rfl⟩

/-- All sixteen bytes inline. -/
theorem uncompressAddr_full (pb : Memory) (p : ℕ) (prefixBytes : List UInt8) (l : Linkaddr) :
    uncompressAddr pb p prefixBytes 0x0f l = (pb.read p 16, p + 16) := by
  simp [uncompressAddr]

/-- An address with a 16-bit interface identifier is given by its last two bytes. -/
theorem iid16_eq (hlen : a.length = 16) (h : isIid16BitCompressable a = true) :
    a.drop 8 = [0, 0, 0, 0xff, 0xfe, 0] ++ a.drop 14 := by
  rcases exists_sixteen hlen with
    ⟨b₀, b₁, b₂, b₃, b₄, b₅, b₆, b₇, b₈, b₉, b₁₀, b₁₁, b₁₂, b₁₃, b₁₄, b₁₅, rfl⟩
  simp [isIid16BitCompressable, u16, u8, word_eq_zero] at h
  simp [h]

/-- The mode and the bytes of `compress_addr_64` give back the lower half of the address. -/
theorem uncompressAddr_compressAddr64 {conf : List ℕ} {prefixBytes upper : List UInt8}
    (hconf : Completes conf prefixBytes upper) (hlen : a.length = 16)
    (h : pb.read p (compressAddr64 0 a lladdr).2.length = (compressAddr64 0 a lladdr).2) :
    uncompressAddr pb p prefixBytes (conf.getD (compressAddr64 0 a lladdr).1.toNat 0) lladdr =
      (upper ++ a.drop 8, p + (compressAddr64 0 a lladdr).2.length) := by
  rcases hconf pb p lladdr with ⟨h3, h2, h1⟩
  unfold compressAddr64 at h ⊢
  by_cases hmac : isAddrMacAddrBased a lladdr = true
  · have hiid : a.drop 8 = iid lladdr := by simpa [isAddrMacAddrBased] using hmac
    rw [if_pos hmac, hiid]
    exact h3
  rw [if_neg hmac] at h ⊢
  by_cases h16 : isIid16BitCompressable a = true
  · have hlength : (a.drop 14).length = 2 := by simp [hlen]
    rw [if_pos h16] at h ⊢
    dsimp only at h ⊢
    rw [hlength] at h ⊢
    rw [iid16_eq hlen h16, ← h]
    exact h2
  · have hlength : (a.drop 8).length = 8 := by simp [hlen]
    rw [if_neg h16] at h ⊢
    dsimp only at h ⊢
    rw [hlength] at h ⊢
    rw [← h]
    exact h1

/-- The modes of a 64-bit interface identifier. -/
theorem compressAddr64_mode (a : List UInt8) (lladdr : Linkaddr) :
    (compressAddr64 0 a lladdr).1 ∈ [1, 2, (3 : UInt8)] := by
  unfold compressAddr64
  split_ifs <;> dsimp only <;> decide

/-- Where the mode is put does not change what is sent. -/
theorem compressAddr64_bitpos (bitpos : UInt8) (a : List UInt8) (lladdr : Linkaddr) :
    compressAddr64 bitpos a lladdr =
      ((compressAddr64 0 a lladdr).1 <<< bitpos, (compressAddr64 0 a lladdr).2) := by
  unfold compressAddr64
  split_ifs <;> rfl

theorem length_srcipaddr (ip : Memory) : (srcipaddr ip).length = 16 := length_read

theorem length_destipaddr (ip : Memory) : (destipaddr ip).length = 16 := length_read

/-- Three words of the prefix are zero. -/
def zeroWords (a : List UInt8) : Prop := u16 a 1 = 0 ∧ u16 a 2 = 0 ∧ u16 a 3 = 0

instance : Decidable (zeroWords a) := inferInstanceAs (Decidable (_ ∧ _ ∧ _))

/-- The source is sent without its prefix: it is link-local, and the destination's words are
zero. -/
def SourceElided (cs : AddrContexts) (ip : Memory) : Prop :=
  lookupByPrefix cs (srcipaddr ip) = none ∧ isAddrLinklocal (srcipaddr ip) = true ∧
    zeroWords (destipaddr ip)

instance : Decidable (SourceElided cs ip) := inferInstanceAs (Decidable (_ ∧ _ ∧ _))

/-- The receiver puts zeros where the source's own words are not zero. -/
def SourceRewritten (cs : AddrContexts) (ip : Memory) : Prop :=
  SourceElided cs ip ∧ ¬ zeroWords (srcipaddr ip)

/-- The source address after decompression. -/
def restoredSource (cs : AddrContexts) (ip : Memory) : List UInt8 :=
  if SourceElided cs ip then llprefixBytes ++ List.replicate 6 0 ++ (srcipaddr ip).drop 8
  else srcipaddr ip

/-- The prefix fe80:: with zeros restores exactly the link-local addresses that have zeros there. -/
theorem linklocal_eq (hlen : a.length = 16) (hlocal : isAddrLinklocal a = true) :
    llprefixBytes ++ List.replicate 6 0 ++ a.drop 8 = a ↔ zeroWords a := by
  rcases exists_sixteen hlen with
    ⟨b₀, b₁, b₂, b₃, b₄, b₅, b₆, b₇, b₈, b₉, b₁₀, b₁₁, b₁₂, b₁₃, b₁₄, b₁₅, rfl⟩
  simp only [isAddrLinklocal, u8, Bool.and_eq_true, beq_iff_eq] at hlocal
  simp [zeroWords, u16, u8, word_eq_zero, llprefixBytes, List.replicate] at hlocal ⊢
  rcases hlocal with ⟨rfl, rfl⟩
  simp only [true_and]
  constructor
  · rintro ⟨rfl, rfl, rfl, rfl, rfl, rfl⟩
    simp
  · rintro ⟨⟨rfl, rfl⟩, ⟨rfl, rfl⟩, rfl, rfl⟩
    simp

/-- The source survives unless it is one that is rewritten. -/
theorem restoredSource_eq_iff : restoredSource cs ip = srcipaddr ip ↔ ¬ SourceRewritten cs ip := by
  unfold restoredSource SourceRewritten
  by_cases h : SourceElided cs ip
  · rw [if_pos h, linklocal_eq (length_srcipaddr ip) h.2.1]
    simp [h]
  · simp [h]

/-- The four ways to send the source. -/
theorem compressSrc_cases (cs : AddrContexts) (lladdr : Linkaddr) (ip : Memory) :
    let code := compressAddr64 0 (srcipaddr ip) lladdr
    (isAddrUnspecified (srcipaddr ip) = true ∧
      compressSrc cs lladdr ip = ⟨iphcSac, 0, []⟩) ∨
    (∃ c, lookupByPrefix cs (srcipaddr ip) = some c ∧
      compressSrc cs lladdr ip =
        ⟨iphcCid ||| iphcSac ||| (code.1 <<< iphcSamBit), c.number <<< 4, code.2⟩) ∨
    (SourceElided cs ip ∧ compressSrc cs lladdr ip = ⟨code.1 <<< iphcSamBit, 0, code.2⟩) ∨
    (¬ SourceElided cs ip ∧ compressSrc cs lladdr ip = ⟨0, 0, srcipaddr ip⟩) := by
  intro code
  simp only [compressSrc, compressAddr64_bitpos iphcSamBit]
  by_cases hunspec : isAddrUnspecified (srcipaddr ip) = true
  · exact .inl ⟨hunspec, by rw [if_pos hunspec]⟩
  rw [if_neg hunspec]
  cases hc : lookupByPrefix cs (srcipaddr ip) with
  | some c => exact .inr (.inl ⟨c, rfl, rfl⟩)
  | none =>
    by_cases hlocal : (isAddrLinklocal (srcipaddr ip) && u16 (destipaddr ip) 1 == 0 &&
        u16 (destipaddr ip) 2 == 0 && u16 (destipaddr ip) 3 == 0) = true
    · have helided : SourceElided cs ip := by
        simpa [SourceElided, hc, zeroWords, and_assoc] using hlocal
      exact .inr (.inr (.inl ⟨helided, by simp only [hlocal, if_true, code]⟩))
    · have helided : ¬ SourceElided cs ip := by
        simpa [SourceElided, hc, zeroWords, and_assoc] using hlocal
      exact .inr (.inr (.inr ⟨helided, by simp only [hlocal]; rfl⟩))

/-- The values of the bits of the source. -/
def srcBits : List UInt8 := [0x40, 0xD0, 0xE0, 0xF0, 0x10, 0x20, 0x30, 0]

/-- The bits of the source in the second byte. -/
theorem compressSrc_bits (cs : AddrContexts) (lladdr : Linkaddr) (ip : Memory) :
    (compressSrc cs lladdr ip).iphc1 ∈ srcBits := by
  have hmode : ∀ m ∈ [1, 2, (3 : UInt8)], iphcCid ||| iphcSac ||| (m <<< iphcSamBit) ∈ srcBits ∧
      m <<< iphcSamBit ∈ srcBits := by decide +kernel
  have hm := hmode _ (compressAddr64_mode (srcipaddr ip) lladdr)
  rcases compressSrc_cases cs lladdr ip with ⟨_, h⟩ | ⟨c, _, h⟩ | ⟨_, h⟩ | ⟨_, h⟩ <;> rw [h]
  · decide
  · exact hm.1
  · exact hm.2
  · simp [srcBits]

/-- The unspecified address has zeros only. -/
theorem unspecified_eq (hlen : a.length = 16) (h : isAddrUnspecified a = true) :
    a = List.replicate 16 0 := by
  rcases exists_sixteen hlen with
    ⟨b₀, b₁, b₂, b₃, b₄, b₅, b₆, b₇, b₈, b₉, b₁₀, b₁₁, b₁₂, b₁₃, b₁₄, b₁₅, rfl⟩
  simp [isAddrUnspecified, u16, u8, word_eq_zero] at h
  simp [h, List.replicate]

theorem not_linklocal_of_unspecified (hlen : a.length = 16) (h : isAddrUnspecified a = true) :
    isAddrLinklocal a = false := by
  rw [unspecified_eq hlen h]
  decide

/-- Two context numbers in a byte. -/
theorem cid_nibbles {x y : UInt8} (hx : x.toNat < 16) (hy : y.toNat < 16) :
    ((x <<< 4) ||| y) >>> 4 = x ∧ ((x <<< 4) ||| y) &&& 0x0f = y := by
  have hall : ∀ x y : Fin 16,
      ((UInt8.ofNat x.val <<< 4) ||| UInt8.ofNat y.val) >>> 4 = UInt8.ofNat x.val ∧
        ((UInt8.ofNat x.val <<< 4) ||| UInt8.ofNat y.val) &&& 0x0f = UInt8.ofNat y.val := by
    decide
  simpa using hall ⟨_, hx⟩ ⟨_, hy⟩

/-- The source is read back in the form it was sent in. -/
theorem uncompressSrc_compressSrc {iphc1 : UInt8} {base : ℕ}
    (hsac : iphc1 &&& iphcSac = (compressSrc cs lladdr ip).iphc1 &&& iphcSac)
    (hsam : ((iphc1 &&& iphcSam11) >>> iphcSamBit) &&& 0x03 =
      (((compressSrc cs lladdr ip).iphc1 &&& iphcSam11) >>> iphcSamBit) &&& 0x03)
    (hcid : ∀ c, lookupByPrefix cs (srcipaddr ip) = some c →
      iphc1 &&& iphcCid ≠ 0 ∧ pb (base + 2) >>> 4 = (compressSrc cs lladdr ip).cid >>> 4)
    (h : pb.read p (compressSrc cs lladdr ip).bytes.length = (compressSrc cs lladdr ip).bytes) :
    uncompressSrc cs pb base iphc1 lladdr p =
      some (restoredSource cs ip, p + (compressSrc cs lladdr ip).bytes.length) := by
  have hsamOf : ∀ m ∈ [1, 2, (3 : UInt8)],
      (((iphcCid ||| iphcSac ||| (m <<< iphcSamBit)) &&& iphcSam11) >>> iphcSamBit) &&& 0x03 = m ∧
      (((m <<< iphcSamBit) &&& iphcSam11) >>> iphcSamBit) &&& 0x03 = m ∧
      (iphcCid ||| iphcSac ||| (m <<< iphcSamBit)) &&& iphcSac ≠ 0 ∧
      (m <<< iphcSamBit) &&& iphcSac = 0 ∧ m ≠ 0 := by decide +kernel
  rcases hsamOf _ (compressAddr64_mode (srcipaddr ip) lladdr) with ⟨hctx, hll, hset, hclear, hm⟩
  have hlen := length_srcipaddr ip
  unfold uncompressSrc
  rw [hsac, hsam]
  -- Four ways to encode a source: none, a context, elided, or in full.
  rcases compressSrc_cases cs lladdr ip with ⟨hunspec, hcode⟩ | ⟨c, hc, hcode⟩ | ⟨helided, hcode⟩ |
      ⟨helided, hcode⟩ <;> rw [hcode] at h ⊢ <;> dsimp only at h ⊢
  · -- No mode: sixteen zeros.
    have hrest : restoredSource cs ip = srcipaddr ip := by
      rw [restoredSource_eq_iff]
      intro hrew
      have hlocal := hrew.1.2.1
      rw [not_linklocal_of_unspecified hlen hunspec] at hlocal
      cases hlocal
    rw [hrest, unspecified_eq hlen hunspec]
    rfl
  · rcases mem_of_lookupByPrefix hc with ⟨hmem, hused, hupper⟩
    have hrest : restoredSource cs ip = c.prefixBytes ++ (srcipaddr ip).drop 8 := by
      rw [hupper, List.take_append_drop, restoredSource_eq_iff]
      intro hrew
      rw [hrew.1.1] at hc
      cases hc
    have hnumber : pb (base + 2) >>> 4 = c.number := by
      have hshift := (cid_nibbles (cs.number_lt c hmem hused) (by decide : (0 : UInt8).toNat < 16)).1
      rw [UInt8.or_zero] at hshift
      rw [(hcid c hc).2, hcode]
      exact hshift
    rw [if_pos hset, hctx, if_pos hm, if_pos (hcid c hc).1, hnumber,
      lookupByNumber_of_lookupByPrefix hc, Option.map_some,
      uncompressAddr_compressAddr64 (completes_context c.length_prefixBytes) hlen h, hrest]
  · have hrest : restoredSource cs ip = llprefixBytes ++ List.replicate 6 0 ++ (srcipaddr ip).drop 8 := by
      rw [restoredSource, if_pos helided]
    rw [if_neg (not_not.mpr hclear), hll,
      uncompressAddr_compressAddr64 completes_linklocal hlen h, hrest]
  · have hrest : restoredSource cs ip = srcipaddr ip := by
      rw [restoredSource, if_neg helided]
    rw [hlen] at h
    have hmode : ((0 &&& iphcSam11) >>> iphcSamBit) &&& 0x03 = (0 : UInt8) := by decide
    rw [if_neg (by decide), hmode, hrest, hlen, ← h]
    exact congrArg some (uncompressAddr_full pb p llprefixBytes lladdr)

/-- The ways to send the destination: four multicast forms, a context, a link-local prefix, the
address as it is. -/
theorem compressDest_cases (cs : AddrContexts) (dest : Linkaddr) (ip : Memory) :
    let a := destipaddr ip
    let code := compressAddr64 0 a dest
    (isAddrMcast a = true ∧
      ((isMcastAddrCompressable8 a = true ∧
          compressDest cs dest ip = ⟨iphcM ||| 3, 0, [u8 a 15]⟩) ∨
        (isMcastAddrCompressable32 a = true ∧
          compressDest cs dest ip = ⟨iphcM ||| 2, 0, u8 a 1 :: a.drop 13⟩) ∨
        (isMcastAddrCompressable48 a = true ∧
          compressDest cs dest ip = ⟨iphcM ||| 1, 0, u8 a 1 :: a.drop 11⟩) ∨
        compressDest cs dest ip = ⟨iphcM, 0, a⟩)) ∨
    (∃ c, lookupByPrefix cs a = some c ∧
      compressDest cs dest ip = ⟨iphcDac ||| code.1, c.number, code.2⟩) ∨
    ((isAddrLinklocal a = true ∧ zeroWords a) ∧ compressDest cs dest ip = ⟨code.1, 0, code.2⟩) ∨
    compressDest cs dest ip = ⟨0, 0, a⟩ := by
  intro a code
  have hbit : iphcDamBit = 0 := rfl
  simp only [compressDest, hbit]
  -- Multicast first, then a context, then the modes of a unicast address.
  by_cases hmcast : isAddrMcast a = true
  · refine .inl ⟨hmcast, ?_⟩
    rw [if_pos hmcast]
    by_cases h8 : isMcastAddrCompressable8 a = true
    · exact .inl ⟨h8, by rw [if_pos h8]⟩
    rw [if_neg h8]
    by_cases h32 : isMcastAddrCompressable32 a = true
    · exact .inr (.inl ⟨h32, by rw [if_pos h32]⟩)
    rw [if_neg h32]
    by_cases h48 : isMcastAddrCompressable48 a = true
    · exact .inr (.inr (.inl ⟨h48, by rw [if_pos h48]⟩))
    · exact .inr (.inr (.inr (by rw [if_neg h48])))
  rw [if_neg hmcast]
  cases hc : lookupByPrefix cs a with
  | some c => exact .inr (.inl ⟨c, rfl, rfl⟩)
  | none =>
    by_cases hlocal : (isAddrLinklocal a && u16 a 1 == 0 && u16 a 2 == 0 && u16 a 3 == 0) = true
    · have hzero : isAddrLinklocal a = true ∧ zeroWords a := by
        simpa [zeroWords, and_assoc] using hlocal
      exact .inr (.inr (.inl ⟨hzero, by simp only [a, hlocal, if_true, code]⟩))
    · exact .inr (.inr (.inr (by simp only [a, hlocal]; rfl)))

/-- The values of the bits of the destination. -/
def destBits : List UInt8 := [0x0B, 0x0A, 0x09, 0x08, 0x07, 0x06, 0x05, 0x03, 0x02, 0x01, 0]

/-- The bits of the destination in the second byte. -/
theorem compressDest_bits (cs : AddrContexts) (dest : Linkaddr) (ip : Memory) :
    (compressDest cs dest ip).iphc1 ∈ destBits := by
  have hmode : ∀ m ∈ [1, 2, (3 : UInt8)], iphcDac ||| m ∈ destBits ∧ m ∈ destBits := by decide +kernel
  have hm := hmode _ (compressAddr64_mode (destipaddr ip) dest)
  rcases compressDest_cases cs dest ip with ⟨_, ⟨_, h⟩ | ⟨_, h⟩ | ⟨_, h⟩ | h⟩ | ⟨c, _, h⟩ | ⟨_, h⟩ |
    h <;> rw [h]
  · dsimp only; decide
  · dsimp only; decide
  · dsimp only; decide
  · dsimp only; decide
  · exact hm.1
  · exact hm.2
  · dsimp only; decide

/-- A multicast address that is sent as one byte is restored. -/
theorem mcast8_eq (hlen : a.length = 16) (hmcast : isAddrMcast a = true)
    (h : isMcastAddrCompressable8 a = true) :
    [0xff, 0x02] ++ List.replicate 13 0 ++ [u8 a 15] = a := by
  rcases exists_sixteen hlen with
    ⟨b₀, b₁, b₂, b₃, b₄, b₅, b₆, b₇, b₈, b₉, b₁₀, b₁₁, b₁₂, b₁₃, b₁₄, b₁₅, rfl⟩
  simp [isAddrMcast, isMcastAddrCompressable8, u16, u8, word_eq_zero] at h hmcast
  simp [h, hmcast, u8, List.replicate]

/-- A multicast address that is sent as four bytes is restored. -/
theorem mcast32_eq (hlen : a.length = 16) (hmcast : isAddrMcast a = true)
    (h : isMcastAddrCompressable32 a = true) :
    [0xff, u8 a 1] ++ List.replicate 11 0 ++ a.drop 13 = a := by
  rcases exists_sixteen hlen with
    ⟨b₀, b₁, b₂, b₃, b₄, b₅, b₆, b₇, b₈, b₉, b₁₀, b₁₁, b₁₂, b₁₃, b₁₄, b₁₅, rfl⟩
  simp [isAddrMcast, isMcastAddrCompressable32, u16, u8, word_eq_zero] at h hmcast
  simp [h, hmcast, u8, List.replicate]

/-- A multicast address that is sent as six bytes is restored. -/
theorem mcast48_eq (hlen : a.length = 16) (hmcast : isAddrMcast a = true)
    (h : isMcastAddrCompressable48 a = true) :
    [0xff, u8 a 1] ++ List.replicate 9 0 ++ a.drop 11 = a := by
  rcases exists_sixteen hlen with
    ⟨b₀, b₁, b₂, b₃, b₄, b₅, b₆, b₇, b₈, b₉, b₁₀, b₁₁, b₁₂, b₁₃, b₁₄, b₁₅, rfl⟩
  simp [isAddrMcast, isMcastAddrCompressable48, u16, u8, word_eq_zero] at h hmcast
  simp [h, hmcast, u8, List.replicate]

/-- The multicast forms: a prefix of two bytes, zeros, and the bytes inline. -/
theorem uncompressAddr_mxconf (pb : Memory) (p : ℕ) (b : UInt8) (l : Linkaddr) :
    uncompressAddr pb p [0xff, b] 0x21 l =
      ([0xff, b] ++ List.replicate 13 0 ++ pb.read p 1, p + 1) ∧
    uncompressAddr pb p [0xff, b] 0x23 l =
      ([0xff, b] ++ List.replicate 11 0 ++ pb.read p 3, p + 3) ∧
    uncompressAddr pb p [0xff, b] 0x25 l =
      ([0xff, b] ++ List.replicate 9 0 ++ pb.read p 5, p + 5) :=
  ⟨rfl, rfl, rfl⟩

/-- The destination is read back as it was, in every form. -/
theorem uncompressDest_compressDest {iphc1 : UInt8} {base : ℕ} {dest : Linkaddr}
    (hm : iphc1 &&& iphcM = (compressDest cs dest ip).iphc1 &&& iphcM)
    (hdac : iphc1 &&& iphcDac = (compressDest cs dest ip).iphc1 &&& iphcDac)
    (hdam : ((iphc1 &&& iphcDam11) >>> iphcDamBit) &&& 0x03 =
      (((compressDest cs dest ip).iphc1 &&& iphcDam11) >>> iphcDamBit) &&& 0x03)
    (hcid : ∀ c, lookupByPrefix cs (destipaddr ip) = some c →
      iphc1 &&& iphcCid ≠ 0 ∧ pb (base + 2) &&& 0x0f = (compressDest cs dest ip).cid)
    (h : pb.read p (compressDest cs dest ip).bytes.length = (compressDest cs dest ip).bytes) :
    uncompressDest cs pb base iphc1 dest buf p =
      some (destipaddr ip, p + (compressDest cs dest ip).bytes.length) := by
  have hmode : ∀ m ∈ [1, 2, (3 : UInt8)],
      (((iphcDac ||| m) &&& iphcDam11) >>> iphcDamBit) &&& 0x03 = m ∧
      ((m &&& iphcDam11) >>> iphcDamBit) &&& 0x03 = m ∧
      (iphcDac ||| m) &&& iphcM = 0 ∧ m &&& iphcM = 0 ∧ (iphcDac ||| m) &&& iphcDac ≠ 0 ∧
      m &&& iphcDac = 0 := by decide +kernel
  rcases hmode _ (compressAddr64_mode (destipaddr ip) dest) with
    ⟨hctx, hll, hctxM, hllM, hctxDac, hllDac⟩
  have hlen := length_destipaddr ip
  unfold uncompressDest
  rw [hm, hdac, hdam]
  -- The same cases, read from the mode bits that were written.
  rcases compressDest_cases cs dest ip with ⟨hmcast, ⟨h8, hcode⟩ | ⟨h32, hcode⟩ | ⟨h48, hcode⟩ |
      hcode⟩ | ⟨c, hc, hcode⟩ | ⟨⟨hlocal, hzero⟩, hcode⟩ | hcode <;> rw [hcode] at h ⊢ <;>
    dsimp only at h ⊢
  · have hdam8 : (((iphcM ||| 3) &&& iphcDam11) >>> iphcDamBit) &&& 0x03 = (3 : UInt8) := by decide
    rw [if_pos (by decide), if_neg (by decide), hdam8, if_neg (by decide)]
    refine congrArg some ((uncompressAddr_mxconf pb p 0x02 linkaddrNull).1.trans ?_)
    rw [List.length_singleton] at h ⊢
    rw [h, mcast8_eq hlen hmcast h8]
  · have hdam32 : (((iphcM ||| 2) &&& iphcDam11) >>> iphcDamBit) &&& 0x03 = (2 : UInt8) := by decide
    have hlength : (u8 (destipaddr ip) 1 :: (destipaddr ip).drop 13).length = 3 + 1 := by simp [hlen]
    rw [hlength, read_cons, List.cons.injEq] at h
    rw [if_pos (by decide), if_neg (by decide), hdam32, if_pos (by decide), hlength]
    refine congrArg some ((uncompressAddr_mxconf pb (p + 1) (pb p) linkaddrNull).2.1.trans ?_)
    rw [h.2, h.1, mcast32_eq hlen hmcast h32, Nat.add_assoc p]
  · have hdam48 : (((iphcM ||| 1) &&& iphcDam11) >>> iphcDamBit) &&& 0x03 = (1 : UInt8) := by decide
    have hlength : (u8 (destipaddr ip) 1 :: (destipaddr ip).drop 11).length = 5 + 1 := by simp [hlen]
    rw [hlength, read_cons, List.cons.injEq] at h
    rw [if_pos (by decide), if_neg (by decide), hdam48, if_pos (by decide), hlength]
    refine congrArg some ((uncompressAddr_mxconf pb (p + 1) (pb p) linkaddrNull).2.2.trans ?_)
    rw [h.2, h.1, mcast48_eq hlen hmcast h48, Nat.add_assoc p]
  · have hdam0 : ((iphcM &&& iphcDam11) >>> iphcDamBit) &&& 0x03 = (0 : UInt8) := by decide
    rw [hlen] at h
    rw [if_pos (by decide), if_neg (by decide), hdam0, if_neg (by decide), hlen]
    refine congrArg some ((uncompressAddr_full pb p [0xff, 0x02] linkaddrNull).trans ?_)
    rw [h]
  · rcases mem_of_lookupByPrefix hc with ⟨_, _, hupper⟩
    rw [hcode] at hcid
    rw [if_neg (not_not.mpr hctxM), if_pos hctxDac, hctx, if_pos (hcid c hc).1, (hcid c hc).2,
      lookupByNumber_of_lookupByPrefix hc, Option.map_some,
      uncompressAddr_compressAddr64 (completes_context c.length_prefixBytes) hlen h, hupper,
      List.take_append_drop]
  · rw [if_neg (not_not.mpr hllM), if_neg (not_not.mpr hllDac), hll,
      uncompressAddr_compressAddr64 completes_linklocal hlen h, (linklocal_eq hlen hlocal).mpr hzero]
  · have hdam0 : ((0 &&& iphcDam11) >>> iphcDamBit) &&& 0x03 = (0 : UInt8) := by decide
    rw [hlen] at h
    rw [if_neg (by decide), if_neg (by decide), hdam0, hlen]
    refine congrArg some ((uncompressAddr_full pb p llprefixBytes dest).trans ?_)
    rw [h]

/-! ## UDP -/

theorem be16_word (lo hi : UInt8) : be16 (word lo hi) = [hi, lo] := by
  have h := le16_word lo hi
  simp only [le16, List.cons.injEq, and_true] at h
  simp only [be16, h.1, h.2]

/-- Two numbers of four bits in a byte. -/
theorem nibbles_add : ∀ x y : Fin 16,
    ((UInt8.ofNat (x.val * 16) + UInt8.ofNat y.val) >>> 4).toNat = x.val ∧
      ((UInt8.ofNat (x.val * 16) + UInt8.ofNat y.val) &&& 0x0F).toNat = y.val := by
  decide

/-- The encoding byte and the ports, which are read back as they were. -/
theorem uncompressPorts_compressUdp (ip : Memory) (q : ℕ) : ∃ enc ports,
    compressUdp ip q = enc :: (ports ++ ip.read (q + 6) 2) ∧ enc &&& nhcMask ≠ nhcExtHdr ∧
      enc &&& nhcUdpMask = nhcUdpId ∧ enc &&& nhcUdpChecksumC = 0 ∧
      ∀ (pb : Memory) (p : ℕ), pb p = enc → pb.read (p + 1) ports.length = ports →
        uncompressPorts pb p = (ip.read q 4, ports.length + 1) := by
  have hread : ip.read q 4 = [ip q, ip (q + 1), ip (q + 2), ip (q + 3)] := rfl
  have hsrc := be16_word (ip (q + 1)) (ip q)
  have hdest := be16_word (ip (q + 3)) (ip (q + 2))
  have hslt := word_lt (ip (q + 1)) (ip q)
  have hdlt := word_lt (ip (q + 3)) (ip (q + 2))
  have hsrc2 (pb : Memory) (p : ℕ) : pb.read p 2 = [pb p, pb (p + 1)] := rfl
  -- Four encodings of the ports, by the ranges they are in.
  unfold compressUdp
  rw [hread]
  dsimp only
  generalize hs : word (ip (q + 1)) (ip q) = srcport at hsrc hslt ⊢
  generalize hd : word (ip (q + 3)) (ip (q + 2)) = destport at hdest hdlt ⊢
  by_cases h4 : srcport / 16 * 16 = udp4BitPortMin ∧ destport / 16 * 16 = udp4BitPortMin
  · rw [if_pos h4]
    refine ⟨nhcUdpCsP11, [_], rfl, by decide, by decide, by decide, ?_⟩
    intro pb p henc hports
    rw [List.length_singleton, read_cons, read_zero, List.cons.injEq] at hports
    have hx : srcport - udp4BitPortMin < 16 := by simp only [udp4BitPortMin] at h4 ⊢; omega
    have hy : destport - udp4BitPortMin < 16 := by simp only [udp4BitPortMin] at h4 ⊢; omega
    rcases nibbles_add ⟨_, hx⟩ ⟨_, hy⟩ with ⟨hhi, hlo⟩
    have hs' : udp4BitPortMin + (srcport - udp4BitPortMin) = srcport := by
      simp only [udp4BitPortMin] at h4 ⊢; omega
    have hd' : udp4BitPortMin + (destport - udp4BitPortMin) = destport := by
      simp only [udp4BitPortMin] at h4 ⊢; omega
    unfold uncompressPorts
    rw [henc, if_neg (by decide), if_neg (by decide), if_neg (by decide), hports.1, hhi, hlo, hs',
      hd', hsrc, hdest]
    rfl
  rw [if_neg h4]
  by_cases hd8 : destport / 256 * 256 = udp8BitPortMin
  · rw [if_pos hd8]
    refine ⟨nhcUdpCsP01, [_, _, _], rfl, by decide, by decide, by decide, ?_⟩
    intro pb p henc hports
    simp only [List.length_cons, List.length_nil, read_cons, read_zero, List.cons.injEq,
      and_true] at hports
    rcases hports with ⟨h1, h2, h3⟩
    have hd' : udp8BitPortMin + (UInt8.ofNat (destport - udp8BitPortMin)).toNat = destport := by
      simp only [udp8BitPortMin, UInt8.toNat_ofNat'] at hd8 ⊢
      omega
    unfold uncompressPorts
    rw [henc, if_neg (by decide), if_pos (by decide), hsrc2, h1, h2, h3, hd', hdest]
    rfl
  rw [if_neg hd8]
  by_cases hs8 : srcport / 256 * 256 = udp8BitPortMin
  · rw [if_pos hs8]
    refine ⟨nhcUdpCsP10, [_, _, _], rfl, by decide, by decide, by decide, ?_⟩
    intro pb p henc hports
    simp only [List.length_cons, List.length_nil, read_cons, read_zero, List.cons.injEq,
      and_true] at hports
    rcases hports with ⟨h1, h2, h3⟩
    have hs' : udp8BitPortMin + (UInt8.ofNat (srcport - udp8BitPortMin)).toNat = srcport := by
      simp only [udp8BitPortMin, UInt8.toNat_ofNat'] at hs8 ⊢
      omega
    unfold uncompressPorts
    rw [henc, if_neg (by decide), if_neg (by decide), if_pos (by decide), hsrc2, h1, h2, h3, hs',
      hsrc]
    rfl
  · rw [if_neg hs8]
    refine ⟨nhcUdpId, [ip q, ip (q + 1), ip (q + 2), ip (q + 3)], rfl, by decide, by decide,
      by decide, ?_⟩
    intro pb p henc hports
    unfold uncompressPorts
    rw [henc, if_pos (by decide)]
    exact congrArg (·, 5) hports

/-- Lengths are taken modulo 2^16. -/
theorem be16_add (n : ℕ) : be16 (65536 + n) = be16 n := by
  have h₁ : UInt8.ofNat ((65536 + n) / 256) = UInt8.ofNat (n / 256) := by
    apply UInt8.toNat_inj.mp
    simp only [UInt8.toNat_ofNat']
    omega
  have h₀ : UInt8.ofNat (65536 + n) = UInt8.ofNat n := by
    apply UInt8.toNat_inj.mp
    simp only [UInt8.toNat_ofNat']
    omega
  rw [be16, be16, h₁, h₀]

/-! ## The chain of next headers -/

/-- What a walk over headers of `n` bytes leaves behind, after `k` bytes of the frame: the byte
before them names the first one, and nothing else in front of them has changed. -/
structure Unpacked (proto : UInt8) (bytes : List UInt8) (n k : ℕ) (w w' : HdrWalk) : Prop where
  hc06Ptr : w'.hc06Ptr = w.hc06Ptr + k
  uncompHdrLen : w'.uncompHdrLen = w.uncompHdrLen + n
  named : w'.buf w.lastNextheader = proto
  copied : w'.buf.read w.ipPayload n = bytes.take n
  unchanged : ∀ i < w.ipPayload, i ≠ w.lastNextheader → w'.buf i = w.buf i

variable {w : HdrWalk} {datalen ipLen : ℕ}

/-- A UDP header is restored, with its length computed from that of the packet. -/
theorem uncompressUdp_compressUdp {q : ℕ} {s₁ s₀ d₁ d₀ l₁ l₀ c₁ c₀ : UInt8} {payload : List UInt8}
    (hip : ip.read q 8 = [s₁, s₀, d₁, d₀, l₁, l₀, c₁, c₀]) (hnhc : w.nhc = true)
    (hlast : w.lastNextheader < w.ipPayload)
    (h : pb.read w.hc06Ptr (compressUdp ip q).length = compressUdp ip q)
    (hlen : (if ipLen = 0 then 8 + datalen + 65536 - (w.hc06Ptr + (compressUdp ip q).length)
      else ipLen + 65536 - iphLen - w.extHdrLen) = 65536 + word l₀ l₁)
    (huncomp : w.uncompHdrLen + 8 < 256) :
    Unpacked protoUdp (s₁ :: s₀ :: d₁ :: d₀ :: l₁ :: l₀ :: c₁ :: c₀ :: payload) 8
      (compressUdp ip q).length w (uncompressUdp pb datalen ipLen w) := by
  -- The ports are followed by the checksum, which is always sent.
  rcases uncompressPorts_compressUdp ip q with ⟨enc, ports, hcode, _, hudp, hcheck, hports⟩
  have hsplit : ip.read q 4 = [s₁, s₀, d₁, d₀] ∧ ip.read (q + 6) 2 = [c₁, c₀] := by
    simp only [read_cons, read_zero, List.cons.injEq, and_true] at hip ⊢
    exact ⟨⟨hip.1, hip.2.1, hip.2.2.1, hip.2.2.2.1⟩, hip.2.2.2.2.2.2⟩
  have hk : (compressUdp ip q).length = ports.length + 1 + 2 := by
    rw [hcode]
    simp
  rw [hk] at hlen h ⊢
  rw [hcode] at h
  have hcount : ports.length + 1 + 2 = (ports.length + 2) + 1 := by omega
  rw [hcount, read_cons, List.cons.injEq, read_append] at h
  rcases h with ⟨henc, hbody⟩
  rcases List.append_inj hbody length_read with ⟨hp, hc⟩
  have hp' : pb.read (w.hc06Ptr + (ports.length + 1)) 2 = [c₁, c₀] := by
    rw [← hsplit.2, ← hc]
    congr 1
    omega
  have hpair := hports pb w.hc06Ptr henc hp
  have helided : ¬ pb w.hc06Ptr &&& nhcUdpChecksumC ≠ 0 := by rw [henc, hcheck]; decide
  have hlen' : (if ipLen = 0 then 8 + datalen + 65536 - (w.hc06Ptr + (ports.length + 1) + 2)
      else ipLen + 65536 - iphLen - w.extHdrLen) = 65536 + word l₀ l₁ := hlen
  have hresult : uncompressUdp pb datalen ipLen w =
      { w with
        buf := (((w.buf.write w.lastNextheader [protoUdp]).write w.ipPayload
          [s₁, s₀, d₁, d₀]).write (w.ipPayload + 6) [c₁, c₀]).write (w.ipPayload + 4) [l₁, l₀]
        hc06Ptr := w.hc06Ptr + (ports.length + 1) + 2
        uncompHdrLen := (w.uncompHdrLen + udphLen) % 256 } := by
    unfold uncompressUdp
    rw [if_pos ⟨hnhc, by rw [henc, hudp]⟩]
    simp only [hpair, helided, if_false, hp', hlen', be16_add, be16_word, hsplit.1]
  rw [hresult]
  refine ⟨by dsimp only; omega, ?_, ?_, ?_, ?_⟩
  · have hu : udphLen = 8 := rfl
    dsimp only
    omega
  · dsimp only
    rw [write_below (by omega), write_below (by omega), write_below hlast]
    exact congrArg List.head! (read_write_self w.buf w.lastNextheader [protoUdp])
  · dsimp only
    have h4 := read_write_self (w.buf.write w.lastNextheader [protoUdp]) w.ipPayload
      [s₁, s₀, d₁, d₀]
    have h6 := read_write_self ((w.buf.write w.lastNextheader [protoUdp]).write w.ipPayload
      [s₁, s₀, d₁, d₀]) (w.ipPayload + 6) [c₁, c₀]
    have hl := read_write_self (((w.buf.write w.lastNextheader [protoUdp]).write w.ipPayload
      [s₁, s₀, d₁, d₀]).write (w.ipPayload + 6) [c₁, c₀]) (w.ipPayload + 4) [l₁, l₀]
    have htake : (s₁ :: s₀ :: d₁ :: d₀ :: l₁ :: l₀ :: c₁ :: c₀ :: payload).take 8 =
        [s₁, s₀, d₁, d₀] ++ ([l₁, l₀] ++ [c₁, c₀]) := rfl
    have height : 8 = 4 + (2 + 2) := rfl
    rw [htake, height, read_append, read_append]
    refine congrArg₂ (· ++ ·) ?_ (congrArg₂ (· ++ ·) hl ?_)
    · rw [read_write_below (by omega), read_write_below (by omega)]
      exact h4
    · have habove : w.ipPayload + 4 + [l₁, l₀].length ≤ w.ipPayload + 4 + 2 := le_refl _
      exact (read_write_above habove).trans h6
  · intro i hi hne
    dsimp only
    rw [write_below (by omega), write_below (by omega), write_below hi]
    rcases Nat.lt_or_gt_of_ne hne with hlt | hgt
    · exact write_below hlt
    · exact write_above hgt

/-- The headers that have an identifier of their own. -/
def extHdrs : List UInt8 := [protoHbho, protoRouting, protoFrag, protoDesto]

/-- The encoding byte of an extension header. -/
def extEnc (proto : UInt8) (nh : Bool) : UInt8 :=
  nhcExtHdr ||| (if nh then nhcBit else 0) ||| (nhcEtxHdr proto <<< 1)

/-- The encodings of extension headers are told apart by their bits. -/
theorem extEnc_bits : ∀ proto ∈ extHdrs, ∀ nh : Bool,
    extEnc proto nh &&& nhcMask = nhcExtHdr ∧
      protoOfEid ((extEnc proto nh &&& 0x0e) >>> 1) = some proto ∧
      (extEnc proto nh &&& 0x01 = 0 ↔ nh = false) ∧ isCompressableProto proto = true ∧
      proto ≠ protoUdp := by
  decide +kernel

/-- What the compression writes for one extension header. -/
def extBytes (proto next len : UInt8) (data : List UInt8) : List UInt8 :=
  extEnc proto (isCompressableProto next) ::
    ((if isCompressableProto next then [] else [next]) ++
      UInt8.ofNat (len.toNat * 8 + 6) :: data)

/-- An extension header is compressed, and then what is behind it. -/
theorem compressHdrs_ext {fuel ext : ℕ} {proto next len : UInt8} {data : List UInt8}
    (hproto : proto ∈ extHdrs) (hdata : data.length = len.toNat * 8 + 6)
    (hip : ip.read (iphLen + ext) (next :: len :: data).length = next :: len :: data) :
    compressHdrs ip (fuel + 1) proto ext =
      (extBytes proto next len data ++
          (compressHdrs ip fuel next (ext + (data.length + 2))).1,
        data.length + 2 + (compressHdrs ip fuel next (ext + (data.length + 2))).2) := by
  rcases extEnc_bits proto hproto (isCompressableProto next) with ⟨_, _, _, hcomp, hudp⟩
  have hsize : (next :: len :: data).length = data.length + 2 := rfl
  have hfields := hip
  rw [hsize, read_cons, read_cons, List.cons.injEq, List.cons.injEq] at hfields
  rcases hfields with ⟨hnext, hlen, _⟩
  have hsize' : len.toNat * 8 + 8 = data.length + 2 := by omega
  have hsub : data.length + 2 - 2 = len.toNat * 8 + 6 := by omega
  rw [compressHdrs, if_pos hcomp, if_neg hudp]
  simp only [hnext, hlen, hsize', hsub]
  rw [hsize] at hip
  rw [hip]
  refine Prod.ext ?_ rfl
  unfold extBytes extEnc
  cases isCompressableProto next <;> rfl

/-- The walk behind an extension header. -/
def afterExt (proto next len : UInt8) (data : List UInt8) (w : HdrWalk) : HdrWalk where
  buf := ((w.buf.write w.lastNextheader [proto]).write w.ipPayload
    [if isCompressableProto next then 0 else next, len]).write (w.ipPayload + 2) data
  hc06Ptr := w.hc06Ptr + (extBytes proto next len data).length
  lastNextheader := w.ipPayload
  ipPayload := w.ipPayload + (data.length + 2)
  uncompHdrLen := (w.uncompHdrLen + (data.length + 2)) % 256
  extHdrLen := (w.extHdrLen + (data.length + 2)) % 256
  nhc := isCompressableProto next

/-- An extension header is restored. -/
theorem uncompressExtHdr_extBytes {proto next len : UInt8} {data : List UInt8}
    (hproto : proto ∈ extHdrs) (hdata : data.length = len.toNat * 8 + 6)
    (hsmall : data.length < 256)
    (h : pb.read w.hc06Ptr (extBytes proto next len data).length = extBytes proto next len data) :
    pb w.hc06Ptr &&& nhcMask = nhcExtHdr ∧
    uncompressExtHdr pb w = .ok (afterExt proto next len data w) := by
  have hlenb : (UInt8.ofNat (len.toNat * 8 + 6)).toNat = data.length := by
    rw [UInt8.toNat_ofNat', ← hdata]
    exact Nat.mod_eq_of_lt hsmall
  -- Adding 255 subtracts one from a byte.
  have hextLen : UInt8.ofNat ((2 + data.length) / 8 + 255) = len := by
    apply UInt8.toNat_inj.mp
    have hlt := len.toNat_lt
    rw [UInt8.toNat_ofNat']
    omega
  have hsize : (len.toNat + 1) * 8 = data.length + 2 := by omega
  rcases extEnc_bits proto hproto (isCompressableProto next) with ⟨hmask, heid, hnh, _, _⟩
  unfold afterExt
  unfold extBytes at h ⊢
  -- The next header is in the byte of the encoding, or in a byte of its own.
  cases hcomp : isCompressableProto next with
  | true =>
    rw [hcomp] at h hmask heid hnh
    simp only [if_true, List.nil_append, List.length_cons, read_cons, List.cons.injEq] at h ⊢
    rcases h with ⟨henc, hlen, hbody⟩
    have hne : ¬ extEnc proto true &&& 0x01 = 0 := by
      rw [hnh]
      decide
    refine ⟨by rw [henc, hmask], ?_⟩
    unfold uncompressExtHdr
    simp only [henc, hne, if_false, heid, hlen, hlenb, hextLen, hsize, hbody, ne_eq,
      not_false_eq_true, decide_true]
    congr 2
    omega
  | false =>
    rw [hcomp] at h hmask heid hnh
    simp only [Bool.false_eq_true, if_false, List.cons_append, List.nil_append, List.length_cons,
      read_cons, List.cons.injEq] at h ⊢
    rcases h with ⟨henc, hnext, hlen, hbody⟩
    have hzero : extEnc proto false &&& 0x01 = 0 := hnh.mpr rfl
    refine ⟨by rw [henc, hmask], ?_⟩
    unfold uncompressExtHdr
    simp only [henc, hzero, if_true, heid, hnext, Nat.add_assoc, Nat.reduceAdd] at hlen hbody ⊢
    simp only [hlen, hlenb, hextLen, hsize, hbody, ne_eq, not_true_eq_false, decide_false]
    congr 2
    omega

/-- The bytes behind a header that names `proto`: extension headers, then UDP or a protocol that
is sent as it is. `n` bytes of them are headers with an encoding. UDP has its own length, and the
reserved byte of a fragment header is zero. -/
inductive Headers : UInt8 → List UInt8 → ℕ → Prop
  | other {proto : UInt8} {payload : List UInt8} (hproto : isCompressableProto proto = false) :
      Headers proto payload 0
  | udp {s₁ s₀ d₁ d₀ l₁ l₀ c₁ c₀ : UInt8} {payload : List UInt8}
      (hlen : word l₀ l₁ = 8 + payload.length) :
      Headers protoUdp (s₁ :: s₀ :: d₁ :: d₀ :: l₁ :: l₀ :: c₁ :: c₀ :: payload) 8
  | ext {proto next len : UInt8} {data rest : List UInt8} {n : ℕ} (hproto : proto ∈ extHdrs)
      (hdata : data.length = len.toNat * 8 + 6) (hfrag : proto = protoFrag → len = 0)
      (hrest : Headers next rest n) :
      Headers proto (next :: len :: (data ++ rest)) (data.length + 2 + n)

/-- The headers of a chain are not longer than the packet. -/
theorem Headers.le_length {proto : UInt8} {bytes : List UInt8} {n : ℕ} (h : Headers proto bytes n) :
    n ≤ bytes.length := by
  induction h with
  | other => exact Nat.zero_le _
  | udp => simp
  | ext _ _ _ _ ih =>
    simp only [List.length_cons, List.length_append]
    omega

/-- What has no encoding is sent as it is. -/
theorem compressHdrs_other {fuel ext : ℕ} {proto : UInt8} (h : isCompressableProto proto = false) :
    compressHdrs ip fuel proto ext = ([], 0) := by
  cases fuel with
  | zero => rfl
  | succ fuel =>
    rw [compressHdrs, h]
    rfl

/-- The length of the headers that were compressed. -/
theorem compressHdrs_length {proto : UInt8} {bytes : List UInt8} {n : ℕ} (h : Headers proto bytes n) :
    ∀ fuel ext, ip.read (iphLen + ext) bytes.length = bytes → n ≤ fuel →
      (compressHdrs ip fuel proto ext).2 = n := by
  induction h with
  | other hproto =>
    intro fuel ext _ _
    rw [compressHdrs_other hproto]
  | udp hlen =>
    intro fuel ext _ hfuel
    cases fuel with
    | zero => omega
    | succ fuel => rfl
  | @ext proto next len data rest n hproto hdata _ _ ih =>
    intro fuel ext hip hfuel
    have happ : next :: len :: (data ++ rest) = (next :: len :: data) ++ rest := rfl
    rw [happ] at hip
    rcases read_append_inj hip with ⟨hip₁, hip₂⟩
    cases fuel with
    | zero => omega
    | succ fuel =>
      have hrest : (compressHdrs ip fuel next (ext + (data.length + 2))).2 = n := by
        apply ih
        · rw [Nat.add_assoc] at hip₂
          exact hip₂
        · omega
      rw [compressHdrs_ext hproto hdata hip₁, hrest]

/-- A walk behind an extension header is one in front of it. -/
theorem Unpacked.ext {proto next len : UInt8} {data rest : List UInt8} {n k : ℕ} {w' : HdrWalk}
    (hlast : w.lastNextheader < w.ipPayload) (huncomp : w.uncompHdrLen + (data.length + 2) < 256)
    (h : Unpacked next rest n k (afterExt proto next len data w) w') :
    Unpacked proto ((next :: len :: data) ++ rest) (data.length + 2 + n)
      ((extBytes proto next len data).length + k) w w' := by
  have hpay : (afterExt proto next len data w).ipPayload = w.ipPayload + (data.length + 2) := rfl
  have hunchanged : ∀ i < w.ipPayload + (data.length + 2), i ≠ w.ipPayload →
      w'.buf i = (afterExt proto next len data w).buf i := h.unchanged
  -- Behind this header nothing below is written any more.
  have hbelow : ∀ i < w.ipPayload, w'.buf i = (w.buf.write w.lastNextheader [proto]) i := by
    intro i hi
    rw [hunchanged i (by omega) (by omega)]
    simp only [afterExt]
    rw [write_below (by omega), write_below hi]
  refine ⟨?_, ?_, ?_, ?_, ?_⟩
  · rw [h.hc06Ptr]
    simp only [afterExt]
    omega
  · rw [h.uncompHdrLen]
    simp only [afterExt]
    omega
  · rw [hbelow _ hlast]
    exact congrArg List.head! (read_write_self w.buf w.lastNextheader [proto])
  · have hlen : w'.buf (w.ipPayload + 1) = len := by
      have htwo := read_write_self (w.buf.write w.lastNextheader [proto]) w.ipPayload
        [if isCompressableProto next then 0 else next, len]
      simp only [List.length_cons, List.length_nil, read_cons, read_zero, List.cons.injEq,
        and_true] at htwo
      rw [hunchanged _ (by omega) (by omega)]
      simp only [afterExt]
      rw [write_below (by omega)]
      exact htwo.2
    have hdata : w'.buf.read (w.ipPayload + 2) data.length = data := by
      have hself := read_write_self ((w.buf.write w.lastNextheader [proto]).write w.ipPayload
        [if isCompressableProto next then 0 else next, len]) (w.ipPayload + 2) data
      refine (read_congr ?_).trans hself
      intro i hlo hhi
      exact hunchanged i (by omega) (by omega)
    have hnamed : w'.buf w.ipPayload = next := h.named
    have hrest := h.copied
    rw [hpay] at hrest
    rw [read_append, hrest, read_cons, read_cons, hnamed, hlen, hdata]
    exact (List.take_length_add_append n).symm
  · intro i hi hne
    rw [hbelow i hi]
    rcases Nat.lt_or_gt_of_ne hne with hlt | hgt
    · exact write_below hlt
    · exact write_above hgt

/-- The chain is read back from what was written for it. The lengths of the frame tell the
length of UDP: those of a whole packet, or the size a first fragment names. -/
theorem uncompress_compressHdrs {proto : UInt8} {bytes : List UInt8} {n : ℕ}
    (h : Headers proto bytes n) : ∀ (fuel fuel' ext : ℕ) (w : HdrWalk),
    ip.read (iphLen + ext) bytes.length = bytes → n ≤ fuel →
    pb.read w.hc06Ptr (compressHdrs ip fuel proto ext).1.length =
      (compressHdrs ip fuel proto ext).1 →
    (compressHdrs ip fuel proto ext).1.length ≤ fuel' →
    w.nhc = isCompressableProto proto →
    (isCompressableProto proto = false → w.buf w.lastNextheader = proto) →
    w.lastNextheader < w.ipPayload → w.extHdrLen = ext → w.uncompHdrLen + n < 256 →
    ext + n < 256 →
    (ipLen = 0 ∧ datalen = w.hc06Ptr + (compressHdrs ip fuel proto ext).1.length +
        (bytes.length - n) ∨
      ipLen = iphLen + ext + bytes.length) →
    ∃ w', (uncompressExtHdrs pb fuel' w).map (uncompressUdp pb datalen ipLen) = .ok w' ∧
      Unpacked proto bytes n (compressHdrs ip fuel proto ext).1.length w w' := by
  -- On the chain of headers: each extension header is followed by the rest.
  induction h with
  | @other proto payload hproto =>
    intro fuel fuel' ext w _ _ _ _ hnhc hnamed _ _ _ _ _
    have hloop : uncompressExtHdrs pb fuel' w = .ok w := by
      cases fuel' with
      | zero => rfl
      | succ fuel' =>
        rw [uncompressExtHdrs, hnhc, hproto]
        rfl
    have hudp : uncompressUdp pb datalen ipLen w = w := by
      rw [uncompressUdp, hnhc, hproto]
      rfl
    rw [compressHdrs_other hproto, hloop]
    exact ⟨w, congrArg Except.ok hudp, rfl, rfl, hnamed hproto, rfl, fun _ _ _ => rfl⟩
  | @udp s₁ s₀ d₁ d₀ l₁ l₀ c₁ c₀ payload hlen =>
    intro fuel fuel' ext w hip hfuel hpb hfuel' hnhc _ hlast hext huncomp _ hlens
    cases fuel with
    | zero => omega
    | succ fuel =>
      have hcode : (compressHdrs ip (fuel + 1) protoUdp ext).1 = compressUdp ip (iphLen + ext) := rfl
      rw [hcode] at hpb hfuel' hlens ⊢
      rcases uncompressPorts_compressUdp ip (iphLen + ext) with ⟨enc, ports, henc, hmask, _⟩
      have hne : ¬ (pb w.hc06Ptr &&& nhcMask = nhcExtHdr) := by
        have hk : (compressUdp ip (iphLen + ext)).length = ports.length + 2 + 1 := by
          rw [henc]
          simp
        rw [hk, henc, read_cons, List.cons.injEq] at hpb
        rw [hpb.1]
        exact hmask
      have hloop : uncompressExtHdrs pb fuel' w = .ok w := by
        cases fuel' with
        | zero => rfl
        | succ fuel' => rw [uncompressExtHdrs, if_neg (fun hw => hne hw.2)]
      have hlength : (s₁ :: s₀ :: d₁ :: d₀ :: l₁ :: l₀ :: c₁ :: c₀ :: payload).length =
          payload.length + 8 := rfl
      have hip8 : ip.read (iphLen + ext) 8 = [s₁, s₀, d₁, d₀, l₁, l₀, c₁, c₀] := by
        have happ : s₁ :: s₀ :: d₁ :: d₀ :: l₁ :: l₀ :: c₁ :: c₀ :: payload =
          [s₁, s₀, d₁, d₀, l₁, l₀, c₁, c₀] ++ payload := rfl
        rw [happ] at hip
        exact (read_append_inj hip).1
      have hudp : (if ipLen = 0 then
            8 + datalen + 65536 - (w.hc06Ptr + (compressUdp ip (iphLen + ext)).length)
          else ipLen + 65536 - iphLen - w.extHdrLen) = 65536 + word l₀ l₁ := by
        have hiph : iphLen = 40 := rfl
        rw [hlength] at hlens
        rw [hlen]
        rcases hlens with ⟨hzero, hdata⟩ | hsize
        · rw [if_pos hzero]
          omega
        · rw [if_neg (by omega)]
          omega
      rw [hloop]
      exact ⟨_, rfl, uncompressUdp_compressUdp hip8 (by rw [hnhc]; rfl) hlast hpb hudp huncomp⟩
  -- The extension header is expanded first, then the rest from where it ends.
  | @ext proto next len data rest n hproto hdata hfrag hrest ih =>
    intro fuel fuel' ext w hip hfuel hpb hfuel' hnhc _ hlast hext huncomp hsmall hlens
    have happ : next :: len :: (data ++ rest) = (next :: len :: data) ++ rest := rfl
    rw [happ] at hip hlens ⊢
    rcases read_append_inj hip with ⟨hip₁, hip₂⟩
    have hip₂' : ip.read (iphLen + (ext + (data.length + 2))) rest.length = rest := by
      rw [Nat.add_assoc] at hip₂
      exact hip₂
    cases fuel with
    | zero => omega
    | succ fuel =>
      have hcode : compressHdrs ip (fuel + 1) proto ext = _ := compressHdrs_ext hproto hdata hip₁
      rw [hcode] at hpb hfuel' hlens ⊢
      dsimp only at hpb hfuel' hlens ⊢
      rcases read_append_inj hpb with ⟨hpb₁, hpb₂⟩
      rcases uncompressExtHdr_extBytes hproto hdata (by omega) hpb₁ with ⟨hmask, hstep⟩
      rw [List.length_append] at hfuel' hlens ⊢
      have hpos : 0 < (extBytes proto next len data).length := Nat.succ_pos _
      have hsize : (next :: len :: data ++ rest).length = data.length + 2 + rest.length := by
        simp only [List.length_append, List.length_cons]
      have hnamed : isCompressableProto next = false →
          (afterExt proto next len data w).buf w.ipPayload = next := by
        intro hcomp
        simp only [afterExt, hcomp]
        rw [write_below (by omega)]
        exact congrArg List.head! (read_write_self (w.buf.write w.lastNextheader [proto])
          w.ipPayload [next, len])
      cases fuel' with
      | zero => omega
      | succ fuel' =>
        have hloop : uncompressExtHdrs pb (fuel' + 1) w =
            uncompressExtHdrs pb fuel' (afterExt proto next len data w) := by
          rcases extEnc_bits proto hproto true with ⟨_, _, _, hcomp, _⟩
          rw [uncompressExtHdrs, if_pos ⟨hnhc.trans hcomp, hmask⟩, hstep]
          rfl
        have hle := hrest.le_length
        rcases ih fuel fuel' (ext + (data.length + 2)) (afterExt proto next len data w) hip₂'
          (by omega) hpb₂ (by omega) rfl hnamed (by simp only [afterExt]; omega)
          (by simp only [afterExt]; omega) (by simp only [afterExt]; omega) (by omega)
          (by simp only [afterExt]; omega) with ⟨w', hrun, hunpacked⟩
        exact ⟨w', by rw [hloop, hrun], hunpacked.ext hlast (by omega)⟩

/-! ## The encoding bytes of the addresses -/

/-- The parts of the second byte do not disturb each other. -/
theorem iphc1_bits : ∀ cid ∈ [iphcCid, (0 : UInt8)], ∀ src ∈ srcBits, ∀ dest ∈ destBits,
    let iphc1 := cid ||| src ||| dest
    iphc1 &&& iphcSac = src &&& iphcSac ∧
      ((iphc1 &&& iphcSam11) >>> iphcSamBit) &&& 0x03 =
        ((src &&& iphcSam11) >>> iphcSamBit) &&& 0x03 ∧
      iphc1 &&& iphcM = dest &&& iphcM ∧ iphc1 &&& iphcDac = dest &&& iphcDac ∧
      ((iphc1 &&& iphcDam11) >>> iphcDamBit) &&& 0x03 =
        ((dest &&& iphcDam11) >>> iphcDamBit) &&& 0x03 ∧
      (cid = iphcCid → iphc1 &&& iphcCid ≠ 0) ∧
      (cid = 0 → src &&& iphcCid = 0 → iphc1 &&& iphcCid = 0) := by
  decide +kernel

/-- The source's context number is in the upper half of its byte. -/
theorem compressSrc_cid (cs : AddrContexts) (lladdr : Linkaddr) (ip : Memory) :
    ∃ x : UInt8, x.toNat < 16 ∧ (compressSrc cs lladdr ip).cid = x <<< 4 := by
  rcases compressSrc_cases cs lladdr ip with ⟨_, h⟩ | ⟨c, hc, h⟩ | ⟨_, h⟩ | ⟨_, h⟩ <;> rw [h]
  · exact ⟨0, by decide, rfl⟩
  · rcases mem_of_lookupByPrefix hc with ⟨hmem, hused, _⟩
    exact ⟨c.number, cs.number_lt c hmem hused, rfl⟩
  · exact ⟨0, by decide, rfl⟩
  · exact ⟨0, by decide, rfl⟩

/-- The destination's context number is in the lower half. -/
theorem compressDest_cid (cs : AddrContexts) (dest : Linkaddr) (ip : Memory) :
    (compressDest cs dest ip).cid.toNat < 16 := by
  rcases compressDest_cases cs dest ip with ⟨_, ⟨_, h⟩ | ⟨_, h⟩ | ⟨_, h⟩ | h⟩ | ⟨c, hc, h⟩ | ⟨_, h⟩ |
    h <;> rw [h]
  case inr.inl =>
    rcases mem_of_lookupByPrefix hc with ⟨hmem, hused, _⟩
    exact cs.number_lt c hmem hused
  all_goals exact Nat.zero_lt_succ 15

/-- Without a context no form of the source asks for the context byte. -/
theorem compressSrc_noCid (h : lookupByPrefix cs (srcipaddr ip) = none) :
    (compressSrc cs lladdr ip).iphc1 &&& iphcCid = 0 := by
  have hmode : ∀ m ∈ [1, 2, (3 : UInt8)], (m <<< iphcSamBit) &&& iphcCid = 0 := by decide +kernel
  rcases compressSrc_cases cs lladdr ip with ⟨_, hcode⟩ | ⟨c, hc, _⟩ | ⟨_, hcode⟩ | ⟨_, hcode⟩
  · rw [hcode]
    decide
  · rw [h] at hc
    cases hc
  · rw [hcode]
    exact hmode _ (compressAddr64_mode (srcipaddr ip) lladdr)
  · rw [hcode]
    exact UInt8.zero_and

/-! ## The header -/

/-- A packet of version 6 with consistent lengths; `hdrLen` bytes of it are headers. -/
structure Packet where
  bytes : List UInt8
  hdrLen : ℕ
  version : u8 bytes 0 >>> 4 = 6
  len : word (u8 bytes 5) (u8 bytes 4) + iphLen = bytes.length
  iphLen_le : iphLen ≤ hdrLen
  headers : Headers (u8 bytes 6) (bytes.drop iphLen) (hdrLen - iphLen)

variable {P : Packet} {dest : Linkaddr}

/-- The headers are part of the packet. -/
theorem Packet.hdrLen_le (P : Packet) : P.hdrLen ≤ P.bytes.length := by
  have hle := P.headers.le_length
  have hlen := P.len
  have h40 := P.iphLen_le
  rw [List.length_drop] at hle
  omega

theorem u8_of_read {n i : ℕ} (h : ip.read 0 n = a) (hi : i < n) : u8 a i = ip i := by
  rw [u8, ← h, List.getD_eq_getElem?_getD, getElem?_read hi, Nat.zero_add]
  rfl

/-- The memory in which the fields of the IP header are stored. -/
def storeHeader (buf : Memory) (tf : List UInt8) (proto : List UInt8) (ttl : UInt8)
    (src dst : List UInt8) : Memory :=
  ((((buf.write 0 tf).write 6 proto).write 7 [ttl]).write 8 src).write 24 dst

theorem write_nil (m : Memory) (p : ℕ) : m.write p [] = m := by
  funext i
  simp [write]

/-- The stored fields, read one after the other. -/
theorem read_storeHeader {tf proto src dst : List UInt8} {ttl : UInt8} (htf : tf.length = 4)
    (hproto : proto.length ≤ 1) (hsrc : src.length = 16) (hdst : dst.length = 16) :
    (storeHeader buf tf proto ttl src dst).read 0 4 = tf ∧
      (storeHeader buf tf proto ttl src dst).read 6 proto.length = proto ∧
      (storeHeader buf tf proto ttl src dst) 7 = ttl ∧
      (storeHeader buf tf proto ttl src dst).read 8 16 = src ∧
      (storeHeader buf tf proto ttl src dst).read 24 16 = dst := by
  unfold storeHeader
  refine ⟨?_, ?_, ?_, ?_, ?_⟩
  · rw [read_write_below (by omega), read_write_below (by omega), read_write_below (by omega),
      read_write_below (by omega), ← htf, read_write_self]
  · rw [read_write_below (by omega), read_write_below (by omega), read_write_below (by omega),
      read_write_self]
  · rw [write_below (by omega), write_below (by omega)]
    exact congrArg List.head! (read_write_self ((buf.write 0 tf).write 6 proto) 7 [ttl])
  · rw [read_write_below (by omega)]
    have hself := read_write_self (((buf.write 0 tf).write 6 proto).write 7 [ttl]) 8 src
    rw [hsrc] at hself
    exact hself
  · have hself := read_write_self ((((buf.write 0 tf).write 6 proto).write 7 [ttl]).write 8 src) 24 dst
    rw [hdst] at hself
    exact hself

/-- What the two sides agree on about a frame: where the compressed header starts, the buffer
sizes it stays within, and the length that is given for the packet. -/
structure Carries (cs : AddrContexts) (lladdr dest : Linkaddr) (ip pb : Memory) (P : Packet)
    (base datalen ipLen : ℕ) : Prop where
  packet : ip.read 0 P.bytes.length = P.bytes
  header : pb.read base (compressHdrIphc cs lladdr dest ip P.bytes.length).1.length =
    (compressHdrIphc cs lladdr dest ip P.bytes.length).1
  small : base + (compressHdrIphc cs lladdr dest ip P.bytes.length).1.length ≤ packetbufSize
  lengths : ipLen = 0 ∧ datalen = base +
      (compressHdrIphc cs lladdr dest ip P.bytes.length).1.length +
        (P.bytes.length - P.hdrLen) ∨
    ipLen = P.bytes.length

/-- A compressed header is at most four bytes shorter than what it stands for. -/
theorem le_length_compressHdrs {proto : UInt8} {bytes : List UInt8} {n : ℕ}
    (h : Headers proto bytes n) : ∀ fuel ext, ip.read (iphLen + ext) bytes.length = bytes →
      n ≤ fuel → n ≤ (compressHdrs ip fuel proto ext).1.length + 4 := by
  induction h with
  | other hproto => exact fun _ _ _ _ => Nat.zero_le _
  | udp hlen =>
    intro fuel ext _ hfuel
    cases fuel with
    | zero => omega
    | succ fuel =>
      have hcode : (compressHdrs ip (fuel + 1) protoUdp ext).1 = compressUdp ip (iphLen + ext) := rfl
      rw [hcode]
      unfold compressUdp
      dsimp only
      rw [List.length_append]
      split_ifs <;> simp
  | @ext proto next len data rest n hproto hdata _ hrest ih =>
    intro fuel ext hip hfuel
    have happ : next :: len :: (data ++ rest) = (next :: len :: data) ++ rest := rfl
    rw [happ] at hip
    rcases read_append_inj hip with ⟨hip₁, hip₂⟩
    rw [Nat.add_assoc] at hip₂
    cases fuel with
    | zero => omega
    | succ fuel =>
      have hle := ih fuel (ext + (data.length + 2)) hip₂ (by omega)
      have hcode : compressHdrs ip (fuel + 1) proto ext = _ := compressHdrs_ext hproto hdata hip₁
      have hbytes : data.length + 2 ≤ (extBytes proto next len data).length := by
        unfold extBytes
        split_ifs <;> simp
      rw [hcode, List.length_append]
      omega

namespace Carries

variable {base : ℕ}

/-- The bytes behind the IP header are a chain of headers. -/
theorem chain (h : Carries cs lladdr dest ip pb P base datalen ipLen) :
    Headers (ip 6) (P.bytes.drop iphLen) (P.hdrLen - iphLen) ∧
      ip.read (iphLen + 0) (P.bytes.drop iphLen).length = P.bytes.drop iphLen := by
  have hlen := P.len
  have hiph : iphLen = 40 := rfl
  refine ⟨?_, ?_⟩
  · have h6 := u8_of_read h.packet (by omega : 6 < P.bytes.length)
    rw [← h6]
    exact P.headers
  · have htake : P.bytes.take iphLen ++ P.bytes.drop iphLen = P.bytes := List.take_append_drop _ _
    have hread := h.packet
    rw [← htake] at hread
    have hlength : (P.bytes.take iphLen).length = iphLen := by
      rw [List.length_take]
      omega
    have hright := (read_append_inj hread).2
    rw [hlength] at hright
    exact (congrArg (ip.read · _) (by omega)).trans hright

/-- The compressor and the packet agree on the length of the headers. -/
theorem hdrLen_eq (h : Carries cs lladdr dest ip pb P base datalen ipLen) :
    (compressHdrIphc cs lladdr dest ip P.bytes.length).2 = P.hdrLen := by
  rcases h.chain with ⟨hchain, hread⟩
  have hle := P.hdrLen_le
  have h40 := P.iphLen_le
  have hlen := compressHdrs_length hchain P.bytes.length 0 hread (by omega)
  simp only [compressHdrIphc, hlen]
  omega

end Carries

/-- The pointer behind the encoding bytes. -/
def fieldsAt (cs : AddrContexts) (ip : Memory) (base : ℕ) : ℕ :=
  base + if (lookupByPrefix cs (destipaddr ip)).isSome || (lookupByPrefix cs (srcipaddr ip)).isSome
    then 3 else 2

/-- The parts of a compressed header, one behind the other. -/
theorem Carries.parts {base : ℕ} (h : Carries cs lladdr dest ip pb P base datalen ipLen) :
    let hasCid := (lookupByPrefix cs (destipaddr ip)).isSome ||
      (lookupByPrefix cs (srcipaddr ip)).isSome
    let tf := compressTf ip
    let nh := compressNh ip
    let ttl := compressTtl ip
    let src := compressSrc cs lladdr ip
    let dst := compressDest cs dest ip
    let hdrs := (compressHdrs ip P.bytes.length (ip 6) 0).1
    let p := fieldsAt cs ip base
    pb base = dispatchIphc ||| tf.1 ||| nh.1 ||| ttl.1 ∧
      pb (base + 1) = (if hasCid then iphcCid else 0) ||| src.iphc1 ||| dst.iphc1 ∧
      (hasCid = true → pb (base + 2) = src.cid ||| dst.cid) ∧
      pb.read p tf.2.length = tf.2 ∧
      pb.read (p + tf.2.length) nh.2.length = nh.2 ∧
      pb.read (p + tf.2.length + nh.2.length) ttl.2.length = ttl.2 ∧
      pb.read (p + tf.2.length + nh.2.length + ttl.2.length) src.bytes.length = src.bytes ∧
      pb.read (p + tf.2.length + nh.2.length + ttl.2.length + src.bytes.length) dst.bytes.length =
        dst.bytes ∧
      pb.read (p + tf.2.length + nh.2.length + ttl.2.length + src.bytes.length + dst.bytes.length)
        hdrs.length = hdrs ∧
      (compressHdrIphc cs lladdr dest ip P.bytes.length).1.length + base =
        p + tf.2.length + nh.2.length + ttl.2.length + src.bytes.length + dst.bytes.length +
          hdrs.length := by
  intro hasCid tf nh ttl src dst hdrs p
  have hread := h.header
  have hcode : (compressHdrIphc cs lladdr dest ip P.bytes.length).1 =
      ([dispatchIphc ||| tf.1 ||| nh.1 ||| ttl.1,
          (if hasCid then iphcCid else 0) ||| src.iphc1 ||| dst.iphc1] ++
        (if hasCid then [src.cid ||| dst.cid] else [])) ++ tf.2 ++ nh.2 ++ ttl.2 ++ src.bytes ++
        dst.bytes ++ hdrs := rfl
  have hp : p = base + ([dispatchIphc ||| tf.1 ||| nh.1 ||| ttl.1,
      (if hasCid then iphcCid else 0) ||| src.iphc1 ||| dst.iphc1] ++
        (if hasCid then [src.cid ||| dst.cid] else [])).length := by
    change base + (if hasCid = true then 3 else 2) = _
    cases hasCid <;> rfl
  rw [hcode] at hread ⊢
  generalize hpre : [dispatchIphc ||| tf.1 ||| nh.1 ||| ttl.1,
      (if hasCid then iphcCid else 0) ||| src.iphc1 ||| dst.iphc1] ++
        (if hasCid then [src.cid ||| dst.cid] else []) = pre at hread hp ⊢
  -- The parts are taken off from behind.
  rcases read_append_inj hread with ⟨hread, hhdrs⟩
  rcases read_append_inj hread with ⟨hread, hdst⟩
  rcases read_append_inj hread with ⟨hread, hsrc⟩
  rcases read_append_inj hread with ⟨hread, httl⟩
  rcases read_append_inj hread with ⟨hread, hnh⟩
  rcases read_append_inj hread with ⟨hread, htf⟩
  simp only [List.length_append, ← Nat.add_assoc, ← hp] at hhdrs hdst hsrc httl hnh htf
  rw [← hpre] at hread
  rcases read_append_inj hread with ⟨htwo, hcid⟩
  have htwo' : pb.read base 2 = [dispatchIphc ||| tf.1 ||| nh.1 ||| ttl.1,
      (if hasCid then iphcCid else 0) ||| src.iphc1 ||| dst.iphc1] := htwo
  rw [read_cons, read_cons, List.cons.injEq, List.cons.injEq] at htwo'
  refine ⟨htwo'.1, htwo'.2.1, ?_, htf, hnh, httl, hsrc, hdst, hhdrs, ?_⟩
  · intro hc
    rw [hc] at hcid
    exact congrArg List.head! hcid
  · simp only [List.length_append]
    omega

/-- The headers of a packet after decompression: its own, but for the source. -/
def restoredHeaders (cs : AddrContexts) (ip : Memory) (P : Packet) : List UInt8 :=
  ip.read 0 8 ++ (restoredSource cs ip ++ ip.read 24 (P.hdrLen - 24))

theorem length_restoredSource (cs : AddrContexts) (ip : Memory) :
    (restoredSource cs ip).length = 16 := by
  unfold restoredSource
  split_ifs
  · simp [length_srcipaddr, llprefixBytes]
  · exact length_srcipaddr ip

/-- The stored fields and the headers behind them are the header of the packet, once the length
field is written and the next header has its name. -/
theorem read_header {m stored : Memory} {proto : List UInt8} {n : ℕ} {src : List UInt8}
    (hsrc : src.length = 16) (hproto : proto.length ≤ 1)
    (hstored : stored = storeHeader buf (ip.read 0 4) proto (ip 7) src (destipaddr ip))
    (hnamed : m 6 = ip 6) (hsame : ∀ i < 40, i ≠ 6 → m i = stored i)
    (hrest : m.read 40 n = ip.read 40 n) :
    (m.write 4 [ip 4, ip 5]).read 0 (40 + n) =
      ip.read 0 8 ++ (src ++ ip.read 24 (16 + n)) := by
  rcases @read_storeHeader buf (ip.read 0 4) proto src (destipaddr ip) (ip 7) length_read hproto hsrc
    (length_destipaddr ip) with ⟨htf, _, httl, hs, hd⟩
  rw [← hstored] at htf httl hs hd
  have hread : ∀ p k, (∀ i, p ≤ i → i < p + k → i < 40 ∧ i ≠ 6) → m.read p k = stored.read p k :=
    fun p k hk => read_congr fun i hlo hhi => hsame i (hk i hlo hhi).1 (hk i hlo hhi).2
  have hlen := read_write_self m 4 [ip 4, ip 5]
  have hnine : 40 + n = 4 + (2 + (1 + (1 + (16 + (16 + n))))) := by omega
  have height : 8 = 4 + (2 + (1 + 1)) := rfl
  rw [hnine, height]
  simp only [read_append, Nat.zero_add, Nat.reduceAdd]
  have habove : ∀ p k, 6 ≤ p → (m.write 4 [ip 4, ip 5]).read p k = m.read p k :=
    fun p k hp => read_write_above (by simpa using hp)
  have hbelow : (m.write 4 [ip 4, ip 5]).read 0 4 = m.read 0 4 := read_write_below (by omega)
  have hlen' : (m.write 4 [ip 4, ip 5]).read 4 2 = ip.read 4 2 := hlen
  have h7 : m.read 7 1 = ip.read 7 1 := by
    rw [read_cons, read_cons, hsame 7 (by omega) (by omega), httl]
    rfl
  have h6 : m.read 6 1 = ip.read 6 1 := by
    rw [read_cons, read_cons, hnamed]
    rfl
  rw [hbelow, hlen', habove 6 1 (by omega), habove 7 1 (by omega), habove 8 16 (by omega),
    habove 24 16 (by omega), habove 40 n (by omega), h6, h7, hrest,
    hread 0 4 (by omega), hread 8 16 (by omega), hread 24 16 (by omega), htf, hs, hd]
  rfl

/-- The next header where it is stored with the other fields. -/
def inlineProto (ip : Memory) : List UInt8 := if isCompressableProto (ip 6) then [] else [ip 6]

theorem length_inlineProto (ip : Memory) : (inlineProto ip).length ≤ 1 := by
  unfold inlineProto
  split_ifs <;> simp

/-- The walk over the next headers starts with the other fields stored. -/
def startWalk (cs : AddrContexts) (lladdr dest : Linkaddr) (ip buf : Memory) (base : ℕ) :
    HdrWalk where
  buf := storeHeader buf (ip.read 0 4) (inlineProto ip) (ip 7) (restoredSource cs ip)
    (destipaddr ip)
  hc06Ptr := fieldsAt cs ip base + (compressTf ip).2.length + (compressNh ip).2.length +
    (compressTtl ip).2.length + (compressSrc cs lladdr ip).bytes.length +
    (compressDest cs dest ip).bytes.length
  lastNextheader := 6
  ipPayload := iphLen
  uncompHdrLen := iphLen
  extHdrLen := 0
  nhc := isCompressableProto (ip 6)

/-- The header is decompressed up to the next headers. -/
theorem Carries.start {base : ℕ} (h : Carries cs lladdr dest ip pb P base datalen ipLen) :
    uncompressHdrIphc cs pb datalen lladdr dest base buf ipLen =
      uncompressNext pb datalen ipLen base (startWalk cs lladdr dest ip buf base) := by
  rcases h.parts with ⟨h0, h1, h2, htf, hnh, httl, hsrc, hdst, _, _⟩
  rcases iphc0_bits _ (compressTf_bits ip) _ (compressNh_bits ip) _ (compressTtl_bits ip) with
    ⟨hfl, htc, hnhc, hhlim, _⟩
  rw [← h0] at hfl htc hnhc hhlim
  have hiph : iphLen = 40 := rfl
  have hle := P.hdrLen_le
  have h40 := P.iphLen_le
  -- The context byte is there exactly where the encoding says so.
  have hcidMem : (if ((lookupByPrefix cs (destipaddr ip)).isSome ||
      (lookupByPrefix cs (srcipaddr ip)).isSome) = true then iphcCid else 0) ∈
        [iphcCid, (0 : UInt8)] := by
    split_ifs <;> simp
  rcases iphc1_bits _ hcidMem _ (compressSrc_bits cs lladdr ip) _ (compressDest_bits cs dest ip)
    with ⟨hsac, hsam, hm, hdac, hdam, hcidSet, hcidClear⟩
  rw [← h1] at hsac hsam hm hdac hdam hcidSet hcidClear
  have hp : base + (if pb (base + 1) &&& iphcCid ≠ 0 then 3 else 2) = fieldsAt cs ip base := by
    unfold fieldsAt
    by_cases hc : ((lookupByPrefix cs (destipaddr ip)).isSome ||
        (lookupByPrefix cs (srcipaddr ip)).isSome) = true
    · rw [if_pos (hcidSet (if_pos hc)), if_pos hc]
    · have hnone : lookupByPrefix cs (srcipaddr ip) = none := by
        rw [Bool.or_eq_true, not_or] at hc
        simpa using hc.2
      rw [if_neg (not_not.mpr (hcidClear (if_neg hc) (compressSrc_noCid hnone))), if_neg hc]
  rcases compressSrc_cid cs lladdr ip with ⟨x, hx, hxcid⟩
  have hnib := cid_nibbles hx (compressDest_cid cs dest ip)
  have hxshift := (cid_nibbles hx (by decide : (0 : UInt8).toNat < 16)).1
  rw [UInt8.or_zero] at hxshift
  rw [hxcid] at h2
  have hsrcCid : ∀ c, lookupByPrefix cs (srcipaddr ip) = some c →
      pb (base + 1) &&& iphcCid ≠ 0 ∧ pb (base + 2) >>> 4 = (compressSrc cs lladdr ip).cid >>> 4 := by
    intro c hc
    have hhas : ((lookupByPrefix cs (destipaddr ip)).isSome ||
        (lookupByPrefix cs (srcipaddr ip)).isSome) = true := by simp [hc]
    refine ⟨hcidSet (if_pos hhas), ?_⟩
    rw [h2 hhas, hnib.1, hxcid, hxshift]
  have hdstCid : ∀ c, lookupByPrefix cs (destipaddr ip) = some c →
      pb (base + 1) &&& iphcCid ≠ 0 ∧ pb (base + 2) &&& 0x0f = (compressDest cs dest ip).cid := by
    intro c hc
    have hhas : ((lookupByPrefix cs (destipaddr ip)).isSome ||
        (lookupByPrefix cs (srcipaddr ip)).isSome) = true := by simp [hc]
    refine ⟨hcidSet (if_pos hhas), ?_⟩
    rw [h2 hhas, hnib.2]
  have hversion : ip 0 >>> 4 = 6 := by
    rw [← u8_of_read h.packet (by omega : 0 < P.bytes.length)]
    exact P.version
  have hnhcBit : (decide (pb base &&& iphcNhC ≠ 0)) = isCompressableProto (ip 6) := by
    rw [hnhc]
    unfold compressNh
    cases isCompressableProto (ip 6) <;> rfl
  have hstore (m : Memory) : (if isCompressableProto (ip 6) then m else m.write 6 [ip 6]) =
      m.write 6 (inlineProto ip) := by
    unfold inlineProto
    split_ifs
    · exact (write_nil m 6).symm
    · rfl
  simp only [uncompressHdrIphc, hp, uncompressTf_compressTf hversion hfl htc htf,
    uncompressNh_compressNh hnhc hnh, uncompressTtl_compressTtl hhlim httl,
    uncompressSrc_compressSrc hsac hsam hsrcCid hsrc,
    uncompressDest_compressDest hm hdac hdam hdstCid hdst, hnhcBit, hstore, storeHeader, startWalk]

/-- A next header that is sent inline is in the decompressed header. -/
theorem startWalk_named {base : ℕ} (h : isCompressableProto (ip 6) = false) :
    (startWalk cs lladdr dest ip buf base).buf 6 = ip 6 := by
  rcases @read_storeHeader buf (ip.read 0 4) (inlineProto ip) (restoredSource cs ip)
    (destipaddr ip) (ip 7) length_read (length_inlineProto ip) (length_restoredSource cs ip)
    (length_destipaddr ip) with ⟨_, h6, _⟩
  have hinline : inlineProto ip = [ip 6] := by rw [inlineProto, h]; rfl
  rw [hinline] at h6
  unfold startWalk
  rw [hinline]
  exact congrArg List.head! h6

/-- The headers of a frame are those of the packet, but for the source address. -/
theorem uncompressHdrIphc_compressHdrIphc {base : ℕ}
    (h : Carries cs lladdr dest ip pb P base datalen ipLen) :
    let u := uncompressHdrIphc cs pb datalen lladdr dest base buf ipLen
    u.packetbufHdrLen = base + (compressHdrIphc cs lladdr dest ip P.bytes.length).1.length ∧
      u.uncompHdrLen = P.hdrLen ∧ u.buf.read 0 P.hdrLen = restoredHeaders cs ip P := by
  intro u
  rcases h.parts with ⟨_, _, _, _, _, _, _, _, hhdrs, hend⟩
  rcases h.chain with ⟨hchain, hread⟩
  have hiph : iphLen = 40 := rfl
  have hsize : packetbufSize = 128 := rfl
  have hle := P.hdrLen_le
  have h40 := P.iphLen_le
  have hlen := P.len
  have hsmall := h.small
  have hshort := le_length_compressHdrs hchain P.bytes.length 0 hread (by omega)
  have hdrop : (P.bytes.drop iphLen).length = P.bytes.length - iphLen := List.length_drop
  have hptr : (startWalk cs lladdr dest ip buf base).hc06Ptr +
      (compressHdrs ip P.bytes.length (ip 6) 0).1.length =
        base + (compressHdrIphc cs lladdr dest ip P.bytes.length).1.length := by
    rw [Nat.add_comm base, hend]
    rfl
  have hlengths := h.lengths
  -- A whole packet has its length from the frame, a first fragment from the fragmentation header.
  have hwalk : ipLen = 0 ∧ datalen = (startWalk cs lladdr dest ip buf base).hc06Ptr +
        (compressHdrs ip P.bytes.length (ip 6) 0).1.length +
          ((P.bytes.drop iphLen).length - (P.hdrLen - iphLen)) ∨
      ipLen = iphLen + 0 + (P.bytes.drop iphLen).length := by
    omega
  -- The walk over the headers copies them one behind the other.
  rcases uncompress_compressHdrs hchain P.bytes.length packetbufSize 0
    (startWalk cs lladdr dest ip buf base) hread (by omega) hhdrs (by omega) rfl startWalk_named
    (by simp only [startWalk]; omega) rfl (by simp only [startWalk]; omega) (by omega) hwalk
    with ⟨w', hrun, hw'⟩
  cases hloop : uncompressExtHdrs pb packetbufSize (startWalk cs lladdr dest ip buf base) with
  | error w₀ =>
    rw [hloop] at hrun
    cases hrun
  | ok w₀ =>
    rw [hloop] at hrun
    have hw₀ : uncompressUdp pb datalen ipLen w₀ = w' := Except.ok.inj hrun
    have hptr' : w'.hc06Ptr = base + (compressHdrIphc cs lladdr dest ip P.bytes.length).1.length := by
      rw [hw'.hc06Ptr, hptr]
    have huncomp : w'.uncompHdrLen = P.hdrLen := by
      rw [hw'.uncompHdrLen]
      simp only [startWalk]
      omega
    have hmod : w'.hc06Ptr % 256 = w'.hc06Ptr := Nat.mod_eq_of_lt (by omega)
    -- The length is written last, and is that of the packet again.
    have hipLen : be16 (if ipLen = 0 then datalen + 65536 - w'.hc06Ptr + w'.uncompHdrLen - iphLen
        else ipLen + 65536 - iphLen) = [ip 4, ip 5] := by
      have h4 := u8_of_read h.packet (by omega : 4 < P.bytes.length)
      have h5 := u8_of_read h.packet (by omega : 5 < P.bytes.length)
      rw [h4, h5] at hlen
      have hvalue : (if ipLen = 0 then datalen + 65536 - w'.hc06Ptr + w'.uncompHdrLen - iphLen
          else ipLen + 65536 - iphLen) = 65536 + word (ip 5) (ip 4) := by
        rcases hlengths with ⟨hzero, hdata⟩ | hfrag
        · rw [if_pos hzero]
          omega
        · rw [if_neg (by omega)]
          omega
      rw [hvalue, be16_add, be16_word]
    have hu : u = ⟨w'.buf.write 4 [ip 4, ip 5], w'.hc06Ptr, w'.uncompHdrLen⟩ := by
      simp only [u, h.start, uncompressNext, hloop, hw₀, hmod, hipLen]
    rw [hu]
    refine ⟨hptr', huncomp, ?_⟩
    -- Behind the IP header stand the bytes of the packet.
    have hcopied : w'.buf.read 40 (P.hdrLen - iphLen) = ip.read 40 (P.hdrLen - iphLen) := by
      have hpkt : ip.read 40 (P.hdrLen - iphLen) =
          (P.bytes.drop iphLen).take (P.hdrLen - iphLen) := by
        rw [← hread]
        exact (read_slice (a := 0) (by omega)).symm
      exact hw'.copied.trans hpkt.symm
    have hn : P.hdrLen = 40 + (P.hdrLen - iphLen) := by omega
    have h24 : P.hdrLen - 24 = 16 + (P.hdrLen - iphLen) := by omega
    unfold restoredHeaders
    rw [h24]
    exact (congrArg (Memory.read _ 0) hn).trans (read_header (length_restoredSource cs ip)
      (length_inlineProto ip) rfl hw'.named hw'.unchanged hcopied)

/-! ## The frame of a whole packet -/

/-- The compressed packet fits the frame. -/
def FitsFrame (cs : AddrContexts) (lladdr dest : Linkaddr) (maxPayload : ℕ) (ip : Memory)
    (P : Packet) : Prop :=
  (compressHdrIphc cs lladdr dest ip P.bytes.length).1.length + (P.bytes.length - P.hdrLen) ≤
    maxPayload

/-- The frame of a packet. -/
def frameOf (cs : AddrContexts) (lladdr dest : Linkaddr) (ip : Memory) (P : Packet) : List UInt8 :=
  (compressHdrIphc cs lladdr dest ip P.bytes.length).1 ++ P.bytes.drop P.hdrLen

variable {maxPayload : ℕ}

/-- The frame carries the packet. -/
theorem carries_frameOf (pb : Memory) (hip : ip.read 0 P.bytes.length = P.bytes)
    (hmax : maxPayload ≤ macMaxPayload) (hfit : FitsFrame cs lladdr dest maxPayload ip P) :
    Carries cs lladdr dest ip (pb.write 0 (frameOf cs lladdr dest ip P)) P 0
      (frameOf cs lladdr dest ip P).length 0 := by
  have hmac : macMaxPayload = 125 := rfl
  have hsize : packetbufSize = 128 := rfl
  have hread := read_write_self pb 0 (frameOf cs lladdr dest ip P)
  refine ⟨hip, (read_append_inj hread).1, ?_, .inl ⟨rfl, ?_⟩⟩
  · unfold FitsFrame at hfit
    omega
  · rw [frameOf, List.length_append, List.length_drop]
    omega

/-- The headers of a packet that fits one frame are short. -/
theorem hdrLen_lt (hip : ip.read 0 P.bytes.length = P.bytes) (hmax : maxPayload ≤ macMaxPayload)
    (hfit : FitsFrame cs lladdr dest maxPayload ip P) :
    P.hdrLen < 256 ∧ (compressHdrIphc cs lladdr dest ip P.bytes.length).1.length < 256 := by
  have hcarries := carries_frameOf (fun _ => 0) hip hmax hfit
  rcases hcarries.chain with ⟨hchain, hread⟩
  rcases hcarries.parts with ⟨_, _, _, _, _, _, _, _, _, hend⟩
  have hle := P.hdrLen_le
  have h40 := P.iphLen_le
  have hshort := le_length_compressHdrs hchain P.bytes.length 0 hread (by omega)
  have hmac : macMaxPayload = 125 := rfl
  have hiph : iphLen = 40 := rfl
  unfold FitsFrame at hfit
  omega

/-- `output` sends the frame of the packet. -/
theorem outputPlain_eq (hip : ip.read 0 P.bytes.length = P.bytes)
    (hmax : maxPayload ≤ macMaxPayload) (hfit : FitsFrame cs lladdr dest maxPayload ip P) :
    outputPlain cs lladdr dest maxPayload ip P.bytes.length =
      some (frameOf cs lladdr dest ip P) := by
  rcases hdrLen_lt hip hmax hfit with ⟨huncomp, hhdr⟩
  have hcarries := carries_frameOf (fun _ => 0) hip hmax hfit
  have hle := P.hdrLen_le
  have hpayload : ip.read P.hdrLen (P.bytes.length - P.hdrLen) = P.bytes.drop P.hdrLen := by
    have hslice := read_slice (m := ip) (p := 0) (n := P.bytes.length) (a := P.hdrLen)
      (b := P.bytes.length - P.hdrLen) (by omega)
    rw [hip, Nat.zero_add, List.take_of_length_le (by simp)] at hslice
    exact hslice.symm
  unfold FitsFrame at hfit
  unfold outputPlain
  dsimp only
  rw [hcarries.hdrLen_eq, Nat.mod_eq_of_lt huncomp, Nat.mod_eq_of_lt hhdr, if_neg (by omega),
    List.take_length, hpayload, frameOf]

/-- What arrives is the packet with the restored source. -/
theorem inputPlain_frameOf {uipBufSize : ℕ} (pb uipBuf : Memory)
    (hip : ip.read 0 P.bytes.length = P.bytes) (hmax : maxPayload ≤ macMaxPayload)
    (hfit : FitsFrame cs lladdr dest maxPayload ip P) (hbuf : P.bytes.length ≤ uipBufSize) :
    isFragment (u8 (frameOf cs lladdr dest ip P) 0) = false ∧
      ∃ uip, inputPlain cs (pb.write 0 (frameOf cs lladdr dest ip P))
          (frameOf cs lladdr dest ip P).length lladdr dest uipBufSize uipBuf =
            some (uip, P.bytes.length) ∧
        uip.read 0 P.bytes.length = restoredHeaders cs ip P ++ P.bytes.drop P.hdrLen := by
  have hcarries := carries_frameOf pb hip hmax hfit
  have hle := P.hdrLen_le
  have hread := read_write_self pb 0 (frameOf cs lladdr dest ip P)
  have hsplit := (read_append_inj hread).2
  rcases @uncompressHdrIphc_compressHdrIphc ip _ uipBuf cs lladdr _ 0 P dest 0 hcarries with
    ⟨hhdr, huncomp, hheaders⟩
  rcases hcarries.parts with ⟨h0, _⟩
  rcases iphc0_bits _ (compressTf_bits ip) _ (compressNh_bits ip) _ (compressTtl_bits ip) with
    ⟨_, _, _, _, hdispatch, hfrag, hpage⟩
  have hlength : (frameOf cs lladdr dest ip P).length =
      (compressHdrIphc cs lladdr dest ip P.bytes.length).1.length +
        (P.bytes.length - P.hdrLen) := by
    rw [frameOf, List.length_append, List.length_drop]
  have hpos : 2 ≤ (frameOf cs lladdr dest ip P).length := by
    rw [hlength]
    simp only [compressHdrIphc, List.length_append, List.length_cons]
    omega
  have hzero : u8 (frameOf cs lladdr dest ip P) 0 =
      (pb.write 0 (frameOf cs lladdr dest ip P)) 0 := u8_of_read hread (by omega)
  rw [← h0] at hdispatch hfrag hpage
  refine ⟨hzero ▸ hfrag, ?_⟩
  -- Nothing of the header compression looks like a paging dispatch.
  have hheadersIn : inputHeaders cs (pb.write 0 (frameOf cs lladdr dest ip P))
      (frameOf cs lladdr dest ip P).length lladdr dest 0 uipBuf 0 =
        some (uncompressHdrIphc cs (pb.write 0 (frameOf cs lladdr dest ip P))
          (frameOf cs lladdr dest ip P).length lladdr dest 0 uipBuf 0) := by
    have hnot : ((pb.write 0 (frameOf cs lladdr dest ip P)) 0 &&& 0xf0 == 0xf0) = false := by
      simpa using hpage
    unfold inputHeaders
    simp only [hnot, Bool.false_eq_true, false_and, if_false, hdispatch, if_true]
  -- What is left of the frame behind its headers is the payload of the packet.
  have hpayload : (frameOf cs lladdr dest ip P).length -
      (compressHdrIphc cs lladdr dest ip P.bytes.length).1.length =
        (P.bytes.drop P.hdrLen).length := by
    rw [hlength, List.length_drop]
    omega
  have htotal : (P.bytes.drop P.hdrLen).length + P.hdrLen = P.bytes.length := by
    rw [List.length_drop]
    omega
  rw [Nat.zero_add] at hhdr hsplit
  refine ⟨(uncompressHdrIphc cs (pb.write 0 (frameOf cs lladdr dest ip P))
    (frameOf cs lladdr dest ip P).length lladdr dest 0 uipBuf 0).buf.write P.hdrLen
      (P.bytes.drop P.hdrLen), ?_, ?_⟩
  · unfold inputPlain
    rw [if_neg (by omega), hheadersIn, Option.bind_some, hhdr, if_neg (by omega)]
    dsimp only
    rw [hpayload, huncomp, if_neg (by omega), hsplit, htotal]
  · have hself := read_write_self (uncompressHdrIphc cs (pb.write 0 (frameOf cs lladdr dest ip P))
      (frameOf cs lladdr dest ip P).length lladdr dest 0 uipBuf 0).buf P.hdrLen
        (P.bytes.drop P.hdrLen)
    have hsum : P.bytes.length = P.hdrLen + (P.bytes.drop P.hdrLen).length := by omega
    rw [hsum, read_append, Nat.zero_add, hself, read_write_below (by omega), hheaders]

/-- The headers of the packet itself. -/
theorem packet_eq (hip : ip.read 0 P.bytes.length = P.bytes) :
    P.bytes = ip.read 0 8 ++ (srcipaddr ip ++ ip.read 24 (P.hdrLen - 24)) ++
      P.bytes.drop P.hdrLen := by
  have hle := P.hdrLen_le
  have h40 := P.iphLen_le
  have hiph : iphLen = 40 := rfl
  have htake : P.bytes.take P.hdrLen = ip.read 0 P.hdrLen := by
    have hslice := read_slice (m := ip) (p := 0) (n := P.bytes.length) (a := 0) (b := P.hdrLen)
      (by omega)
    rwa [hip] at hslice
  have hsum : P.hdrLen = 8 + (16 + (P.hdrLen - 24)) := by omega
  have hhead : ip.read 0 P.hdrLen =
      ip.read 0 8 ++ (srcipaddr ip ++ ip.read 24 (P.hdrLen - 24)) := by
    rw [srcipaddr, ← read_append ip 8, ← read_append ip 0]
    exact congrArg (ip.read 0) hsum
  rw [← hhead, ← htake, List.take_append_drop]

/-- A packet that fits one frame arrives byte for byte where its source is not one that the
receiver rewrites: link-local with other words than zero behind the prefix, sent under no
context to a destination whose words there are zero. -/
theorem roundTrip_iff (cs : AddrContexts) (P : Packet) (lladdr dest : Linkaddr)
    (maxPayload uipBufSize : ℕ) (ip pb uipBuf : Memory)
    (hip : ip.read 0 P.bytes.length = P.bytes) (hmax : maxPayload ≤ macMaxPayload)
    (hfit : FitsFrame cs lladdr dest maxPayload ip P) (hbuf : P.bytes.length ≤ uipBufSize) :
    (∃ frame uip, outputPlain cs lladdr dest maxPayload ip P.bytes.length = some frame ∧
      isFragment (u8 frame 0) = false ∧
      inputPlain cs (pb.write 0 frame) frame.length lladdr dest uipBufSize uipBuf =
        some (uip, P.bytes.length) ∧
      uip.read 0 P.bytes.length = P.bytes) ↔ ¬ SourceRewritten cs ip := by
  have hout := outputPlain_eq hip hmax hfit
  rcases inputPlain_frameOf pb uipBuf hip hmax hfit hbuf with ⟨hfrag, uip, hin, hread⟩
  rw [← restoredSource_eq_iff]
  constructor
  · rintro ⟨frame, uip', hout', _, hin', hbytes⟩
    obtain rfl : frameOf cs lladdr dest ip P = frame := Option.some.inj (hout.symm.trans hout')
    rw [hin, Option.some.injEq, Prod.mk.injEq] at hin'
    rw [← hin'.1] at hbytes
    have hdrop := List.append_cancel_right ((hread.symm.trans hbytes).trans (packet_eq hip))
    have hfirst := List.append_cancel_left hdrop
    exact (List.append_inj hfirst
      ((length_restoredSource cs ip).trans (length_srcipaddr ip).symm)).1
  · intro hrestored
    refine ⟨_, uip, hout, hfrag, hin, ?_⟩
    rw [hread, restoredHeaders, hrestored, ← packet_eq hip]

/-- No contexts. -/
def noContexts : AddrContexts := ⟨[], by simp, by simp⟩

/-- A packet without payload from fe80::2 in a subnet to ff02::1. -/
def nodesPacket (subnet : Fin 2) : Packet where
  bytes := [0x60, 0, 0, 0, 0, 0, 59, 64,
    0xfe, 0x80, 0, 0, 0, 0, 0, UInt8.ofNat subnet.val, 0, 0, 0, 0, 0, 0, 0, 2,
    0xff, 0x02, 0, 0, 0, 0, 0, 0, 0, 0, 0, 0, 0, 0, 0, 1]
  hdrLen := 40
  version := by revert subnet; decide
  len := rfl
  iphLen_le := le_refl _
  headers := .other rfl

/-- The packet in `uip_buf`. -/
def nodesBuf (subnet : Fin 2) : Memory := u8 (nodesPacket subnet).bytes

theorem read_nodesBuf : ∀ subnet : Fin 2,
    (nodesBuf subnet).read 0 (nodesPacket subnet).bytes.length = (nodesPacket subnet).bytes := by
  decide

theorem fitsFrame_nodesBuf : ∀ subnet : Fin 2,
    FitsFrame noContexts linkaddrNull linkaddrNull 100 (nodesBuf subnet) (nodesPacket subnet) := by
  unfold FitsFrame
  decide

/-- A context for the prefix aaaa::/64. -/
def oneContext : AddrContexts :=
  ⟨[⟨true, 0, [0xaa, 0xaa, 0, 0, 0, 0, 0, 0], rfl⟩], by decide, by simp⟩

/-- A packet from aaaa::1 to aaaa::2: a hop-by-hop header with padding, and four bytes over UDP. -/
def udpPacket : Packet where
  bytes := [0x60, 0, 0, 0, 0, 20, 0, 64,
    0xaa, 0xaa, 0, 0, 0, 0, 0, 0, 0, 0, 0, 0, 0, 0, 0, 1,
    0xaa, 0xaa, 0, 0, 0, 0, 0, 0, 0, 0, 0, 0, 0, 0, 0, 2,
    17, 0, 1, 4, 0, 0, 0, 0,
    0xf0, 0xb1, 0xf0, 0xb2, 0, 12, 0x12, 0x34, 1, 2, 3, 4]
  hdrLen := 56
  version := by decide
  len := rfl
  iphLen_le := by decide
  headers := @Headers.ext 0 17 0 [1, 4, 0, 0, 0, 0] _ 8 (by decide) rfl (by decide) (.udp rfl)

/-- It arrives as it was sent. -/
theorem roundTrip_iff_udpPacket :
    ∃ frame uip, outputPlain oneContext linkaddrNull linkaddrNull 100 (u8 udpPacket.bytes)
        udpPacket.bytes.length = some frame ∧ isFragment (u8 frame 0) = false ∧
      inputPlain oneContext (Memory.write (fun _ => 0) 0 frame) frame.length
        linkaddrNull linkaddrNull 1280 (fun _ => 0) = some (uip, udpPacket.bytes.length) ∧
      uip.read 0 udpPacket.bytes.length = udpPacket.bytes := by
  have hread : Memory.read (u8 udpPacket.bytes) 0 udpPacket.bytes.length = udpPacket.bytes := by
    decide
  have hfit : FitsFrame oneContext linkaddrNull linkaddrNull 100 (u8 udpPacket.bytes)
      udpPacket := by
    unfold FitsFrame
    decide
  have hsource : ¬ SourceRewritten oneContext (u8 udpPacket.bytes) := fun h => by
    revert h
    unfold SourceRewritten
    decide
  exact (roundTrip_iff oneContext udpPacket linkaddrNull linkaddrNull 100 1280
    (u8 udpPacket.bytes) (fun _ => 0) (fun _ => 0) hread (by decide) hfit (by decide)).mpr hsource

/-- The subnet in the source is lost: the test for it looks at the destination. -/
theorem nodesPacket_rewritten :
    ∃ frame uip, outputPlain noContexts linkaddrNull linkaddrNull 100 (nodesBuf 1)
        (nodesPacket 1).bytes.length = some frame ∧
      inputPlain noContexts (Memory.write (fun _ => 0) 0 frame) frame.length
        linkaddrNull linkaddrNull 1280 (fun _ => 0) = some (uip, (nodesPacket 1).bytes.length) ∧
      uip.read 0 (nodesPacket 1).bytes.length ≠ (nodesPacket 1).bytes := by
  rcases inputPlain_frameOf (fun _ => 0) (fun _ => 0) (read_nodesBuf 1) (by decide)
    (fitsFrame_nodesBuf 1) (by decide : (nodesPacket 1).bytes.length ≤ 1280) with
    ⟨_, uip, hin, hread⟩
  refine ⟨_, uip, outputPlain_eq (read_nodesBuf 1) (by decide) (fitsFrame_nodesBuf 1), hin, ?_⟩
  rw [hread]
  decide

end MasterScheduler.Mote.Sicslowpan

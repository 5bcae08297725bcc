import MasterScheduler.Mote.SicslowpanInput

/-!
# MasterScheduler.Mote.SicslowpanSafety — which frames `input` can hold

`input` follows the lengths in a frame before it compares anything with the length of the frame,
and all it compares later is the size of `uip_buf`. The frames that are safe all the same are
those whose parts lie one behind another in the frame and in the buffer.

1. **Layout**: how many bytes the parts of a compressed header take.
2. **What fits**: headers, fragments and frames.
3. **Headers**, **contexts**: each function, in both directions.
4. **Result**.
-/

namespace MasterScheduler.Mote.Sicslowpan

open Lib Traced Frame802154

/-! ## Layout -/

/-- The inline bytes of traffic class and flow label. -/
def tfLen (iphc0 : UInt8) : ℕ :=
  if iphc0 &&& iphcFlC = 0 then (if iphc0 &&& iphcTcC = 0 then 4 else 3)
  else if iphc0 &&& iphcTcC = 0 then 1 else 0

/-- The inline byte of the next header. -/
def nhLen (iphc0 : UInt8) : ℕ := if iphc0 &&& iphcNhC = 0 then 1 else 0

/-- The inline byte of the hop limit. -/
def ttlLen (iphc0 : UInt8) : ℕ := if iphc0 &&& 0x03 = 0 then 1 else 0

/-- The bytes in front of the addresses. -/
def fieldsLen (iphc0 : UInt8) : ℕ := tfLen iphc0 + nhLen iphc0 + ttlLen iphc0

/-- The inline bytes of an address, by its mode in one of the tables. -/
def addrLen (conf : List ℕ) (mode : UInt8) : ℕ :=
  if conf.getD mode.toNat 0 % 16 = 15 then 16 else conf.getD mode.toNat 0 % 16

/-- The mode of the source address. -/
def sam (iphc1 : UInt8) : UInt8 := ((iphc1 &&& iphcSam11) >>> iphcSamBit) &&& 0x03

/-- The mode of the destination address. -/
def dam (iphc1 : UInt8) : UInt8 := (iphc1 &&& iphcDam11) >>> iphcDamBit &&& 0x03

/-- The inline bytes of the source address. -/
def srcLen (iphc1 : UInt8) : ℕ :=
  addrLen (if iphc1 &&& iphcSac ≠ 0 then uncCtxconf else uncLlconf) (sam iphc1)

/-- The inline bytes of the destination address. -/
def destLen (iphc1 : UInt8) : ℕ :=
  if iphc1 &&& iphcM ≠ 0 then
    if iphc1 &&& iphcDac ≠ 0 then 0
    else (if dam iphc1 ≠ 0 ∧ (dam iphc1).toNat < 3 then 1 else 0) + addrLen uncMxconf (dam iphc1)
  else addrLen (if iphc1 &&& iphcDac ≠ 0 then uncCtxconf else uncLlconf) (dam iphc1)

/-- The bytes of an extension header in front of its content. -/
def extFixed (enc : UInt8) : ℕ := if enc &&& 0x01 = 0 then 3 else 2

/-- The length byte of the extension header at a position. -/
def extLen (pb : Memory) (p : ℕ) : ℕ := (pb (p + extFixed (pb p) - 1)).toNat

/-- What an extension header is counted as: its length in units of eight bytes is stored less one
in eight bits, which makes a short header a long one. -/
def extSize (len : ℕ) : ℕ := if len < 6 then 2048 else (2 + len) / 8 * 8

/-- The bytes of a UDP header: encoding, ports and checksum. -/
def udpBytes (pb : Memory) (p : ℕ) : ℕ :=
  (uncompressPorts pb p).2 + if pb p &&& nhcUdpChecksumC = 0 then 2 else 0

/-! ## What fits -/

/-- Some bytes are in the frame. -/
def Frame.Has (f : Frame) (p n : ℕ) : Prop := n = 0 ∨ p + n ≤ f.datalen

/-- The context of the source address is not known. -/
def SrcUnknown (env : Env) (f : Frame) (hdr : ℕ) : Prop :=
  f.pb (hdr + 1) &&& iphcSac ≠ 0 ∧ sam (f.pb (hdr + 1)) ≠ 0 ∧
    lookupByNumber env.contexts
      (if f.pb (hdr + 1) &&& iphcCid ≠ 0 then f.pb (hdr + 2) >>> 4 else 0) = none

/-- The context of the destination address is not known. -/
def DestUnknown (env : Env) (f : Frame) (hdr : ℕ) : Prop :=
  f.pb (hdr + 1) &&& iphcM = 0 ∧ f.pb (hdr + 1) &&& iphcDac ≠ 0 ∧
    lookupByNumber env.contexts
      (if f.pb (hdr + 1) &&& iphcCid ≠ 0 then f.pb (hdr + 2) &&& 0x0f else 0) = none

/-- The headers behind the IP header fit the frame and the buffer, from a position in each on. They
end somewhere in the frame and give some number of bytes, which has eight bits. -/
inductive NextHdrs (f : Frame) (t : Target) (hdr : ℕ) : Bool → ℕ → ℕ → ℕ → ℕ × ℕ → Prop
  | last {p q u : ℕ} : NextHdrs f t hdr false p q u (p, u)
  | ext {p q u : ℕ} {r : ℕ × ℕ} {proto : UInt8} : f.pb p &&& nhcMask = nhcExtHdr →
      protoOfEid ((f.pb p &&& 0x0e) >>> 1) = some proto →
      p + extFixed (f.pb p) + extLen f.pb p ≤ f.datalen →
      q + 2 + extLen f.pb p ≤ t.size →
      NextHdrs f t hdr (f.pb p &&& 0x01 ≠ 0) (p + extFixed (f.pb p) + extLen f.pb p)
        (q + extSize (extLen f.pb p)) ((u + extSize (extLen f.pb p)) % 256) r →
      NextHdrs f t hdr true p q u r
  | unknown {p q u : ℕ} : f.pb p &&& nhcMask = nhcExtHdr →
      protoOfEid ((f.pb p &&& 0x0e) >>> 1) = none → p + extFixed (f.pb p) ≤ f.datalen →
      NextHdrs f t hdr true p q u (hdr, u)
  | udp {p q u : ℕ} : f.pb p &&& nhcUdpMask = nhcUdpId → p + udpBytes f.pb p ≤ f.datalen →
      q + (if f.pb p &&& nhcUdpChecksumC = 0 then 8 else 6) ≤ t.size →
      NextHdrs f t hdr true p q u (p + udpBytes f.pb p, (u + 8) % 256)
  | other {p q u : ℕ} : f.pb p &&& nhcMask ≠ nhcExtHdr → f.pb p &&& nhcUdpMask ≠ nhcUdpId →
      p < f.datalen → NextHdrs f t hdr true p q u (p, u)

/-- The position behind the encoding bytes. -/
def fieldsPos (pb : Memory) (hdr : ℕ) : ℕ := hdr + if pb (hdr + 1) &&& iphcCid ≠ 0 then 3 else 2

/-- The position of the source address. -/
def srcPos (pb : Memory) (hdr : ℕ) : ℕ := fieldsPos pb hdr + fieldsLen (pb hdr)

/-- The position of the destination address. -/
def destPos (pb : Memory) (hdr : ℕ) : ℕ := srcPos pb hdr + srcLen (pb (hdr + 1))

/-- The position of the headers behind the IP header. -/
def nextPos (pb : Memory) (hdr : ℕ) : ℕ := destPos pb hdr + destLen (pb (hdr + 1))

/-- What comes before the source address is in the frame, and the byte with the context numbers
where the source address needs it. -/
def FieldsFit (f : Frame) (hdr : ℕ) : Prop :=
  hdr + 2 ≤ f.datalen ∧ f.Has (fieldsPos f.pb hdr) (fieldsLen (f.pb hdr)) ∧
    (f.pb (hdr + 1) &&& iphcSac ≠ 0 → f.pb (hdr + 1) &&& iphcCid ≠ 0 → hdr + 3 ≤ f.datalen)

/-- The source address is in the frame, and the byte with the context numbers where the destination
address needs it. -/
def SrcFits (f : Frame) (hdr : ℕ) : Prop :=
  f.Has (srcPos f.pb hdr) (srcLen (f.pb (hdr + 1))) ∧
    (f.pb (hdr + 1) &&& iphcM = 0 → f.pb (hdr + 1) &&& iphcDac ≠ 0 →
      f.pb (hdr + 1) &&& iphcCid ≠ 0 → hdr + 3 ≤ f.datalen)

/-- A compressed header fits the frame and the buffer. -/
inductive HdrIphc (env : Env) (f : Frame) (t : Target) (hdr : ℕ) : ℕ × ℕ → Prop
  | srcUnknown : FieldsFit f hdr → SrcUnknown env f hdr → HdrIphc env f t hdr (hdr, 0)
  | destUnknown : FieldsFit f hdr → ¬ SrcUnknown env f hdr → SrcFits f hdr →
      DestUnknown env f hdr → HdrIphc env f t hdr (hdr, 0)
  | known {r : ℕ × ℕ} : FieldsFit f hdr → ¬ SrcUnknown env f hdr → SrcFits f hdr →
      ¬ DestUnknown env f hdr → f.Has (destPos f.pb hdr) (destLen (f.pb (hdr + 1))) →
      NextHdrs f t hdr (f.pb hdr &&& iphcNhC ≠ 0) (nextPos f.pb hdr) iphLen iphLen r →
      HdrIphc env f t hdr r

/-- A paging dispatch stands at a position. -/
def Paged (pb : Memory) (hdr : ℕ) : Prop := pb hdr &&& 0xf0 = 0xf0

instance (pb : Memory) (hdr : ℕ) : Decidable (Paged pb hdr) := inferInstanceAs (Decidable (_ = _))

/-- The position of the dispatch byte. -/
def dispatchPos (pb : Memory) (hdr : ℕ) : ℕ := if Paged pb hdr then hdr + 1 else hdr

/-- The page is one that is not supported. -/
def UnknownPage (pb : Memory) (hdr : ℕ) : Prop := Paged pb hdr ∧ 1 < (pb hdr &&& 0x0f).toNat

instance (pb : Memory) (hdr : ℕ) : Decidable (UnknownPage pb hdr) := instDecidableAnd

/-- The headers of a datagram fit the frame and the buffer: nothing, or where they end in the frame
and how many bytes they give. -/
inductive HeadersFit (env : Env) (f : Frame) (t : Target) (hdr : ℕ) : Option (ℕ × ℕ) → Prop
  | page : hdr < f.datalen → UnknownPage f.pb hdr → HeadersFit env f t hdr none
  | iphc {r : ℕ × ℕ} : ¬ UnknownPage f.pb hdr →
      f.pb (dispatchPos f.pb hdr) &&& 0xe0 = dispatchIphc →
      HdrIphc env f t (dispatchPos f.pb hdr) r → HeadersFit env f t hdr (some r)
  | ipv6 : ¬ UnknownPage f.pb hdr → f.pb (dispatchPos f.pb hdr) = 0x41 →
      dispatchPos f.pb hdr + 1 + iphLen ≤ f.datalen →
      HeadersFit env f t hdr (some (dispatchPos f.pb hdr + 1 + iphLen, iphLen))
  | unknown : ¬ UnknownPage f.pb hdr → f.pb (dispatchPos f.pb hdr) &&& 0xe0 ≠ dispatchIphc →
      f.pb (dispatchPos f.pb hdr) ≠ 0x41 → dispatchPos f.pb hdr < f.datalen →
      HeadersFit env f t hdr none

/-- What is behind the headers fits the buffer. -/
def PayloadFits (f : Frame) (t : Target) (r : ℕ × ℕ) : Prop :=
  r.1 < f.datalen → r.2 + (f.datalen - r.1) ≤ t.size

section Fragments

variable {c b : ℕ}

/-- A first fragment finds a context. -/
def State.Open (s : State c b) (env : Env) : Prop :=
  ∃ i, (s.fragInfo i).len = 0 ∨ s.Expired env i

/-- The context that a fragment with offset 0 takes. -/
def State.firstOpen (s : State c b) (env : Env) : Option (Fin c) :=
  (List.finRange c).find? fun i => decide ((s.fragInfo i).len = 0 ∨ s.Expired env i)

/-- A later fragment with offset 0 makes the datagram complete whose context it takes: what the
context counted for the datagram before is enough. -/
def State.LeftCompletes (s : State c b) (f : Frame) (i : Fin c) : Prop :=
  0 < get16 f.pb 0 % 2048 ∧ get16 f.pb 0 % 2048 ≤ (s.fragInfo i).reassembledLen

/-- What is left in a context that is taken fits `uip_buf`. The fragments of a datagram whose time
is over are gone. -/
def State.LeftFits (s : State c b) (i : Fin c) : Prop :=
  (s.fragInfo i).firstFragLen ≤ uipBufferSize ∧ ((s.fragInfo i).len = 0 →
    ∀ j, s.Holds i j → 8 * (s.fragBuf j).offset.toNat + (s.fragBuf j).len ≤ uipBufferSize)

/-- A later fragment of a context finds a buffer. -/
def State.CanStore (s : State c b) (env : Env) (i : Fin c) : Prop :=
  (∃ j, (s.fragBuf j).len = 0) ∨ ∃ k ≠ i, s.Expired env k ∧ ∃ j, s.Holds k j

/-- A fragment makes a datagram complete. -/
def State.Completes (s : State c b) (f : Frame) (i : Fin c) : Prop :=
  5 < f.datalen ∧ 8 * (f.pb 4).toNat + (f.datalen - 5) ≤ uipBufferSize ∧
    0 < get16 f.pb 0 % 2048 ∧
    get16 f.pb 0 % 2048 ≤ ((s.fragInfo i).reassembledLen + (f.datalen - 5)) % 2 ^ 16

/-- What is stored of a datagram fits `uip_buf`. -/
def State.StoredFits (s : State c b) (i : Fin c) : Prop :=
  (s.fragInfo i).firstFragLen ≤ uipBufferSize ∧
    ∀ j, s.Holds i j → 8 * (s.fragBuf j).offset.toNat + (s.fragBuf j).len ≤ uipBufferSize

/-- A first fragment fits. -/
def FirstFits (env : Env) (f : Frame) (s : State c b) : Prop :=
  4 ≤ f.datalen ∧ (s.Open env →
    ∃ r, HeadersFit env f .firstFrag 4 r ∧ ∀ r' ∈ r, PayloadFits f .firstFrag r')

/-- A later fragment fits. With offset 0 it is not stored, and takes a context. -/
def NextFits (env : Env) (f : Frame) (s : State c b) : Prop :=
  5 ≤ f.datalen ∧
    (f.pb 4 = 0 → ∀ i ∈ s.firstOpen env, s.LeftCompletes f i → s.LeftFits i) ∧
    (f.pb 4 ≠ 0 → ∀ i ∈ s.findContext f (get16 f.pb 2), s.CanStore env i →
      f.datalen - 5 ≤ fragmentSize ∧ (s.Completes f i → s.StoredFits i))

/-- A frame fits the frame buffer and the buffers it goes to. -/
def InputFits (env : Env) (f : Frame) (s : State c b) : Prop :=
  2 ≤ f.datalen ∧ (f.IsFirst → FirstFits env f s) ∧ (f.IsNext → NextFits env f s) ∧
    (¬ f.IsFirst → ¬ f.IsNext → ∃ r, HeadersFit env f .uipBuf 0 r)

end Fragments

/-! ## Headers -/

section Positions

variable {pb buf : Memory} {p hdr : ℕ} {iphc0 iphc1 : UInt8} {env : Env} {f : Frame}

/-- Traffic class and flow label take the bytes that the first byte of the header says. -/
theorem uncompressTf_snd : (uncompressTf pb iphc0 p).2 = p + tfLen iphc0 := by
  unfold uncompressTf tfLen
  split_ifs <;> rfl

/-- An inline next header takes a byte. -/
theorem uncompressNh_snd : (uncompressNh pb iphc0 buf p).2 = p + nhLen iphc0 := by
  unfold uncompressNh nhLen
  split_ifs <;> rfl

/-- An inline hop limit takes a byte. -/
theorem uncompressTtl_snd : (uncompressTtl pb iphc0 p).2 = p + ttlLen iphc0 := by
  unfold uncompressTtl ttlLen
  by_cases h : iphc0 &&& 0x03 = 0 <;> simp [h]

/-- An address takes the bytes that its mode says. -/
theorem uncompressAddr_snd {conf : List ℕ} {mode : UInt8} {prefixBytes : List UInt8}
    {lladdr : Linkaddr} :
    (uncompressAddr pb p prefixBytes (conf.getD mode.toNat 0) lladdr).2 = p + addrLen conf mode := by
  unfold uncompressAddr addrLen
  dsimp only
  split_ifs <;> first | rfl | omega

/-- The source is not decompressed exactly when its context is not known. -/
theorem uncompressSrc_none_iff :
    uncompressSrc env.contexts f.pb hdr (f.pb (hdr + 1)) f.sender p = none ↔ SrcUnknown env f hdr := by
  unfold uncompressSrc SrcUnknown sam
  dsimp only
  by_cases hsac : f.pb (hdr + 1) &&& iphcSac ≠ 0
  · rw [if_pos hsac]
    by_cases hmode : (f.pb (hdr + 1) &&& iphcSam11) >>> iphcSamBit &&& 3 ≠ 0
    · rw [if_pos hmode]
      simp only [Option.map_eq_none_iff, hsac, hmode, ne_eq, not_false_eq_true, true_and]
    · rw [if_neg hmode]
      simp [hmode]
  · rw [if_neg hsac]
    simp [hsac]

/-- The source takes the bytes that its mode says. -/
theorem uncompressSrc_snd {r : List UInt8 × ℕ}
    (h : uncompressSrc env.contexts f.pb hdr (f.pb (hdr + 1)) f.sender p = some r) :
    r.2 = p + srcLen (f.pb (hdr + 1)) := by
  unfold uncompressSrc at h
  unfold srcLen
  dsimp only at h
  by_cases hsac : f.pb (hdr + 1) &&& iphcSac ≠ 0
  · rw [if_pos hsac] at h ⊢
    by_cases hmode : (f.pb (hdr + 1) &&& iphcSam11) >>> iphcSamBit &&& 3 ≠ 0
    · rw [if_pos hmode] at h
      obtain ⟨context, _, rfl⟩ := Option.map_eq_some_iff.mp h
      exact uncompressAddr_snd
    · rw [if_neg hmode] at h
      obtain rfl := Option.some.inj h
      exact uncompressAddr_snd
  · rw [if_neg hsac] at h ⊢
    obtain rfl := Option.some.inj h
    exact uncompressAddr_snd

variable (buf) in
/-- The destination is not decompressed exactly when its context is not known. -/
theorem uncompressDest_none_iff :
    uncompressDest env.contexts f.pb hdr (f.pb (hdr + 1)) f.receiver buf p = none ↔
      DestUnknown env f hdr := by
  unfold uncompressDest DestUnknown
  dsimp only
  by_cases hm : f.pb (hdr + 1) &&& iphcM ≠ 0
  · rw [if_pos hm]
    simp only [show ¬ f.pb (hdr + 1) &&& iphcM = 0 from hm, false_and, iff_false]
    by_cases hdac : f.pb (hdr + 1) &&& iphcDac ≠ 0
    · rw [if_pos hdac]
      exact Option.some_ne_none _
    · rw [if_neg hdac]
      split_ifs <;> exact not_false
  · rw [if_neg hm]
    simp only [not_not.mp hm, true_and]
    by_cases hdac : f.pb (hdr + 1) &&& iphcDac ≠ 0
    · rw [if_pos hdac]
      simp only [Option.map_eq_none_iff, hdac, ne_eq, not_false_eq_true, true_and]
    · rw [if_neg hdac]
      simp [hdac]

/-- The destination takes the bytes that its mode says. -/
theorem uncompressDest_snd {r : List UInt8 × ℕ}
    (h : uncompressDest env.contexts f.pb hdr (f.pb (hdr + 1)) f.receiver buf p = some r) :
    r.2 = p + destLen (f.pb (hdr + 1)) := by
  unfold uncompressDest at h
  unfold destLen dam
  dsimp only at h
  by_cases hm : f.pb (hdr + 1) &&& iphcM ≠ 0
  · rw [if_pos hm] at h ⊢
    by_cases hdac : f.pb (hdr + 1) &&& iphcDac ≠ 0
    · rw [if_pos hdac] at h ⊢
      obtain rfl := Option.some.inj h
      rfl
    · rw [if_neg hdac] at h ⊢
      by_cases hmode : (f.pb (hdr + 1) &&& iphcDam11) >>> iphcDamBit &&& 3 ≠ 0 ∧
          ((f.pb (hdr + 1) &&& iphcDam11) >>> iphcDamBit &&& 3).toNat < 3
      · rw [if_pos hmode] at h ⊢
        obtain rfl := Option.some.inj h
        rw [← Nat.add_assoc]
        exact uncompressAddr_snd
      · rw [if_neg hmode] at h ⊢
        obtain rfl := Option.some.inj h
        rw [Nat.zero_add]
        exact uncompressAddr_snd
  · rw [if_neg hm] at h ⊢
    by_cases hdac : f.pb (hdr + 1) &&& iphcDac ≠ 0
    · rw [if_pos hdac] at h ⊢
      obtain ⟨context, _, rfl⟩ := Option.map_eq_some_iff.mp h
      exact uncompressAddr_snd
    · rw [if_neg hdac] at h ⊢
      obtain rfl := Option.some.inj h
      exact uncompressAddr_snd

/-- The length of an extension header as the decompression counts it. -/
theorem extSize_eq (len : UInt8) :
    ((UInt8.ofNat ((2 + len.toNat) / 8 + 255)).toNat + 1) * 8 = extSize len.toNat := by
  have := len.toNat_lt
  unfold extSize
  rw [UInt8.toNat_ofNat']
  split_ifs <;> omega

variable {w w' : HdrWalk}

/-- An extension header with an unknown encoding ends the walk and adds nothing. -/
theorem uncompressExtHdr_error
    (h : protoOfEid ((pb w.hc06Ptr &&& 0x0e) >>> 1) = none) :
    ∃ w', uncompressExtHdr pb w = .error w' ∧ w'.uncompHdrLen = w.uncompHdrLen := by
  unfold uncompressExtHdr
  dsimp only
  rw [h]
  exact ⟨_, rfl, rfl⟩

/-- What an extension header changes of the walk. -/
structure ExtStep (pb : Memory) (w w' : HdrWalk) : Prop where
  hc06Ptr : w'.hc06Ptr = w.hc06Ptr + extFixed (pb w.hc06Ptr) + extLen pb w.hc06Ptr
  lastNextheader : w'.lastNextheader = w.ipPayload
  ipPayload : w'.ipPayload = w.ipPayload + extSize (extLen pb w.hc06Ptr)
  uncompHdrLen : w'.uncompHdrLen = (w.uncompHdrLen + extSize (extLen pb w.hc06Ptr)) % 256
  nhc : w'.nhc = decide (pb w.hc06Ptr &&& 0x01 ≠ 0)

/-- A known extension header is one step of the walk. -/
theorem uncompressExtHdr_ok {proto : UInt8}
    (h : protoOfEid ((pb w.hc06Ptr &&& 0x0e) >>> 1) = some proto) :
    ∃ w', uncompressExtHdr pb w = .ok w' ∧ ExtStep pb w w' := by
  unfold uncompressExtHdr
  dsimp only
  rw [h]
  refine ⟨_, rfl, ?_, rfl, ?_, ?_, rfl⟩
  · simp only [extFixed, extLen]
    split_ifs <;> rfl
  · simp only [extSize_eq, extFixed, extLen]
    split_ifs <;> rfl
  · simp only [extSize_eq, extFixed, extLen]
    split_ifs <;> rfl

variable (pb) in
/-- The ports and the byte that encodes them take two to five bytes. -/
theorem uncompressPorts_snd : 2 ≤ (uncompressPorts pb p).2 ∧ (uncompressPorts pb p).2 ≤ 5 := by
  unfold uncompressPorts
  dsimp only
  split_ifs <;> exact ⟨Nat.le_of_ble_eq_true rfl, Nat.le_of_ble_eq_true rfl⟩

end Positions

/-! Every function touches what lies in the frame and the buffer just when the parts do. -/

section Touch

variable {env : Env} {f : Frame} {t : Target} {hdr n p p' q : ℕ} {buf : Memory} {w w' : HdrWalk}

/-- Both buffers have room for the headers that are always written. -/
theorem le_size (t : Target) : 148 ≤ t.size := by cases t <;> decide

theorem fine_read : Fine (Access.Ok f.datalen) (touch (.read p n)) ↔ f.Has p n := fine_touch

theorem fine_write :
    Fine (Access.Ok f.datalen) (touch (.write t p n)) ↔ n = 0 ∨ p + n ≤ t.size := fine_touch

/-- Bytes that are read inline lie inside the frame. -/
theorem fine_touchInline :
    Fine (Access.Ok f.datalen) (touchInline p (p + n)) ↔ f.Has p n := by
  rw [touchInline, fine_read, Nat.add_sub_cancel_left]

/-- A write into the IP header is inside every buffer. -/
theorem fine_write_header (h : p + n ≤ iphLen) :
    Fine (Access.Ok f.datalen) (touch (.write t p n)) := by
  have hsize := le_size t
  have hlen : iphLen = 40 := rfl
  rw [fine_write]
  omega

/-- An extension header. -/
theorem fine_touchExtHdr (hlast : w.lastNextheader < t.size) {proto : UInt8}
    (h : protoOfEid ((f.pb w.hc06Ptr &&& 0x0e) >>> 1) = some proto) :
    Fine (Access.Ok f.datalen) (touchExtHdr f.pb t w) ↔
      w.hc06Ptr + extFixed (f.pb w.hc06Ptr) + extLen f.pb w.hc06Ptr ≤ f.datalen ∧
        w.ipPayload + 2 + extLen f.pb w.hc06Ptr ≤ t.size := by
  unfold touchExtHdr
  dsimp only
  rw [h]
  simp only [fine_bind_unit, fine_read, fine_write, touchInline, Frame.Has]
  unfold extLen extFixed
  split_ifs
  · simp only [Nat.add_succ_sub_one, Nat.add_sub_cancel_left, false_or]
    omega
  · simp only [Nat.add_succ_sub_one, Nat.add_sub_cancel_left, false_or]
    omega

/-- Of an extension header with an unknown encoding, only the fixed part is read. -/
theorem fine_touchExtHdr_unknown (h : protoOfEid ((f.pb w.hc06Ptr &&& 0x0e) >>> 1) = none) :
    Fine (Access.Ok f.datalen) (touchExtHdr f.pb t w) ↔
      w.hc06Ptr + extFixed (f.pb w.hc06Ptr) ≤ f.datalen := by
  unfold touchExtHdr
  dsimp only
  rw [h]
  simp only [fine_bind_unit, fine_read, touchInline, Frame.Has, fine_pure, and_true]
  unfold extFixed
  split_ifs
  · simp only [Nat.add_sub_cancel_left, false_or]
    omega
  · simp only [Nat.add_sub_cancel_left, false_or]
    omega

/-- What a UDP header needs of the frame and of the buffer. -/
theorem fine_touchUdp (hlast : w.lastNextheader < t.size) (hnhc : w.nhc = true)
    (hudp : f.pb w.hc06Ptr &&& nhcUdpMask = nhcUdpId) :
    Fine (Access.Ok f.datalen) (touchUdp f.pb t w) ↔
      w.hc06Ptr + udpBytes f.pb w.hc06Ptr ≤ f.datalen ∧
        w.ipPayload + (if f.pb w.hc06Ptr &&& nhcUdpChecksumC = 0 then 8 else 6) ≤ t.size := by
  have hports := (uncompressPorts_snd f.pb (p := w.hc06Ptr)).1
  unfold touchUdp udpBytes
  rw [if_pos hnhc, fine_bind_unit, if_pos hudp]
  simp only [fine_bind_unit, fine_read, fine_write, touchInline, Frame.Has,
    Nat.add_sub_cancel_left]
  split_ifs
  · simp only [fine_bind_unit, fine_read, fine_write, Frame.Has, OfNat.ofNat_ne_zero, false_or]
    omega
  · simp only [fine_write, OfNat.ofNat_ne_zero, false_or]
    omega

/-- Behind other encodings than UDP nothing is read but the encoding. -/
theorem fine_touchUdp_other (hnhc : w.nhc = true)
    (hudp : f.pb w.hc06Ptr &&& nhcUdpMask ≠ nhcUdpId) :
    Fine (Access.Ok f.datalen) (touchUdp f.pb t w) ↔ w.hc06Ptr < f.datalen := by
  unfold touchUdp
  rw [if_pos hnhc, fine_bind_unit, if_neg hudp, fine_read, Frame.Has]
  simp only [fine_pure, and_true]
  omega

/-- What comes after the extension headers. -/
def touchRest (f : Frame) (t : Target) (n : ℕ) (w : HdrWalk) : Traced Access Unit :=
  match uncompressExtHdrs f.pb n w with
  | .error _ => pure ()
  | .ok w => do
    touchUdp f.pb t w
    touch (.write t 4 2)

theorem fine_write_len (t : Target) : Fine (Access.Ok f.datalen) (touch (.write t 4 2)) :=
  fine_write_header (by decide)

/-- An extension header is not a UDP header. -/
theorem udp_ne_of_ext {enc : UInt8} (h : enc &&& nhcMask = nhcExtHdr) :
    enc &&& nhcUdpMask ≠ nhcUdpId := by
  intro hudp
  have hboth : (enc &&& nhcUdpMask) &&& nhcMask = nhcUdpId &&& nhcMask := by rw [hudp]
  rw [UInt8.and_assoc, show nhcUdpMask &&& nhcMask = nhcMask from rfl, h] at hboth
  exact absurd hboth (by decide)

/-- Behind extension headers that are all known, UDP is left. -/
theorem fine_touchRest_ok (h : uncompressExtHdrs f.pb n w = .ok w') :
    Fine (Access.Ok f.datalen) (touchRest f t n w) ↔
      Fine (Access.Ok f.datalen) (touchUdp f.pb t w') := by
  simp only [touchRest, h, fine_bind_unit, fine_write_len, and_true]

/-- A next header lies inside the frame. -/
theorem NextHdrs.lt {u : ℕ} {r : ℕ × ℕ} (h : NextHdrs f t hdr true p q u r) : p < f.datalen := by
  have hfixed : 0 < extFixed (f.pb p) := by
    unfold extFixed
    split_ifs <;> decide
  have hports := (uncompressPorts_snd f.pb (p := p)).1
  cases h with
  | ext _ _ hfits => omega
  | unknown _ _ hfits => omega
  | udp _ hfits =>
    unfold udpBytes at hfits
    omega
  | other _ _ hlt => exact hlt

variable (hdr) in
/-- No header is compressed: the walk is over. -/
theorem fine_next_last (hnhc : w.nhc = false) :
    (Fine (Access.Ok f.datalen) (touchExtHdrs f.pb t n w) ∧
        Fine (Access.Ok f.datalen) (touchRest f t n w)) ∧
      ∃ r, NextHdrs f t hdr w.nhc w.hc06Ptr w.ipPayload w.uncompHdrLen r := by
  have hno : ¬ w.nhc = true := by simp [hnhc]
  have hexts : touchExtHdrs f.pb t n w = pure () := by
    cases n with
    | zero => rfl
    | succ n => rw [touchExtHdrs, if_neg hno]
  have hok : uncompressExtHdrs f.pb n w = .ok w := by
    cases n with
    | zero => rfl
    | succ n => rw [uncompressExtHdrs, if_neg fun h => hno h.1]
  have hudp : touchUdp f.pb t w = pure () := by rw [touchUdp, if_neg hno]
  rw [hexts, fine_touchRest_ok hok, hudp, hnhc]
  exact ⟨⟨fine_pure, fine_pure⟩, _, .last⟩

/-- A compressed header that is no extension header. -/
theorem fine_next_udp (hlast : w.lastNextheader < t.size) (hnhc : w.nhc = true)
    (hext : f.pb w.hc06Ptr &&& nhcMask ≠ nhcExtHdr) :
    (w.hc06Ptr < f.datalen ∧ Fine (Access.Ok f.datalen) (touchUdp f.pb t w)) ↔
      ∃ r, NextHdrs f t hdr w.nhc w.hc06Ptr w.ipPayload w.uncompHdrLen r := by
  rw [hnhc]
  by_cases hudp : f.pb w.hc06Ptr &&& nhcUdpMask = nhcUdpId
  · rw [fine_touchUdp hlast hnhc hudp]
    constructor
    · rintro ⟨_, hfits, hsize⟩
      exact ⟨_, .udp hudp hfits hsize⟩
    · rintro ⟨r, h⟩
      refine ⟨h.lt, ?_⟩
      cases h with
      | ext hext' => exact absurd hext' hext
      | unknown hext' => exact absurd hext' hext
      | udp _ hfits hsize => exact ⟨hfits, hsize⟩
      | other _ hne => exact absurd hudp hne
  · rw [fine_touchUdp_other hnhc hudp]
    constructor
    · rintro ⟨hlt, _⟩
      exact ⟨_, .other hext hudp hlt⟩
    · rintro ⟨r, h⟩
      exact ⟨h.lt, h.lt⟩

variable (hdr) in
/-- The headers behind the IP header, with enough rounds to leave the frame. -/
theorem fine_next : ∀ {n : ℕ} {w : HdrWalk}, f.datalen < w.hc06Ptr + 2 * n →
    w.lastNextheader < t.size →
    (Fine (Access.Ok f.datalen) (touchExtHdrs f.pb t n w) ∧
        Fine (Access.Ok f.datalen) (touchRest f t n w) ↔
      ∃ r, NextHdrs f t hdr w.nhc w.hc06Ptr w.ipPayload w.uncompHdrLen r) := by
  intro n
  -- On the fuel: each header takes two bytes at least, so it lasts.
  induction n with
  | zero =>
    intro w hfuel hlast
    cases hnhc : w.nhc with
    | false =>
      obtain ⟨hfine, r, h⟩ := fine_next_last hdr (f := f) (t := t) (n := 0) hnhc
      rw [hnhc] at h
      exact ⟨fun _ => ⟨r, h⟩, fun _ => hfine⟩
    | true =>
      have hout : ¬ f.Has w.hc06Ptr 1 := by
        unfold Frame.Has
        omega
      constructor
      · rintro ⟨_, hrest⟩
        rw [fine_touchRest_ok rfl, touchUdp, if_pos hnhc, fine_bind_unit, fine_read] at hrest
        exact absurd hrest.1 hout
      · rintro ⟨r, h⟩
        have := h.lt
        omega
  | succ n ih =>
    intro w hfuel hlast
    by_cases hnhc : w.nhc = true
    · have hread : f.Has w.hc06Ptr 1 ↔ w.hc06Ptr < f.datalen := by
        unfold Frame.Has
        omega
      rw [touchExtHdrs, if_pos hnhc, fine_bind_unit, fine_read, hread]
      by_cases hext : f.pb w.hc06Ptr &&& nhcMask = nhcExtHdr
      · rw [if_pos hext, fine_bind_unit]
        cases hproto : protoOfEid ((f.pb w.hc06Ptr &&& 0x0e) >>> 1) with
        | none =>
          obtain ⟨w', herror, _⟩ := uncompressExtHdr_error (w := w) hproto
          have hrest : touchRest f t (n + 1) w = pure () := by
            rw [touchRest, uncompressExtHdrs, if_pos ⟨hnhc, hext⟩, herror]
            rfl
          rw [fine_touchExtHdr_unknown hproto, herror, hrest, hnhc]
          simp only [fine_pure, and_true]
          constructor
          · rintro ⟨_, hfits⟩
            exact ⟨_, .unknown hext hproto hfits⟩
          · rintro ⟨r, h⟩
            refine ⟨h.lt, ?_⟩
            cases h with
            | ext _ hsome => cases hproto.symm.trans hsome
            | unknown _ _ hfits => exact hfits
            | udp hudp => exact absurd hudp (udp_ne_of_ext hext)
            | other hne => exact absurd hext hne
        | some proto =>
          obtain ⟨w', hok, hstep⟩ := uncompressExtHdr_ok (w := w) hproto
          have hrest : touchRest f t (n + 1) w = touchRest f t n w' := by
            rw [touchRest, uncompressExtHdrs, if_pos ⟨hnhc, hext⟩, hok]
            rfl
          have hfixed : 2 ≤ extFixed (f.pb w.hc06Ptr) := by
            unfold extFixed
            split_ifs <;> decide
          rw [fine_touchExtHdr hlast hproto, hok, hrest, hnhc]
          constructor
          · rintro ⟨⟨_, ⟨hfits, hsize⟩, hexts⟩, hrest⟩
            obtain ⟨r, h⟩ := (ih (by rw [hstep.hc06Ptr]; omega)
              (by rw [hstep.lastNextheader]; omega)).mp ⟨hexts, hrest⟩
            rw [hstep.nhc, hstep.hc06Ptr, hstep.ipPayload, hstep.uncompHdrLen] at h
            exact ⟨r, .ext hext hproto hfits hsize h⟩
          · rintro ⟨r, h⟩
            have hlt := h.lt
            cases h with
            | ext _ _ hfits hsize h =>
              rw [← hstep.nhc, ← hstep.hc06Ptr, ← hstep.ipPayload, ← hstep.uncompHdrLen] at h
              obtain ⟨hexts, hrest⟩ := (ih (by rw [hstep.hc06Ptr]; omega)
                (by rw [hstep.lastNextheader]; omega)).mpr ⟨r, h⟩
              exact ⟨⟨hlt, ⟨hfits, hsize⟩, hexts⟩, hrest⟩
            | unknown _ hnone => cases hproto.symm.trans hnone
            | udp hudp => exact absurd hudp (udp_ne_of_ext hext)
            | other hne => exact absurd hext hne
      · have hok : uncompressExtHdrs f.pb (n + 1) w = .ok w := by
          rw [uncompressExtHdrs, if_neg fun h => hext h.2]
        rw [if_neg hext, fine_touchRest_ok hok, ← fine_next_udp hlast hnhc hext]
        simp only [fine_pure, and_true]
    · have hnhc := Bool.not_eq_true _ ▸ hnhc
      obtain ⟨hfine, h⟩ := fine_next_last hdr (f := f) (t := t) (n := n + 1) hnhc
      exact ⟨fun _ => h, fun _ => hfine⟩

/-- The two header lengths. -/
def Uncompressed.lengths (u : Uncompressed) : ℕ × ℕ := (u.packetbufHdrLen, u.uncompHdrLen)

/-- UDP moves the position by what it read and the length by 8. -/
theorem uncompressUdp_lengths (datalen ipLen : ℕ) (hnhc : w.nhc = true)
    (hudp : f.pb w.hc06Ptr &&& nhcUdpMask = nhcUdpId) :
    (uncompressUdp f.pb datalen ipLen w).hc06Ptr = w.hc06Ptr + udpBytes f.pb w.hc06Ptr ∧
      (uncompressUdp f.pb datalen ipLen w).uncompHdrLen = (w.uncompHdrLen + 8) % 256 := by
  unfold uncompressUdp udpBytes
  rw [if_pos ⟨hnhc, hudp⟩]
  by_cases helided : f.pb w.hc06Ptr &&& nhcUdpChecksumC = 0
  · simp [helided, udphLen, Nat.add_assoc]
  · simp [helided, udphLen]

/-- The two header lengths at the end of a walk with some rounds left. -/
def walkLengths (f : Frame) (ipLen hdr n : ℕ) (w : HdrWalk) : ℕ × ℕ :=
  match uncompressExtHdrs f.pb n w with
  | .error w => (hdr, w.uncompHdrLen)
  | .ok w =>
    ((uncompressUdp f.pb f.datalen ipLen w).hc06Ptr % 256,
      (uncompressUdp f.pb f.datalen ipLen w).uncompHdrLen)

variable {ipLen : ℕ}

/-- The lengths behind all next headers are those of the walk. -/
theorem uncompressNext_lengths :
    (uncompressNext f.pb f.datalen ipLen hdr w).lengths = walkLengths f ipLen hdr packetbufSize w := by
  unfold uncompressNext walkLengths
  cases uncompressExtHdrs f.pb packetbufSize w <;> rfl

/-- The lengths of a walk that reaches UDP or the end. -/
theorem walkLengths_ok (h : uncompressExtHdrs f.pb n w = .ok w') :
    walkLengths f ipLen hdr n w = ((uncompressUdp f.pb f.datalen ipLen w').hc06Ptr % 256,
      (uncompressUdp f.pb f.datalen ipLen w').uncompHdrLen) := by
  rw [walkLengths, h]

/-- The lengths that the decompression ends with are those of the headers. -/
theorem NextHdrs.lengths {u : ℕ} {nhc : Bool} {r : ℕ × ℕ} (h : NextHdrs f t hdr nhc p q u r) :
    ∀ {n : ℕ} {w : HdrWalk}, w.nhc = nhc → w.hc06Ptr = p → w.uncompHdrLen = u →
    f.datalen < p + 2 * n → p < 256 → walkLengths f ipLen hdr n w = r := by
  have hdatalen : f.datalen ≤ 128 := f.datalen_le
  -- One case for each kind of next header.
  induction h with
  | last =>
    rintro n w hnhc rfl rfl _ hlt
    have hno : ¬ w.nhc = true := by simp [hnhc]
    have hok : uncompressExtHdrs f.pb n w = .ok w := by
      cases n with
      | zero => rfl
      | succ n => rw [uncompressExtHdrs, if_neg fun h => hno h.1]
    rw [walkLengths_ok hok, uncompressUdp, if_neg fun h => hno h.1, Nat.mod_eq_of_lt hlt]
  | ext hext hproto hfits _ _ ih =>
    rintro n w hnhc rfl rfl hfuel hlt
    obtain ⟨w', hok, hstep⟩ := uncompressExtHdr_ok (w := w) hproto
    have hfixed : 2 ≤ extFixed (f.pb w.hc06Ptr) := by
      unfold extFixed
      split_ifs <;> decide
    cases n with
    | zero => omega
    | succ n =>
      rw [walkLengths, uncompressExtHdrs, if_pos ⟨hnhc, hext⟩, hok]
      exact ih hstep.nhc hstep.hc06Ptr hstep.uncompHdrLen (by omega) (by omega)
  | unknown hext hproto hfits =>
    rintro n w hnhc rfl rfl hfuel hlt
    obtain ⟨w', herror, hsame⟩ := uncompressExtHdr_error (w := w) hproto
    have hfixed : 2 ≤ extFixed (f.pb w.hc06Ptr) := by
      unfold extFixed
      split_ifs <;> decide
    cases n with
    | zero => omega
    | succ n =>
      rw [walkLengths, uncompressExtHdrs, if_pos ⟨hnhc, hext⟩, herror]
      exact Prod.ext rfl hsame
  | udp hudp hfits =>
    rintro n w hnhc rfl rfl hfuel hlt
    have hok : uncompressExtHdrs f.pb n w = .ok w := by
      cases n with
      | zero => rfl
      | succ n => rw [uncompressExtHdrs, if_neg fun h => udp_ne_of_ext h.2 hudp]
    obtain ⟨hptr, hlen⟩ := uncompressUdp_lengths f.datalen ipLen hnhc hudp
    rw [walkLengths_ok hok, hptr, hlen, Nat.mod_eq_of_lt (by omega)]
  | other hext hudp hfits =>
    rintro n w hnhc rfl rfl hfuel hlt
    have hok : uncompressExtHdrs f.pb n w = .ok w := by
      cases n with
      | zero => rfl
      | succ n => rw [uncompressExtHdrs, if_neg fun h => hext h.2]
    rw [walkLengths_ok hok, uncompressUdp, if_neg fun h => hudp h.2, Nat.mod_eq_of_lt hlt]

/-- Both lengths have eight bits. -/
theorem NextHdrs.snd_lt {u : ℕ} {nhc : Bool} {r : ℕ × ℕ} (h : NextHdrs f t hdr nhc p q u r)
    (hu : u < 256) : r.2 < 256 := by
  induction h with
  | last => exact hu
  | ext _ _ _ _ _ ih => exact ih (Nat.mod_lt _ (by decide))
  | unknown => exact hu
  | udp => exact Nat.mod_lt _ (by decide)
  | other => exact hu

/-- The three inline fields lie in the frame together or not at all. -/
theorem has_fields :
    f.Has p (tfLen (f.pb hdr)) ∧ f.Has (p + tfLen (f.pb hdr)) (nhLen (f.pb hdr)) ∧
        f.Has (p + tfLen (f.pb hdr) + nhLen (f.pb hdr)) (ttlLen (f.pb hdr)) ↔
      f.Has p (fieldsLen (f.pb hdr)) := by
  unfold Frame.Has fieldsLen
  omega

theorem nhLen_le (iphc0 : UInt8) : nhLen iphc0 ≤ 1 := by
  unfold nhLen
  split_ifs <;> decide

/-- The bytes in front of the source address. -/
theorem fine_touchFields :
    Fine (Access.Ok f.datalen) (touchFields f.pb t hdr buf) ↔
      f.Has hdr 2 ∧ f.Has (fieldsPos f.pb hdr) (fieldsLen (f.pb hdr)) := by
  have hnh := nhLen_le (f.pb hdr)
  unfold touchFields
  simp only [fine_bind_unit, uncompressTf_snd, uncompressNh_snd, uncompressTtl_snd,
    fine_touchInline, fine_read, Nat.add_sub_cancel_left]
  rw [← has_fields]
  have htf : Fine (Access.Ok f.datalen) (touch (.write t 0 4)) := fine_write_header (by decide)
  have hnext : Fine (Access.Ok f.datalen) (touch (.write t 6 (nhLen (f.pb hdr)))) :=
    fine_write_header (by unfold iphLen; omega)
  have httl : Fine (Access.Ok f.datalen) (touch (.write t 7 1)) := fine_write_header (by decide)
  simp only [htf, hnext, httl, true_and, and_true, fieldsPos]

/-- Behind the inline fields is the source. -/
theorem uncompressFields_snd : (uncompressFields f.pb hdr buf).2 = srcPos f.pb hdr := by
  unfold uncompressFields srcPos fieldsPos fieldsLen
  simp only [uncompressTf_snd, uncompressNh_snd, uncompressTtl_snd, Nat.add_assoc]

/-- A byte that is read under some condition. -/
theorem has_if {c : Prop} [Decidable c] : f.Has p (if c then 1 else 0) ↔ (c → p + 1 ≤ f.datalen) := by
  unfold Frame.Has
  by_cases h : c <;> simp [h]

/-- What the destination and all that follows it need. -/
theorem fine_touchDest :
    Fine (Access.Ok f.datalen) (touchDest env f t hdr buf (destPos f.pb hdr)) ↔
      (f.pb (hdr + 1) &&& iphcM = 0 → f.pb (hdr + 1) &&& iphcDac ≠ 0 →
          f.pb (hdr + 1) &&& iphcCid ≠ 0 → hdr + 3 ≤ f.datalen) ∧
        (¬ DestUnknown env f hdr → f.Has (destPos f.pb hdr) (destLen (f.pb (hdr + 1))) ∧
          ∃ r, NextHdrs f t hdr (f.pb hdr &&& iphcNhC ≠ 0) (nextPos f.pb hdr) iphLen iphLen r) := by
  unfold touchDest
  dsimp only
  rw [fine_bind_unit, fine_read, has_if, and_imp, and_imp]
  refine and_congr Iff.rfl ?_
  -- A destination is known, or it lacks its context.
  cases hdest : uncompressDest env.contexts f.pb hdr (f.pb (hdr + 1)) f.receiver buf
    (destPos f.pb hdr) with
  | none =>
    have hunknown := (uncompressDest_none_iff _).mp hdest
    simp [hunknown]
  | some dest =>
    have hknown : ¬ DestUnknown env f hdr := fun h => by
      rw [(uncompressDest_none_iff _).mpr h] at hdest
      cases hdest
    have hend : dest.2 = nextPos f.pb hdr := uncompressDest_snd hdest
    have hwrite : Fine (Access.Ok f.datalen) (touch (.write t 24
        (if f.pb (hdr + 1) &&& iphcM ≠ 0 ∧ f.pb (hdr + 1) &&& iphcDac ≠ 0 then 0 else 16))) := by
      apply fine_write_header
      unfold iphLen
      split_ifs <;> omega
    have hfuel : f.datalen < (firstHdr f.pb hdr buf dest).hc06Ptr + 2 * packetbufSize := by
      have := f.datalen_le
      unfold packetbufSize at *
      omega
    have hlast : (firstHdr f.pb hdr buf dest).lastNextheader < t.size :=
      Nat.lt_of_lt_of_le (by decide : 6 < 148) (le_size t)
    have hnext := fine_next hdr hfuel hlast
    simp only [fine_bind_unit, hwrite, true_and, hknown, not_false_eq_true, forall_const]
    rw [hend, nextPos, fine_touchInline]
    refine and_congr Iff.rfl ?_
    rw [touchNext, fine_bind_unit]
    refine Iff.trans hnext ?_
    rw [firstHdr, hend]
    rfl

/-- The whole header is safe exactly when the lengths of a result are allowed. -/
theorem fine_touchHdrIphc :
    Fine (Access.Ok f.datalen) (touchHdrIphc env f t hdr buf) ↔ ∃ r, HdrIphc env f t hdr r := by
  unfold touchHdrIphc
  rw [fine_bind_unit, fine_touchFields]
  have hpos : (uncompressFields f.pb hdr buf).2 = srcPos f.pb hdr := uncompressFields_snd
  generalize uncompressFields f.pb hdr buf = fields at hpos ⊢
  obtain ⟨buf, p⟩ := fields
  obtain rfl : p = srcPos f.pb hdr := hpos
  dsimp only
  rw [fine_bind_unit, fine_read, has_if, and_imp]
  have hfields : FieldsFit f hdr ↔ (f.Has hdr 2 ∧ f.Has (fieldsPos f.pb hdr) (fieldsLen (f.pb hdr))) ∧
      (f.pb (hdr + 1) &&& iphcSac ≠ 0 → f.pb (hdr + 1) &&& iphcCid ≠ 0 →
        hdr + 2 + 1 ≤ f.datalen) := by
    have henc : f.Has hdr 2 ↔ hdr + 2 ≤ f.datalen := by
      unfold Frame.Has
      omega
    rw [FieldsFit, henc, and_assoc]
  rw [← and_assoc, ← hfields]
  -- The source comes first; without its context the rest is not read.
  cases hsrc : uncompressSrc env.contexts f.pb hdr (f.pb (hdr + 1)) f.sender (srcPos f.pb hdr) with
  | none =>
    have hunknown := uncompressSrc_none_iff.mp hsrc
    simp only [fine_pure, and_true]
    constructor
    · exact fun h => ⟨_, .srcUnknown h hunknown⟩
    · rintro ⟨r, h⟩
      cases h <;> assumption
  | some src =>
    have hknown : ¬ SrcUnknown env f hdr := fun h => by
      rw [uncompressSrc_none_iff.mpr h] at hsrc
      cases hsrc
    have hwrite : Fine (Access.Ok f.datalen) (touch (.write t 8 16)) :=
      fine_write_header (by decide)
    simp only [fine_bind_unit, hwrite, true_and]
    rw [uncompressSrc_snd hsrc, fine_touchInline, ← destPos, fine_touchDest]
    constructor
    · rintro ⟨hfit, hsrcHas, hcid, hrest⟩
      by_cases hdest : DestUnknown env f hdr
      · exact ⟨_, .destUnknown hfit hknown ⟨hsrcHas, hcid⟩ hdest⟩
      · obtain ⟨hdestHas, r, hnext⟩ := hrest hdest
        exact ⟨r, .known hfit hknown ⟨hsrcHas, hcid⟩ hdest hdestHas hnext⟩
    · rintro ⟨r, h⟩
      cases h with
      | srcUnknown _ hunknown => exact absurd hunknown hknown
      | destUnknown hfit _ hsrcFits hunknown =>
        exact ⟨hfit, hsrcFits.1, hsrcFits.2, fun h => absurd hunknown h⟩
      | known hfit _ hsrcFits _ hdestHas hnext =>
        exact ⟨hfit, hsrcFits.1, hsrcFits.2, fun _ => ⟨hdestHas, r, hnext⟩⟩

theorem addrLen_le (conf : List ℕ) (mode : UInt8) : addrLen conf mode ≤ 16 := by
  unfold addrLen
  split_ifs <;> omega

/-- The next headers begin at most 42 bytes behind the header. -/
theorem nextPos_le (pb : Memory) (hdr : ℕ) : nextPos pb hdr ≤ hdr + 42 := by
  have hfields : fieldsLen (pb hdr) ≤ 6 := by
    unfold fieldsLen tfLen nhLen ttlLen
    split_ifs <;> omega
  have hpos : fieldsPos pb hdr ≤ hdr + 3 := by
    unfold fieldsPos
    split_ifs <;> omega
  have hsrc : srcLen (pb (hdr + 1)) ≤ 16 := addrLen_le _ _
  have hdest : destLen (pb (hdr + 1)) ≤ 17 := by
    have hmulti := addrLen_le uncMxconf (dam (pb (hdr + 1)))
    have hmode := addrLen_le (if pb (hdr + 1) &&& iphcDac ≠ 0 then uncCtxconf else uncLlconf)
      (dam (pb (hdr + 1)))
    unfold destLen
    split_ifs at hmode ⊢ <;> omega
  unfold nextPos destPos srcPos
  omega

variable {ipLen : ℕ}

variable (buf ipLen) in
/-- A header with an unknown source context leaves nothing uncompressed. -/
theorem uncompressHdrIphc_srcUnknown (h : SrcUnknown env f hdr) :
    (uncompressHdrIphc env.contexts f.pb f.datalen f.sender f.receiver hdr buf ipLen).lengths =
      (hdr, 0) := by
  have hnone := uncompressSrc_none_iff (p := (uncompressFields f.pb hdr buf).2) |>.mpr h
  unfold uncompressHdrIphc
  dsimp only
  split
  case h_1 => rfl
  case h_2 src hsrc => cases hnone.symm.trans hsrc

variable (buf ipLen) in
/-- The lengths where the context of the source address is known. -/
theorem uncompressHdrIphc_known (h : ¬ SrcUnknown env f hdr) :
    ∃ buf', (uncompressHdrIphc env.contexts f.pb f.datalen f.sender f.receiver hdr buf ipLen) =
      match uncompressDest env.contexts f.pb hdr (f.pb (hdr + 1)) f.receiver buf'
        (destPos f.pb hdr) with
      | none => ⟨buf', hdr, 0⟩
      | some dest => uncompressNext f.pb f.datalen ipLen hdr (firstHdr f.pb hdr buf' dest) := by
  obtain ⟨src, hsrc⟩ := Option.ne_none_iff_exists'.mp fun hnone =>
    h (uncompressSrc_none_iff (p := (uncompressFields f.pb hdr buf).2) |>.mp hnone)
  have hpos : src.2 = destPos f.pb hdr := by
    rw [uncompressSrc_snd hsrc, uncompressFields_snd]
    rfl
  refine ⟨(uncompressFields f.pb hdr buf).1.write 8 src.1, ?_⟩
  rw [← hpos]
  change (match uncompressSrc env.contexts f.pb hdr (f.pb (hdr + 1)) f.sender
    (uncompressFields f.pb hdr buf).2 with | none => _ | some src => _) = _
  rw [hsrc]
  rfl

/-- The lengths that the decompression of a header ends with. -/
theorem HdrIphc.lengths {r : ℕ × ℕ} (h : HdrIphc env f t hdr r) (hhdr : hdr ≤ 5) :
    (uncompressHdrIphc env.contexts f.pb f.datalen f.sender f.receiver hdr buf ipLen).lengths = r := by
  cases h with
  | srcUnknown _ hunknown => exact uncompressHdrIphc_srcUnknown _ _ hunknown
  | destUnknown _ hknown _ hunknown =>
    obtain ⟨buf', heq⟩ := uncompressHdrIphc_known buf ipLen hknown
    rw [heq, (uncompressDest_none_iff _).mpr hunknown]
    rfl
  | known _ hknown _ hdest _ hnext =>
    obtain ⟨buf', heq⟩ := uncompressHdrIphc_known buf ipLen hknown
    obtain ⟨dest, hsome⟩ := Option.ne_none_iff_exists'.mp fun hnone =>
      hdest (uncompressDest_none_iff buf' (p := destPos f.pb hdr) |>.mp hnone)
    have hpos : dest.2 = nextPos f.pb hdr := uncompressDest_snd hsome
    have hle := nextPos_le f.pb hdr
    have hdatalen := f.datalen_le
    rw [heq, hsome]
    change (uncompressNext f.pb f.datalen ipLen hdr (firstHdr f.pb hdr buf' dest)).lengths = r
    rw [uncompressNext_lengths]
    refine hnext.lengths rfl hpos rfl ?_ (by omega)
    unfold packetbufSize at *
    omega

/-- The uncompressed length is kept in a byte. -/
theorem HdrIphc.snd_lt {r : ℕ × ℕ} (h : HdrIphc env f t hdr r) : r.2 < 256 := by
  cases h with
  | srcUnknown => exact Nat.zero_lt_succ _
  | destUnknown => exact Nat.zero_lt_succ _
  | known _ _ _ _ _ hnext => exact hnext.snd_lt (by decide)

theorem paged_eq : (f.pb hdr &&& 0xf0 == 0xf0) = decide (Paged f.pb hdr) := rfl

/-- The dispatch is the first byte, or the one behind a paging dispatch. -/
theorem le_dispatchPos : hdr ≤ dispatchPos f.pb hdr ∧ dispatchPos f.pb hdr ≤ hdr + 1 := by
  unfold dispatchPos
  split_ifs <;> omega

/-- The two dispatches exclude each other. -/
theorem iphc_ne_ipv6 {v : UInt8} (h : v = 0x41) : v &&& 0xe0 ≠ dispatchIphc := by
  rw [h]
  decide

theorem has_one : f.Has p 1 ↔ p < f.datalen := by
  unfold Frame.Has
  omega

variable (buf) in
/-- The headers of a datagram. -/
theorem fine_touchHeaders :
    Fine (Access.Ok f.datalen) (touchHeaders env f t hdr buf) ↔ ∃ r, HeadersFit env f t hdr r := by
  have hle : hdr ≤ dispatchPos f.pb hdr := le_dispatchPos.1
  unfold touchHeaders
  rw [fine_bind_unit, fine_read, has_one]
  have hpos : (if Paged f.pb hdr then hdr + 1 else hdr) = dispatchPos f.pb hdr := rfl
  simp only [paged_eq, decide_eq_true_eq, hpos]
  -- The dispatch bytes are read in order, and each may end the input.
  by_cases hpage : Paged f.pb hdr ∧ 1 < (f.pb hdr &&& 0x0f).toNat
  · rw [if_pos hpage]
    simp only [fine_pure, and_true]
    constructor
    · exact fun hlt => ⟨_, .page hlt hpage⟩
    · rintro ⟨r, h⟩
      cases h with
      | page hlt => exact hlt
      | iphc hno => exact absurd hpage hno
      | ipv6 hno => exact absurd hpage hno
      | unknown hno => exact absurd hpage hno
  · rw [if_neg hpage, fine_bind_unit, fine_read, has_one]
    by_cases hiphc : f.pb (dispatchPos f.pb hdr) &&& 0xe0 = dispatchIphc
    · rw [if_pos hiphc, fine_touchHdrIphc]
      constructor
      · rintro ⟨_, _, r, h⟩
        exact ⟨_, .iphc hpage hiphc h⟩
      · rintro ⟨r, h⟩
        cases h with
        | page _ hyes => exact absurd hyes hpage
        | iphc _ _ h =>
          have hlen : dispatchPos f.pb hdr + 2 ≤ f.datalen := by
            cases h with
            | srcUnknown hfit => exact hfit.1
            | destUnknown hfit => exact hfit.1
            | known hfit => exact hfit.1
          exact ⟨by omega, by omega, _, h⟩
        | ipv6 _ hipv6 => exact absurd hiphc (iphc_ne_ipv6 hipv6)
        | unknown _ hno => exact absurd hiphc hno
    · rw [if_neg hiphc]
      by_cases hipv6 : f.pb (dispatchPos f.pb hdr) = 0x41
      · have hwrite : Fine (Access.Ok f.datalen) (touch (.write t 0 iphLen)) :=
          fine_write_header (by decide)
        have hhas : f.Has (dispatchPos f.pb hdr + 1) iphLen ↔
            dispatchPos f.pb hdr + 1 + iphLen ≤ f.datalen := by
          unfold Frame.Has iphLen
          omega
        rw [if_pos hipv6, fine_bind_unit, fine_read, hhas]
        simp only [hwrite, and_true]
        constructor
        · rintro ⟨_, _, hfits⟩
          exact ⟨_, .ipv6 hpage hipv6 hfits⟩
        · rintro ⟨r, h⟩
          cases h with
          | page _ hyes => exact absurd hyes hpage
          | iphc _ hyes => exact absurd hyes hiphc
          | ipv6 _ _ hfits => exact ⟨by omega, by omega, hfits⟩
          | unknown _ _ hno => exact absurd hipv6 hno
      · rw [if_neg hipv6]
        simp only [fine_pure, and_true]
        constructor
        · rintro ⟨_, hlt⟩
          exact ⟨_, .unknown hpage hiphc hipv6 hlt⟩
        · rintro ⟨r, h⟩
          cases h with
          | page _ hyes => exact absurd hyes hpage
          | iphc _ hyes => exact absurd hyes hiphc
          | ipv6 _ hyes => exact absurd hyes hipv6
          | unknown _ _ _ hlt => exact ⟨by omega, hlt⟩

/-- The headers in front of the payload, by their dispatch. -/
theorem inputHeaders_eq :
    inputHeaders env.contexts f.pb f.datalen f.sender f.receiver hdr buf ipLen =
      if UnknownPage f.pb hdr then none
      else if f.pb (dispatchPos f.pb hdr) &&& 0xe0 = dispatchIphc then
        some (uncompressHdrIphc env.contexts f.pb f.datalen f.sender f.receiver
          (dispatchPos f.pb hdr) buf ipLen)
      else if f.pb (dispatchPos f.pb hdr) = 0x41 then
        some ⟨buf.write 0 (f.pb.read (dispatchPos f.pb hdr + 1) iphLen),
          dispatchPos f.pb hdr + 1 + iphLen, iphLen⟩
      else none := by
  unfold inputHeaders
  simp only [paged_eq, decide_eq_true_eq]
  rfl

variable (buf ipLen) in
/-- The lengths that the headers end with. -/
theorem HeadersFit.lengths {r : Option (ℕ × ℕ)} (h : HeadersFit env f t hdr r) (hhdr : hdr ≤ 4) :
    (inputHeaders env.contexts f.pb f.datalen f.sender f.receiver hdr buf ipLen).map
      Uncompressed.lengths = r := by
  have hle : dispatchPos f.pb hdr ≤ hdr + 1 := le_dispatchPos.2
  rw [inputHeaders_eq]
  cases h with
  | page _ hpage =>
    rw [if_pos hpage]
    rfl
  | iphc hpage hiphc h =>
    rw [if_neg hpage, if_pos hiphc, Option.map_some, h.lengths (by omega)]
  | ipv6 hpage hipv6 =>
    rw [if_neg hpage, if_neg (iphc_ne_ipv6 hipv6), if_pos hipv6]
    rfl
  | unknown hpage hiphc hipv6 =>
    rw [if_neg hpage, if_neg hiphc, if_neg hipv6]
    rfl

/-- The uncompressed length of a frame that fits is kept in a byte. -/
theorem HeadersFit.snd_lt {r : ℕ × ℕ} (h : HeadersFit env f t hdr (some r)) : r.2 < 256 := by
  cases h with
  | iphc _ _ h => exact h.snd_lt
  | ipv6 => exact (by decide : iphLen < 256)

/-- The payload is copied safely exactly when it fits behind the headers. -/
theorem fine_copyPayload {u : Uncompressed} (hlt : u.uncompHdrLen < 256) :
    Fine (Access.Ok f.datalen) (copyPayload f t u) ↔ PayloadFits f t u.lengths := by
  have hdatalen : f.datalen ≤ 128 := f.datalen_le
  unfold copyPayload PayloadFits Uncompressed.lengths
  dsimp only
  by_cases hshort : f.datalen < u.packetbufHdrLen
  · rw [if_pos hshort]
    simp only [fine_pure, true_iff]
    omega
  · have hroom : ¬ uipBufferSize < u.uncompHdrLen + (f.datalen - u.packetbufHdrLen) := by
      unfold uipBufferSize
      omega
    rw [if_neg hshort, if_neg hroom, fine_bind_unit, fine_bind_unit, fine_read, fine_write,
      Frame.Has]
    simp only [fine_pure, and_true]
    omega

/-- The headers, and a rest that copies the payload. -/
theorem fine_readHeaders_bind {α : Type} {rest : Option Uncompressed → Traced Access α}
    (hhdr : hdr ≤ 4) (hnone : Fine (Access.Ok f.datalen) (rest none))
    (hsome : ∀ u : Uncompressed, u.uncompHdrLen < 256 →
      (Fine (Access.Ok f.datalen) (rest (some u)) ↔ PayloadFits f t u.lengths)) :
    Fine (Access.Ok f.datalen) (readHeaders env f t hdr buf ipLen >>= rest) ↔
      ∃ r, HeadersFit env f t hdr r ∧ ∀ r' ∈ r, PayloadFits f t r' := by
  -- What is touched does not depend on the buffer, so it can be split off.
  have hread : Fine (Access.Ok f.datalen) (readHeaders env f t hdr buf ipLen >>= rest) ↔
      (∃ r, HeadersFit env f t hdr r) ∧ Fine (Access.Ok f.datalen) (rest
        (inputHeaders env.contexts f.pb f.datalen f.sender f.receiver hdr buf ipLen)) := by
    rw [fine_bind, ← fine_touchHeaders buf]
    constructor
    · rintro ⟨a, ha, hrest⟩
      obtain ⟨u, hu, ha⟩ := ends_bind.mp ha
      obtain rfl := ends_pure.mp ha
      exact ⟨⟨u, hu⟩, hrest⟩
    · rintro ⟨⟨u, hu⟩, hrest⟩
      exact ⟨_, ends_bind.mpr ⟨u, hu, ends_pure.mpr rfl⟩, hrest⟩
  rw [hread]
  refine ⟨?_, ?_⟩
  · rintro ⟨⟨r, h⟩, hrest⟩
    refine ⟨r, h, ?_⟩
    rintro r' rfl
    obtain ⟨u, hu, hlen⟩ := Option.map_eq_some_iff.mp (h.lengths buf ipLen hhdr)
    have hlt : u.uncompHdrLen < 256 := by
      have := h.snd_lt
      rwa [← hlen] at this
    rw [hu, hsome u hlt, hlen] at hrest
    exact hrest
  · rintro ⟨r, h, hfits⟩
    refine ⟨⟨r, h⟩, ?_⟩
    cases r with
    | none =>
      rw [Option.map_eq_none_iff.mp (h.lengths buf ipLen hhdr)]
      exact hnone
    | some r' =>
      obtain ⟨u, hu, hlen⟩ :=
        Option.map_eq_some_iff.mp (h.lengths buf ipLen hhdr)
      have hlt : u.uncompHdrLen < 256 := by
        have := h.snd_lt
        rwa [← hlen] at this
      rw [hu, hsome u hlt, hlen]
      exact hfits r' rfl

end Touch

/-! ## Contexts -/

section Contexts

variable {c b : ℕ} {env : Env} {f : Frame} {s s' : State c b} {i k : Fin c} {j : Fin b}

/-- Clearing one context leaves the others. -/
theorem clearFragments_info_ne (h : k ≠ i) :
    (s.clearFragments i).fragInfo k = s.fragInfo k := by
  simp [State.clearFragments, h]

/-- A context that was cleared is free. -/
theorem clearFragments_info_len : ((s.clearFragments i).fragInfo i).len = 0 := by
  simp [State.clearFragments]

/-- Clearing one context leaves the fragments of the others. -/
theorem clearFragments_buf (h : ¬ s.Holds i j) :
    (s.clearFragments i).fragBuf j = s.fragBuf j := by
  simp [State.clearFragments, h]

/-- The buffers of a context that was cleared are free. -/
theorem clearFragments_buf_len (h : s.Holds i j) :
    ((s.clearFragments i).fragBuf j).len = 0 := by
  simp [State.clearFragments, h]

/-- A buffer belongs to one context. -/
theorem not_holds_of_holds (h : s.Holds k j) (hne : k ≠ i) : ¬ s.Holds i j :=
  fun h' => hne (Fin.ext (h.2.symm.trans h'.2))

/-- Clearing a context leaves the buffers of the others. -/
theorem holds_clearFragments (hne : k ≠ i) : (s.clearFragments i).Holds k j ↔ s.Holds k j := by
  by_cases h : s.Holds i j
  · have hlen := clearFragments_buf_len h
    constructor
    · rintro ⟨hpos, _⟩
      omega
    · exact fun hk => absurd hk (not_holds_of_holds h hne.symm)
  · unfold State.Holds
    rw [clearFragments_buf h]

/-- A context that cannot take a datagram. -/
def State.Busy (s : State c b) (env : Env) (i : Fin c) : Prop :=
  0 < (s.fragInfo i).len ∧ ¬ s.Expired env i

/-- A context that is in use is passed over. -/
theorem findFree_busy (h : s.Busy env i) : State.findFree env (s, none) i = (s, none) := by
  unfold State.findFree
  simp only [if_neg h.2, true_and]
  rw [if_neg h.1.ne']

/-- A context that is not in use is taken. -/
theorem findFree_not_busy (h : ¬ s.Busy env i) : (State.findFree env (s, none) i).2 = some i := by
  unfold State.findFree
  by_cases hexp : s.Expired env i
  · simp only [if_pos hexp, true_and]
    rw [if_pos clearFragments_info_len]
  · simp only [if_neg hexp, true_and]
    rw [if_pos (Nat.eq_zero_of_not_pos fun hpos => h ⟨hpos, hexp⟩)]

/-- Once a context was found the loop goes on without effect. -/
theorem findFree_found (env : Env) : ∀ (is : List (Fin c)) (r : State c b × Option (Fin c)),
    r.2 = some i → (is.foldl (State.findFree env) r).2 = some i := by
  intro is
  induction is with
  | nil => exact fun _ h => h
  | cons k is ih =>
    intro r h
    refine ih _ ?_
    simp [State.findFree, h]

/-- The loop for a first fragment finds no context just when all are busy, and then it changes
nothing. -/
theorem findFree_none : ∀ is : List (Fin c),
    ((∀ i ∈ is, s.Busy env i) → is.foldl (State.findFree env) (s, none) = (s, none)) ∧
      ((is.foldl (State.findFree env) (s, none)).2 = none → ∀ i ∈ is, s.Busy env i) := by
  intro is
  induction is with
  | nil => exact ⟨fun _ => rfl, fun _ i hi => nomatch hi⟩
  | cons k is ih =>
    rw [List.foldl_cons]
    by_cases hk : s.Busy env k
    · rw [findFree_busy hk]
      refine ⟨fun h => ih.1 fun i hi => h i (List.mem_cons_of_mem k hi), fun h i hi => ?_⟩
      rcases List.mem_cons.mp hi with rfl | hi
      · exact hk
      · exact ih.2 h i hi
    · refine ⟨fun h => absurd (h k List.mem_cons_self) hk, fun h => ?_⟩
      rw [findFree_found env is _ (findFree_not_busy hk)] at h
      cases h

/-- The state after the test of the loop for a first fragment: a context whose time is over is
given up. -/
def State.released (s : State c b) (env : Env) (i : Fin c) : State c b :=
  if s.Expired env i then s.clearFragments i else s

/-- Releasing a context keeps the number of bytes it counted. -/
theorem released_reassembledLen :
    ((s.released env i).fragInfo i).reassembledLen = (s.fragInfo i).reassembledLen := by
  unfold State.released
  split_ifs
  · simp [State.clearFragments]
  · rfl

/-- Releasing a context keeps the length of its first fragment. -/
theorem released_firstFragLen :
    ((s.released env i).fragInfo i).firstFragLen = (s.fragInfo i).firstFragLen := by
  unfold State.released
  split_ifs
  · simp [State.clearFragments]
  · rfl

theorem open_iff : s.Open env ↔ ∃ i, ¬ s.Busy env i := by
  refine exists_congr fun i => ?_
  unfold State.Busy
  rw [not_and_or, not_not, Nat.pos_iff_ne_zero, not_not]

variable {tag fragSize : ℕ}

/-- Without a context that can be taken a first fragment changes nothing. -/
theorem addFirst_closed (h : ¬ s.Open env) : s.addFirst env f tag fragSize = (s, none) := by
  have hall : ∀ i ∈ List.finRange c, s.Busy env i := fun i _ => by
    by_contra hno
    exact h (open_iff.mpr ⟨i, hno⟩)
  unfold State.addFirst
  rw [(findFree_none (List.finRange c)).1 hall]

variable (tag fragSize) in
/-- With one, it is taken. -/
theorem addFirst_open (h : s.Open env) :
    ∃ s' i, s.addFirst env f tag fragSize = (s', some i) := by
  obtain ⟨i, hi⟩ := open_iff.mp h
  unfold State.addFirst
  cases hfound : (List.finRange c).foldl (State.findFree env) (s, none) with
  | mk s₁ found =>
    cases found with
    | none =>
      refine absurd ((findFree_none (List.finRange c)).2 ?_ i (List.mem_finRange i)) hi
      rw [hfound]
    | some k => exact ⟨_, k, rfl⟩

/-- A first fragment. -/
theorem fine_inputFirst :
    Fine (Access.Ok f.datalen) (inputFirst env f s) ↔ FirstFits env f s := by
  have htwo : f.Has 0 2 ∧ f.Has 2 2 ↔ 4 ≤ f.datalen := by
    unfold Frame.Has
    omega
  unfold inputFirst FirstFits
  rw [fine_bind_unit, fine_read]
  dsimp only
  rw [fine_bind_unit, fine_read, ← and_assoc, htwo, State.addFragment_zero,
    fine_bind_of_ends (ends_pure.mpr rfl)]
  refine and_congr Iff.rfl ?_
  by_cases hopen : s.Open env
  · obtain ⟨s', i, hadd⟩ := addFirst_open (get16 f.pb 2) (get16 f.pb 0 % 2048) (f := f) hopen
    rw [hadd]
    simp only [hopen, forall_const]
    refine fine_readHeaders_bind (by decide) fine_pure fun u hlt => ?_
    rw [← fine_copyPayload hlt]
    refine fine_bind_of_fine fun a => ?_
    obtain ⟨firstFrag, len⟩ := a
    cases len with
    | none => exact fine_pure
    | some len =>
      dsimp only
      split_ifs <;> exact fine_pure
  · rw [addFirst_closed hopen]
    simp [hopen]

/-- What comes before the headers counts in `uip_buf` anyway. -/
theorem payloadFits_uipBuf {hdr : ℕ} {r : ℕ × ℕ} (h : HeadersFit env f .uipBuf hdr (some r)) :
    PayloadFits f .uipBuf r := by
  have hlt := h.snd_lt
  have hdatalen : f.datalen ≤ 128 := f.datalen_le
  intro _
  change _ ≤ uipBufferSize
  unfold uipBufferSize
  omega

/-- A frame that is no fragment. -/
theorem fine_inputWhole :
    Fine (Access.Ok f.datalen) (inputWhole env f s) ↔ ∃ r, HeadersFit env f .uipBuf 0 r := by
  have hwhole : Fine (Access.Ok f.datalen) (inputWhole env f s) ↔
      ∃ r, HeadersFit env f .uipBuf 0 r ∧ ∀ r' ∈ r, PayloadFits f .uipBuf r' := by
    refine fine_readHeaders_bind (Nat.zero_le 4) fine_pure fun u hlt => ?_
    rw [← fine_copyPayload hlt]
    exact fine_bind_of_fine fun _ => fine_pure
  refine hwhole.trans (exists_congr fun r => ?_)
  refine and_iff_left_of_imp ?_
  rintro h r' rfl
  exact payloadFits_uipBuf h

/-! A later fragment: what is kept of its context. -/

/-- The fragments and the data of a context are as they were. -/
structure Kept (i : Fin c) (s s' : State c b) : Prop where
  info : s'.fragInfo i = s.fragInfo i
  holds : ∀ j, s'.Holds i j ↔ s.Holds i j
  buf : ∀ j, s.Holds i j → s'.fragBuf j = s.fragBuf j

theorem Kept.refl (i : Fin c) (s : State c b) : Kept i s s := ⟨rfl, fun _ => Iff.rfl, fun _ _ => rfl⟩

theorem Kept.trans {s₁ s₂ s₃ : State c b} (h : Kept i s₁ s₂) (h' : Kept i s₂ s₃) : Kept i s₁ s₃ :=
  ⟨h'.info.trans h.info, fun j => (h'.holds j).trans (h.holds j),
    fun j hj => (h'.buf j ((h.holds j).mpr hj)).trans (h.buf j hj)⟩

/-- Clearing another context keeps this one. -/
theorem kept_clearFragments (hne : k ≠ i) : Kept i s (s.clearFragments k) :=
  ⟨clearFragments_info_ne hne.symm, fun _ => holds_clearFragments hne.symm,
    fun _ hj => clearFragments_buf (not_holds_of_holds hj hne.symm)⟩

/-- Something is cleared exactly when the context has buffers. -/
theorem clearCount_pos : 0 < s.clearCount k ↔ ∃ j, s.Holds k j := by
  unfold State.clearCount
  rw [List.countP_pos_iff]
  simp

theorem not_holds_clearFragments : ¬ (s.clearFragments i).Holds i j := by
  by_cases h : s.Holds i j
  · exact fun h' => h'.1.ne' (clearFragments_buf_len h)
  · unfold State.Holds
    rwa [clearFragments_buf h]

/-- The rounds of the loop for a first fragment behind the one that found a context leave that
context. -/
theorem findFree_rest (env : Env) : ∀ (is : List (Fin c)) (s : State c b),
    (s.fragInfo i).len = 0 → ∃ s', is.foldl (State.findFree env) (s, some i) = (s', some i) ∧
      Kept i s s' := by
  intro is
  induction is with
  | nil => exact fun s _ => ⟨s, rfl, .refl i s⟩
  | cons k is ih =>
    intro s hzero
    have hround : State.findFree env (s, some i) k = (s.released env k, some i) := by
      simp [State.findFree, State.released]
    have hkept : Kept i s (s.released env k) := by
      unfold State.released
      split_ifs with hexp
      · refine kept_clearFragments ?_
        rintro rfl
        exact hexp.1.ne' hzero
      · exact .refl i s
    obtain ⟨s', hloop, hrest⟩ := ih (s.released env k) (by rw [hkept.info, hzero])
    exact ⟨s', by rw [List.foldl_cons, hround, hloop], hkept.trans hrest⟩

/-- The loop for a first fragment takes the first context that is not busy. -/
theorem findFree_first : ∀ is : List (Fin c),
    (is.find? fun i => decide ((s.fragInfo i).len = 0 ∨ s.Expired env i)) = some i →
      ∃ s', is.foldl (State.findFree env) (s, none) = (s', some i) ∧
        Kept i (s.released env i) s' := by
  intro is
  induction is with
  | nil => exact fun h => nomatch h
  | cons k is ih =>
    intro h
    rw [List.foldl_cons]
    by_cases hk : (s.fragInfo k).len = 0 ∨ s.Expired env k
    · rw [List.find?_cons, decide_eq_true hk] at h
      obtain rfl := Option.some.inj h
      have hzero : ((s.released env k).fragInfo k).len = 0 := by
        unfold State.released
        split_ifs with hexp
        · exact clearFragments_info_len
        · exact hk.resolve_right hexp
      have hround : State.findFree env (s, none) k = (s.released env k, some k) :=
        Prod.ext rfl (if_pos ⟨rfl, hzero⟩)
      rw [hround]
      exact findFree_rest env is _ hzero
    · rw [List.find?_cons, decide_eq_false hk] at h
      have hbusy : s.Busy env k := ⟨Nat.pos_of_ne_zero fun h => hk (.inl h), fun h => hk (.inr h)⟩
      rw [findFree_busy hbusy]
      exact ih h

/-- There is a free buffer. -/
def State.Free (s : State c b) : Prop := ∃ j, (s.fragBuf j).len = 0

/-- After clearing a context with buffers there is a free one. -/
theorem free_clearFragments (h : s.Free ∨ ∃ j, s.Holds k j) : (s.clearFragments k).Free := by
  rcases h with ⟨j, hj⟩ | ⟨j, hj⟩
  · refine ⟨j, ?_⟩
    rw [clearFragments_buf fun h => h.1.ne' hj]
    exact hj
  · exact ⟨j, clearFragments_buf_len hj⟩

/-- Clearing a context does not make another one expire. -/
theorem expired_clearFragments {k' : Fin c} (hne : k' ≠ k) :
    (s.clearFragments k).Expired env k' ↔ s.Expired env k' := by
  unfold State.Expired
  rw [clearFragments_info_ne hne]

/-- A context that was cleared does not expire again. -/
theorem not_expired_clearFragments : ¬ (s.clearFragments k).Expired env k :=
  fun h => h.1.ne' clearFragments_info_len

/-- A context that may be given up, with fragments. -/
def State.GivesRoom (s : State c b) (env : Env) (i k : Fin c) : Prop :=
  k ≠ i ∧ s.Expired env k ∧ ∃ j, s.Holds k j

/-- The loop of `timeout_fragments`. -/
theorem timeout_loop (env : Env) (i : Fin c) : ∀ (is : List (Fin c)) (r : State c b × ℕ),
    let r' := is.foldl
      (fun r i' =>
        if r.1.Expired env i' ∧ i' ≠ i then (r.1.clearFragments i', r.2 + r.1.clearCount i')
        else r) r
    Kept i r.1 r'.1 ∧ (0 < r'.2 ↔ 0 < r.2 ∨ ∃ k ∈ is, r.1.GivesRoom env i k) ∧
      ((0 < r.2 → r.1.Free) → 0 < r'.2 → r'.1.Free) := by
  intro is
  -- On the contexts: those that have expired are cleared, but not this one.
  induction is with
  | nil => exact fun r => ⟨.refl i r.1, by simp, fun h => h⟩
  | cons k is ih =>
    intro r
    rw [List.foldl_cons]
    by_cases hk : r.1.Expired env k ∧ k ≠ i
    · rw [if_pos hk]
      obtain ⟨hkept, hpos, hfree⟩ := ih (r.1.clearFragments k, r.2 + r.1.clearCount k)
      refine ⟨(kept_clearFragments hk.2).trans hkept, hpos.trans ?_, fun h => hfree fun hsum => ?_⟩
      · have hsum : 0 < r.2 + r.1.clearCount k ↔ 0 < r.2 ∨ ∃ j, r.1.Holds k j := by
          rw [← clearCount_pos]
          omega
        rw [hsum, or_assoc]
        refine or_congr Iff.rfl ?_
        constructor
        · rintro (hj | ⟨k', hk', hne, hexp, j, hj⟩)
          · exact ⟨k, List.mem_cons_self, hk.2, hk.1, hj⟩
          · have hkk : k' ≠ k := by
              rintro rfl
              exact not_expired_clearFragments hexp
            exact ⟨k', List.mem_cons_of_mem k hk', hne, (expired_clearFragments hkk).mp hexp, j,
              (holds_clearFragments hkk).mp hj⟩
        · rintro ⟨k', hk', hne, hexp, j, hj⟩
          by_cases hkk : k' = k
          · subst hkk
            exact .inl ⟨j, hj⟩
          · exact .inr ⟨k', List.mem_of_ne_of_mem hkk hk', hne,
              (expired_clearFragments hkk).mpr hexp, j, (holds_clearFragments hkk).mpr hj⟩
      · refine free_clearFragments ?_
        rcases Nat.eq_zero_or_pos r.2 with hzero | hpos
        · exact .inr (clearCount_pos.mp (by simpa [hzero] using hsum))
        · exact .inl (h hpos)
    · rw [if_neg hk]
      obtain ⟨hkept, hpos, hfree⟩ := ih r
      refine ⟨hkept, hpos.trans (or_congr Iff.rfl ?_), hfree⟩
      constructor
      · rintro ⟨k', hk', h⟩
        exact ⟨k', List.mem_cons_of_mem k hk', h⟩
      · rintro ⟨k', hk', hne, hexp, hj⟩
        rcases List.mem_cons.mp hk' with rfl | hk'
        · exact absurd ⟨hexp, hne⟩ hk
        · exact ⟨k', hk', hne, hexp, hj⟩

/-- Expired contexts are cleared, this one is kept, and what was cleared is free. -/
theorem timeoutFragments_spec (env : Env) (i : Fin c) (s : State c b) :
    Kept i s (s.timeoutFragments env i).1 ∧
      (0 < (s.timeoutFragments env i).2 ↔ ∃ k, s.GivesRoom env i k) ∧
      (0 < (s.timeoutFragments env i).2 → (s.timeoutFragments env i).1.Free) := by
  obtain ⟨hkept, hpos, hfree⟩ := timeout_loop env i (List.finRange c) (s, 0)
  refine ⟨hkept, hpos.trans ?_, hfree fun h => absurd h (lt_irrefl 0)⟩
  simp

theorem canStore_iff : s.CanStore env i ↔ s.Free ∨ ∃ k, s.GivesRoom env i k := Iff.rfl

/-- A fragment was stored for a context, and the others of that context are as they were. -/
structure Stored (f : Frame) (i : Fin c) (offset : UInt8) (s s' : State c b) : Prop where
  info : s'.fragInfo i = s.fragInfo i
  slot : ∃ j₀, ¬ s.Holds i j₀ ∧ (s'.fragBuf j₀).index = i ∧ (s'.fragBuf j₀).offset = offset ∧
    (s'.fragBuf j₀).len = f.datalen - 5 ∧
    ∀ j ≠ j₀, (s'.Holds i j ↔ s.Holds i j) ∧ (s.Holds i j → s'.fragBuf j = s.fragBuf j)

/-- Clearing others before a fragment is stored makes no difference to this context. -/
theorem Stored.of_kept {s₁ s₂ s₃ : State c b} {offset : UInt8} (h : Kept i s₁ s₂)
    (h' : Stored f i offset s₂ s₃) : Stored f i offset s₁ s₃ := by
  obtain ⟨j₀, hno, hindex, hoffset, hlen, hrest⟩ := h'.slot
  refine ⟨h'.info.trans h.info, j₀, fun hj => hno ((h.holds j₀).mpr hj), hindex, hoffset, hlen, ?_⟩
  intro j hj
  obtain ⟨hholds, hbuf⟩ := hrest j hj
  exact ⟨hholds.trans (h.holds j), fun hj => (hbuf ((h.holds j).mpr hj)).trans (h.buf j hj)⟩

variable {offset : UInt8}

/-- Without a free buffer nothing is stored. -/
theorem storeFragment_full (h : ¬ s.Free) {hdr : ℕ} :
    s.storeFragment f i offset hdr = pure (s, none) := by
  have hnone : (List.finRange b).find? (fun j => (s.fragBuf j).len = 0) = none := by
    rw [List.find?_eq_none]
    intro j _ hj
    exact h ⟨j, of_decide_eq_true hj⟩
  unfold State.storeFragment
  rw [hnone]

variable (offset) in
/-- A fragment is stored in a free buffer. -/
theorem storeFragment_free (h : s.Free) (hlen : 5 ≤ f.datalen) :
    (Fine (Access.Ok f.datalen) (s.storeFragment f i offset 5) ↔ f.datalen - 5 ≤ fragmentSize) ∧
      (f.datalen - 5 ≤ fragmentSize → ∃ s',
        Traced.Ends (Access.Ok f.datalen) (s.storeFragment f i offset 5) (s', some (f.datalen - 5)) ∧
          Stored f i offset s s') := by
  -- The first free buffer is taken.
  obtain ⟨j, hj⟩ : ∃ j, (List.finRange b).find? (fun j => (s.fragBuf j).len = 0) = some j := by
    obtain ⟨j, hj⟩ := h
    refine Option.isSome_iff_exists.mp (List.find?_isSome.mpr ⟨j, List.mem_finRange j, ?_⟩)
    exact decide_eq_true hj
  have hzero : (s.fragBuf j).len = 0 := by
    have hfound := List.find?_some hj
    exact of_decide_eq_true hfound
  have hdatalen : f.datalen ≤ 128 := f.datalen_le
  have hsize : (f.datalen + 2 ^ 32 - 5) % 2 ^ 32 = f.datalen - 5 := by omega
  -- The length fits its byte, as a frame has 128 bytes at most.
  have hbyte : (f.datalen - 5) % 256 = f.datalen - 5 := by omega
  have hread : Access.Ok f.datalen (.read 5 (f.datalen - 5)) := by
    change _ ∨ _
    omega
  have hstore : Access.Ok f.datalen (.store (f.datalen - 5) (f.datalen - 5)) ↔
      f.datalen - 5 ≤ fragmentSize := and_iff_left rfl
  unfold State.storeFragment
  rw [hj]
  dsimp only
  rw [hsize, hbyte]
  refine ⟨?_, fun hfits => ⟨{ s with
    fragBuf := Function.update s.fragBuf j ⟨i, offset, f.datalen - 5,
      (s.fragBuf j).data.write 0 (f.pb.read 5 (f.datalen - 5))⟩ }, ?_, ?_⟩⟩
  · rw [fine_touch_bind, fine_touch_bind, hstore]
    simp only [hread, fine_pure, and_true, true_and]
  · rw [ends_bind]
    refine ⟨(), ends_touch.mpr hread, ?_⟩
    rw [ends_bind]
    exact ⟨(), ends_touch.mpr (hstore.mpr hfits), ends_pure.mpr rfl⟩
  · refine ⟨rfl, j, fun h => h.1.ne' hzero, ?_, ?_, ?_, fun j' hj' => ?_⟩
    · simp
    · simp
    · simp
    · have hbuf : Function.update s.fragBuf j ⟨i, offset, f.datalen - 5,
          (s.fragBuf j).data.write 0 (f.pb.read 5 (f.datalen - 5))⟩ j' = s.fragBuf j' :=
        Function.update_of_ne hj' _ _
      unfold State.Holds
      simp only [hbuf, true_and, iff_self, implies_true]

variable (offset) in
/-- The two attempts to store a fragment. -/
theorem storeOrTimeout_spec (hlen : 5 ≤ f.datalen) :
    (¬ s.CanStore env i → ∃ s',
      Traced.Ends (Access.Ok f.datalen) (s.storeOrTimeout env f i offset 5) (s', none)) ∧
      (s.CanStore env i →
        (Fine (Access.Ok f.datalen) (s.storeOrTimeout env f i offset 5) →
          f.datalen - 5 ≤ fragmentSize) ∧
        (f.datalen - 5 ≤ fragmentSize → ∃ s', Traced.Ends (Access.Ok f.datalen)
          (s.storeOrTimeout env f i offset 5) (s', some (f.datalen - 5)) ∧
            Stored f i offset s s')) := by
  obtain ⟨hkept, hpos, hroom⟩ := timeoutFragments_spec env i s
  unfold State.storeOrTimeout
  -- Without a free buffer the expired contexts give theirs back.
  by_cases hfree : s.Free
  · obtain ⟨hfine, hends⟩ := storeFragment_free offset (i := i) hfree hlen
    refine ⟨fun h => absurd (.inl hfree) h, fun _ => ⟨fun h => ?_, fun hfits => ?_⟩⟩
    · obtain ⟨r, hr, _⟩ := fine_bind.mp h
      exact hfine.mp ⟨r, hr⟩
    · obtain ⟨s', hs', hstored⟩ := hends hfits
      exact ⟨s', ends_bind.mpr ⟨_, hs', ends_pure.mpr rfl⟩, hstored⟩
  · rw [storeFragment_full hfree]
    by_cases hgives : ∃ k, s.GivesRoom env i k
    · obtain ⟨hfine, hends⟩ :=
        storeFragment_free offset (i := i) (hroom (hpos.mpr hgives)) hlen
      refine ⟨fun h => absurd (.inr hgives) h, fun _ => ⟨fun h => ?_, fun hfits => ?_⟩⟩
      · obtain ⟨r, hr, hrest⟩ := fine_bind.mp h
        obtain rfl := ends_pure.mp hr
        dsimp only at hrest
        rw [if_pos (hpos.mpr hgives)] at hrest
        exact hfine.mp hrest
      · obtain ⟨s', hs', hstored⟩ := hends hfits
        refine ⟨s', ends_bind.mpr ⟨_, ends_pure.mpr rfl, ?_⟩, hstored.of_kept hkept⟩
        dsimp only
        rw [if_pos (hpos.mpr hgives)]
        exact hs'
    · refine ⟨fun _ => ⟨(s.timeoutFragments env i).1,
          ends_bind.mpr ⟨_, ends_pure.mpr rfl, ?_⟩⟩,
        fun h => absurd (canStore_iff.mp h) (not_or.mpr ⟨hfree, hgives⟩)⟩
      dsimp only
      rw [if_neg fun h => hgives (hpos.mp h)]
      exact ends_pure.mpr rfl

/-- The copy of the fragments of a context. -/
theorem fine_copyBufs (i : Fin c) : ∀ (js : List (Fin b)) (s : State c b),
    Fine (Access.Ok f.datalen) (State.copyBufs i js s) ↔
      ∀ j ∈ js, s.Holds i j →
        8 * (s.fragBuf j).offset.toNat + (s.fragBuf j).len ≤ uipBufferSize := by
  intro js
  induction js with
  | nil =>
    intro s
    simp [State.copyBufs]
  | cons j js ih =>
    intro s
    rw [State.copyBufs, List.forall_mem_cons]
    by_cases hj : s.Holds i j
    · have hwrite : Access.Ok f.datalen
          (.write .uipBuf (8 * (s.fragBuf j).offset.toNat) (s.fragBuf j).len) ↔
            8 * (s.fragBuf j).offset.toNat + (s.fragBuf j).len ≤ uipBufferSize :=
        or_iff_right hj.1.ne'
      rw [if_pos hj]
      dsimp only
      rw [fine_touch_bind, hwrite, ih]
      simp only [hj, forall_const]
      rfl
    · rw [if_neg hj, ih]
      simp [hj]

/-- The fragments of a context are copied safely exactly when they fit the buffer. -/
theorem fine_copyFrags2uip :
    Fine (Access.Ok f.datalen) (s.copyFrags2uip i) ↔ s.StoredFits i := by
  have hfirst : Access.Ok f.datalen (.write .uipBuf 0 (s.fragInfo i).firstFragLen) ↔
      (s.fragInfo i).firstFragLen ≤ uipBufferSize := by
    change _ ∨ _ ↔ _
    change _ ∨ _ ≤ uipBufferSize ↔ _
    omega
  unfold State.copyFrags2uip State.StoredFits
  dsimp only
  rw [fine_touch_bind, hfirst, fine_bind_of_fine fun _ => fine_pure, fine_copyBufs]
  simp only [List.mem_finRange, forall_const]
  rfl

@[simp]
theorem setInfo_self {info : FragInfo} : (s.setInfo i info).fragInfo i = info :=
  Function.update_self ..

theorem setInfo_ne {info : FragInfo} (h : k ≠ i) : (s.setInfo i info).fragInfo k = s.fragInfo k :=
  Function.update_of_ne h ..

theorem setInfo_setInfo {info info' : FragInfo} :
    (s.setInfo i info).setInfo i info' = s.setInfo i info' := by
  simp [State.setInfo]

/-- What is stored of a datagram after one more fragment. -/
theorem Stored.fits_iff {s' : State c b} (h : Stored f i offset s s') (info : FragInfo)
    (hinfo : info.firstFragLen = (s'.fragInfo i).firstFragLen)
    (hroom : 8 * offset.toNat + (f.datalen - 5) ≤ uipBufferSize) :
    (s'.setInfo i info).StoredFits i ↔ s.StoredFits i := by
  obtain ⟨j₀, hno, hindex, hoffset, hlen, hrest⟩ := h.slot
  have hlen' : ((s'.setInfo i info).fragInfo i).firstFragLen = (s.fragInfo i).firstFragLen := by
    rw [setInfo_self, hinfo, h.info]
  have hholds : ∀ j, (s'.setInfo i info).Holds i j ↔ s'.Holds i j := fun _ => Iff.rfl
  have hbuf : (s'.setInfo i info).fragBuf = s'.fragBuf := rfl
  unfold State.StoredFits
  rw [hlen', hbuf]
  simp only [hholds]
  refine and_congr Iff.rfl (forall_congr' fun j => ?_)
  by_cases hj : j = j₀
  · subst hj
    rw [hoffset, hlen]
    exact ⟨fun _ h => absurd h hno, fun _ _ => hroom⟩
  · obtain ⟨hsame, heq⟩ := hrest j hj
    rw [hsame]
    exact forall_congr' fun h => by rw [heq h]

/-- The state after a fragment was stored for a context. -/
def State.counted (s : State c b) (f : Frame) (i : Fin c) : State c b :=
  s.setInfo i { s.fragInfo i with
    reassembledLen := ((s.fragInfo i).reassembledLen + (f.datalen - 5)) % 2 ^ 16 }

/-- The datagram is complete with the fragment that was stored. -/
theorem Stored.completes_iff {s' : State c b} (h : Stored f i (f.pb 4) s s')
    (hpos : 5 < f.datalen) :
    (5 ≤ f.datalen → 8 * (f.pb 4).toNat + (f.datalen - 5) ≤ uipBufferSize →
      (s'.counted f i).LeftCompletes f i → (s'.counted f i).StoredFits i) ↔
      (s.Completes f i → s.StoredFits i) := by
  have hcount : ((s'.counted f i).fragInfo i).reassembledLen =
      ((s.fragInfo i).reassembledLen + (f.datalen - 5)) % 2 ^ 16 := by
    rw [State.counted, setInfo_self, h.info]
  unfold State.LeftCompletes State.Completes
  rw [hcount]
  constructor
  · rintro hfits ⟨-, hroom, hcomplete⟩
    exact (h.fits_iff { s'.fragInfo i with
      reassembledLen := ((s'.fragInfo i).reassembledLen + (f.datalen - 5)) % 2 ^ 16 } rfl hroom).mp
        (hfits hpos.le hroom hcomplete)
  · intro hfits _ hroom hcomplete
    exact (h.fits_iff { s'.fragInfo i with
      reassembledLen := ((s'.fragInfo i).reassembledLen + (f.datalen - 5)) % 2 ^ 16 } rfl hroom).mpr
        (hfits ⟨hpos, hroom, hcomplete⟩)

variable {tag : ℕ}

/-- A fragment without a context changes nothing. -/
theorem addNext_none (h : s.findContext f tag = none) {hdr : ℕ} :
    s.addNext env f tag offset hdr = pure (s, none) := by
  rw [State.addNext, h]

variable (offset) in
/-- A fragment that no buffer takes. -/
theorem addNext_full (hfound : s.findContext f tag = some i) (hlen : 5 ≤ f.datalen)
    (h : ¬ s.CanStore env i) :
    ∃ s', Traced.Ends (Access.Ok f.datalen) (s.addNext env f tag offset 5) (s', none) := by
  obtain ⟨s', hs'⟩ := (storeOrTimeout_spec offset hlen).1 h
  refine ⟨s', ?_⟩
  unfold State.addNext
  rw [hfound]
  exact ends_bind.mpr ⟨_, hs', ends_pure.mpr rfl⟩

variable (offset) in
/-- A fragment that a buffer takes. -/
theorem addNext_stored (hfound : s.findContext f tag = some i) (hlen : 5 ≤ f.datalen)
    (h : s.CanStore env i) (hfits : f.datalen - 5 ≤ fragmentSize) :
    ∃ s', Stored f i offset s s' ∧ Traced.Ends (Access.Ok f.datalen) (s.addNext env f tag offset 5)
      (if 5 < f.datalen then (s'.counted f i, some i) else (s', none)) := by
  obtain ⟨s', hs', hstored⟩ := ((storeOrTimeout_spec offset hlen).2 h).2 hfits
  refine ⟨s', hstored, ?_⟩
  unfold State.addNext
  rw [hfound]
  refine ends_bind.mpr ⟨_, hs', ?_⟩
  dsimp only [Option.getD_some]
  by_cases hpos : 5 < f.datalen
  · rw [if_pos hpos, if_pos (by omega)]
    exact ends_pure.mpr rfl
  · rw [if_neg hpos, if_neg (by omega)]
    exact ends_pure.mpr rfl

/-- A later fragment that was stored safely has room in a fragment buffer. -/
theorem fits_of_fine_addNext (hfound : s.findContext f tag = some i) (hlen : 5 ≤ f.datalen)
    (h : s.CanStore env i) (hfine : Fine (Access.Ok f.datalen) (s.addNext env f tag offset 5)) :
    f.datalen - 5 ≤ fragmentSize := by
  unfold State.addNext at hfine
  rw [hfound] at hfine
  obtain ⟨r, hr, _⟩ := fine_bind.mp hfine
  exact ((storeOrTimeout_spec offset hlen).2 h).1 ⟨r, hr⟩

/-- Whether the stored fragments fit depends on the first one's length only. -/
theorem storedFits_setInfo {info : FragInfo}
    (h : info.firstFragLen = (s.fragInfo i).firstFragLen) :
    (s.setInfo i info).StoredFits i ↔ s.StoredFits i := by
  unfold State.StoredFits
  rw [setInfo_self, h]
  rfl

/-- What comes behind `add_fragment`. -/
theorem fine_complete :
    Fine (Access.Ok f.datalen)
        (if f.datalen < 5 then pure (s, none)
        else if uipBufferSize < 8 * offset.toNat + (f.datalen - 5) then pure (s, none)
        else if get16 f.pb 0 % 2048 ≤ (s.fragInfo i).reassembledLen then
          if 0 < get16 f.pb 0 % 2048 then do
            let s ← (s.setInfo i
              { s.fragInfo i with reassembledLen := get16 f.pb 0 % 2048 }).copyFrags2uip i
            pure (s, some (get16 f.pb 0 % 2048))
          else pure (s, some (get16 f.pb 0 % 2048))
        else pure (s, none)) ↔
      (5 ≤ f.datalen → 8 * offset.toNat + (f.datalen - 5) ≤ uipBufferSize →
        s.LeftCompletes f i → s.StoredFits i) := by
  split_ifs with hshort hroom hlast hpos
  · simp only [fine_pure, true_iff]
    omega
  · simp only [fine_pure, true_iff]
    omega
  · rw [fine_bind_of_fine fun _ => fine_pure, fine_copyFrags2uip]
    refine (storedFits_setInfo (by rfl)).trans ?_
    exact ⟨fun h _ _ _ => h, fun h => h (by omega) (by omega) ⟨hpos, hlast⟩⟩
  · simp only [fine_pure, true_iff]
    exact fun _ _ h => absurd h.1 hpos
  · simp only [fine_pure, true_iff]
    exact fun _ _ h => absurd h.2 hlast

/-- A fragment with offset 0 that finds no context. -/
theorem firstOpen_none (h : s.firstOpen env = none) :
    s.addFirst env f tag fragSize = (s, none) := by
  refine addFirst_closed ?_
  rintro ⟨i, hi⟩
  exact List.find?_eq_none.mp h i (List.mem_finRange i) (decide_eq_true hi)

/-- A fragment with offset 0 that takes a context: from what was there before, what the context
counted stays, and the fragments of a context that was not in use. -/
theorem firstOpen_some (tag fragSize : ℕ) (h : s.firstOpen env = some i) :
    ∃ s', s.addFirst env f tag fragSize = (s', some i) ∧
      (s'.LeftCompletes f i ↔ s.LeftCompletes f i) ∧ (s'.StoredFits i ↔ s.LeftFits i) := by
  obtain ⟨s', hloop, hkept⟩ := findFree_first (List.finRange c) h
  refine ⟨_, by rw [State.addFirst, hloop], ?_, ?_⟩
  · unfold State.LeftCompletes
    rw [setInfo_self, hkept.info, released_reassembledLen]
  · refine (storedFits_setInfo (by rfl)).trans ?_
    unfold State.StoredFits State.LeftFits
    rw [hkept.info, released_firstFragLen]
    refine and_congr Iff.rfl ?_
    have hopen : (s.fragInfo i).len = 0 ∨ s.Expired env i := by
      have hfound := List.find?_some h
      exact of_decide_eq_true hfound
    rcases hopen with hzero | hexp
    · -- not in use, so not expired: its fragments are still there
      have hsame : s.released env i = s := if_neg fun hexp => hexp.1.ne' hzero
      rw [hsame] at hkept
      simp only [hzero, forall_const, hkept.holds]
      exact forall_congr' fun j => forall_congr' fun hj => by rw [hkept.buf j hj]
    · have hclear : s.released env i = s.clearFragments i := if_pos hexp
      rw [hclear] at hkept
      have hnone : ∀ j, ¬ s'.Holds i j := fun j hj => not_holds_clearFragments ((hkept.holds j).mp hj)
      exact iff_of_true (fun j hj => absurd hj (hnone j)) fun hzero => absurd hzero hexp.1.ne'

/-- A later fragment. -/
theorem fine_inputNext :
    Fine (Access.Ok f.datalen) (inputNext env f s) ↔ NextFits env f s := by
  have hreads : f.Has 4 1 ∧ f.Has 2 2 ∧ f.Has 0 2 ↔ 5 ≤ f.datalen := by
    unfold Frame.Has
    omega
  unfold inputNext NextFits
  dsimp only
  rw [fine_bind_unit, fine_bind_unit, fine_bind_unit, fine_read, fine_read, fine_read,
    ← and_assoc, ← and_assoc, and_assoc (c := f.Has 0 2), hreads]
  refine and_congr_right fun hlen => ?_
  -- An offset of zero opens a context, as for a first fragment.
  by_cases hzero : f.pb 4 = 0
  · simp only [hzero, forall_const, ne_eq, not_true_eq_false, false_implies, and_true]
    rw [State.addFragment_zero, fine_bind_of_ends (ends_pure.mpr rfl)]
    cases hopen : s.firstOpen env with
    | none =>
      rw [firstOpen_none hopen]
      simp
    | some i =>
      obtain ⟨s', hadd, hcompletes, hfits⟩ := firstOpen_some (f := f) (get16 f.pb 2)
        (get16 f.pb 0 % 2048) hopen
      have hdatalen : f.datalen ≤ 128 := f.datalen_le
      have hroom : 8 * (0 : UInt8).toNat + (f.datalen - 5) ≤ uipBufferSize := by
        change 0 + (f.datalen - 5) ≤ 1280
        omega
      rw [hadd]
      dsimp only
      rw [fine_complete, hcompletes, hfits]
      simp only [Option.mem_some_iff, forall_eq']
      exact ⟨fun h => h hlen hroom, fun h _ _ => h⟩
  · simp only [hzero, false_implies, true_and, ne_eq, not_false_eq_true, forall_const]
    rw [State.addFragment_ne hzero]
    cases hfound : s.findContext f (get16 f.pb 2) with
    | none =>
      rw [addNext_none hfound, fine_bind_of_ends (ends_pure.mpr rfl)]
      simp
    | some i =>
      simp only [Option.mem_some_iff, forall_eq']
      by_cases hcan : s.CanStore env i
      · simp only [hcan, forall_const]
        by_cases hfits : f.datalen - 5 ≤ fragmentSize
        · obtain ⟨s', hstored, hends⟩ := addNext_stored (f.pb 4) hfound hlen hcan hfits
          rw [fine_bind_of_ends hends]
          simp only [hfits, true_and]
          by_cases hpos : 5 < f.datalen
          · rw [if_pos hpos]
            exact fine_complete.trans (hstored.completes_iff hpos)
          · rw [if_neg hpos]
            unfold State.Completes
            simp [hpos]
        · simp only [hfits, false_and, iff_false]
          intro hfine
          obtain ⟨r, hr, _⟩ := fine_bind.mp hfine
          exact hfits (fits_of_fine_addNext hfound hlen hcan ⟨r, hr⟩)
      · obtain ⟨s', hends⟩ := addNext_full (f.pb 4) hfound hlen hcan
        rw [fine_bind_of_ends hends]
        simp [hcan]

end Contexts

/-! ## Result -/

/-- A frame is handled inside the frame and the buffers just when it fits. -/
theorem sicslowpan_input_safe_iff {c b : ℕ} (env : Env) (f : Frame) (s : State c b) :
    Fine (Access.Ok f.datalen) (input env f s) ↔ InputFits env f s := by
  have hread : f.Has 0 2 ↔ 2 ≤ f.datalen := by
    unfold Frame.Has
    omega
  unfold input InputFits
  rw [fine_bind_unit, fine_read, hread]
  refine and_congr_right fun _ => ?_
  split_ifs with hfirst hnext
  · have hno : ¬ f.IsNext := fun h => absurd (hfirst.symm.trans h) (by decide)
    rw [fine_inputFirst]
    simp [hfirst, hno]
  · rw [fine_inputNext]
    simp [hfirst, hnext]
  · rw [fine_inputWhole]
    simp [hfirst, hnext]

/-- A later fragment with 120 bytes of a datagram. -/
def longFragment : Frame where
  pb i := if i = 0 then 0xe5 else if i = 4 then 12 else 0
  datalen := 125
  datalen_pos := by decide
  datalen_le := by decide
  sender := linkaddrNull
  receiver := linkaddrNull

/-- A node that waits for the rest of a datagram of 1280 bytes. -/
def waiting : State 1 1 where
  fragInfo _ := ⟨linkaddrNull, 0, 1280, 96, ⟨0, 64⟩, 96, fun _ => 0⟩
  fragBuf _ := ⟨0, 0, 0, fun _ => 0⟩
  uipBuf _ := 0

/-- This fragment is written over the end of its buffer. -/
theorem long_fragment : ¬ ∀ (env : Env) (f : Frame) (s : State 1 1),
    Fine (Access.Ok f.datalen) (input env f s) := by
  intro h
  have hinput := h ⟨⟨[], by simp, by simp⟩, 0, 65536, 64, by decide, by decide⟩ longFragment waiting
  unfold input at hinput
  rw [fine_bind_unit, if_neg (by decide), if_pos (by decide), fine_inputNext] at hinput
  have hfound : waiting.findContext longFragment (get16 longFragment.pb 2) = some 0 := by decide
  obtain ⟨_, _, hfits⟩ := hinput
  exact absurd (hfits.2 (by decide) 0 hfound (.inl ⟨0, rfl⟩)).1 (by decide)

end MasterScheduler.Mote.Sicslowpan

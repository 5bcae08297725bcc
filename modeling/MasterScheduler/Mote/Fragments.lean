import MasterScheduler.Lib.Pieces
import MasterScheduler.Lib.Transition
import MasterScheduler.Mote.SicslowpanDrop

/-!
# MasterScheduler.Mote.Fragments — packets in fragments over the air

`output` of `sicslowpan.c` cuts a packet that is too large for a frame into
fragments. They arrive at a node in any order and mixed with those of other
packets, and some do not arrive. The node puts them together in its reassembly
contexts, and knows a packet is complete by the number of bytes that came.

1. **Sender**: the fragments of a packet, and what a frame with one of them says.
2. **Receiver**: what `input` does to the contexts.
3. **Network**: senders, fragments on their way and a receiver.
4. **Result**: `fragments_sound`. What is delivered was sent, and no more often, provided
   that no fragment comes twice, and `duplicate_delivered` shows what happens else.

The compressed header is taken as it is: that it is uncompressed to what it was
before is a condition on the frame. The transmissions of `output` may fail.
-/

namespace MasterScheduler.Mote.Sicslowpan

open Lib Traced Frame802154

/-! ## Sender -/

/-- `SET16`. -/
def set16 (n : ℕ) : List UInt8 := [UInt8.ofNat (n / 256), UInt8.ofNat n]

/-- `SICSLOWPAN_FRAG1_HDR_LEN`. -/
abbrev frag1HdrLen : ℕ := 4

/-- `SICSLOWPAN_FRAGN_HDR_LEN`. -/
abbrev fragnHdrLen : ℕ := 5

/-- The bytes of a packet behind a header in a fragment: as many as there is room for in units
of eight. -/
def payloadLen (maxPayload hdrLen : ℕ) : ℕ := (maxPayload - hdrLen) / 8 * 8

/-- A packet in `uip_buf` that `output` is to cut: its compressed header, the length of what was
compressed, and what a frame has room for. -/
structure Datagram where
  sender : Linkaddr
  fragTag : ℕ
  packet : List UInt8
  hdr : List UInt8
  uncompHdrLen : ℕ
  maxPayload : ℕ
  fragTag_lt : fragTag < 2 ^ 16
  length_le : packet.length ≤ uipBufferSize
  aligned : 8 ∣ uncompHdrLen
  /-- Both kinds of headers uncompress the IP header at least. -/
  iphLen_le : iphLen ≤ uncompHdrLen
  /-- The test for packets that are too large. -/
  large : maxPayload + uncompHdrLen < packet.length + hdr.length
  hdr_le : hdr.length + frag1HdrLen ≤ maxPayload
  eight_le : 8 ≤ payloadLen maxPayload fragnHdrLen
  /-- A fragment fits a fragment buffer. -/
  payload_le : payloadLen maxPayload fragnHdrLen ≤ fragmentSize
deriving DecidableEq

namespace Datagram

variable (d : Datagram)

/-- What the receiver tells packets apart by. -/
def key : Linkaddr × ℕ := (d.sender, d.fragTag)

/-- The sender and the packet. -/
def entry : Linkaddr × List UInt8 := (d.sender, d.packet)

/-- `processed_ip_out_len` behind the first fragment. -/
def firstLen : ℕ := d.uncompHdrLen + payloadLen d.maxPayload (d.hdr.length + frag1HdrLen)

/-- The first fragment. -/
def frag1 : List UInt8 :=
  set16 (0xc0 <<< 8 ||| d.packet.length) ++ set16 d.fragTag ++
    (d.hdr ++ (d.packet.drop d.uncompHdrLen).take
      (payloadLen d.maxPayload (d.hdr.length + frag1HdrLen)))

/-- A later fragment. -/
def fragn (processed len : ℕ) : List UInt8 :=
  set16 (0xe0 <<< 8 ||| d.packet.length) ++ set16 d.fragTag ++
    (UInt8.ofNat (processed >>> 3) :: (d.packet.drop processed).take len)

/-- The loop of `output`: `processed_ip_out_len` and `packetbuf_payload_len`. -/
def fragLoop : ℕ → ℕ → ℕ → Option (List (List UInt8))
  | 0, processed, _ => if processed < d.packet.length then none else some []
  | rounds + 1, processed, len =>
    if processed < d.packet.length then
      let len := if d.packet.length - processed < len then d.packet.length - processed else len
      (fragLoop rounds (processed + len) len).map (d.fragn processed len :: ·)
    else some []

/-- `output`, for a packet that is too large for a frame. -/
def output : Option (List (List UInt8)) :=
  (d.fragLoop d.packet.length d.firstLen (payloadLen d.maxPayload fragnHdrLen)).map (d.frag1 :: ·)

/-- Where the later fragments are, and how long. -/
def nexts : List (ℕ × ℕ) :=
  pieces (payloadLen d.maxPayload fragnHdrLen) d.packet.length d.packet.length d.firstLen

/-- A later fragment has some payload. -/
theorem payload_pos : 0 < payloadLen d.maxPayload fragnHdrLen :=
  Nat.lt_of_lt_of_le (by decide) d.eight_le

/-- One fragment is not enough. -/
theorem firstLen_lt : d.firstLen < d.packet.length := by
  have hlarge := d.large
  have hhdr := d.hdr_le
  have hcut := Nat.div_mul_le_self (d.maxPayload - (d.hdr.length + frag1HdrLen)) 8
  rw [firstLen, payloadLen]
  omega

theorem iphLen_le_firstLen : iphLen ≤ d.firstLen := d.iphLen_le.trans (Nat.le_add_right _ _)

/-- The later fragments begin at multiples of 8. -/
theorem eight_dvd_firstLen : 8 ∣ d.firstLen := Nat.dvd_add d.aligned (Nat.dvd_mul_left 8 _)

/-- The loop ends, and makes the later fragments. -/
theorem fragLoop_eq {rounds processed : ℕ} (h : d.packet.length - processed ≤ rounds) :
    d.fragLoop rounds processed (payloadLen d.maxPayload fragnHdrLen) =
      some ((pieces (payloadLen d.maxPayload fragnHdrLen) d.packet.length rounds processed).map
        fun p => d.fragn p.1 p.2) := by
  induction rounds generalizing processed with
  | zero => rw [fragLoop, if_neg (by omega), pieces, List.map_nil]
  | succ rounds ih =>
    rw [fragLoop, pieces]
    split
    · have hpos := d.payload_pos
      dsimp only
      by_cases hlast : d.packet.length - processed < payloadLen d.maxPayload fragnHdrLen
      · -- behind the last fragment there is nothing
        rw [if_pos hlast, min_eq_right hlast.le, Nat.add_sub_cancel' (by omega)]
        have hnil : ∀ len, d.fragLoop rounds d.packet.length len = some [] := by
          intro len
          cases rounds <;> rw [fragLoop, if_neg (lt_irrefl _)]
        have hpieces : pieces (payloadLen d.maxPayload fragnHdrLen) d.packet.length rounds
            d.packet.length = [] := by
          cases rounds
          · rw [pieces]
          · rw [pieces, if_neg (lt_irrefl _)]
        rw [hnil, hpieces]
        rfl
      · rw [if_neg hlast, min_eq_left (Nat.le_of_not_lt hlast), ih (by omega)]
        rfl
    · rfl

/-- `output` sends the first fragment and the later ones. -/
theorem output_eq : d.output = some (d.frag1 :: d.nexts.map fun p => d.fragn p.1 p.2) := by
  rw [output, d.fragLoop_eq (Nat.sub_le _ _)]
  rfl

/-- A later fragment lies behind the first, inside the packet, and fits a fragment buffer. -/
theorem mem_nexts {p : ℕ × ℕ} (hp : p ∈ d.nexts) :
    d.firstLen ≤ p.1 ∧ 0 < p.2 ∧ p.2 ≤ fragmentSize ∧ p.1 + p.2 ≤ d.packet.length ∧ 8 ∣ p.1 := by
  obtain ⟨hfirst, hpos, hle, htotal⟩ := mem_pieces d.payload_pos hp
  exact ⟨hfirst, hpos, hle.trans d.payload_le, htotal,
    dvd_of_mem_pieces (Nat.dvd_mul_left 8 _) d.eight_dvd_firstLen hp⟩

/-- No two later fragments begin at the same byte. -/
theorem nodup_nexts : (d.nexts.map Prod.fst).Nodup := nodup_pieces d.payload_pos

/-- The fragments cover the packet. -/
theorem sum_nexts : (d.nexts.map Prod.snd).sum = d.packet.length - d.firstLen :=
  sum_pieces d.payload_pos (Nat.sub_le _ _)

/-- Every byte behind the first fragment is in a later one. -/
theorem cover_nexts {x : ℕ} (h : d.firstLen ≤ x) (hx : x < d.packet.length) :
    ∃ p ∈ d.nexts, p.1 ≤ x ∧ x < p.1 + p.2 :=
  pieces_cover d.payload_pos (Nat.sub_le _ _) h hx

end Datagram

/-! ### Frames with fragments -/

/-- What is in a frame. -/
def Frame.bytes (f : Frame) : List UInt8 := f.pb.read 0 f.datalen

section Bytes

variable {f : Frame} {d : Datagram} {v tag : ℕ} {rest : List UInt8}

/-- What the receiver reads of the first four bytes of a fragment. -/
theorem read_set16 (h : f.bytes = set16 v ++ set16 tag ++ rest) (hv : v < 65536)
    (htag : tag < 65536) : f.datalen = 4 + rest.length ∧ f.pb.read 4 rest.length = rest ∧
      f.pb 0 = UInt8.ofNat (v / 256) ∧ get16 f.pb 0 = v ∧ get16 f.pb 2 = tag := by
  have hlen : f.datalen = 4 + rest.length := by
    have hlength := congrArg List.length h
    rwa [Frame.bytes, Memory.length_read, List.length_append, List.length_append] at hlength
  rw [Frame.bytes, hlen, Memory.read_append] at h
  obtain ⟨hhead, hrest⟩ := List.append_inj h rfl
  have hbytes : [f.pb 0, f.pb 1, f.pb 2, f.pb 3] =
    [UInt8.ofNat (v / 256), UInt8.ofNat v, UInt8.ofNat (tag / 256), UInt8.ofNat tag] := hhead
  obtain ⟨h0, h1, h2, h3⟩ : f.pb 0 = UInt8.ofNat (v / 256) ∧ f.pb 1 = UInt8.ofNat v ∧
      f.pb 2 = UInt8.ofNat (tag / 256) ∧ f.pb 3 = UInt8.ofNat tag := by
    simpa using hbytes
  refine ⟨hlen, hrest, h0, ?_, ?_⟩
  · rw [get16, h0, h1, word_le16 hv]
  · rw [get16, h2, h3, word_le16 htag]

/-- The dispatch in front of the length. -/
theorem dispatch_or {len : ℕ} (hlen : len < 2048) (k : ℕ) :
    (8 * k) <<< 8 ||| len = 2048 * k + len := by
  have hor := Nat.two_pow_add_eq_or_of_lt (show len < 2 ^ 11 from hlen) k
  rw [Nat.shiftLeft_eq, show 8 * k * 2 ^ 8 = 2 ^ 11 * k by omega, ← hor]

/-- The dispatch byte tells the two kinds of fragments apart. -/
theorem dispatch_and : ∀ k < 8, UInt8.ofNat (0xc0 + k) &&& 0xf8 = 0xc0 ∧
    UInt8.ofNat (0xe0 + k) &&& 0xf8 = 0xe0 := by decide

/-- A length has 11 bits. -/
theorem Datagram.length_lt (d : Datagram) : d.packet.length < 2048 :=
  d.length_le.trans_lt (by decide)

/-- A frame with the first fragment. -/
theorem bytes_frag1 (h : f.bytes = d.frag1) : f.IsFirst ∧ ¬f.IsNext ∧
    get16 f.pb 0 % 2048 = d.packet.length ∧ get16 f.pb 2 = d.fragTag ∧
      f.datalen = frag1HdrLen + d.hdr.length + (d.firstLen - d.uncompHdrLen) ∧
      f.pb.read (frag1HdrLen + d.hdr.length) (d.firstLen - d.uncompHdrLen) =
        (d.packet.drop d.uncompHdrLen).take (d.firstLen - d.uncompHdrLen) := by
  have hlt := d.length_lt
  have hfirst := d.firstLen_lt
  have hor : 0xc0 <<< 8 ||| d.packet.length = 2048 * 24 + d.packet.length := dispatch_or hlt 24
  rw [Datagram.frag1, hor] at h
  obtain ⟨hlen, hread, h0, hsize, htag⟩ := read_set16 h (by omega) d.fragTag_lt
  have hand := (dispatch_and (d.packet.length / 256) (by omega)).1
  have hmask : f.pb 0 &&& 0xf8 = 0xc0 := by
    rw [h0, show (2048 * 24 + d.packet.length) / 256 = 0xc0 + d.packet.length / 256 by omega]
    exact hand
  have hcut : d.firstLen - d.uncompHdrLen =
      payloadLen d.maxPayload (d.hdr.length + frag1HdrLen) := by
    rw [Datagram.firstLen, Nat.add_sub_cancel_left]
  rw [Datagram.firstLen] at hfirst
  rw [List.length_append, List.length_take, List.length_drop, min_eq_left (by omega)] at hlen hread
  rw [hcut]
  have hdatalen : f.datalen = frag1HdrLen + d.hdr.length +
      payloadLen d.maxPayload (d.hdr.length + frag1HdrLen) :=
    hlen.trans (by rw [frag1HdrLen]; omega)
  refine ⟨hmask, fun hnext => ?_, by rw [hsize]; omega, htag, hdatalen, ?_⟩
  · exact absurd (hmask.symm.trans hnext) (by decide)
  · rw [Memory.read_append] at hread
    exact (List.append_inj hread Memory.length_read).2

/-- A frame with a later fragment. -/
theorem bytes_fragn {p : ℕ × ℕ} (hp : p ∈ d.nexts) (h : f.bytes = d.fragn p.1 p.2) :
    f.IsNext ∧ ¬f.IsFirst ∧ get16 f.pb 0 % 2048 = d.packet.length ∧ get16 f.pb 2 = d.fragTag ∧
      8 * (f.pb 4).toNat = p.1 ∧ f.datalen = 5 + p.2 ∧
      f.pb.read 5 p.2 = (d.packet.drop p.1).take p.2 := by
  obtain ⟨-, -, -, htotal, haligned⟩ := d.mem_nexts hp
  have hlt := d.length_lt
  have hor : 0xe0 <<< 8 ||| d.packet.length = 2048 * 28 + d.packet.length := dispatch_or hlt 28
  rw [Datagram.fragn, hor] at h
  obtain ⟨hlen, hread, h0, hsize, htag⟩ := read_set16 h (by omega) d.fragTag_lt
  have hand := (dispatch_and (d.packet.length / 256) (by omega)).2
  have hmask : f.pb 0 &&& 0xf8 = 0xe0 := by
    rw [h0, show (2048 * 28 + d.packet.length) / 256 = 0xe0 + d.packet.length / 256 by omega]
    exact hand
  rw [List.length_cons, List.length_take, List.length_drop, min_eq_left (by omega)] at hlen hread
  rw [Nat.add_comm p.2 1, Memory.read_append] at hread
  obtain ⟨hoffset, hpayload⟩ : f.pb.read 4 1 = [UInt8.ofNat (p.1 >>> 3)] ∧
      f.pb.read (4 + 1) p.2 = (d.packet.drop p.1).take p.2 := List.append_inj hread rfl
  refine ⟨hmask, fun hfirst => ?_, by rw [hsize]; omega, htag, ?_, hlen.trans (by omega), hpayload⟩
  · exact absurd (hmask.symm.trans hfirst) (by decide)
  · have hbyte : f.pb 4 = UInt8.ofNat (p.1 >>> 3) := List.head_eq_of_cons_eq hoffset
    rw [hbyte, UInt8.toNat_ofNat', Nat.shiftRight_eq_div_pow]
    omega

/-- A later fragment of a packet is behind the first one, so its offset is not 0. -/
theorem offset_ne_zero {p : ℕ × ℕ} (hp : p ∈ d.nexts) (hoffset : 8 * (f.pb 4).toNat = p.1) :
    f.pb 4 ≠ 0 := by
  intro hzero
  have hfirst := d.iphLen_le_firstLen.trans (d.mem_nexts hp).1
  rw [hzero] at hoffset
  rw [← hoffset] at hfirst
  exact absurd hfirst (by decide)

end Bytes

/-! ### The fragments of a packet are different -/

namespace Datagram

variable {d : Datagram} {p q : ℕ × ℕ} {bytes : List UInt8} {frames : List (List UInt8)}

variable (d) in
/-- A fragment of a packet. -/
def Part (bytes : List UInt8) : Prop := bytes = d.frag1 ∨ ∃ p ∈ d.nexts, bytes = d.fragn p.1 p.2

/-- A first fragment is not a later one. -/
theorem frag1_ne_fragn (processed len : ℕ) : d.frag1 ≠ d.fragn processed len := by
  intro h
  have hlt := d.length_lt
  have hhead : UInt8.ofNat ((0xc0 <<< 8 ||| d.packet.length) / 256) =
    UInt8.ofNat ((0xe0 <<< 8 ||| d.packet.length) / 256) := List.head_eq_of_cons_eq h
  have hc0 : 0xc0 <<< 8 ||| d.packet.length = 2048 * 24 + d.packet.length := dispatch_or hlt 24
  have he0 : 0xe0 <<< 8 ||| d.packet.length = 2048 * 28 + d.packet.length := dispatch_or hlt 28
  rw [hc0, he0] at hhead
  have hnat := congrArg UInt8.toNat hhead
  rw [UInt8.toNat_ofNat', UInt8.toNat_ofNat'] at hnat
  omega

/-- The offset tells the later fragments apart. -/
theorem fragn_inj (hp : p ∈ d.nexts) (hq : q ∈ d.nexts)
    (h : d.fragn p.1 p.2 = d.fragn q.1 q.2) : p = q := by
  obtain ⟨-, -, -, hroomp, halignedp⟩ := d.mem_nexts hp
  obtain ⟨-, -, -, hroomq, halignedq⟩ := d.mem_nexts hq
  have hroom := d.length_le
  have hoffset : UInt8.ofNat (p.1 >>> 3) = UInt8.ofNat (q.1 >>> 3) :=
    List.head_eq_of_cons_eq (List.append_inj_right h rfl)
  have hnat := congrArg UInt8.toNat hoffset
  rw [UInt8.toNat_ofNat', UInt8.toNat_ofNat', Nat.shiftRight_eq_div_pow,
    Nat.shiftRight_eq_div_pow] at hnat
  have hsize : uipBufferSize < 2048 := by decide
  exact List.inj_on_of_nodup_map d.nodup_nexts hp hq (by omega)

/-- The frames of a packet are its parts. -/
theorem mem_output (h : d.output = some frames) : bytes ∈ frames ↔ d.Part bytes := by
  rw [d.output_eq] at h
  obtain rfl := Option.some.inj h
  rw [List.mem_cons, List.mem_map, Part]
  refine or_congr_right (exists_congr fun p => and_congr_right fun _ => ?_)
  exact eq_comm

/-- No fragment is sent twice. -/
theorem nodup_output (h : d.output = some frames) : frames.Nodup := by
  rw [d.output_eq] at h
  obtain rfl := Option.some.inj h
  refine List.nodup_cons.mpr ⟨fun hmem => ?_, ?_⟩
  · obtain ⟨p, -, heq⟩ := List.mem_map.mp hmem
    exact frag1_ne_fragn p.1 p.2 heq.symm
  · exact d.nodup_nexts.of_map.map_on fun p hp q hq heq => fragn_inj hp hq heq

end Datagram

/-! ## Receiver -/

section Receiver

variable {c b : ℕ} {env : Env} {f : Frame} {s s' s'' : State c b} {i k : Fin c} {j : Fin b}
  {d : Datagram}

/-- A context that is not in use, and has no fragments. -/
def State.Empty (s : State c b) (k : Fin c) : Prop := (s.fragInfo k).len = 0 ∧ ∀ j, ¬s.Holds k j

/-- The contexts are as they were, or were given up. -/
def Clears (s s' : State c b) : Prop := ∀ k, Kept k s s' ∨ s'.Empty k

/-- A context that is kept empty stays empty. -/
theorem State.Empty.kept (h : s.Empty k) (hkept : Kept k s s') : s'.Empty k :=
  ⟨hkept.info ▸ h.1, fun j hj => h.2 j ((hkept.holds j).mp hj)⟩

theorem Clears.refl (s : State c b) : Clears s s := fun k => .inl (.refl k s)

theorem Clears.trans (h : Clears s s') (h' : Clears s' s'') : Clears s s'' := by
  intro k
  rcases h' k with hkept' | hempty
  · rcases h k with hkept | hempty
    · exact .inl (hkept.trans hkept')
    · exact .inr (hempty.kept hkept')
  · exact .inr hempty

/-- A context that was cleared is empty. -/
theorem empty_clearFragments : (s.clearFragments i).Empty i := by
  refine ⟨clearFragments_info_len, fun j hj => ?_⟩
  by_cases hheld : s.Holds i j
  · exact hj.1.ne' (clearFragments_buf_len hheld)
  · rw [State.Holds, clearFragments_buf hheld] at hj
    exact hheld hj

/-- Clearing one context leaves the others as they are. -/
theorem clears_clearFragments (i : Fin c) : Clears s (s.clearFragments i) := by
  intro k
  by_cases hki : k = i
  · subst hki
    exact .inr empty_clearFragments
  · exact .inl (kept_clearFragments (Ne.symm hki))

/-- So does the timeout. -/
theorem clears_timeoutFragments (env : Env) (i : Fin c) :
    Clears s (s.timeoutFragments env i).1 := by
  have hloop : ∀ (is : List (Fin c)) (r : State c b × ℕ), Clears r.1 (is.foldl
      (fun r k =>
        if r.1.Expired env k ∧ k ≠ i then (r.1.clearFragments k, r.2 + r.1.clearCount k)
        else r) r).1 := by
    intro is
    induction is with
    | nil => exact fun r => .refl r.1
    | cons k is ih =>
      intro r
      rw [List.foldl_cons]
      split
      · exact (clears_clearFragments k).trans (ih (r.1.clearFragments k, _))
      · exact ih r
  exact hloop (List.finRange c) (s, 0)

/-- The loop for a first fragment gives contexts up. -/
theorem clears_findFree (env : Env) (is : List (Fin c)) (r : State c b × Option (Fin c)) :
    Clears r.1 (is.foldl (State.findFree env) r).1 := by
  induction is generalizing r with
  | nil => exact .refl r.1
  | cons k is ih =>
    refine Clears.trans ?_ (ih (State.findFree env r k))
    rw [State.findFree]
    dsimp only
    split
    · exact clears_clearFragments k
    · exact .refl r.1

/-- The fragments of a context. -/
def State.held (s : State c b) (k : Fin c) : Finset (Fin b) := Finset.univ.filter (s.Holds k)

/-- The buffers of a context. -/
theorem mem_held : j ∈ s.held k ↔ s.Holds k j := by
  rw [State.held, Finset.mem_filter]
  exact and_iff_right (Finset.mem_univ j)

/-- Where a fragment in a buffer begins, and its length. -/
def State.piece (s : State c b) (j : Fin b) : ℕ × ℕ :=
  (8 * (s.fragBuf j).offset.toNat, (s.fragBuf j).len)

/-- A context has the first fragment of a packet, and some of the others. -/
structure Collected (d : Datagram) (s : State c b) (k : Fin c) : Prop where
  sender : (s.fragInfo k).sender = d.sender
  tag : (s.fragInfo k).tag = d.fragTag
  len : (s.fragInfo k).len = d.packet.length
  firstLen : (s.fragInfo k).firstFragLen = d.firstLen
  first : (s.fragInfo k).firstFrag.read 0 d.firstLen = d.packet.take d.firstLen
  nexts : ∀ j ∈ s.held k, s.piece j ∈ d.nexts
  data : ∀ j ∈ s.held k, (s.fragBuf j).data.read 0 (s.fragBuf j).len =
    (d.packet.drop (s.piece j).1).take (s.fragBuf j).len
  once : Set.InjOn s.piece (s.held k)
  count : (s.fragInfo k).reassembledLen = d.firstLen + ∑ j ∈ s.held k, (s.piece j).2

/-- A context that is kept has the same buffers with the same pieces. -/
theorem held_kept (hkept : Kept k s s') :
    s'.held k = s.held k ∧ ∀ j ∈ s.held k, s'.piece j = s.piece j := by
  constructor
  · ext j
    rw [mem_held, mem_held, hkept.holds]
  · intro j hj
    rw [State.piece, hkept.buf j (mem_held.mp hj), State.piece]

namespace Collected

/-- What was collected stays when the context is kept. -/
theorem kept (h : Collected d s k) (hkept : Kept k s s') : Collected d s' k := by
  obtain ⟨hheld, hpiece⟩ := held_kept hkept
  have hbuf : ∀ j ∈ s.held k, s'.fragBuf j = s.fragBuf j := fun j hj => hkept.buf j (mem_held.mp hj)
  refine ⟨?_, ?_, ?_, ?_, ?_, ?_, ?_, ?_, ?_⟩
  · rw [hkept.info, h.sender]
  · rw [hkept.info, h.tag]
  · rw [hkept.info, h.len]
  · rw [hkept.info, h.firstLen]
  · rw [hkept.info, h.first]
  · intro j hj
    rw [hheld] at hj
    rw [hpiece j hj]
    exact h.nexts j hj
  · intro j hj
    rw [hheld] at hj
    rw [hpiece j hj, hbuf j hj]
    exact h.data j hj
  · rw [hheld]
    intro j hj j' hj' heq
    rw [hpiece j hj, hpiece j' hj'] at heq
    exact h.once hj hj' heq
  · have hsum : ∑ j ∈ s.held k, (s'.piece j).2 = ∑ j ∈ s.held k, (s.piece j).2 :=
      Finset.sum_congr rfl fun j hj => by rw [hpiece j hj]
    rw [hkept.info, h.count, hheld, hsum]

/-- No more bytes are counted than the packet has. -/
theorem le_length (h : Collected d s k) : (s.fragInfo k).reassembledLen ≤ d.packet.length := by
  have hsum := sum_collected_le d.nodup_nexts.of_map h.nexts h.once
  have hfirst := d.firstLen_lt
  rw [d.sum_nexts] at hsum
  rw [h.count]
  omega

/-- When as many bytes came as the packet has, all fragments came. -/
theorem complete (h : Collected d s k) (hlen : d.packet.length ≤ (s.fragInfo k).reassembledLen) :
    ∀ p ∈ d.nexts, ∃ j ∈ s.held k, s.piece j = p := by
  have hfirst := d.firstLen_lt
  refine all_of_le_sum d.nodup_nexts.of_map (fun p hp => (d.mem_nexts hp).2.1) h.nexts h.once ?_
  rw [h.count] at hlen
  rw [d.sum_nexts]
  omega

/-- No byte came too much. -/
theorem setInfo_length (h : Collected d s k)
    (hlen : d.packet.length ≤ (s.fragInfo k).reassembledLen) :
    s.setInfo k { s.fragInfo k with reassembledLen := d.packet.length } = s := by
  rw [hlen.antisymm h.le_length, State.setInfo, Function.update_eq_self]

end Collected

/-! ### A later fragment -/

/-- The state with another fragment in a buffer. -/
def State.put (s : State c b) (j : Fin b) (buf : FragBuf) : State c b :=
  { s with fragBuf := Function.update s.fragBuf j buf }

section Put

variable {buf : FragBuf}

theorem put_self : (s.put j buf).fragBuf j = buf := Function.update_self ..

theorem put_ne {j' : Fin b} (h : j' ≠ j) : (s.put j buf).fragBuf j' = s.fragBuf j' :=
  Function.update_of_ne h ..

variable (buf) in
/-- Storing into a free buffer keeps the other contexts. -/
theorem kept_put (hj : (s.fragBuf j).len = 0) (hbuf : buf.index = i) (hne : k ≠ i) :
    Kept k s (s.put j buf) := by
  have hother : ∀ j', s.Holds k j' → j' ≠ j := by
    rintro j' hheld rfl
    exact hheld.1.ne' hj
  refine ⟨rfl, fun j' => ?_, fun j' hheld => put_ne (hother j' hheld)⟩
  by_cases heq : j' = j
  · subst heq
    refine ⟨fun hheld => absurd ?_ hne, fun hheld => absurd rfl (hother j' hheld)⟩
    have hindex := hheld.2
    rw [put_self, hbuf] at hindex
    exact Fin.ext hindex.symm
  · rw [State.Holds, put_ne heq, State.Holds]

variable (buf) in
/-- The context gets a new buffer. -/
theorem held_put (hj : (s.fragBuf j).len = 0) (hindex : buf.index = k) (hlen : 0 < buf.len) :
    (s.put j buf).held k = insert j (s.held k) ∧ j ∉ s.held k := by
  constructor
  · ext j'
    rw [Finset.mem_insert, mem_held, mem_held]
    by_cases heq : j' = j
    · subst heq
      rw [State.Holds, put_self]
      exact iff_of_true ⟨hlen, hindex⟩ (.inl rfl)
    · rw [State.Holds, put_ne heq, State.Holds]
      exact (or_iff_right heq).symm
  · intro hmem
    exact (mem_held.mp hmem).1.ne' hj

variable (buf) in
/-- A fragment that was not there yet is put into a buffer. -/
theorem Collected.put (h : Collected d s k) (hj : (s.fragBuf j).len = 0) (hindex : buf.index = k)
    {p : ℕ × ℕ} (hp : p ∈ d.nexts) (hpiece : (8 * buf.offset.toNat, buf.len) = p)
    (hdata : buf.data.read 0 p.2 = (d.packet.drop p.1).take p.2)
    (hnew : ∀ j' ∈ s.held k, s.piece j' ≠ p) :
    Collected d ((s.put j buf).setInfo k { s.fragInfo k with
      reassembledLen := (s.fragInfo k).reassembledLen + p.2 }) k := by
  subst hpiece
  obtain ⟨hheld, hnot⟩ := held_put buf hj hindex (d.mem_nexts hp).2.1
  set t := (s.put j buf).setInfo k { s.fragInfo k with
    -- The buffer becomes a piece of the packet, the other pieces stay.
    reassembledLen := (s.fragInfo k).reassembledLen + buf.len } with ht
  have hinfo : t.fragInfo k = { s.fragInfo k with
      reassembledLen := (s.fragInfo k).reassembledLen + buf.len } := setInfo_self
  have hself : t.fragBuf j = buf := put_self
  have hother : ∀ j' ∈ s.held k, t.fragBuf j' = s.fragBuf j' :=
    fun j' hj' => put_ne (ne_of_mem_of_not_mem hj' hnot)
  have hpiece : t.piece j = (8 * buf.offset.toNat, buf.len) := by rw [State.piece, hself]
  have hpieces : ∀ j' ∈ s.held k, t.piece j' = s.piece j' := by
    intro j' hj'
    rw [State.piece, hother j' hj', State.piece]
  have hheld' : t.held k = insert j (s.held k) := hheld
  refine ⟨?_, ?_, ?_, ?_, ?_, ?_, ?_, ?_, ?_⟩
  · rw [hinfo, h.sender]
  · rw [hinfo, h.tag]
  · rw [hinfo, h.len]
  · rw [hinfo, h.firstLen]
  · rw [hinfo, h.first]
  · intro j' hj'
    rw [hheld'] at hj'
    rcases Finset.mem_insert.mp hj' with rfl | hj'
    · rw [hpiece]
      exact hp
    · rw [hpieces j' hj']
      exact h.nexts j' hj'
  · intro j' hj'
    rw [hheld'] at hj'
    rcases Finset.mem_insert.mp hj' with rfl | hj'
    · rw [hpiece, hself]
      exact hdata
    · rw [hpieces j' hj', hother j' hj']
      exact h.data j' hj'
  · rw [hheld', Finset.coe_insert, Set.injOn_insert (by exact_mod_cast hnot)]
    refine ⟨fun j₁ h₁ j₂ h₂ heq => ?_, ?_⟩
    · rw [hpieces j₁ h₁, hpieces j₂ h₂] at heq
      exact h.once h₁ h₂ heq
    · rintro ⟨j', hj', heq⟩
      rw [hpieces j' hj', hpiece] at heq
      exact hnew j' hj' heq
  · have hsum : ∑ j' ∈ s.held k, (t.piece j').2 = ∑ j' ∈ s.held k, (s.piece j').2 :=
      Finset.sum_congr rfl fun j' hj' => by rw [hpieces j' hj']
    have hcount : (t.fragInfo k).reassembledLen = (s.fragInfo k).reassembledLen + buf.len := by
      rw [hinfo]
    rw [hcount, hheld', Finset.sum_insert hnot, hsum, hpiece, h.count]
    dsimp only
    omega

end Put

/-- What `store_fragment` puts into a buffer. -/
def fragBufOf (s : State c b) (f : Frame) (i : Fin c) (j : Fin b) : FragBuf :=
  ⟨i, f.pb 4, f.datalen - 5, (s.fragBuf j).data.write 0 (f.pb.read 5 (f.datalen - 5))⟩

/-- A later fragment is stored in a free buffer, or not at all. -/
theorem storeFragment_cases (hlen : 5 ≤ f.datalen) {r : State c b × Option ℕ}
    (h : Gives (s.storeFragment f i (f.pb 4) 5) r) :
    r = (s, none) ∨ ∃ j, (s.fragBuf j).len = 0 ∧
      r = (s.put j (fragBufOf s f i j), some (f.datalen - 5)) := by
  have hdatalen : f.datalen ≤ 128 := f.datalen_le
  have hsize : (f.datalen + 2 ^ 32 - 5) % 2 ^ 32 = f.datalen - 5 := by omega
  have hbyte : (f.datalen - 5) % 256 = f.datalen - 5 := by omega
  rw [State.storeFragment] at h
  cases hfound : (List.finRange b).find? fun j => (s.fragBuf j).len = 0 with
  | none =>
    rw [hfound] at h
    exact .inl (ends_pure.mp h)
  | some j =>
    rw [hfound] at h
    dsimp only at h
    rw [hsize, hbyte] at h
    obtain ⟨-, -, h⟩ := ends_bind.mp h
    obtain ⟨-, -, h⟩ := ends_bind.mp h
    have hfree := List.find?_some hfound
    exact .inr ⟨j, of_decide_eq_true hfree, ends_pure.mp h⟩

/-- Before it is stored, contexts may be cleared, but not its own. -/
theorem storeOrTimeout_cases (hlen : 5 ≤ f.datalen) {r : State c b × Option ℕ}
    (h : Gives (s.storeOrTimeout env f i (f.pb 4) 5) r) :
    ∃ s₁, Clears s s₁ ∧ Kept i s s₁ ∧ (r = (s₁, none) ∨ ∃ j, (s₁.fragBuf j).len = 0 ∧
      r = (s₁.put j (fragBufOf s₁ f i j), some (f.datalen - 5))) := by
  rw [State.storeOrTimeout] at h
  obtain ⟨r₁, hfirst, h⟩ := ends_bind.mp h
  rcases storeFragment_cases hlen hfirst with rfl | ⟨j, hj, rfl⟩
  · dsimp only at h
    have hclears := clears_timeoutFragments (s := s) env i
    have hkept := (timeoutFragments_spec env i s).1
    split at h
    · refine ⟨(s.timeoutFragments env i).1, hclears, hkept, ?_⟩
      exact storeFragment_cases hlen h
    · exact ⟨_, hclears, hkept, .inl (ends_pure.mp h)⟩
  · exact ⟨s, .refl s, .refl i s, .inr ⟨j, hj, ends_pure.mp h⟩⟩

/-- What `add_fragment` does with a later fragment. -/
theorem addNext_cases (hlen : 5 < f.datalen) {tag : ℕ} {r : State c b × Option (Fin c)}
    (h : Gives (s.addNext env f tag (f.pb 4) 5) r) :
    (s.findContext f tag = none ∧ r = (s, none)) ∨ ∃ i s₁, s.findContext f tag = some i ∧
      Clears s s₁ ∧ Kept i s s₁ ∧ (r = (s₁, none) ∨ ∃ j, (s₁.fragBuf j).len = 0 ∧
        r = ((s₁.put j (fragBufOf s₁ f i j)).counted f i, some i)) := by
  rw [State.addNext] at h
  cases hfound : s.findContext f tag with
  | none =>
    rw [hfound] at h
    exact .inl ⟨rfl, ends_pure.mp h⟩
  | some i =>
    rw [hfound] at h
    obtain ⟨⟨s', o⟩, hstore, h⟩ := ends_bind.mp h
    obtain ⟨s₁, hclears, hkept, hr⟩ := storeOrTimeout_cases hlen.le hstore
    refine .inr ⟨i, s₁, rfl, hclears, hkept, ?_⟩
    rcases hr with hr | ⟨j, hj, hr⟩
    · cases hr
      exact .inl (ends_pure.mp h)
    · cases hr
      dsimp only [Option.getD_some] at h
      rw [if_pos (by omega)] at h
      exact .inr ⟨j, hj, ends_pure.mp h⟩

/-! ### A packet that is complete -/

/-- A byte that was copied. -/
theorem write_read_apply {m data : Memory} {p n x : ℕ} (hp : p ≤ x) (hx : x - p < n) :
    m.write p (data.read 0 n) x = data (x - p) := by
  unfold Memory.write
  rw [if_pos hp, Memory.getElem?_read hx, Option.getD_some, Nat.zero_add]

/-- The loop of `copy_frags2uip`: bytes that are right stay right, and those of the fragments
become right. -/
theorem copyBufs_right (right : ℕ → UInt8) (js : List (Fin b)) (s : State c b)
    (hdata : ∀ j, s.Holds i j → ∀ x < (s.fragBuf j).len,
      (s.fragBuf j).data x = right ((s.piece j).1 + x)) (h : Gives (State.copyBufs i js s) s') :
    s'.fragInfo = s.fragInfo ∧ s'.fragBuf = s.fragBuf ∧
      ∀ x, (s.uipBuf x = right x ∨ ∃ j ∈ js, s.Holds i j ∧ (s.piece j).1 ≤ x ∧
        x < (s.piece j).1 + (s.piece j).2) → s'.uipBuf x = right x := by
  -- On the buffers: those of the packet are copied to their place, the others skipped.
  induction js generalizing s with
  | nil =>
    obtain rfl := ends_pure.mp h
    refine ⟨rfl, rfl, fun x hx => ?_⟩
    rcases hx with hx | ⟨j, hj, -⟩
    · exact hx
    · cases hj
  | cons j js ih =>
    rw [State.copyBufs] at h
    split at h
    · next hheld =>
      obtain ⟨-, -, h⟩ := ends_bind.mp h
      obtain ⟨hinfo, hbuf, hright⟩ := ih { s with
        uipBuf := s.uipBuf.write (8 * (s.fragBuf j).offset.toNat)
          ((s.fragBuf j).data.read 0 (s.fragBuf j).len) } hdata h
      refine ⟨hinfo, hbuf, fun x hx => hright x ?_⟩
      by_cases hin : (s.piece j).1 ≤ x ∧ x < (s.piece j).1 + (s.piece j).2
      · -- the byte is written
        left
        obtain ⟨hle, hlt⟩ := hin
        have hpos : x - (s.piece j).1 < (s.fragBuf j).len := by
          rw [State.piece] at hle hlt ⊢
          dsimp only at hle hlt ⊢
          omega
        have hvalue := hdata j hheld (x - (s.piece j).1) hpos
        rw [Nat.add_sub_cancel' hle] at hvalue
        rw [← hvalue]
        exact write_read_apply hle hpos
      · rcases hx with hx | ⟨j', hj', hholds, hrange⟩
        · left
          rw [← hx]
          by_cases hbelow : x < (s.piece j).1
          · exact Memory.write_below hbelow
          · refine Memory.write_above ?_
            rw [Memory.length_read]
            exact Nat.le_of_not_lt fun hlt => hin ⟨Nat.le_of_not_lt hbelow, hlt⟩
        · right
          rcases List.mem_cons.mp hj' with rfl | hj'
          · exact absurd hrange hin
          · exact ⟨j', hj', hholds, hrange⟩
    · next hnot =>
      obtain ⟨hinfo, hbuf, hright⟩ := ih s hdata h
      refine ⟨hinfo, hbuf, fun x hx => hright x ?_⟩
      rcases hx with hx | ⟨j', hj', hholds, hrange⟩
      · exact .inl hx
      · rcases List.mem_cons.mp hj' with rfl | hj'
        · exact absurd hholds hnot
        · exact .inr ⟨j', hj', hholds, hrange⟩

/-- A context with the same fragments, in a state with other bytes in `uip_buf`. -/
theorem kept_of_eq (hinfo : s'.fragInfo = s.fragInfo) (hbuf : s'.fragBuf = s.fragBuf) (k : Fin c) :
    Kept k s s' := by
  refine ⟨by rw [hinfo], fun j => ?_, fun j _ => by rw [hbuf]⟩
  rw [State.Holds, hbuf, State.Holds]

/-- A byte of a list that was read. -/
theorem getElem?_of_read {m : Memory} {n x : ℕ} {bs : List UInt8} (h : m.read 0 n = bs)
    (hx : x < n) : bs[x]? = some (m x) := by
  rw [← h, Memory.getElem?_read hx, Nat.zero_add]

/-- A complete packet is put together in `uip_buf`. -/
theorem copyFrags2uip_complete (h : Collected d s k)
    (hlen : d.packet.length ≤ (s.fragInfo k).reassembledLen)
    (hr : Gives (s.copyFrags2uip k) s') :
    Clears s s' ∧ s'.Empty k ∧ s'.uipBuf.read 0 d.packet.length = d.packet := by
  rw [State.copyFrags2uip] at hr
  obtain ⟨-, -, hr⟩ := ends_bind.mp hr
  -- The first fragment is copied in front, then the buffers one by one.
  obtain ⟨t, hcopy, hr⟩ := ends_bind.mp hr
  obtain rfl := ends_pure.mp hr
  have hdata : ∀ j, s.Holds k j → ∀ x < (s.fragBuf j).len,
      (s.fragBuf j).data x = d.packet.getD ((s.piece j).1 + x) 0 := by
    intro j hj x hx
    have hbyte := getElem?_of_read (h.data j (mem_held.mpr hj)) hx
    rw [List.getElem?_take_of_lt hx, List.getElem?_drop] at hbyte
    rw [List.getD_eq_getElem?_getD, hbyte]
    rfl
  -- Every byte of the packet is in the first fragment or in one of the pieces.
  obtain ⟨hinfo, hbuf, hright⟩ := copyBufs_right (fun x => d.packet.getD x 0) (List.finRange b)
    { s with
      uipBuf := s.uipBuf.write 0
        ((s.fragInfo k).firstFrag.read 0 (s.fragInfo k).firstFragLen) } hdata hcopy
  refine ⟨fun k' => ?_, empty_clearFragments, ?_⟩
  · rcases clears_clearFragments (s := t) k k' with hkept | hempty
    · exact .inl ((kept_of_eq (s := s) hinfo hbuf k').trans hkept)
    · exact .inr hempty
  · apply List.ext_getElem?
    intro x
    by_cases hx : x < d.packet.length
    · have hvalue : t.uipBuf x = d.packet.getD x 0 := by
        apply hright
        by_cases hfirst : x < d.firstLen
        · left
          have hbyte := getElem?_of_read h.first hfirst
          rw [List.getElem?_take_of_lt hfirst] at hbyte
          have hlt : x - 0 < (s.fragInfo k).firstFragLen := by rwa [h.firstLen]
          refine (write_read_apply (Nat.zero_le x) hlt).trans ?_
          rw [List.getD_eq_getElem?_getD, hbyte]
          rfl
        · right
          obtain ⟨p, hp, hrange⟩ := d.cover_nexts (Nat.le_of_not_lt hfirst) hx
          obtain ⟨j, hj, rfl⟩ := h.complete hlen p hp
          exact ⟨j, List.mem_finRange j, mem_held.mp hj, hrange⟩
      rw [Memory.getElem?_read hx, Nat.zero_add, List.getElem?_eq_getElem hx]
      change some (t.uipBuf x) = _
      rw [hvalue, List.getD_eq_getElem?_getD, List.getElem?_eq_getElem hx, Option.getD_some]
    · rw [List.getElem?_eq_none (by rw [Memory.length_read]; omega),
        List.getElem?_eq_none (by omega)]

/-! ### Contexts and packets -/

variable {air air' : List (Datagram × List UInt8)} {current : Linkaddr × ℕ → Option Datagram}

/-- The fragments that a context has are not on their way any more. -/
structure Spent (air : List (Datagram × List UInt8)) (d : Datagram) (s : State c b) (k : Fin c) :
    Prop where
  first : (d, d.frag1) ∉ air
  nexts : ∀ j ∈ s.held k, (d, d.fragn (s.piece j).1 (s.piece j).2) ∉ air

/-- No two contexts are for the same packet. -/
def State.Apart (s : State c b) : Prop :=
  ∀ k k', 0 < (s.fragInfo k).len → 0 < (s.fragInfo k').len →
    (s.fragInfo k).sender = (s.fragInfo k').sender → (s.fragInfo k).tag = (s.fragInfo k').tag →
    k = k'

/-- Every context in use is for a packet that is being sent. -/
structure Consistent (air : List (Datagram × List UInt8))
    (current : Linkaddr × ℕ → Option Datagram) (s : State c b) : Prop where
  contexts : ∀ k, s.Empty k ∨ ∃ d, current d.key = some d ∧ Collected d s k ∧ Spent air d s k
  apart : s.Apart

/-- Contexts stay apart when no new key comes. -/
theorem State.Apart.of_info (h : s.Apart) (hinfo : ∀ k, 0 < (s'.fragInfo k).len →
    0 < (s.fragInfo k).len ∧ (s'.fragInfo k).sender = (s.fragInfo k).sender ∧
      (s'.fragInfo k).tag = (s.fragInfo k).tag) : s'.Apart := by
  intro k k' hk hk' hsender htag
  obtain ⟨hpos, hsender₁, htag₁⟩ := hinfo k hk
  obtain ⟨hpos', hsender₂, htag₂⟩ := hinfo k' hk'
  rw [hsender₁, hsender₂] at hsender
  rw [htag₁, htag₂] at htag
  exact h k k' hpos hpos' hsender htag

/-- What was used up stays so when the context is kept. -/
theorem Spent.kept (h : Spent air d s k) (hkept : Kept k s s') : Spent air d s' k := by
  obtain ⟨hheld, hpiece⟩ := held_kept hkept
  refine ⟨h.first, fun j hj => ?_⟩
  rw [hheld] at hj
  rw [hpiece j hj]
  exact h.nexts j hj

/-- The fewer fragments are on their way, the more are used up. -/
theorem Spent.mono (h : Spent air d s k) (hsub : air' ⊆ air) : Spent air' d s k :=
  ⟨fun hmem => h.first (hsub hmem), fun j hj hmem => h.nexts j hj (hsub hmem)⟩

namespace Consistent

/-- Fragments may be lost. -/
theorem mono (h : Consistent air current s) (hsub : air' ⊆ air) : Consistent air' current s := by
  refine ⟨fun k => ?_, h.apart⟩
  rcases h.contexts k with hempty | ⟨d, hd, hcollected, hspent⟩
  · exact .inl hempty
  · exact .inr ⟨d, hd, hcollected, hspent.mono hsub⟩

/-- Contexts may be cleared. -/
theorem clears (h : Consistent air current s) (hclears : Clears s s') :
    Consistent air current s' := by
  constructor
  · intro k
    rcases hclears k with hkept | hempty
    · rcases h.contexts k with hempty | ⟨d, hd, hcollected, hspent⟩
      · exact .inl (hempty.kept hkept)
      · exact .inr ⟨d, hd, hcollected.kept hkept, hspent.kept hkept⟩
    · exact .inl hempty
  · refine h.apart.of_info fun k hk => ?_
    rcases hclears k with hkept | hempty
    · rw [hkept.info] at hk ⊢
      exact ⟨hk, rfl, rfl⟩
    · exact absurd hempty.1 hk.ne'

/-- The context in use for a packet that is being sent. -/
theorem collected (h : Consistent air current s) (hd : current d.key = some d)
    (hpos : 0 < (s.fragInfo k).len) (hsender : (s.fragInfo k).sender = d.sender)
    (htag : (s.fragInfo k).tag = d.fragTag) : Collected d s k ∧ Spent air d s k := by
  rcases h.contexts k with hempty | ⟨d', hd', hcollected, hspent⟩
  · exact absurd hempty.1 hpos.ne'
  · have hkey : d'.key = d.key := by
      rw [Datagram.key, ← hcollected.sender, ← hcollected.tag, hsender, htag]
      rfl
    rw [hkey, hd] at hd'
    obtain rfl := Option.some.inj hd'
    exact ⟨hcollected, hspent⟩

/-- The context that a later fragment is for. -/
theorem found (h : Consistent air current s) (hd : current d.key = some d)
    (hsender : f.sender = d.sender) (hfound : s.findContext f d.fragTag = some i) :
    0 < (s.fragInfo i).len ∧ Collected d s i ∧ Spent air d s i := by
  have hmatch := List.find?_some hfound
  simp only [decide_eq_true_eq] at hmatch
  obtain ⟨htag, hpos, hfrom⟩ := hmatch
  exact ⟨hpos, h.collected hd hpos (hfrom.trans hsender) htag⟩

end Consistent

theorem kept_setInfo (info : FragInfo) (hne : k ≠ i) : Kept k s (s.setInfo i info) :=
  ⟨setInfo_ne hne, fun _ => Iff.rfl, fun _ _ => rfl⟩

/-- What `store_fragment` puts into a buffer for a later fragment. -/
theorem piece_fragBufOf {p : ℕ × ℕ} (hp : p ∈ d.nexts) (hbytes : f.bytes = d.fragn p.1 p.2) :
    (s.put j (fragBufOf s f i j)).piece j = p := by
  obtain ⟨-, -, -, -, hoffset, hlen, -⟩ := bytes_fragn hp hbytes
  rw [State.piece, put_self, fragBufOf]
  refine Prod.ext hoffset ?_
  dsimp only
  omega

/-- The fragments of the context, when a later fragment is stored. -/
theorem held_fragBufOf {p : ℕ × ℕ} (hp : p ∈ d.nexts) (hbytes : f.bytes = d.fragn p.1 p.2)
    (hj : (s.fragBuf j).len = 0) :
    ((s.put j (fragBufOf s f i j)).counted f i).held i = insert j (s.held i) ∧ j ∉ s.held i := by
  obtain ⟨-, -, -, -, -, hlen, -⟩ := bytes_fragn hp hbytes
  obtain ⟨-, hpos, -⟩ := d.mem_nexts hp
  refine held_put (fragBufOf s f i j) hj rfl ?_
  rw [fragBufOf]
  dsimp only
  omega

/-- Counting a fragment leaves the pieces of the others. -/
theorem piece_counted {j' : Fin b} (hne : j' ≠ j) :
    ((s.put j (fragBufOf s f i j)).counted f i).piece j' = s.piece j' := by
  rw [State.piece, State.piece, State.counted, State.setInfo, put_ne hne]

/-- A later fragment that is stored. -/
theorem Consistent.counted (h : Consistent air current s) (hd : current d.key = some d)
    (hpos : 0 < (s.fragInfo i).len) (hcollected : Collected d s i) (hspent : Spent air d s i)
    {p : ℕ × ℕ} (hp : p ∈ d.nexts) (hbytes : f.bytes = d.fragn p.1 p.2)
    (hnew : ∀ j' ∈ s.held i, s.piece j' ≠ p) (hout : (d, d.fragn p.1 p.2) ∉ air)
    (hj : (s.fragBuf j).len = 0) :
    Consistent air current ((s.put j (fragBufOf s f i j)).counted f i) ∧
      Collected d ((s.put j (fragBufOf s f i j)).counted f i) i ∧
      Spent air d ((s.put j (fragBufOf s f i j)).counted f i) i := by
  obtain ⟨-, -, -, -, hoffset, hlen, hread⟩ := bytes_fragn hp hbytes
  -- The fragment is the piece `p`, which the context does not have yet.
  have hsize : f.datalen - 5 = p.2 := by omega
  have hput := hcollected.put (fragBufOf s f i j) hj rfl hp
    (by rw [fragBufOf, hoffset, hsize]) (by
      have hself := Memory.read_write_self (s.fragBuf j).data 0 (f.pb.read 5 p.2)
      rw [Memory.length_read] at hself
      rw [fragBufOf, hsize, hself, hread]) hnew
  have hle := hput.le_length
  rw [setInfo_self] at hle
  -- So the sum of the pieces is within the packet, and does not wrap.
  have hcut : ((s.fragInfo i).reassembledLen + (f.datalen - 5)) % 2 ^ 16 =
      (s.fragInfo i).reassembledLen + p.2 := by
    rw [hsize]
    exact Nat.mod_eq_of_lt (hle.trans_lt (d.length_lt.trans (by decide)))
  have heq : (s.put j (fragBufOf s f i j)).counted f i =
      (s.put j (fragBufOf s f i j)).setInfo i { s.fragInfo i with
        reassembledLen := (s.fragInfo i).reassembledLen + p.2 } := by
    rw [← hcut]
    rfl
  have hspent' : Spent air d ((s.put j (fragBufOf s f i j)).counted f i) i := by
    obtain ⟨hheld, hnot⟩ := held_fragBufOf (i := i) hp hbytes hj
    refine ⟨hspent.first, fun j' hj' => ?_⟩
    rw [hheld] at hj'
    rcases Finset.mem_insert.mp hj' with rfl | hj'
    · change (d, d.fragn ((s.put j' _).piece j').1 ((s.put j' _).piece j').2) ∉ air
      rw [piece_fragBufOf hp hbytes]
      exact hout
    · rw [piece_counted (ne_of_mem_of_not_mem hj' hnot)]
      exact hspent.nexts j' hj'
  rw [heq] at hspent' ⊢
  refine ⟨⟨fun k => ?_, h.apart.of_info fun k hk => ?_⟩, hput, hspent'⟩
  · by_cases hki : k = i
    · subst hki
      exact .inr ⟨d, hd, hput, hspent'⟩
    · have hkept := (kept_put (fragBufOf s f i j) hj rfl hki).trans (kept_setInfo
        { s.fragInfo i with reassembledLen := (s.fragInfo i).reassembledLen + p.2 } hki)
      rcases h.contexts k with hempty | ⟨d', hd', hcollected', hspent'⟩
      · exact .inl (hempty.kept hkept)
      · exact .inr ⟨d', hd', hcollected'.kept hkept, hspent'.kept hkept⟩
  · by_cases hki : k = i
    · subst hki
      rw [setInfo_self]
      exact ⟨hpos, rfl, rfl⟩
    · rw [setInfo_ne hki] at hk ⊢
      exact ⟨hk, rfl, rfl⟩

/-- All fragments came. -/
theorem Collected.full (h : Collected d s k) (hall : ∀ p ∈ d.nexts, ∃ j ∈ s.held k, s.piece j = p) :
    (s.fragInfo k).reassembledLen = d.packet.length := by
  have hsum := sum_of_all d.nodup_nexts.of_map h.nexts h.once hall
  have hfirst := d.firstLen_lt
  rw [d.sum_nexts] at hsum
  rw [h.count]
  omega

/-- What was collected fits the packet buffer. -/
theorem Collected.storedFits (h : Collected d s k) : s.StoredFits k := by
  have hroom := d.length_le
  have hfirst := d.firstLen_lt
  refine ⟨?_, fun j hj => ?_⟩
  · rw [h.firstLen]
    omega
  · obtain ⟨-, -, -, htotal, -⟩ := d.mem_nexts (h.nexts j (mem_held.mpr hj))
    exact htotal.trans hroom

/-- A later fragment keeps inside the arrays. -/
theorem Consistent.nextFits (h : Consistent air current s) (hd : current d.key = some d)
    (hsender : f.sender = d.sender) {p : ℕ × ℕ} (hp : p ∈ d.nexts)
    (hbytes : f.bytes = d.fragn p.1 p.2) : NextFits env f s := by
  obtain ⟨-, -, -, htag, hoffset, hlen, -⟩ := bytes_fragn hp hbytes
  obtain ⟨-, -, hfits, -, -⟩ := d.mem_nexts hp
  refine ⟨by omega, fun hzero => absurd hzero (offset_ne_zero hp hoffset),
    fun _ i hi _ => ⟨by omega, fun _ => ?_⟩⟩
  rw [htag] at hi
  exact (h.found hd hsender hi).2.1.storedFits

/-- No context is for a packet with this sender and tag. -/
def State.Unused (s : State c b) (d : Datagram) : Prop :=
  ∀ k, 0 < (s.fragInfo k).len →
    ¬((s.fragInfo k).sender = d.sender ∧ (s.fragInfo k).tag = d.fragTag)

instance (s : State c b) (d : Datagram) : Decidable (s.Unused d) :=
  inferInstanceAs (Decidable (∀ _, _ → ¬_))

/-- What a packet that is delivered leaves: no context is for it, and none of its fragments is on
its way. -/
structure Over (air : List (Datagram × List UInt8)) (d : Datagram) (s : State c b) : Prop where
  contexts : s.Unused d
  air : (d, d.frag1) ∉ air ∧ ∀ p ∈ d.nexts, (d, d.fragn p.1 p.2) ∉ air

/-- A packet with all its fragments is put together and given up. -/
theorem Consistent.complete (h : Consistent air current s) (hcollected : Collected d s k)
    (hspent : Spent air d s k) (hlen : d.packet.length ≤ (s.fragInfo k).reassembledLen)
    (hr : Gives (s.copyFrags2uip k) s') :
    Consistent air current s' ∧ s'.uipBuf.read 0 d.packet.length = d.packet ∧ Over air d s' := by
  obtain ⟨hclears, hempty, hread⟩ := copyFrags2uip_complete hcollected hlen hr
  refine ⟨h.clears hclears, hread, fun k' hk' hkey => ?_, hspent.first, fun p hp => ?_⟩
  · rcases hclears k' with hkept | hempty'
    · rw [hkept.info] at hk' hkey
      have hlt := d.firstLen_lt
      obtain rfl := h.apart k' k hk' (by rw [hcollected.len]; omega)
        (hkey.1.trans hcollected.sender.symm) (hkey.2.trans hcollected.tag.symm)
      rw [← hkept.info, hempty.1] at hk'
      exact hk'.ne rfl
    · exact hk'.ne' hempty'.1
  · obtain ⟨j, hj, rfl⟩ := hcollected.complete hlen p hp
    exact hspent.nexts j hj

/-- A later fragment of a packet. When it was the last one that was missing, the packet is
delivered. -/
theorem Consistent.next (h : Consistent air current s) (hd : current d.key = some d)
    (hsender : f.sender = d.sender) {p : ℕ × ℕ} (hp : p ∈ d.nexts)
    (hbytes : f.bytes = d.fragn p.1 p.2) (hair : (d, d.fragn p.1 p.2) ∈ air) (hsub : air' ⊆ air)
    (hout : (d, d.fragn p.1 p.2) ∉ air') {r : State c b × Option ℕ}
    (hr : Gives (inputNext env f s) r) :
    Consistent air' current r.1 ∧
      (∀ len ∈ r.2, r.1.uipBuf.read 0 len = d.packet ∧ Over air' d r.1) ∧
      ∀ i ∈ s.findContext f d.fragTag, s.CanStore env i →
        (∀ q ∈ d.nexts, q ≠ p → ∃ j ∈ s.held i, s.piece j = q) → r.2 = some d.packet.length := by
  obtain ⟨-, -, hfragSize, htag, hoffset, hlen, -⟩ := bytes_fragn hp hbytes
  obtain ⟨-, hpos, hfits, htotal, -⟩ := d.mem_nexts hp
  have hroom := d.length_le
  rw [inputNext] at hr
  obtain ⟨-, -, hr⟩ := ends_bind.mp hr
  obtain ⟨-, -, hr⟩ := ends_bind.mp hr
  obtain ⟨-, -, hr⟩ := ends_bind.mp hr
  obtain ⟨⟨s', o⟩, hadd, hr⟩ := ends_bind.mp hr
  rw [htag, State.addFragment_ne (offset_ne_zero hp hoffset)] at hadd
  rcases addNext_cases (by omega) hadd with ⟨hnone, heq⟩ | ⟨i, s₁, hfound, hclears, hkept, heq⟩
  · cases heq
    obtain rfl := ends_pure.mp hr
    refine ⟨h.mono hsub, nofun, fun i hi => ?_⟩
    rw [hnone] at hi
    cases hi
  have h₁ := (h.clears hclears).mono hsub
  rcases heq with heq | ⟨j, hj, heq⟩
  · cases heq
    obtain rfl := ends_pure.mp hr
    refine ⟨h₁, nofun, fun i' hi' hstore => ?_⟩
    -- a buffer would have been found
    obtain ⟨t, -, hends⟩ := addNext_stored (f.pb 4) hi' (by omega) hstore (by omega)
    rw [if_pos (by omega)] at hends
    cases hadd.unique (hends.mono fun _ _ => trivial)
  · cases heq
    obtain ⟨hlive, hcollected, hspent⟩ := h.found hd hsender hfound
    obtain ⟨hheld, hpiece⟩ := held_kept hkept
    -- what the context has is not on its way any more, and this fragment was
    have hold : ∀ j' ∈ s₁.held i, s₁.piece j' ≠ p := by
      intro j' hj' heq
      rw [hheld] at hj'
      rw [hpiece j' hj'] at heq
      subst heq
      exact hspent.nexts j' hj' hair
    obtain ⟨h₂, hcollected₂, hspent₂⟩ := h₁.counted hd (hkept.info ▸ hlive)
      (hcollected.kept hkept) ((hspent.kept hkept).mono hsub) hp hbytes hold hout hj
    dsimp only at hr
    rw [if_neg (by omega), if_neg (by omega), hfragSize] at hr
    split at hr
    · next hcomplete =>
      rw [if_pos (by omega)] at hr
      obtain ⟨t, hcopy, hr⟩ := ends_bind.mp hr
      obtain rfl := ends_pure.mp hr
      rw [hcollected₂.setInfo_length hcomplete] at hcopy
      obtain ⟨h₃, hread, hover⟩ := h₂.complete hcollected₂ hspent₂ hcomplete hcopy
      refine ⟨h₃, fun len hlen => ?_, fun _ _ _ _ => rfl⟩
      obtain rfl := Option.some.inj hlen
      exact ⟨hread, hover⟩
    · next hincomplete =>
      obtain rfl := ends_pure.mp hr
      refine ⟨h₂, nofun, fun i' hi' _ hall => absurd ?_ hincomplete⟩
      obtain rfl : i = i' := Option.some.inj (hfound.symm.trans hi')
      refine (hcollected₂.full fun q hq => ?_).ge
      obtain ⟨hheld', hnot⟩ := held_fragBufOf (i := i) hp hbytes hj
      rw [hheld']
      by_cases hqp : q = p
      · subst hqp
        exact ⟨j, Finset.mem_insert_self .., piece_fragBufOf hp hbytes⟩
      · obtain ⟨j', hj', heq⟩ := hall q hq hqp
        rw [← hheld] at hj'
        refine ⟨j', Finset.mem_insert_of_mem hj', ?_⟩
        rw [piece_counted (ne_of_mem_of_not_mem hj' hnot), hpiece j' (hheld ▸ hj'), heq]

/-! ### A first fragment, and frames that are no fragments -/

/-- The header in a first fragment is uncompressed to what it was before. -/
def Opens (env : Env) (f : Frame) (d : Datagram) (buf : Memory) : Prop :=
  ∃ u ∈ inputHeaders env.contexts f.pb f.datalen f.sender f.receiver 4 buf d.packet.length,
    u.packetbufHdrLen = frag1HdrLen + d.hdr.length ∧ u.uncompHdrLen = d.uncompHdrLen ∧
      u.buf.read 0 d.uncompHdrLen = d.packet.take d.uncompHdrLen

instance (env : Env) (f : Frame) (d : Datagram) (buf : Memory) : Decidable (Opens env f d buf) :=
  inferInstanceAs (Decidable (∃ u ∈ _, _))

/-- What is copied behind the header. -/
theorem withPayload_frag1 (hbytes : f.bytes = d.frag1) {u : Uncompressed}
    (hpacketbuf : u.packetbufHdrLen = frag1HdrLen + d.hdr.length)
    (huncomp : u.uncompHdrLen = d.uncompHdrLen)
    (hhdr : u.buf.read 0 d.uncompHdrLen = d.packet.take d.uncompHdrLen) :
    (withPayload f u).1.read 0 d.firstLen = d.packet.take d.firstLen ∧
      (withPayload f u).2 = some d.firstLen := by
  obtain ⟨-, -, -, -, hlen, hread⟩ := bytes_frag1 hbytes
  have hroom := d.length_le
  have hfirst := d.firstLen_lt
  have huncompLe : d.uncompHdrLen ≤ d.firstLen := Nat.le_add_right _ _
  have hsum : d.uncompHdrLen + (d.firstLen - d.uncompHdrLen) = d.firstLen :=
    Nat.add_sub_cancel' huncompLe
  have hsize : f.datalen - u.packetbufHdrLen = d.firstLen - d.uncompHdrLen := by omega
  rw [withPayload, if_neg (by omega), hsize, huncomp, hsum, hpacketbuf, hread]
  refine ⟨?_, rfl⟩
  have hlength : ((d.packet.drop d.uncompHdrLen).take (d.firstLen - d.uncompHdrLen)).length =
      d.firstLen - d.uncompHdrLen := by
    rw [List.length_take, List.length_drop]
    omega
  have hself := Memory.read_write_self u.buf d.uncompHdrLen
    ((d.packet.drop d.uncompHdrLen).take (d.firstLen - d.uncompHdrLen))
  rw [hlength] at hself
  dsimp only
  rw [← hsum, Memory.read_append, Memory.read_write_below (by omega), hhdr, Nat.zero_add, hsum,
    hself, ← List.take_add, hsum]

/-- What a context has of a packet behind the first fragment. -/
structure Opened (d : Datagram) (info : FragInfo) : Prop where
  sender : info.sender = d.sender
  tag : info.tag = d.fragTag
  len : info.len = d.packet.length
  firstLen : info.firstFragLen = d.firstLen
  first : info.firstFrag.read 0 d.firstLen = d.packet.take d.firstLen
  count : info.reassembledLen = d.firstLen

/-- An empty context has no buffers, whatever is written about it. -/
theorem held_setInfo_empty (h : s.Empty k) (info : FragInfo) : (s.setInfo k info).held k = ∅ := by
  ext j
  rw [mem_held]
  exact iff_of_false (h.2 j) (Finset.notMem_empty j)

/-- A context that was opened for a packet has collected its first fragment. -/
theorem Opened.collected {info : FragInfo} (hinfo : Opened d info) (hempty : s.Empty k) :
    Collected d (s.setInfo k info) k := by
  have hheld := held_setInfo_empty hempty info
  refine ⟨?_, ?_, ?_, ?_, ?_, ?_, ?_, ?_, ?_⟩
  · rw [setInfo_self, hinfo.sender]
  · rw [setInfo_self, hinfo.tag]
  · rw [setInfo_self, hinfo.len]
  · rw [setInfo_self, hinfo.firstLen]
  · rw [setInfo_self, hinfo.first]
  · rw [hheld]
    exact fun j hj => absurd hj (Finset.notMem_empty j)
  · rw [hheld]
    exact fun j hj => absurd hj (Finset.notMem_empty j)
  · rw [hheld, Finset.coe_empty]
    exact Set.injOn_empty _
  · rw [hheld, Finset.sum_empty, setInfo_self, hinfo.count, Nat.add_zero]

/-- A context is taken for a packet that no other context is for. -/
theorem Consistent.opened (h : Consistent air current s) (hd : current d.key = some d)
    (hempty : s.Empty i) (hout : (d, d.frag1) ∉ air) {info : FragInfo} (hinfo : Opened d info)
    (hunused : s.Unused d) : Consistent air current (s.setInfo i info) := by
  have hlt := d.firstLen_lt
  constructor
  · intro k
    by_cases hki : k = i
    · subst hki
      refine .inr ⟨d, hd, hinfo.collected hempty, hout, ?_⟩
      rw [held_setInfo_empty hempty]
      exact fun j hj => absurd hj (Finset.notMem_empty j)
    · rcases h.contexts k with hempty' | ⟨d', hd', hcollected, hspent⟩
      · exact .inl (hempty'.kept (kept_setInfo info hki))
      · exact .inr ⟨d', hd', hcollected.kept (kept_setInfo info hki),
          hspent.kept (kept_setInfo info hki)⟩
  · intro k k' hk hk' hsender htag
    by_cases hki : k = i <;> by_cases hki' : k' = i
    · rw [hki, hki']
    · rw [setInfo_ne hki'] at hk' hsender htag
      rw [hki, setInfo_self] at hsender htag
      exact absurd ⟨hsender.symm.trans hinfo.sender, htag.symm.trans hinfo.tag⟩ (hunused k' hk')
    · rw [setInfo_ne hki] at hk hsender htag
      rw [hki', setInfo_self] at hsender htag
      exact absurd ⟨hsender.trans hinfo.sender, htag.trans hinfo.tag⟩ (hunused k hk)
    · rw [setInfo_ne hki] at hk hsender htag
      rw [setInfo_ne hki'] at hk' hsender htag
      exact h.apart k k' hk hk' hsender htag

/-- What `add_fragment` makes of a context for a first fragment. -/
def takenInfo (env : Env) (f : Frame) (d : Datagram) (info : FragInfo) : FragInfo :=
  { info with
    len := d.packet.length
    tag := d.fragTag
    sender := f.sender
    reassTimer := ⟨env.clockTime % env.clockRange, env.reassTime⟩ }

/-- The first fragment of a packet. -/
theorem Consistent.first (h : Consistent air current s) (hd : current d.key = some d)
    (hsender : f.sender = d.sender) (hbytes : f.bytes = d.frag1) (hair : (d, d.frag1) ∈ air)
    (hsub : air' ⊆ air) (hout : (d, d.frag1) ∉ air')
    (hopens : ∀ i ∈ (s.addFirst env f d.fragTag d.packet.length).2,
      Opens env f d ((s.addFirst env f d.fragTag d.packet.length).1.fragInfo i).firstFrag)
    {r : State c b × Option ℕ} (hr : Gives (inputFirst env f s) r) :
    Consistent air' current r.1 ∧ r.2 = none := by
  obtain ⟨-, -, hfragSize, htag, -, -⟩ := bytes_frag1 hbytes
  have hlt := d.firstLen_lt
  rw [inputFirst] at hr
  obtain ⟨-, -, hr⟩ := ends_bind.mp hr
  obtain ⟨-, -, hr⟩ := ends_bind.mp hr
  obtain ⟨taken, hadded, hr⟩ := ends_bind.mp hr
  rw [hfragSize, htag, State.addFragment_zero] at hadded
  obtain rfl := ends_pure.mp hadded
  rw [hfragSize] at hr
  dsimp only at hr
  have h₁ := h.clears (clears_findFree env (List.finRange c) (s, none))
  have hfree := (findFree_loop env (List.finRange c) (s, none) nofun).1
  cases hloop : (List.finRange c).foldl (State.findFree env) (s, none) with
  | mk s₁ o =>
    rw [hloop] at hfree h₁
    cases o with
    | none =>
      have hadd : s.addFirst env f d.fragTag d.packet.length = (s₁, none) := by
        rw [State.addFirst, hloop]
      rw [hadd] at hr
      obtain rfl := ends_pure.mp hr
      exact ⟨h₁.mono hsub, rfl⟩
    | some i =>
      have hempty : s₁.Empty i := by
        rcases h₁.contexts i with hempty | ⟨d', -, hcollected, -⟩
        · exact hempty
        · have hzero := hcollected.len.symm.trans (hfree i rfl)
          have hlt' := d'.firstLen_lt
          omega
      -- a context in use for the packet would have its first fragment, which is on its way
      have hunused : s₁.Unused d := fun k hk hkey => (h₁.collected hd hk hkey.1 hkey.2).2.first hair
      have hadd : s.addFirst env f d.fragTag d.packet.length =
          (s₁.setInfo i (takenInfo env f d (s₁.fragInfo i)), some i) := by
        rw [State.addFirst, hloop]
        rfl
      rw [hadd] at hr hopens
      have hopens := hopens i rfl
      dsimp only at hr hopens
      rw [setInfo_self] at hr hopens
      obtain ⟨u, hu, hpacketbuf, huncomp, hhdr⟩ := hopens
      obtain ⟨_, hheaders, hr⟩ := ends_bind.mp hr
      obtain rfl := gives_readHeaders.unique hheaders
      rw [hu] at hr
      obtain ⟨_, hcopy, hr⟩ := ends_bind.mp hr
      obtain rfl := (gives_copyPayload u).unique hcopy
      obtain ⟨hread, hlen⟩ := withPayload_frag1 hbytes hpacketbuf huncomp hhdr
      rw [hlen] at hr
      dsimp only at hr
      rw [if_pos (by omega), setInfo_setInfo] at hr
      obtain rfl := ends_pure.mp hr
      exact ⟨(h₁.mono hsub).opened hd hempty hout ⟨hsender, rfl, rfl, rfl, hread, rfl⟩ hunused, rfl⟩

/-- A frame that is no fragment changes `uip_buf` at most. -/
theorem inputWhole_kept {r : State c b × Option ℕ} (hr : Gives (inputWhole env f s) r) :
    r.1.fragInfo = s.fragInfo ∧ r.1.fragBuf = s.fragBuf := by
  obtain rfl := (gives_inputWhole env).unique hr
  cases inputHeaders env.contexts f.pb f.datalen f.sender f.receiver 0 s.uipBuf 0 with
  | none => exact ⟨rfl, rfl⟩
  | some u => exact ⟨rfl, rfl⟩

end Receiver

/-! ## Network -/

/-- A node, the fragments on their way to it, the packets that were sent, and those that were put
together of fragments and passed on. -/
structure Net (c b : ℕ) where
  node : State c b
  air : List (Datagram × List UInt8)
  sent : List Datagram
  delivered : List (Linkaddr × List UInt8)

/-- What happens in the network. -/
inductive NetEvent
  /-- A node sends a packet. -/
  | send (d : Datagram)
  | lose (x : Datagram × List UInt8)
  /-- A fragment comes twice. -/
  | again (x : Datagram × List UInt8)
  /-- The node gets a fragment of a packet. -/
  | receive (env : Env) (f : Frame) (d : Datagram)
  /-- The node gets a frame that is no fragment. -/
  | receiveWhole (env : Env) (f : Frame)

section Network

variable {c b : ℕ}

/-- One step of the network. -/
def Net.step (n : Net c b) : NetEvent → Option (Net c b)
  | .send d => d.output.map fun frames =>
    { n with air := n.air ++ frames.map (d, ·), sent := n.sent ++ [d] }
  | .lose x => if x ∈ n.air then some { n with air := n.air.erase x } else none
  | .again x => if x ∈ n.air then some { n with air := x :: n.air } else none
  | .receive env f d =>
    if (d, f.bytes) ∈ n.air ∧ f.sender = d.sender then
      (input env f n.node).value.map fun r =>
        { n with
          node := r.1
          air := n.air.erase (d, f.bytes)
          delivered := n.delivered ++
            (r.2.map fun len => (f.sender, r.1.uipBuf.read 0 len)).toList }
    else none
  | .receiveWhole env f =>
    if f.IsFirst ∨ f.IsNext then none
    else (input env f n.node).value.map fun r => { n with node := r.1 }

/-- A sender takes a tag that neither a context of the node nor a fragment on its way has, no
fragment comes twice, and headers are uncompressed to what they were. -/
def Proper (n : Net c b) : NetEvent → Prop
  | .send d => n.node.Unused d ∧ ∀ x ∈ n.air, x.1.key ≠ d.key
  | .again _ => False
  | .receive env f d => f.bytes = d.frag1 →
    ∀ i ∈ (n.node.addFirst env f d.fragTag d.packet.length).2,
      Opens env f d ((n.node.addFirst env f d.fragTag d.packet.length).1.fragInfo i).firstFrag
  | .lose _ | .receiveWhole _ _ => True

/-- What every run makes sure of. -/
structure Sound (n : Net c b) : Prop where
  /-- What is delivered was sent, and no more often. -/
  delivered : n.delivered.Subperm (n.sent.map fun d => (d.sender, d.packet))
  /-- Later fragments are handled inside the arrays. -/
  safe : ∀ env f d, (d, f.bytes) ∈ n.air → f.sender = d.sender → f.IsNext →
    Fine (Access.Ok f.datalen) (input env f n.node)
  /-- When the last fragment that is missing finds a buffer the packet is delivered. -/
  complete : ∀ env f d, (d, f.bytes) ∈ n.air → f.sender = d.sender → f.IsNext →
    ∀ i ∈ n.node.findContext f d.fragTag, n.node.CanStore env i →
      (∀ p ∈ d.nexts, f.bytes ≠ d.fragn p.1 p.2 → ∃ j ∈ n.node.held i, n.node.piece j = p) →
        ∃ n', n.step (.receive env f d) = some n' ∧
          n'.delivered = n.delivered ++ [(d.sender, d.packet)]

section Input

variable {s : State c b} {env : Env} {f : Frame} {r : State c b × Option ℕ}

/-- `input` by the kind of the frame. -/
theorem gives_input : Gives (input env f s) r ↔ Gives (if f.IsFirst then inputFirst env f s
    else if f.IsNext then inputNext env f s else inputWhole env f s) r := by
  rw [Gives, input, ends_bind]
  exact ⟨fun ⟨_, _, h⟩ => h, fun h => ⟨(), ends_touch.mpr trivial, h⟩⟩

end Input

/-- A network with the packets that may still be delivered. -/
structure Net.Inv (n : Net c b) (current : Linkaddr × ℕ → Option Datagram)
    (pending : List Datagram) : Prop where
  consistent : Consistent n.air current n.node
  nodup : n.air.Nodup
  air : ∀ x ∈ n.air, current x.1.key = some x.1 ∧ x.1.Part x.2
  mem_pending : ∀ key d, current key = some d → d.key = key ∧ d ∈ pending
  ledger : (n.delivered ++ pending.map Datagram.entry).Perm (n.sent.map Datagram.entry)

namespace Net.Inv

variable {n n' : Net c b} {current : Linkaddr × ℕ → Option Datagram} {pending : List Datagram}
  {d : Datagram} {env : Env} {f : Frame}

/-- A packet is sent, under a tag that is not in use. -/
theorem send (h : n.Inv current pending) (hunused : n.node.Unused d)
    (hair : ∀ x ∈ n.air, x.1.key ≠ d.key) {frames : List (List UInt8)}
    (hframes : d.output = some frames) :
    Inv { n with air := n.air ++ frames.map (d, ·), sent := n.sent ++ [d] }
      (Function.update current d.key (some d)) (pending ++ [d]) := by
  have hparts : ∀ x ∈ frames.map ((d, ·) : List UInt8 → _), x.1 = d ∧ d.Part x.2 := by
    intro x hx
    obtain ⟨bytes, hbytes, rfl⟩ := List.mem_map.mp hx
    exact ⟨rfl, (d.mem_output hframes).mp hbytes⟩
  -- the tag is not in use, so what is known about the packets before is not touched
  refine ⟨⟨fun k => ?_, h.consistent.apart⟩, ?_, fun x hx => ?_, fun key d' hd' => ?_, ?_⟩
  · rcases h.consistent.contexts k with hempty | ⟨d', hd', hcollected, hspent⟩
    · exact .inl hempty
    · have hlt := d'.firstLen_lt
      have hkey : d'.key ≠ d.key := by
        intro hkey
        refine hunused k (by rw [hcollected.len]; omega) ?_
        rw [hcollected.sender, hcollected.tag]
        exact Prod.mk.inj hkey
      have hnew : ∀ bytes, (d', bytes) ∉ frames.map ((d, ·) : List UInt8 → _) := by
        intro bytes hmem
        have heq : d' = d := (hparts _ hmem).1
        exact hkey (congrArg Datagram.key heq)
      refine .inr ⟨d', by rw [Function.update_of_ne hkey, hd'], hcollected, ?_, fun j hj => ?_⟩
      · exact List.not_mem_append hspent.first (hnew _)
      · exact List.not_mem_append (hspent.nexts j hj) (hnew _)
  · refine h.nodup.append ((d.nodup_output hframes).map (Prod.mk_right_injective d)) ?_
    intro x hx hx'
    exact hair x hx (congrArg Datagram.key (hparts x hx').1)
  · rcases List.mem_append.mp hx with hx | hx
    · rw [Function.update_of_ne (hair x hx)]
      exact h.air x hx
    · obtain ⟨heq, hpart⟩ := hparts x hx
      rw [heq, Function.update_self]
      exact ⟨rfl, hpart⟩
  · by_cases hkey : key = d.key
    · rw [hkey, Function.update_self] at hd'
      obtain rfl := Option.some.inj hd'
      exact ⟨hkey.symm, List.mem_append_right pending List.mem_cons_self⟩
    · rw [Function.update_of_ne hkey] at hd'
      obtain ⟨hkey', hmem⟩ := h.mem_pending key d' hd'
      exact ⟨hkey', List.mem_append_left [d] hmem⟩
  · rw [List.map_append, List.map_append, ← List.append_assoc]
    exact h.ledger.append_right _

/-- Fewer fragments on their way. -/
theorem erase (h : n.Inv current pending) (x : Datagram × List UInt8) {node : State c b}
    (hnode : Consistent (n.air.erase x) current node) :
    Inv { n with node := node, air := n.air.erase x } current pending where
  consistent := hnode
  nodup := h.nodup.erase x
  air y hy := h.air y (List.mem_of_mem_erase hy)
  mem_pending := h.mem_pending
  ledger := h.ledger

/-- A packet that is delivered. -/
theorem deliver (h : n.Inv current pending) (hd : current d.key = some d)
    (hover : Over n.air d n.node) :
    Inv { n with delivered := n.delivered ++ [d.entry] }
      (Function.update current d.key none) (pending.erase d) := by
  obtain ⟨-, hmem⟩ := h.mem_pending d.key d hd
  have hkey : ∀ {d'}, current d'.key = some d' → d' ≠ d → d'.key ≠ d.key := by
    intro d' hd' hne hkey
    rw [hkey, hd] at hd'
    exact hne (Option.some.inj hd').symm
  -- nothing of the packet is left, so its tag is free for another one
  refine ⟨⟨fun k => ?_, h.consistent.apart⟩, h.nodup, fun x hx => ?_, fun key d' hd' => ?_, ?_⟩
  · rcases h.consistent.contexts k with hempty | ⟨d', hd', hcollected, hspent⟩
    · exact .inl hempty
    · have hlt := d'.firstLen_lt
      have hne : d' ≠ d := by
        rintro rfl
        exact hover.contexts k (by rw [hcollected.len]; omega)
          ⟨hcollected.sender, hcollected.tag⟩
      exact .inr ⟨d', by rw [Function.update_of_ne (hkey hd' hne), hd'], hcollected, hspent⟩
  · obtain ⟨hcurrent, hpart⟩ := h.air x hx
    have hne : x.1 ≠ d := by
      obtain ⟨d', bytes⟩ := x
      intro heq
      dsimp only at heq hpart
      subst heq
      rcases hpart with rfl | ⟨p, hp, rfl⟩
      · exact hover.air.1 hx
      · exact hover.air.2 p hp hx
    rw [Function.update_of_ne (hkey hcurrent hne)]
    exact ⟨hcurrent, hpart⟩
  · by_cases hkey' : key = d.key
    · rw [hkey', Function.update_self] at hd'
      cases hd'
    · rw [Function.update_of_ne hkey'] at hd'
      obtain ⟨heq, hmem'⟩ := h.mem_pending key d' hd'
      refine ⟨heq, (List.mem_erase_of_ne ?_).mpr hmem'⟩
      rintro rfl
      exact hkey' heq.symm
  · refine List.Perm.trans ?_ h.ledger
    have hperm := (List.perm_cons_erase hmem).map Datagram.entry
    rw [List.append_assoc]
    exact hperm.symm.append_left n.delivered

/-- A fragment that is received. -/
theorem receive (h : n.Inv current pending) (hok : Proper n (.receive env f d))
    (hair : (d, f.bytes) ∈ n.air) (hsender : f.sender = d.sender) {r : State c b × Option ℕ}
    (hr : Gives (input env f n.node) r) :
    ∃ current' pending', Inv { n with
      node := r.1
      air := n.air.erase (d, f.bytes)
      delivered := n.delivered ++
        (r.2.map fun len => (f.sender, r.1.uipBuf.read 0 len)).toList } current' pending' := by
  obtain ⟨hd, hpart⟩ : current d.key = some d ∧ d.Part f.bytes := h.air _ hair
  have hsub : n.air.erase (d, f.bytes) ⊆ n.air := List.erase_subset
  have hout : (d, f.bytes) ∉ n.air.erase (d, f.bytes) := h.nodup.not_mem_erase
  rcases hpart with hbytes | ⟨p, hp, hbytes⟩
  · -- a first fragment never completes a packet
    have hfirst := (bytes_frag1 hbytes).1
    have hopens := hok hbytes
    rw [hbytes] at hair hsub hout ⊢
    rw [gives_input, if_pos hfirst] at hr
    obtain ⟨hnode, hnone⟩ :=
      h.consistent.first hd hsender hbytes hair hsub hout hopens hr
    refine ⟨current, pending, ?_⟩
    rw [hnone]
    rw [Option.map_none, Option.toList_none, List.append_nil]
    exact h.erase _ hnode
  · obtain ⟨hnext, hfirst, -⟩ := bytes_fragn hp hbytes
    rw [hbytes] at hair hsub hout ⊢
    rw [gives_input, if_neg hfirst, if_pos hnext] at hr
    obtain ⟨hnode, hlen, -⟩ := h.consistent.next hd hsender hp hbytes hair hsub hout hr
    have hinv := h.erase _ hnode
    cases hlast : r.2 with
    | none =>
      refine ⟨current, pending, ?_⟩
      rw [Option.map_none, Option.toList_none, List.append_nil]
      exact hinv
    | some len =>
      obtain ⟨hread, hover⟩ := hlen len hlast
      refine ⟨Function.update current d.key none, pending.erase d, ?_⟩
      rw [Option.map_some, Option.toList_some, hread, hsender]
      exact hinv.deliver hd hover

/-- One event of the network. -/
theorem step (h : n.Inv current pending) {e : NetEvent} (hok : Proper n e)
    (hstep : n.step e = some n') : ∃ current' pending', n'.Inv current' pending' := by
  cases e with
  | send d =>
    obtain ⟨frames, hframes, rfl⟩ := Option.map_eq_some_iff.mp hstep
    exact ⟨_, _, h.send hok.1 hok.2 hframes⟩
  | lose x =>
    rw [Net.step] at hstep
    split at hstep
    · obtain rfl := Option.some.inj hstep
      exact ⟨current, pending, h.erase x (h.consistent.mono List.erase_subset)⟩
    · cases hstep
  | again x => exact absurd hok id
  | receive env f d =>
    rw [Net.step] at hstep
    split at hstep
    · next hair =>
      obtain ⟨r, hr, rfl⟩ := Option.map_eq_some_iff.mp hstep
      exact h.receive hok hair.1 hair.2 (value_eq_some.mp hr)
    · cases hstep
  | receiveWhole env f =>
    rw [Net.step] at hstep
    split at hstep
    · cases hstep
    · next hwhole =>
      obtain ⟨r, hr, rfl⟩ := Option.map_eq_some_iff.mp hstep
      obtain ⟨hfirst, hnext⟩ := not_or.mp hwhole
      have hgives := gives_input.mp (value_eq_some.mp hr)
      rw [if_neg hfirst, if_neg hnext] at hgives
      obtain ⟨hinfo, hbuf⟩ := inputWhole_kept hgives
      refine ⟨current, pending, ?_, h.nodup, h.air, h.mem_pending, h.ledger⟩
      exact h.consistent.clears fun k => .inl (kept_of_eq hinfo hbuf k)

/-- A later fragment is handled inside the arrays. -/
theorem safe (h : n.Inv current pending) (hair : (d, f.bytes) ∈ n.air)
    (hsender : f.sender = d.sender) (hnext : f.IsNext) :
    Fine (Access.Ok f.datalen) (input env f n.node) := by
  obtain ⟨hd, hpart⟩ : current d.key = some d ∧ d.Part f.bytes := h.air _ hair
  rcases hpart with hbytes | ⟨p, hp, hbytes⟩
  · exact absurd hnext (bytes_frag1 hbytes).2.1
  · obtain ⟨-, hfirst, -, -, -, hlen, -⟩ := bytes_fragn hp hbytes
    have hfits : NextFits env f n.node := h.consistent.nextFits hd hsender hp hbytes
    have hfine := fine_inputNext.mpr hfits
    have hsame : (if f.IsFirst then inputFirst env f n.node
        else if f.IsNext then inputNext env f n.node else inputWhole env f n.node) =
          inputNext env f n.node := by rw [if_neg hfirst, if_pos hnext]
    rw [input, hsame, fine_bind_unit, fine_read, Frame.Has]
    exact ⟨.inr (by omega), hfine⟩

/-- The last missing fragment delivers the packet. -/
theorem complete (h : n.Inv current pending) (hair : (d, f.bytes) ∈ n.air)
    (hsender : f.sender = d.sender) (hnext : f.IsNext) {i : Fin c}
    (hi : i ∈ n.node.findContext f d.fragTag) (hstore : n.node.CanStore env i)
    (hall : ∀ p ∈ d.nexts, f.bytes ≠ d.fragn p.1 p.2 → ∃ j ∈ n.node.held i, n.node.piece j = p) :
    ∃ n', n.step (.receive env f d) = some n' ∧
      n'.delivered = n.delivered ++ [(d.sender, d.packet)] := by
  obtain ⟨hd, hpart⟩ : current d.key = some d ∧ d.Part f.bytes := h.air _ hair
  have hsub : n.air.erase (d, f.bytes) ⊆ n.air := List.erase_subset
  have hout : (d, f.bytes) ∉ n.air.erase (d, f.bytes) := h.nodup.not_mem_erase
  have hpre : (d, f.bytes) ∈ n.air ∧ f.sender = d.sender := ⟨hair, hsender⟩
  rcases hpart with hbytes | ⟨p, hp, hbytes⟩
  · exact absurd hnext (bytes_frag1 hbytes).2.1
  · obtain ⟨-, hfirst, -⟩ := bytes_fragn hp hbytes
    obtain ⟨r, hr⟩ := fine_inputNext_true env (f := f) (s := n.node)
    rw [hbytes] at hair hsub hout
    obtain ⟨-, hlen, hlast⟩ := h.consistent.next hd hsender hp hbytes hair hsub hout hr
    have hsome := hlast i hi hstore fun q hq hne => hall q hq fun heq =>
      hne (Datagram.fragn_inj hp hq (hbytes.symm.trans heq)).symm
    have hvalue : (input env f n.node).value = some r :=
      value_eq_some.mpr (gives_input.mpr (by rwa [if_neg hfirst, if_pos hnext]))
    rw [Net.step, if_pos hpre, hvalue]
    refine ⟨_, rfl, ?_⟩
    have hread := (hlen d.packet.length hsome).1
    dsimp only
    rw [hsome, Option.map_some, Option.toList_some, hread, hsender]

theorem sound (h : n.Inv current pending) : Sound n where
  delivered := (List.sublist_append_left n.delivered _).subperm.trans h.ledger.subperm
  safe _ _ _ := h.safe
  complete _ _ _ := h.complete

end Net.Inv

/-- A node with no packets in its contexts. -/
def Net.initial (s : State c b) : Net c b := ⟨s, [], [], []⟩

/-- At first every context is empty. -/
theorem Net.Inv.initial {s : State c b} (hs : ∀ k, s.Empty k) :
    (Net.initial s).Inv (fun _ => none) [] where
  consistent := ⟨fun k => .inl (hs k), fun k _ hk => absurd (hs k).1 hk.ne'⟩
  nodup := .nil
  air _ hx := absurd hx List.not_mem_nil
  mem_pending _ _ hd := absurd hd.symm (Option.some_ne_none _)
  ledger := .refl _

/-- However fragments are lost, delayed and mixed, what is delivered was sent. -/
theorem fragments_sound {s : State c b} {n : Net c b} (hs : ∀ k, s.Empty k)
    (hrun : Run Net.step Proper (Net.initial s) n) : Sound n := by
  obtain ⟨current, pending, hinv⟩ : ∃ current pending, n.Inv current pending :=
    hrun.invariant (I := fun n => ∃ current pending, n.Inv current pending)
      (fun _ _ _ ⟨_, _, h⟩ hok hstep => h.step hok hstep) ⟨_, _, .initial hs⟩
  exact hinv.sound

instance (n : Net c b) : ∀ e, Decidable (Proper n e)
  | .send _ => inferInstanceAs (Decidable (_ ∧ ∀ x ∈ _, _))
  | .again _ => isFalse id
  | .receive _ _ _ => inferInstanceAs (Decidable (_ → ∀ i ∈ _, Opens ..))
  | .lose _ | .receiveWhole _ _ => isTrue trivial

/-! ### A packet in three fragments -/

/-- A packet of 81 bytes with a header that is not compressed. -/
def threeFragments : Datagram where
  sender := linkaddrNull
  fragTag := 0
  packet := (List.range 81).map UInt8.ofNat
  hdr := 0x41 :: (List.range 40).map UInt8.ofNat
  uncompHdrLen := 40
  maxPayload := 45
  fragTag_lt := by decide
  length_le := by decide
  aligned := by decide
  iphLen_le := by decide
  large := by decide
  hdr_le := by decide
  eight_le := by decide
  payload_le := by decide

/-- Its fragments. -/
def threeBytes : Fin 3 → List UInt8
  | 0 => threeFragments.frag1
  | 1 => threeFragments.fragn 40 40
  | 2 => threeFragments.fragn 80 1

/-- The packets of the example fit. -/
theorem length_threeBytes :
    ∀ i, 0 < (threeBytes i).length ∧ (threeBytes i).length ≤ packetbufSize := by decide

/-- A frame with one of the fragments. -/
def threeFrame (i : Fin 3) : Frame where
  pb p := (threeBytes i).getD p 0
  datalen := (threeBytes i).length
  datalen_pos := (length_threeBytes i).1
  datalen_le := (length_threeBytes i).2
  sender := linkaddrNull
  receiver := linkaddrNull

/-- A node that has received nothing. -/
def idle : State 1 3 where
  fragInfo _ := ⟨linkaddrNull, 0, 0, 0, ⟨0, 0⟩, 0, fun _ => 0⟩
  fragBuf _ := ⟨0, 0, 0, fun _ => 0⟩
  uipBuf _ := 0

theorem nil_number_lt : ∀ c ∈ ([] : List AddrContext), c.used = true → c.number.toNat < 16 := by
  simp

theorem nil_number_inj : ∀ c ∈ ([] : List AddrContext), ∀ c' ∈ ([] : List AddrContext),
    c.used = true → c'.used = true → c.number = c'.number → c = c' := by
  simp

theorem one_lt_idleRange : 1 < 65536 := by decide

theorem idleTime_pos : 0 < 64 := by decide

/-- Its clock. -/
def idleEnv : Env :=
  ⟨⟨[], nil_number_lt, nil_number_inj⟩, 0, 65536, 64, one_lt_idleRange, idleTime_pos⟩

theorem idle_empty (k : Fin 1) : idle.Empty k := ⟨rfl, fun _ hj => absurd hj.1 (lt_irrefl 0)⟩

/-- The last fragment comes before the second one. -/
theorem fragments_sound_three : ∃ n, Run Net.step Proper (Net.initial idle) n ∧
    n.delivered = [threeFragments.entry] ∧ Sound n := by
  obtain ⟨n, hrun, hdelivered⟩ := exists_run_of_runEvents Net.step Proper (Net.initial idle)
    (.send threeFragments :: [0, 2, 1].map fun i => .receive idleEnv (threeFrame i) threeFragments)
    (fun n => n.delivered = [threeFragments.entry]) (by decide +kernel)
  exact ⟨n, hrun, hdelivered, fragments_sound idle_empty hrun⟩

/-- Where fragments may come twice. -/
def Repeats (n : Net c b) : NetEvent → Prop
  | .again _ => True
  | e => Proper n e

instance (n : Net c b) : ∀ e, Decidable (Repeats n e)
  | .again _ => isTrue trivial
  | .send d => inferInstanceAs (Decidable (Proper n (.send d)))
  | .receive env f d => inferInstanceAs (Decidable (Proper n (.receive env f d)))
  | .lose _ | .receiveWhole _ _ => isTrue trivial

/-- The second fragment comes twice, and counts for the third one. -/
theorem duplicate_delivered : ∃ n, Run Net.step Repeats (Net.initial idle) n ∧
    n.sent = [threeFragments] ∧ ∃ x ∈ n.delivered, x ≠ threeFragments.entry := by
  obtain ⟨n, hrun, hdelivered⟩ := exists_run_of_runEvents Net.step Repeats (Net.initial idle)
    (.send threeFragments :: .again (threeFragments, threeBytes 1) ::
      [0, 1, 1].map fun i => .receive idleEnv (threeFrame i) threeFragments)
    (fun n => n.sent = [threeFragments] ∧ ∃ x ∈ n.delivered, x ≠ threeFragments.entry)
    (by decide +kernel)
  exact ⟨n, hrun, hdelivered⟩

end Network

end MasterScheduler.Mote.Sicslowpan

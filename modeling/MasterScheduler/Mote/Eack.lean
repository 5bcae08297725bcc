import MasterScheduler.Mote.ElementWriters
import MasterScheduler.Mote.TxSlot

/-!
# MasterScheduler.Mote.Eack — the enhanced acknowledgment

A node that receives a unicast frame answers with an acknowledgment that carries
the time correction and whether the frame is turned down. It is put together from a table of
attributes of its own, as it is made while the packet buffer may be in use.

1. **Functions**: `tsch_packet_create_eack` and `tsch_packet_parse_eack`, with addresses of
   8 bytes and without link layer security.
2. **The bytes**: header and element stand one behind the other.
3. **Round trip**: `parseEack_createEack`, for any two nodes.

A destination that is `linkaddr_null`, or nothing but `0xff`, is no address for
the parser: every node of the network takes such a frame for its own.
-/

namespace MasterScheduler.Mote.Eack

open Lib Memory Frame802154 Framer Elements TxSlot

/-! ## The functions -/

/-- What of `eackbuf_attrs` is looked at. -/
structure Attrs where
  frameType : UInt16
  macMetadata : UInt16
  macSeqno : UInt16
  macAck : UInt16
  macNoDestAddr : UInt16
  macNoSrcAddr : UInt16
deriving DecidableEq, Repr

/-- `framer_802154_setup_params` with these attributes, for a frame that is not to the
broadcast address. The rest of `params` is what the caller has in it. -/
def framer802154SetupParams (panId : UInt16) (attrs : Attrs) (params : Frame) : Frame :=
  let srcAddrMode := if attrs.macNoSrcAddr = 1 then noAddr else longAddrMode
  let destAddrMode := if attrs.macNoDestAddr = 1 then noAddr else longAddrMode
  { params with
    fcf :=
      { frameType := Fin.ofNat 8 attrs.frameType.toNat
        securityEnabled := false
        framePending := false
        ackRequired := decide (attrs.macAck.toNat % 2 = 1)
        panidCompression := srcAddrMode == shortAddrMode || destAddrMode == shortAddrMode
        sequenceNumberSuppression := false
        ieListPresent := decide (attrs.macMetadata.toNat % 2 = 1)
        destAddrMode := destAddrMode
        frameVersion := ieee802154v2015
        srcAddrMode := srcAddrMode }
    seq := UInt8.ofNat attrs.macSeqno.toNat
    destPid := panId
    srcPid := panId }

/-- The attributes of an acknowledgment; the others are zero. -/
def eackAttrs (destAddr : Option Linkaddr) (seqno : UInt8) : Attrs where
  frameType := 2
  macMetadata := 1
  macSeqno := seqno.toUInt16
  macAck := 0
  macNoDestAddr := if destAddr.isSome then 0 else 1
  macNoSrcAddr := 1

/-- `params` of `tsch_packet_create_eack`, of which `old` is the content before. -/
def eackParams (panId : UInt16) (old : Frame) (destAddr : Option Linkaddr) (seqno : UInt8) : Frame :=
  framer802154SetupParams panId (eackAttrs destAddr seqno)
    { old with destAddr := destAddr.getD old.destAddr }

/-- `ies` of `tsch_packet_create_eack`; the flag is stored in eight bits. -/
def eackIes (drift nack : ℤ) : Ies :=
  { Ies.zero with ieTimeCorrection := drift, ieIsNack := UInt8.ofNat (nack % 256).toNat }

/-- `tsch_packet_create_eack`. The element is stored first, the header in front of it later. -/
def tschPacketCreateEack (panId : UInt16) (old : Frame) (m : Memory) (buf bufLen : ℕ)
    (destAddr : Option Linkaddr) (seqno : UInt8) (drift nack : ℤ) : Memory × ℤ :=
  let params := eackParams panId old destAddr seqno
  let hdrLen := Frame802154.hdrlen params
  let m := m.write buf (List.replicate bufLen 0)
  match createIeHeaderAckNackTimeCorrection (eackIes drift nack) m (buf + hdrLen) (bufLen - hdrLen)
  with
  | none => (m, -1)
  | some (m, ackLen) => (m.write buf (Frame802154.create params).2, ((ackLen + hdrLen : ℕ) : ℤ))

/-- What `tsch_packet_parse_eack` leaves behind its pointers, and the length or zero. -/
structure Parsed where
  frame : Frame
  ies : Ies
  hdrLen : UInt8
  ret : UInt8

/-- `tsch_packet_parse_eack`; the length is added up in eight bits. -/
def tschPacketParseEack (cfg : TxSlot.Config) (m : Memory) (buf bufSize : ℕ) (seqno : UInt8)
    (frame : Frame) (ies : Ies) (hdrLen : UInt8) : Parsed :=
  let (frame, ret) := Frame802154.parse m buf bufSize frame
  if ret < 3 then ⟨frame, ies, hdrLen, 0⟩
  else
    let hdrLen := UInt8.ofNat ret
    if seqno ≠ frame.seq then ⟨frame, ies, hdrLen, 0⟩
    else if checkDestPanid cfg.panId frame = false then ⟨frame, ies, hdrLen, 0⟩
    else
      match extractLinkaddr frame with
      | none => ⟨frame, ies, hdrLen, 0⟩
      | some dest =>
          -- no address at all is as good as the one of the node
          if dest ≠ cfg.linkaddrNodeAddr ∧ dest ≠ linkaddrNull then ⟨frame, ies, hdrLen, 0⟩
          else if frame.fcf.ieListPresent then
            let parsed := parseInformationElements cfg.sixtop (m.read (buf + ret) (bufSize - ret))
              Ies.zero
            match parsed.result with
            | .error _ => ⟨frame, parsed.ies, hdrLen, 0⟩
            | .ok n =>
                ⟨frame, parsed.ies, hdrLen + parsed.ies.iePayloadIeOffset,
                  UInt8.ofNat ret + UInt8.ofNat n⟩
          else ⟨frame, Ies.zero, hdrLen + Ies.zero.iePayloadIeOffset, UInt8.ofNat ret⟩

/-- A transmit slot looks at the length only. -/
theorem tschPacketParseEack_ret (cfg : TxSlot.Config) (m : Memory) (size : ℕ) (seqno : UInt8)
    (frame : Frame) (ies : Ies) (hdrLen : UInt8) :
    (tschPacketParseEack cfg m 0 size seqno frame ies hdrLen).ret =
      TxSlot.tschPacketParseEack cfg m size seqno frame := by
  rw [tschPacketParseEack, TxSlot.tschPacketParseEack]
  generalize Frame802154.parse m 0 size frame = r
  rcases r with ⟨frame, ret⟩
  dsimp only
  rw [Nat.zero_add]
  by_cases hshort : ret < 3
  · rw [if_pos hshort, if_pos hshort]
  rw [if_neg hshort, if_neg hshort]
  by_cases hseq : seqno ≠ frame.seq
  · rw [if_pos hseq, if_pos hseq]
  rw [if_neg hseq, if_neg hseq]
  by_cases hpan : checkDestPanid cfg.panId frame = false
  · rw [if_pos hpan, if_pos hpan]
  rw [if_neg hpan, if_neg hpan]
  cases extractLinkaddr frame with
  | none => rfl
  | some dest =>
      dsimp only
      by_cases hdest : dest ≠ cfg.linkaddrNodeAddr ∧ dest ≠ linkaddrNull
      · rw [if_pos hdest, if_pos hdest]
      rw [if_neg hdest, if_neg hdest]
      cases frame.fcf.ieListPresent with
      | false => rfl
      | true =>
          simp only [if_true]
          generalize parseInformationElements _ _ _ = parsed
          cases parsed.result with
          | error stop => rfl
          | ok n => rfl

/-- With an address that is not null, these are the parameters of a frame in the packet
buffer. -/
theorem eackParams_eq_setupParams {panId : UInt16} {old : Frame} {dest : Linkaddr} {seqno : UInt8}
    {pb : Packetbuf} (hdest : dest ≠ linkaddrNull) (hreceiver : pb.receiver = dest)
    (htype : pb.frameType = 2) (hmetadata : pb.macMetadata = 1)
    (hseqno : pb.macSeqno = seqno.toUInt16) (hack : pb.macAck = 0)
    (hnoDest : pb.macNoDestAddr = 0) (hnoSrc : pb.macNoSrcAddr = 1) :
    (Frame802154.create (eackParams panId old (some dest) seqno)).2 =
      (Frame802154.create (setupParams panId pb)).2 := by
  have hholds : holdsBroadcast pb = false := by
    rw [holdsBroadcast, hreceiver]
    exact decide_eq_false hdest
  rw [setupParams, hholds, hreceiver, htype, hmetadata, hseqno, hack, hnoDest, hnoSrc]
  rfl

/-! ## The bytes -/

section Bytes

variable {panId : UInt16} {old : Frame} {m : Memory} {buf bufLen : ℕ} {dest : Linkaddr}
  {seqno : UInt8} {drift nack : ℤ}

theorem hdrlen_eackParams : Frame802154.hdrlen (eackParams panId old (some dest) seqno) = 13 := rfl

/-- The four bytes of the element. -/
def elementBytes (drift nack : ℤ) : List UInt8 :=
  createHeaderIeDescriptor .ackNackTimeCorrection 2 ++ le16 (timeSyncField (eackIes drift nack))

/-- The header and the element behind it. -/
theorem createEack_eq (hroom : 17 ≤ bufLen) :
    ∃ m', tschPacketCreateEack panId old m buf bufLen (some dest) seqno drift nack = (m', 17) ∧
      m'.read buf 13 = (Frame802154.create (eackParams panId old (some dest) seqno)).2 ∧
      m'.read (buf + 13) 4 = elementBytes drift nack := by
  have hlen : (Frame802154.create (eackParams panId old (some dest) seqno)).2.length = 13 :=
    length_create _
  refine ⟨((m.write buf (List.replicate bufLen 0)).write (buf + 13) (elementBytes drift nack)).write
    buf (Frame802154.create (eackParams panId old (some dest) seqno)).2, ?_, ?_, ?_⟩
  · rw [tschPacketCreateEack, hdrlen_eackParams, createIeHeaderAckNackTimeCorrection, if_pos (by omega)]
    rfl
  · have hself := read_write_self ((m.write buf (List.replicate bufLen 0)).write (buf + 13)
      (elementBytes drift nack)) buf (Frame802154.create (eackParams panId old (some dest) seqno)).2
    rw [hlen] at hself
    exact hself
  -- The header ends where the element starts.
  · rw [read_write_above (by omega)]
    exact read_write_self _ _ (elementBytes drift nack)

/-- The two bytes of content hold the drift in their low twelve bits and the flag in the
highest. -/
theorem timeSyncField_eackIes (nack : Bool) (hlow : -2048 ≤ drift) (hhigh : drift ≤ 2047) :
    timeSyncField (eackIes drift nack.toNat) < 65536 ∧
      (timeSyncField (eackIes drift nack.toNat) / 32768 = 1 ↔ nack = true) ∧
      (if timeSyncField (eackIes drift nack.toNat) / 2048 % 2 = 1 then
          ((timeSyncField (eackIes drift nack.toNat) % 4096 : ℕ) : ℤ) - 4096
        else (timeSyncField (eackIes drift nack.toNat) % 4096 : ℕ)) = drift := by
  have hfield : timeSyncField (eackIes drift nack.toNat) =
      (drift % 4096).toNat + if nack then 32768 else 0 := by
    cases nack <;> rfl
  rw [hfield]
  cases nack with
  | false =>
      rw [if_neg Bool.false_ne_true]
      refine ⟨by omega, by simp; omega, ?_⟩
      split <;> omega
  | true =>
      rw [if_pos rfl]
      refine ⟨by omega, by simp; omega, ?_⟩
      split <;> omega

theorem parseHeaderIe_le16 {field : ℕ} (h : field < 65536) :
    parseHeaderIe (le16 field) 2 .ackNackTimeCorrection =
      .ok [.timeCorrection (if field / 32768 = 1 then 1 else 0)
        (if field / 2048 % 2 = 1 then ((field % 4096 : ℕ) : ℤ) - 4096 else (field % 4096 : ℕ))] := by
  have hread : read16 (le16 field) 0 = .ok field := by
    rw [read16_of_lt (by decide : 0 + 1 < 2)]
    exact congrArg Except.ok (word_le16 h)
  rw [parseHeaderIe, if_pos rfl, hread]
  rfl

/-- An element of time correction is all the parser gets: it ends among the header elements. -/
theorem parse_ackNackTimeCorrection {sixtop : Bool} {ies : Ies} {field : ℕ} {w : Write}
    (h : parseHeaderIe (le16 field) 2 .ackNackTimeCorrection = .ok [w]) :
    parseInformationElements sixtop (createHeaderIeDescriptor .ackNackTimeCorrection 2 ++ le16 field)
        ies =
      ⟨.ok 4, ((ies.assign (.payloadIeOffset 0)).assign w).assign (.payloadIeOffset 4),
        [(.ackNackTimeCorrection, w)]⟩ := by
  have hstep : dispatch sixtop
      (.atPosition .headerIe 2 (le16 field) (ies.assign (.payloadIeOffset 0)) []) (word 2 15) =
      ((Parser.atPosition .headerIe 2 (le16 field) (ies.assign (.payloadIeOffset 0)) []).store
        .ackNackTimeCorrection [w], .next 2) := by
    change headerStep _ 3842 = _
    have hselect : select headerIes (3842 / 128 % 256) = some .ackNackTimeCorrection := rfl
    have hroom : ¬ (Parser.atPosition .headerIe 2 (le16 field) (ies.assign (.payloadIeOffset 0))
        []).bufSize.toNat < 3842 % 128 := by
      have hlen : (le16 field).length = 2 := rfl
      rw [bufSize_atPosition (by omega), hlen]
      decide
    have hcontent : parseHeaderIe (Parser.atPosition .headerIe 2 (le16 field)
        (ies.assign (.payloadIeOffset 0)) []).buf (3842 % 128) .ackNackTimeCorrection = .ok [w] := h
    rw [headerStep, if_neg (by decide), hselect]
    dsimp only
    rw [if_neg hroom, hcontent]
  have hround := @parseLoop_atPosition sixtop 4 0 (ies.assign (.payloadIeOffset 0)) []
    .headerIe 2 15 (le16 field) (by rw [length_le16]; decide)
  rw [Nat.zero_add, hstep] at hround
  -- Behind the element no byte is left.
  have hadvance := advance_atPosition .headerIe 2 (le16 field) []
    ((ies.assign (.payloadIeOffset 0)).assign w) [(.ackNackTimeCorrection, w)]
  have hend : parseLoop sixtop 4 (((Parser.atPosition .headerIe 2 (le16 field)
      (ies.assign (.payloadIeOffset 0)) []).store .ackNackTimeCorrection [w]).advance 2) =
      ⟨.ok 4, ((ies.assign (.payloadIeOffset 0)).assign w).assign (.payloadIeOffset 4),
        [(.ackNackTimeCorrection, w)]⟩ := by
    rw [List.append_nil] at hadvance
    exact (congrArg (parseLoop sixtop 4) hadvance).trans rfl
  exact hround.trans hend

/-- The parser of the elements gives back drift and flag. -/
theorem parse_elementBytes (sixtop nack : Bool) (hlow : -2048 ≤ drift) (hhigh : drift ≤ 2047) :
    let parsed := parseInformationElements sixtop (elementBytes drift nack.toNat) Ies.zero
    parsed.result = .ok 4 ∧ parsed.ies.ieTimeCorrection = drift ∧
      parsed.ies.ieIsNack = (if nack then 1 else 0) := by
  obtain ⟨hlt, hnack, hdrift⟩ := timeSyncField_eackIes nack hlow hhigh
  have hfield := parseHeaderIe_le16 hlt
  rw [hdrift] at hfield
  simp only [hnack] at hfield
  intro parsed
  have hparsed := @parse_ackNackTimeCorrection sixtop Ies.zero _ _ hfield
  change parsed = _ at hparsed
  rw [hparsed]
  exact ⟨rfl, rfl, rfl⟩

end Bytes

/-! ## Round trip -/

theorem length_linkaddrBroadcast : (List.replicate 8 (0xff : UInt8)).length = 8 := rfl

/-- The address of eight bytes `0xff`. -/
def linkaddrBroadcast : Linkaddr := ⟨List.replicate 8 0xff, length_linkaddrBroadcast⟩

theorem isBroadcastAddr_long_iff {addr : Linkaddr} :
    isBroadcastAddr longAddrMode addr = true ↔ addr = linkaddrBroadcast := by
  rcases addr with ⟨u8, hlen⟩
  rw [isBroadcastAddr, if_neg (by decide), List.take_of_length_le hlen.le]
  simp only [linkaddrBroadcast, Linkaddr.mk.injEq, List.eq_replicate_iff, List.all_eq_true,
    beq_iff_eq]
  exact ⟨fun h => ⟨hlen, h⟩, fun h => h.2⟩

/-- A node with this address takes an acknowledgment to that one for its own. -/
def Addressed (node dest : Linkaddr) : Prop :=
  dest = node ∨ dest = linkaddrNull ∨ dest = linkaddrBroadcast

/-- The networks of two nodes, `0xffff` being any. -/
def SamePan (own dest : UInt16) : Prop := dest = own ∨ dest = 0xffff

section RoundTrip

variable {panId : UInt16} {old frame : Frame} {dest : Linkaddr} {seqno : UInt8}

/-- The record an acknowledgment is read back as. -/
structure Reads (frame : Frame) (panId : UInt16) (dest : Linkaddr) (seqno : UInt8) : Prop where
  fcf_eq : frame.fcf = (eackParams panId frame (some dest) seqno).fcf
  seq_eq : frame.seq = seqno
  destPid_eq : frame.destPid = panId
  destAddr_eq : frame.destAddr = dest

theorem reads_of_roundTrip {data : ℕ} {r : Frame × ℕ}
    (h : RoundTrip (eackParams panId old (some dest) seqno) data r) :
    r.2 = 13 ∧ Reads r.1 panId dest seqno := by
  refine ⟨h.length_eq, ?_, ?_, ?_, ?_⟩
  · exact h.fcf_eq
  · rw [h.seq_eq rfl]
    change UInt8.ofNat seqno.toUInt16.toNat = seqno
    rw [UInt8.toNat_toUInt16]
    exact UInt8.ofNat_toNat
  · exact h.destPid_eq rfl
  · have htake := h.destAddr_eq
    change r.1.destAddr.u8.take 8 = dest.u8.take 8 at htake
    rw [List.take_of_length_le r.1.destAddr.length_u8.le,
      List.take_of_length_le dest.length_u8.le] at htake
    rcases hr : r.1.destAddr with ⟨u8, hlen⟩
    rcases dest with ⟨u8', hlen'⟩
    rw [hr] at htake
    exact Linkaddr.mk.injEq .. ▸ htake

theorem checkDestPanid_iff (cfg : TxSlot.Config) (h : Reads frame panId dest seqno) :
    checkDestPanid cfg.panId frame = true ↔ SamePan cfg.panId panId := by
  have hhas : (hasPanid frame.fcf).2 = true := by
    rw [h.fcf_eq]
    rfl
  rw [checkDestPanid, hhas, h.destPid_eq, Bool.true_and, Bool.or_eq_true, beq_iff_eq, beq_iff_eq]
  rfl

theorem extractLinkaddr_eq (h : Reads frame panId dest seqno) :
    extractLinkaddr frame = some (if dest = linkaddrBroadcast then linkaddrNull else dest) := by
  have hsrc : frame.fcf.srcAddrMode = noAddr := by
    rw [h.fcf_eq]
    rfl
  have hdest : frame.fcf.destAddrMode = longAddrMode := by
    rw [h.fcf_eq]
    rfl
  rw [extractLinkaddr, hsrc, hdest, h.destAddr_eq, extractAddr, if_pos (.inl rfl)]
  dsimp only
  rw [extractAddr]
  by_cases hbroadcast : dest = linkaddrBroadcast
  · rw [if_pos (.inr (isBroadcastAddr_long_iff.mpr hbroadcast)), if_pos hbroadcast]
  · have hunicast : ¬ (longAddrMode = noAddr ∨ isBroadcastAddr longAddrMode dest = true) := by
      rintro (hmode | hall)
      · exact absurd hmode (by decide)
      · exact hbroadcast (isBroadcastAddr_long_iff.mp hall)
    rw [if_neg hunicast, if_neg (by decide), if_neg hbroadcast]

/-- A header read back and the elements behind it: what remains are the three comparisons. -/
theorem tschPacketParseEack_eq {m : Memory} {buf : ℕ} {parsed : Elements.Parsed}
    (cfg : TxSlot.Config) (seqno' : UInt8) (ies : Ies) (hdrLen : UInt8)
    (hparse : (Frame802154.parse m buf 17 frame).2 = 13)
    (hreads : Reads (Frame802154.parse m buf 17 frame).1 panId dest seqno)
    (hies : parseInformationElements cfg.sixtop (m.read (buf + 13) 4) Ies.zero = parsed)
    (hresult : parsed.result = .ok 4) :
    let p := tschPacketParseEack cfg m buf 17 seqno' frame ies hdrLen
    (p.ret ≠ 0 ↔
      SamePan cfg.panId panId ∧ seqno' = seqno ∧ Addressed cfg.linkaddrNodeAddr dest) ∧
      (p.ret ≠ 0 → p.ret = 17 ∧ p.ies = parsed.ies) := by
  -- What a receiver compares are the PAN, the address and the sequence number of the header.
  have hpan := checkDestPanid_iff cfg hreads
  have hextract := extractLinkaddr_eq hreads
  have hseq := hreads.seq_eq
  have hlist : (Frame802154.parse m buf 17 frame).1.fcf.ieListPresent = true := by
    rw [hreads.fcf_eq]
    rfl
  dsimp only
  rw [tschPacketParseEack]
  generalize Frame802154.parse m buf 17 frame = r at hparse hpan hextract hseq hlist
  rcases r with ⟨read, ret⟩
  dsimp only at hparse hpan hextract hseq hlist ⊢
  rw [hparse, if_neg (by decide), hseq]
  -- Another sequence number ends the parsing here.
  by_cases hs : seqno' = seqno
  case neg =>
    rw [if_pos hs]
    exact ⟨⟨fun h => absurd rfl h, fun h => absurd h.2.1 hs⟩, fun h => absurd rfl h⟩
  rw [if_neg (not_not.mpr hs)]
  by_cases hp : SamePan cfg.panId panId
  case neg =>
    rw [if_pos (Bool.eq_false_iff.mpr fun h => hp (hpan.mp h))]
    exact ⟨⟨fun h => absurd rfl h, fun h => absurd h.1 hp⟩, fun h => absurd rfl h⟩
  rw [if_neg (by rw [hpan.mpr hp]; decide), hextract]
  dsimp only
  have haddressed : Addressed cfg.linkaddrNodeAddr dest ↔
      ¬ ((if dest = linkaddrBroadcast then linkaddrNull else dest) ≠ cfg.linkaddrNodeAddr ∧
        (if dest = linkaddrBroadcast then linkaddrNull else dest) ≠ linkaddrNull) := by
    rw [not_and_or, not_not, not_not]
    by_cases hb : dest = linkaddrBroadcast
    · rw [if_pos hb]
      exact ⟨fun _ => .inr rfl, fun _ => .inr (.inr hb)⟩
    · rw [if_neg hb, Addressed, or_iff_left hb]
  by_cases ha : Addressed cfg.linkaddrNodeAddr dest
  case neg =>
    rw [if_pos (not_not.mp fun h => ha (haddressed.mpr h))]
    exact ⟨⟨fun h => absurd rfl h, fun h => absurd h.2.2 ha⟩, fun h => absurd rfl h⟩
  rw [if_neg (haddressed.mp ha), hlist, if_pos rfl, hies, hresult]
  exact ⟨⟨fun _ => ⟨hp, hs, ha⟩, fun _ => (by decide : (17 : UInt8) ≠ 0)⟩, fun _ => ⟨rfl, rfl⟩⟩

theorem parseEack_createEack (panId : UInt16) (old : Frame) (m : Memory) (buf bufLen : ℕ)
    (dest : Linkaddr) (seqno : UInt8) (drift : ℤ) (nack : Bool) (hroom : 17 ≤ bufLen)
    (hlow : -2048 ≤ drift) (hhigh : drift ≤ 2047) :
    ∃ m', tschPacketCreateEack panId old m buf bufLen (some dest) seqno drift nack.toNat = (m', 17) ∧
      ∀ (cfg : TxSlot.Config) (seqno' : UInt8) (frame : Frame) (ies : Ies) (hdrLen : UInt8),
        let p := tschPacketParseEack cfg m' buf 17 seqno' frame ies hdrLen
        (p.ret ≠ 0 ↔
          SamePan cfg.panId panId ∧ seqno' = seqno ∧ Addressed cfg.linkaddrNodeAddr dest) ∧
        (p.ret ≠ 0 → p.ret = 17 ∧ p.ies.ieTimeCorrection = drift ∧
          p.ies.ieIsNack = (if nack then 1 else 0)) := by
  obtain ⟨m', hcreate, hheader, helement⟩ := @createEack_eq panId old m buf bufLen dest seqno drift
    nack.toNat hroom
  refine ⟨m', hcreate, fun cfg seqno' frame ies hdrLen => ?_⟩
  have hlen : (Frame802154.create (eackParams panId old (some dest) seqno)).2.length = 13 :=
    length_create _
  have hskew : ¬ Skewed (Frame802154.create (eackParams panId old (some dest) seqno)).1.fcf := by
    rintro ⟨_, hmode, _⟩
    exact absurd hmode (by decide : longAddrMode ≠ noAddr)
  obtain ⟨hret, hreads⟩ := reads_of_roundTrip
    (@parse_of_read m' frame _ buf 17 (by rw [hlen]; exact hheader) (by rw [hdrlen_eackParams]; decide) hskew)
  obtain ⟨hresult, hdrift, hnack⟩ := parse_elementBytes cfg.sixtop nack hlow hhigh
  have hparsed := tschPacketParseEack_eq cfg seqno' ies hdrLen hret hreads
    (by rw [helement]) hresult
  refine ⟨hparsed.1, fun hne => ?_⟩
  obtain ⟨hlength, hies⟩ := hparsed.2 hne
  exact ⟨hlength, by rw [hies]; exact hdrift, by rw [hies]; exact hnack⟩

/-- A node with address 1 of the network `0xabcd`. -/
def nodeOne : TxSlot.Config where
  panId := 0xabcd
  linkaddrNodeAddr := ⟨[0, 0, 0, 0, 0, 0, 0, 1], rfl⟩
  sixtop := false
  ccaEnabled := false

/-- The acknowledgment of packet 7 with a negative drift, for the node and for another one. -/
theorem parseEack_createEack_nodeOne :
    ∃ m', tschPacketCreateEack 0xabcd unaddressedFrame (fun _ => 0) 0 32
        (some nodeOne.linkaddrNodeAddr) 7 (-21) (true.toNat) = (m', 17) ∧
      (tschPacketParseEack nodeOne m' 0 17 7 unaddressedFrame Ies.zero 0).ret ≠ 0 ∧
      (tschPacketParseEack { nodeOne with linkaddrNodeAddr := ⟨[0, 0, 0, 0, 0, 0, 0, 2], rfl⟩ } m'
        0 17 7 unaddressedFrame Ies.zero 0).ret = 0 := by
  obtain ⟨m', hcreate, hparse⟩ := parseEack_createEack 0xabcd unaddressedFrame (fun _ => 0) 0 32
    nodeOne.linkaddrNodeAddr 7 (-21) true (by decide) (by decide) (by decide)
  refine ⟨m', hcreate, (hparse ..).1.mpr ⟨.inl rfl, rfl, .inl rfl⟩, ?_⟩
  by_contra hne
  have haddressed := ((hparse ..).1.mp hne).2.2
  exact absurd haddressed (by unfold Addressed; decide)

/-- An acknowledgment for the null address is taken by node 1. -/
theorem nullEack_not_rejected :
    linkaddrNull ≠ nodeOne.linkaddrNodeAddr ∧
      (tschPacketParseEack nodeOne
        (tschPacketCreateEack 0xabcd unaddressedFrame (fun _ => 0) 0 17 (some linkaddrNull) 7 0 0).1
        0 17 7 unaddressedFrame Ies.zero 0).ret = 17 := by
  decide

end RoundTrip

end MasterScheduler.Mote.Eack

import MasterScheduler.Mote.ElementBytes
import MasterScheduler.Mote.Framer

/-!
# MasterScheduler.Mote.Mac — a data frame on its way through `tsch.c`

The sender side frames what the network layer left in the packet buffer and
queues it; the receiver side parses a frame, takes its information elements
out, and hands the rest up.

- `sendPacket_eq_some`: the frame in the queue.
- `rxProcessInput_strip`: what the receiver makes of a frame with elements.
-/

namespace MasterScheduler.Mote.Mac

open Lib Memory Frame802154 Framer Elements

/-! ## Sending -/

/-- The record `tsch_packet_create_unicast` fills. -/
def unicastIes : Ies := { Ies.zero with ieOverhearing := 1, ieMlmeLen := 3 }

/-- The room for the three payload elements of an overhearing packet. -/
def unicastIeLen : ℕ := 2 + 3 + 2

/-- One writer at an address of the buffer. A writer that fails ends the function with the
buffer as it is. -/
def storeAt (w : Writer) (p : ℕ) (pb : Packetbuf) : Except Packetbuf Packetbuf :=
  match w pb.mem p (remaininglen pb) with
  | none => .error pb
  | some (mem, _) => .ok { pb with mem := mem }

/-- The data shifted behind the place of the payload elements. -/
def makeRoom (pb : Packetbuf) : Packetbuf :=
  setDatalen
    { pb with mem := pb.mem.move (dataptr pb + unicastIeLen) (dataptr pb) (datalen pb) }
    (datalen pb + unicastIeLen)

/-- `tsch_packet_create_unicast`. -/
def createUnicast (pb : Packetbuf) : Except Packetbuf Packetbuf := do
  let pb := makeRoom pb
  let pb ← storeAt (createIeMlme unicastIes) (dataptr pb) pb
  let pb ← storeAt (createIeOverhearing unicastIes) (dataptr pb + 2) pb
  let pb ← storeAt createIePayloadListTermination (dataptr pb + 2 + 3) pb
  storeAt createIeHeaderListTermination1 0 ((hdralloc pb 2).getD pb)

/-- A packet in a queue: its bytes, and a buffer with its attributes. -/
structure Queuebuf where
  data : List UInt8
  attrs : Packetbuf

/-- `queuebuf_to_packetbuf`. -/
def queuebufToPacketbuf (qb : Queuebuf) (pb : Packetbuf) : Packetbuf :=
  let pb := copyfrom pb qb.data
  { qb.attrs with mem := pb.mem, bufptr := pb.bufptr, hdrlen := pb.hdrlen, buflen := pb.buflen }

/-- What the MAC of a node works with. -/
structure Config where
  /-- `TSCH_PACKET_EB_WITH_NEIGHBOR_DISCOVERY`, as far as sending goes. -/
  neighborDiscovery : Bool
  panId : UInt16
  macDsn : UInt8
  /-- `tsch_packet_seqno` before it is incremented. -/
  tschPacketSeqno : UInt8
  linkaddrNodeAddr : Linkaddr

/-- The attributes `send_packet` sets. A broadcast has no acknowledgement. -/
def setAttrs (config : Config) (pb : Packetbuf) : Packetbuf :=
  let seqno := if config.tschPacketSeqno + 1 = 0 then 1 else config.tschPacketSeqno + 1
  let pb :=
    if pb.receiver ≠ linkaddrNull then { pb with macSeqno := seqno.toUInt16, macAck := 1 } else pb
  { pb with frameType := dataFrame.val.toUInt16, sender := config.linkaddrNodeAddr }

/-- The buffer in either case. -/
def leave : Except Packetbuf Packetbuf → Packetbuf
  | .ok pb => pb
  | .error pb => pb

/-- `send_packet` of an associated node, up to the queue. That an overhearing packet could not
be made is printed only. -/
def sendPacket (config : Config) (pb : Packetbuf) : Option Queuebuf :=
  let pb := setAttrs config pb
  let pb := if config.neighborDiscovery ∧ pb.macMetadata ≠ 0 then leave (createUnicast pb) else pb
  match framerCreate config.panId config.macDsn pb with
  | none => none
  | some (pb, _) => some ⟨copyto pb, pb⟩

/-! ## Receiving -/

/-- `struct input_packet`. -/
structure InputPacket where
  payload : Memory
  len : ℕ

/-- What `tsch_rx_process_pending` does with a packet: it is skipped, goes to `eb_input`, or is
copied into the packet buffer for `packet_input`. `wild` is a `memmove` of negative length. -/
inductive Rx where
  | skipped
  | beacon
  | wild
  | packet (ies : Option Ies) (pb : Packetbuf)

/-- The elements behind a header of `ret` bytes are parsed and overwritten by what follows them.
The error `-1` does not survive the eight bits of `ie_len`: it is taken for a length. -/
def stripIes (sixtop : Bool) (input : InputPacket) (ret : ℕ) : Option (InputPacket × Ies) :=
  let r := parseInformationElements sixtop (input.payload.read ret (input.len - ret)) Ies.zero
  let ieLen : UInt8 :=
    match r.result with
    | .error _ => 0xff
    | .ok n => UInt8.ofNat n
  if input.len < ieLen.toNat + ret then none
  else
    let len := input.len - ieLen.toNat
    some (⟨input.payload.move ret (ret + ieLen.toNat) (len - ret), len⟩, r.ies)

/-- The body of the loop of `tsch_rx_process_pending`. -/
def rxProcessInput (sixtop : Bool) (input : InputPacket) (frame : Frame) (pb : Packetbuf) : Rx :=
  let (frame, ret) := Frame802154.parse input.payload 0 input.len frame
  if ret ≠ 0 ∧ frame.fcf.frameType = dataFrame then
    if frame.fcf.ieListPresent then
      match stripIes sixtop input ret with
      | none => .wild
      | some (input, ies) => .packet (some ies) (copyfrom pb (input.payload.read 0 input.len))
    else .packet none (copyfrom pb (input.payload.read 0 input.len))
  else if ret ≠ 0 ∧ frame.fcf.frameVersion = ieee802154v2015 ∧ frame.fcf.frameType = beaconFrame then
    .beacon
  else .skipped

/-! ## The frame in the queue -/

section Sending

variable {pb pb' : Packetbuf} {pre data : List UInt8}

/-- The payload elements of an overhearing packet. -/
def unicastBytes : List UInt8 :=
  createPayloadIeDescriptor .mlme 3 ++ (createMlmeShortIeDescriptor .overhearing 1 ++ [1]) ++
    createPayloadIeDescriptor .payloadListTermination 0

/-- There is no room for two bytes. -/
theorem totlen_of_remaininglen (h : ¬ 2 ≤ remaininglen pb) : packetbufSize < 4 + totlen pb := by
  rw [remaininglen, packetbufSize] at *
  omega

/-- A writer that has room writes at its place. -/
theorem storeAt_ok {w : Writer} {bytes : List UInt8} {n : ℕ}
    (hw : ∀ m buf len, 2 ≤ len → w m buf len = some (m.write buf bytes, n)) (p : ℕ)
    (h : 2 ≤ remaininglen pb) :
    storeAt w p pb = .ok { pb with mem := pb.mem.write p bytes } := by
  rw [storeAt, hw _ _ _ h]

/-- A writer without room does nothing. -/
theorem storeAt_error {w : Writer} (hw : ∀ m buf len, ¬ 2 ≤ len → w m buf len = none) (p : ℕ)
    (h : ¬ 2 ≤ remaininglen pb) : storeAt w p pb = .error pb := by
  rw [storeAt, hw _ _ _ h]

/-- The container is written when there is room. -/
theorem createIeMlme_of_le (ies : Ies) (m : Memory) (buf len : ℕ) (h : 2 ≤ len) :
    createIeMlme ies m buf len =
      some (m.write buf (createPayloadIeDescriptor .mlme ies.ieMlmeLen.toNat), 2) := if_pos h

/-- The overhearing element is written when there is room. -/
theorem createIeOverhearing_of_le (ies : Ies) (m : Memory) (buf len : ℕ) (h : 2 ≤ len) :
    createIeOverhearing ies m buf len =
      some (m.write buf (createMlmeShortIeDescriptor .overhearing 1 ++ [ies.ieOverhearing]), 3) :=
  if_neg (not_lt.mpr h)

/-- The payload termination is written when there is room. -/
theorem createIePayloadListTermination_of_le (m : Memory) (buf len : ℕ) (h : 2 ≤ len) :
    createIePayloadListTermination m buf len =
      some (m.write buf (createPayloadIeDescriptor .payloadListTermination 0), 2) := if_pos h

/-- The header termination is written when there is room. -/
theorem createIeHeaderListTermination1_of_le (m : Memory) (buf len : ℕ) (h : 2 ≤ len) :
    createIeHeaderListTermination1 m buf len =
      some (m.write buf (createHeaderIeDescriptor .headerListTermination1 0), 2) := if_pos h

/-- The buffer behind the payload elements of an overhearing packet. -/
def unicastBuf (pb : Packetbuf) : Packetbuf :=
  { makeRoom pb with mem := (makeRoom pb).mem.write (dataptr (makeRoom pb)) unicastBytes }

/-- The elements of a unicast packet add to its length. -/
theorem totlen_unicastBuf (pb : Packetbuf) : totlen (unicastBuf pb) = totlen pb + unicastIeLen := by
  simp only [unicastBuf, makeRoom, totlen, setDatalen, datalen, packetbufHdrlen]
  omega

/-- The elements of a unicast packet stand before its data. -/
theorem contents_unicastBuf (hcontents : contents pb = pre ++ data)
    (hpre : pre.length = dataptr pb) :
    contents (unicastBuf pb) = pre ++ (unicastBytes ++ data) := by
  have htot : totlen pb = dataptr pb + datalen pb := rfl
  rw [contents, htot, read_append, Nat.zero_add] at hcontents
  rcases List.append_inj hcontents (by rw [length_read, hpre]) with ⟨hlow, hhigh⟩
  have hmove := read_write_move pb.mem (dataptr pb) (datalen pb) unicastBytes
  have hsize : totlen (unicastBuf pb) = dataptr pb + (unicastBytes.length + datalen pb) := by
    rw [totlen_unicastBuf, htot, Nat.add_assoc, Nat.add_comm (datalen pb)]
    rfl
  rw [contents, hsize, read_append, Nat.zero_add, ← hlow, ← hhigh, ← hmove]
  congr 1
  have hdata : dataptr (makeRoom pb) = dataptr pb := rfl
  simp only [unicastBuf, hdata]
  rw [read_write_below (by omega)]
  exact read_write_below (by omega)

/-- The three payload elements together. -/
theorem write_unicastBytes (m : Memory) (p : ℕ) :
    ((m.write p (createPayloadIeDescriptor .mlme 3)).write (p + 2)
      (createMlmeShortIeDescriptor .overhearing 1 ++ [1])).write (p + 2 + 3)
        (createPayloadIeDescriptor .payloadListTermination 0) = m.write p unicastBytes := by
  have h₁ := write_append m p (createPayloadIeDescriptor .mlme 3)
    (createMlmeShortIeDescriptor .overhearing 1 ++ [1])
  have h₂ := write_append m p
    (createPayloadIeDescriptor .mlme 3 ++ (createMlmeShortIeDescriptor .overhearing 1 ++ [1]))
    (createPayloadIeDescriptor .payloadListTermination 0)
  rw [← h₁] at h₂
  exact h₂

/-- With room for two bytes the payload elements are all stored. -/
theorem createUnicast_of_le (h : 2 ≤ remaininglen (unicastBuf pb)) :
    createUnicast pb = storeAt createIeHeaderListTermination1 0
      ((hdralloc (unicastBuf pb) 2).getD (unicastBuf pb)) := by
  have h₁ : storeAt (createIeMlme unicastIes) (dataptr (makeRoom pb)) (makeRoom pb) = .ok _ :=
    storeAt_ok (createIeMlme_of_le unicastIes) _ h
  have h₂ : ∀ mem, storeAt (createIeOverhearing unicastIes) (dataptr (makeRoom pb) + 2)
      { makeRoom pb with mem := mem } = .ok _ :=
    fun mem => storeAt_ok (createIeOverhearing_of_le unicastIes) _ h
  have h₃ : ∀ mem, storeAt createIePayloadListTermination (dataptr (makeRoom pb) + 2 + 3)
      { makeRoom pb with mem := mem } = .ok _ :=
    fun mem => storeAt_ok createIePayloadListTermination_of_le _ h
  have hdata : ∀ mem, dataptr { makeRoom pb with mem := mem } = dataptr (makeRoom pb) :=
    fun _ => rfl
  simp only [createUnicast, h₁, h₂, h₃, hdata, bind, Except.bind]
  rw [unicastBuf, ← write_unicastBytes]
  rfl

/-- Without room for the container, the attributes stay and the length is that of the elements. -/
theorem createUnicast_of_full (h : ¬ 2 ≤ remaininglen (unicastBuf pb)) :
    SameAttrs pb (leave (createUnicast pb)) ∧
      totlen (leave (createUnicast pb)) = totlen (unicastBuf pb) := by
  have h₁ : storeAt (createIeMlme unicastIes) (dataptr (makeRoom pb)) (makeRoom pb) = .error _ :=
    storeAt_error (fun m buf len hlen => if_neg hlen) _ h
  simp only [createUnicast, h₁]
  exact ⟨rfl, rfl⟩

/-- The elements of an overhearing packet stand in front of its data and of each other, unless
it is too long for a header anyway. -/
theorem createUnicast_contents (hcontents : contents pb = pre ++ data)
    (hpre : pre.length = dataptr pb) :
    SameAttrs pb (leave (createUnicast pb)) ∧
      (packetbufSize < 4 + totlen (leave (createUnicast pb)) ∨
        contents (leave (createUnicast pb)) =
            createHeaderIeDescriptor .headerListTermination1 0 ++ (pre ++ (unicastBytes ++ data)) ∧
          (leave (createUnicast pb)).bufptr = pb.bufptr) := by
  -- Without room for the container nothing is added behind the header.
  by_cases hroom : 2 ≤ remaininglen (unicastBuf pb)
  case neg =>
    rcases createUnicast_of_full hroom with ⟨hsame, htot⟩
    refine ⟨hsame, .inl ?_⟩
    rw [htot]
    exact totlen_of_remaininglen hroom
  rw [createUnicast_of_le hroom, ← contents_unicastBuf hcontents hpre]
  have hbuf : SameAttrs pb (unicastBuf pb) := rfl
  have hbufptr : (unicastBuf pb).bufptr = pb.bufptr := rfl
  generalize unicastBuf pb = pb₁ at *
  -- The header may not grow by the two bytes of the termination.
  cases halloc : hdralloc pb₁ 2 with
  | none =>
    have hfull : packetbufSize < 2 + totlen pb₁ := by
      rw [hdralloc] at halloc
      split at halloc
      case isTrue hfull => exact hfull
      case isFalse => cases halloc
    rw [Option.getD_none, storeAt_ok createIeHeaderListTermination1_of_le _ hroom]
    refine ⟨hbuf.trans rfl, .inl ?_⟩
    change packetbufSize < 4 + totlen pb₁
    omega
  | some pb₂ =>
    have hsame := hbuf.trans (sameAttrs_hdralloc halloc)
    rw [Option.getD_some]
    by_cases hroom₂ : 2 ≤ remaininglen pb₂
    · rw [storeAt_ok createIeHeaderListTermination1_of_le _ hroom₂]
      refine ⟨hsame.trans rfl, .inr ⟨hdralloc_write halloc, ?_⟩⟩
      exact (hdralloc_eq_some halloc).2.2.1.trans hbufptr
    · have hfail : storeAt createIeHeaderListTermination1 0 pb₂ = .error pb₂ :=
        storeAt_error (fun m buf len hlen => if_neg hlen) _ hroom₂
      rw [hfail]
      exact ⟨hsame, .inl (totlen_of_remaininglen hroom₂)⟩

/-- A writer in the packet keeps its length. -/
theorem totlen_storeAt (w : Writer) (p : ℕ) (pb : Packetbuf) :
    totlen (leave (storeAt w p pb)) = totlen pb := by
  rw [storeAt]
  split <;> rfl

/-- A packet grows by its elements and a termination at most. -/
theorem totlen_createUnicast_le (pb : Packetbuf) :
    totlen (leave (createUnicast pb)) ≤ totlen pb + (unicastIeLen + 2) := by
  have htot := totlen_unicastBuf pb
  by_cases hroom : 2 ≤ remaininglen (unicastBuf pb)
  · rw [createUnicast_of_le hroom, totlen_storeAt]
    cases halloc : hdralloc (unicastBuf pb) 2 with
    | none =>
      rw [Option.getD_none]
      omega
    | some pb₂ =>
      rw [Option.getD_some, (hdralloc_eq_some halloc).2.1]
      omega
  · rw [(createUnicast_of_full hroom).2]
    omega

/-- The header of a data frame with elements and a long source address. -/
structure DataHeader (params : Frame) : Prop where
  frameType_eq : params.fcf.frameType = dataFrame
  ieListPresent_eq : params.fcf.ieListPresent = true
  frameVersion_eq : params.fcf.frameVersion = ieee802154v2015
  srcAddrMode_eq : params.fcf.srcAddrMode = longAddrMode

/-- The control field is the one that was asked for. -/
theorem DataHeader.create_fcf {params : Frame} (h : DataHeader params) :
    (create params).1.fcf = params.fcf := by
  simp only [create, fieldLen, h.frameVersion_eq]
  rfl

/-- It has no address between its PANs. -/
theorem DataHeader.not_skewed {params : Frame} (h : DataHeader params) :
    ¬ Skewed (create params).1.fcf := by
  rw [h.create_fcf]
  rintro ⟨_, _, hsrc, _⟩
  rw [h.srcAddrMode_eq] at hsrc
  exact absurd hsrc (by decide)

/-- A header has ten bytes at least. -/
theorem DataHeader.le_hdrlen {params : Frame} (h : DataHeader params) :
    10 ≤ Frame802154.hdrlen params := by
  have hsrc : addrLen params.fcf.srcAddrMode = 8 := by
    rw [h.srcAddrMode_eq]
    rfl
  simp only [Frame802154.hdrlen, fieldLen, h.frameVersion_eq, lt_irrefl, if_false, hsrc]
  omega

/-- The parameters of a data packet. -/
theorem dataHeader_setupParams (panId : UInt16) (macDsn : UInt8) (htype : pb.frameType = 1)
    (hmeta : pb.macMetadata = 1) (hsrc : pb.macNoSrcAddr = 0) :
    DataHeader (setupParams panId (assignSeqno macDsn pb)) := by
  have hseq : (assignSeqno macDsn pb).frameType = 1 ∧ (assignSeqno macDsn pb).macMetadata = 1 ∧
      (assignSeqno macDsn pb).macNoSrcAddr = 0 := by
    unfold assignSeqno
    split <;> exact ⟨htype, hmeta, hsrc⟩
  constructor
  · simp only [setupParams, hseq.1]
    rfl
  · simp only [setupParams, hseq.2.1]
    rfl
  · rfl
  · simp only [setupParams, hseq.2.2]
    rfl

/-- What `send_packet` puts between the header and the packet. -/
def sentBody (neighborDiscovery : Bool) (pre data : List UInt8) : List UInt8 :=
  if neighborDiscovery then
    createHeaderIeDescriptor .headerListTermination1 0 ++ (pre ++ (unicastBytes ++ data))
  else pre ++ data

/-- The attributes that are set. -/
theorem setAttrs_eq (config : Config) (pb : Packetbuf) :
    setAttrs config pb = { pb with
      macSeqno := (setAttrs config pb).macSeqno
      macAck := (setAttrs config pb).macAck
      frameType := 1
      sender := config.linkaddrNodeAddr } := by
  unfold setAttrs
  dsimp only
  split <;> rfl

/-- The frame in the queue: a header, and the packet with the elements of overhearing. -/
theorem sendPacket_eq_some {config : Config} {qb : Queuebuf} (h : sendPacket config pb = some qb)
    (hbufptr : pb.bufptr = 0) (hmeta : pb.macMetadata = 1) (hsrc : pb.macNoSrcAddr = 0)
    (hcontents : contents pb = pre ++ data) (hpre : pre.length = dataptr pb) :
    ∃ pb' params, params = setupParams config.panId (assignSeqno config.macDsn pb') ∧
      SameAttrs (setAttrs config pb) pb' ∧ DataHeader params ∧
      qb.data = (create params).2 ++ sentBody config.neighborDiscovery pre data ∧
      qb.data.length ≤ packetbufSize ∧ SameAttrs (assignSeqno config.macDsn pb') qb.attrs := by
  have hattrs := setAttrs_eq config pb
  generalize hset : setAttrs config pb = pb₁ at hattrs
  have hsame₁ : contents pb₁ = contents pb ∧ dataptr pb₁ = dataptr pb ∧ pb₁.bufptr = pb.bufptr := by
    rw [hattrs]
    exact ⟨rfl, rfl, rfl⟩
  have hmeta₁ : pb₁.macMetadata = 1 ∧ pb₁.macNoSrcAddr = 0 ∧ pb₁.frameType = 1 := by
    rw [hattrs]
    exact ⟨hmeta, hsrc, rfl⟩
  rw [← hsame₁.1] at hcontents
  rw [← hsame₁.2.1] at hpre
  rw [sendPacket, hset] at h
  -- The buffer the framer sees, with the elements of overhearing or without.
  have hbody : ∃ pb₂, (if config.neighborDiscovery = true ∧ pb₁.macMetadata ≠ 0 then
      leave (createUnicast pb₁) else pb₁) = pb₂ ∧ SameAttrs pb₁ pb₂ ∧
      (packetbufSize < 4 + totlen pb₂ ∨
        contents pb₂ = sentBody config.neighborDiscovery pre data ∧ pb₂.bufptr = 0) := by
    cases hnd : config.neighborDiscovery with
    | true =>
      refine ⟨_, if_pos ⟨rfl, by rw [hmeta₁.1]; decide⟩, ?_⟩
      rcases createUnicast_contents hcontents hpre with ⟨hsame, hcase⟩
      refine ⟨hsame, hcase.imp id fun hc => ⟨hc.1, ?_⟩⟩
      rw [hc.2, hsame₁.2.2, hbufptr]
    | false =>
      refine ⟨_, if_neg (by simp), rfl, .inr ⟨hcontents, ?_⟩⟩
      rw [hsame₁.2.2, hbufptr]
  rcases hbody with ⟨pb₂, hpb₂, hsame₂, hcase⟩
  rw [hpb₂] at h
  split at h
  · cases h
  case h_2 pb₃ n hframe =>
    cases h
    have hheader : DataHeader (setupParams config.panId (assignSeqno config.macDsn pb₂)) := by
      apply dataHeader_setupParams
      all_goals rw [hsame₂]
      · exact hmeta₁.2.2
      · exact hmeta₁.1
      · exact hmeta₁.2.1
    rcases framerCreate_contents hframe with ⟨hn, hroom, hc₃, hb₃, _, _⟩
    rcases hcase with hfull | ⟨hbytes, hb₂⟩
    · have hle := hheader.le_hdrlen
      rw [← hn] at hle
      omega
    have hlen : (contents pb₃).length = n + totlen pb₂ := by
      rw [hc₃, List.length_append, length_create, length_contents, hn]
    have hcopy : copyto pb₃ = contents pb₃ := by
      apply copyto_eq_contents
      · rw [hb₃, hb₂]
      · rw [← length_contents, hlen]
        exact hroom
    refine ⟨pb₂, _, rfl, hsame₂, hheader, ?_, ?_, sameAttrs_framerCreate hframe⟩
    · rw [hcopy, hc₃, hbytes]
    · rw [hcopy, hlen]
      exact hroom

end Sending

/-! ## What the receiver hands up -/

section Receiving

variable {sixtop : Bool} {input : InputPacket} {params frame : Frame} {pb : Packetbuf}
  {body ie rest : List UInt8}

/-- A frame with elements reaches the parser of elements. -/
theorem rxProcessInput_eq (hdr : DataHeader params)
    (h : input.payload.read 0 input.len = (create params).2 ++ body) :
    rxProcessInput sixtop input frame pb =
      match stripIes sixtop input (Frame802154.hdrlen params) with
      | none => .wild
      | some (input, ies) => .packet (some ies) (copyfrom pb (input.payload.read 0 input.len)) := by
  have hlen := congrArg List.length h
  rw [length_read, List.length_append, length_create] at hlen
  rw [hlen, ← length_create, ← List.length_append] at h
  have hround := @parse_of_read input.payload frame params 0 input.len (read_append_inj h).1
    (by omega) hdr.not_skewed
  have hret := hround.length_eq
  have hfcf := hround.fcf_eq
  rw [hdr.create_fcf] at hfcf
  have hpos := hdr.le_hdrlen
  rw [rxProcessInput]
  generalize Frame802154.parse input.payload 0 input.len frame = r at hret hfcf ⊢
  rcases r with ⟨frame', ret⟩
  dsimp only at hret hfcf ⊢
  rw [hret, if_pos ⟨by omega, by rw [hfcf, hdr.frameType_eq]⟩, hfcf, hdr.ieListPresent_eq, if_pos rfl]

/-- Elements that are parsed as a whole are taken out. -/
theorem stripIes_eq_some {ret : ℕ} {hdrBytes : List UInt8} (hret : hdrBytes.length = ret)
    (h : input.payload.read 0 input.len = hdrBytes ++ (ie ++ rest)) (hie : ie.length < 256)
    (hparse : (parseInformationElements sixtop (ie ++ rest) Ies.zero).result = .ok ie.length) :
    ∃ input', stripIes sixtop input ret =
        some (input', (parseInformationElements sixtop (ie ++ rest) Ies.zero).ies) ∧
      input'.payload.read 0 input'.len = hdrBytes ++ rest := by
  have hlen := congrArg List.length h
  rw [length_read, List.length_append, List.length_append, hret] at hlen
  rw [hlen, ← hret, ← List.length_append, ← List.length_append] at h
  rcases read_append_inj h with ⟨hhdr, hrest⟩
  have hrest' := (read_append_inj hrest).2
  rw [Nat.zero_add] at hrest hrest'
  have hsize : input.len - ret = (ie ++ rest).length := by
    rw [List.length_append]
    omega
  have hsmall : (UInt8.ofNat ie.length).toNat = ie.length := by
    rw [UInt8.toNat_ofNat']
    omega
  rw [stripIes, hsize, ← hret, hrest, hparse]
  dsimp only
  rw [hsmall, hret, if_neg (by omega)]
  refine ⟨_, rfl, ?_⟩
  dsimp only
  have htail : input.len - ie.length = ret + rest.length := by omega
  rw [htail, Nat.add_sub_cancel_left, read_append, Nat.zero_add]
  rw [hret] at hhdr hrest'
  congr 1
  · rw [move, read_write_below (by omega), hhdr]
  · rw [move, hrest']
    exact read_write_self _ _ _

/-- Elements that are refused make the length negative. -/
theorem stripIes_eq_none {ret : ℕ} {hdrBytes : List UInt8} {stop : Stop}
    (hret : hdrBytes.length = ret) (h : input.payload.read 0 input.len = hdrBytes ++ body)
    (hlen : input.len ≤ packetbufSize)
    (hparse : (parseInformationElements sixtop body Ies.zero).result = .error stop) :
    stripIes sixtop input ret = none := by
  have hsize := congrArg List.length h
  rw [length_read, List.length_append, hret] at hsize
  rw [hsize, ← hret, ← List.length_append] at h
  have hbody := (read_append_inj h).2
  rw [Nat.zero_add, hret] at hbody
  have hrest : input.len - ret = body.length := by omega
  rw [packetbufSize] at hlen
  rw [stripIes, hrest, hbody, hparse]
  dsimp only
  rw [if_pos]
  change input.len < 255 + ret
  omega

/-- The framer takes the header off a packet that is copied into the buffer. -/
theorem framerParse_copyfrom (panId : UInt16) (hdr : DataHeader params)
    (hlen : ((create params).2 ++ rest).length ≤ packetbufSize) :
    ∃ pb', framerParse panId frame (copyfrom pb ((create params).2 ++ rest)) =
        some (pb', Frame802154.hdrlen params) ∧ payload pb' = rest ∧
      pb'.mem.read 0 (packetbufHdrlen pb') = (create params).2 ∧ datalen pb' = rest.length := by
  have hcopy : ∃ pb₁, copyfrom pb ((create params).2 ++ rest) = pb₁ ∧ pb₁.bufptr = 0 ∧
      pb₁.hdrlen = 0 ∧ pb₁.buflen = ((create params).2 ++ rest).length ∧
      pb₁.mem.read 0 ((create params).2 ++ rest).length = (create params).2 ++ rest := by
    refine ⟨_, rfl, rfl, rfl, ?_, ?_⟩
    · rw [copyfrom, List.take_of_length_le hlen]
    · rw [copyfrom, List.take_of_length_le hlen]
      exact read_write_self pb.mem 0 _
  rcases hcopy with ⟨pb₁, hpb₁, hbufptr, hhdrlen, hbuflen, hread⟩
  -- The header is parsed back, and the rest is the data.
  rcases read_append_inj hread with ⟨hhdr, hrest⟩
  have hsize : ((create params).2 ++ rest).length = Frame802154.hdrlen params + rest.length := by
    rw [List.length_append, length_create]
  rw [Nat.zero_add, length_create] at hrest
  have hround := @parse_of_read pb₁.mem frame params 0 ((create params).2 ++ rest).length hhdr
    (by omega) hdr.not_skewed
  rw [length_create] at hhdr
  have hret := hround.length_eq
  have hfcf := hround.fcf_eq
  rw [hdr.create_fcf] at hfcf
  have hpos := hdr.le_hdrlen
  have hdata : dataptr pb₁ = 0 := by simp [dataptr, packetbufHdrlen, hbufptr, hhdrlen]
  rw [hpb₁, framerParse, hdata, datalen, hbuflen]
  generalize Frame802154.parse pb₁.mem 0 ((create params).2 ++ rest).length frame = r at hret hfcf ⊢
  rcases r with ⟨frame', ret⟩
  dsimp only at hret hfcf ⊢
  rw [hret, if_neg (by omega), hdrreduce, if_neg (by rw [hbuflen, hsize]; omega)]
  dsimp only
  rw [if_neg (by rw [hfcf, hdr.ieListPresent_eq]; simp)]
  refine ⟨_, rfl, ?_, ?_, ?_⟩
  · simp only [payload, dataptr, datalen, packetbufHdrlen, hbuflen, hbufptr, hhdrlen, hsize,
      Nat.add_sub_cancel_left, Nat.zero_add, Nat.add_zero]
    exact hrest
  · simp only [packetbufHdrlen, hbufptr, hhdrlen, Nat.zero_add, Nat.add_zero]
    exact hhdr
  · simp only [datalen, hbuflen, hsize, Nat.add_sub_cancel_left]

end Receiving

end MasterScheduler.Mote.Mac

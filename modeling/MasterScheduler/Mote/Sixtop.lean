import MasterScheduler.Mote.Mac
import MasterScheduler.Mote.SixpPkt

/-!
# MasterScheduler.Mote.Sixtop — a 6P packet on its way through the MAC

`sixtop.c` puts a 6P packet into an information element of a data frame and
takes it out again at the receiver. Between the two, `tsch_rx_process_pending`
has taken all elements out of the frame.

- `sixp_lost`: no 6P packet that is sent reaches `sixp_input`.
-/

namespace MasterScheduler.Mote.Sixtop

open Lib Memory Frame802154 Framer Elements Mac

/-- `SIXTOP_SUBIE_ID`. -/
def sixtopSubieId : UInt8 := 0xc9

/-! ## Sending -/

/-- The 6top sub-element identifier in front of the packet. -/
def prependSubieId (pb : Packetbuf) : Option Packetbuf :=
  (hdralloc pb 1).map fun pb => { pb with mem := pb.mem.write 0 [sixtopSubieId] }

/-- The two bytes of a descriptor in front of the packet. -/
def prependIe (w : Writer) (pb : Packetbuf) : Option Packetbuf :=
  match hdralloc pb 2 with
  | none => none
  | some pb => (w pb.mem 0 2).map fun (mem, _) => { pb with mem := mem }

/-- The payload termination behind the data, where the build has one. -/
def appendTermination (payloadTermination : Bool) (pb : Packetbuf) : Option Packetbuf :=
  if payloadTermination then
    match createIePayloadListTermination pb.mem (dataptr pb + datalen pb)
        (packetbufSize - totlen pb) with
    | none => none
    | some (mem, len) => some (setDatalen { pb with mem := mem } (datalen pb + len))
  else some pb

/-- `sixtop_output`: the buffer as `NETSTACK_MAC.send` finds it. `payloadTermination` is
`SIXP_WITH_PAYLOAD_TERMINATION_IE`. Without room for the last header it is left out. -/
def sixtopOutput (payloadTermination : Bool) (config : Mac.Config) (destAddr : Linkaddr)
    (pb : Packetbuf) : Option Packetbuf := do
  let pb ← prependSubieId pb
  let pb ← prependIe
    (createIeIetf { Ies.zero with sixtopIeContentLen := UInt16.ofNat (totlen pb) }) pb
  let pb ← appendTermination payloadTermination pb
  let pb := (prependIe createIeHeaderListTermination1 pb).getD pb
  return { pb with
    macMetadata := 1
    frameType := dataFrame.val.toUInt16
    receiver := destAddr
    sender := config.linkaddrNodeAddr }

/-- A 6P packet from `sixp_pkt_create` to the queue. -/
def sixpSend (payloadTermination : Bool) (config : Mac.Config) (destAddr : Linkaddr)
    (pkt : SixpPkt.Pkt) (pb : Packetbuf) : Option Queuebuf := do
  let pb ← SixpPkt.create pkt pb
  let pb ← sixtopOutput payloadTermination config destAddr pb
  sendPacket config pb

/-! ## Receiving -/

/-- A call of `sixp_input`. -/
structure SixpInput where
  buf : List UInt8
  srcAddr : Linkaddr
deriving DecidableEq, Repr

/-- `strip_payload_termination_ie`. -/
def stripPayloadTerminationIe (pb : Packetbuf) : Packetbuf :=
  if pb.mem (dataptr pb) = 0x00 ∧ pb.mem (dataptr pb + 1) = 0xf8 then (hdrreduce pb 2).getD pb
  else pb

/-- `sixtop_input`, with the call it makes and the buffer it leaves. -/
def sixtopInput (frame : Frame) (pb : Packetbuf) : Option SixpInput × Packetbuf :=
  let (frame, ret) := Frame802154.parse pb.mem 0 (packetbufHdrlen pb) frame
  if ret = 0 then (none, pb)
  else
    let r := parseInformationElements true (payload pb) Ies.zero
    -- the pointer is `NULL` unless a 6top element was found, behind two descriptors at least
    if frame.fcf.ieListPresent ∧ r.result.isOk ∧ r.ies.sixtopIeContentPtr ≠ 0 ∧
        0 < r.ies.sixtopIeContentLen then
      let content := pb.mem.read (dataptr pb + r.ies.sixtopIeContentPtr)
        r.ies.sixtopIeContentLen.toNat
      let len := r.ies.sixtopIeContentPtr + r.ies.sixtopIeContentLen.toNat
      (some ⟨content, pb.sender⟩, stripPayloadTerminationIe ((hdrreduce pb len).getD pb))
    else (none, pb)

/-- What goes up from `packet_input`: to `sixp_input`, and to the network layer. -/
structure Up where
  sixp : Option SixpInput
  network : Option Packetbuf

/-- `packet_input`. What `mac_sequence_is_duplicate` says of the packet is left open. -/
def packetInput (panId : UInt16) (pf frame : Frame) (isDuplicate : Packetbuf → Bool)
    (pb : Packetbuf) : Up :=
  match framerParse panId pf pb with
  | none => ⟨none, none⟩
  | some (pb, _) =>
      if pb.macSeqno ≠ 0xffff ∧ isDuplicate pb then ⟨none, none⟩
      else
        let (sixp, pb) := sixtopInput frame pb
        ⟨sixp, some pb⟩

/-- What a receiver is made of, apart from the frame: its network, the records on its stack
before they are filled, the sequence numbers it knows, and its packet buffer. -/
structure Receiver where
  panId : UInt16
  rxFrame : Frame
  framerFrame : Frame
  sixtopFrame : Frame
  isDuplicate : Packetbuf → Bool
  pb : Packetbuf

/-- A frame on its way up. Nothing is known after a `memmove` of negative length. -/
def Receiver.receive (r : Receiver) (input : InputPacket) : Option Up :=
  match rxProcessInput true input r.rxFrame r.pb with
  | .packet _ pb => some (packetInput r.panId r.framerFrame r.sixtopFrame r.isDuplicate pb)
  | .wild => none
  | _ => some ⟨none, none⟩

/-! ## The frame in the queue -/

section Sending

variable {payloadTermination : Bool} {config : Mac.Config} {destAddr : Linkaddr} {pkt : SixpPkt.Pkt}
  {pb pb' : Packetbuf} {w : Writer} {bytes : List UInt8}

/-- Bytes put in front of a packet whose header starts the buffer. -/
structure Prepends (bytes : List UInt8) (pb pb' : Packetbuf) : Prop where
  contents_eq : contents pb' = bytes ++ contents pb
  bufptr_eq : pb'.bufptr = pb.bufptr
  dataptr_eq : dataptr pb' = bytes.length + dataptr pb
  totlen_le : totlen pb' ≤ packetbufSize
  sameAttrs : SameAttrs pb pb'

theorem prepends_hdralloc (h : hdralloc pb bytes.length = some pb') :
    Prepends bytes pb { pb' with mem := pb'.mem.write 0 bytes } := by
  rcases hdralloc_eq_some h with ⟨hroom, htot, hbufptr, _, hhdrlen⟩
  refine ⟨hdralloc_write h, hbufptr, ?_, ?_, (sameAttrs_hdralloc h).trans rfl⟩
  · simp only [dataptr, packetbufHdrlen, hbufptr, hhdrlen]
    omega
  · change totlen pb' ≤ packetbufSize
    omega

theorem prependSubieId_eq_some (h : prependSubieId pb = some pb') :
    Prepends [sixtopSubieId] pb pb' := by
  rcases Option.map_eq_some_iff.mp h with ⟨pb₁, halloc, rfl⟩
  exact prepends_hdralloc halloc

theorem prependIe_eq_some {n : ℕ} (hw : ∀ m buf, w m buf 2 = some (m.write buf bytes, n))
    (hbytes : bytes.length = 2) (h : prependIe w pb = some pb') : Prepends bytes pb pb' := by
  rw [prependIe] at h
  split at h
  · cases h
  case h_2 pb₁ halloc =>
    rw [hw, Option.map_some, Option.some.injEq] at h
    rw [← h]
    rw [← hbytes] at halloc
    exact prepends_hdralloc halloc

theorem prependIe_eq_none {n : ℕ} (hw : ∀ m buf, w m buf 2 = some (m.write buf bytes, n))
    (h : prependIe w pb = none) : packetbufSize < 2 + totlen pb := by
  rw [prependIe] at h
  split at h
  case h_1 halloc =>
    rw [hdralloc] at halloc
    split at halloc
    case isTrue hfull => exact hfull
    case isFalse => cases halloc
  case h_2 =>
    rw [hw] at h
    cases h

/-- The payload termination of a build, or nothing. -/
def terminationBytes (payloadTermination : Bool) : List UInt8 :=
  if payloadTermination then createPayloadIeDescriptor .payloadListTermination 0 else []

theorem appendTermination_eq_some (h : appendTermination payloadTermination pb = some pb') :
    contents pb' = contents pb ++ terminationBytes payloadTermination ∧ pb'.bufptr = pb.bufptr ∧
      dataptr pb' = dataptr pb ∧ SameAttrs pb pb' := by
  cases payloadTermination with
  | false =>
    cases h
    exact ⟨(List.append_nil _).symm, rfl, rfl, rfl⟩
  | true =>
    rw [appendTermination, if_pos rfl, createIePayloadListTermination] at h
    split at h
    · cases h
    case h_2 mem len hw =>
      split at hw
      · cases hw
        cases h
        refine ⟨?_, rfl, rfl, rfl⟩
        change (pb.mem.write (totlen pb) (createPayloadIeDescriptor .payloadListTermination 0)).read 0
          (totlen pb + 2) = _
        rw [read_append, Nat.zero_add]
        congr 1
        · exact read_write_below (by rw [Nat.zero_add])
        · exact read_write_self pb.mem (totlen pb) _
      · cases hw

/-- What stands in front of the body of a packet in the buffer. -/
def sixtopPre (pkt : SixpPkt.Pkt) : List UInt8 :=
  createHeaderIeDescriptor .headerListTermination1 0 ++
    (createPayloadIeDescriptor .ietf (5 + pkt.body.length) ++ (sixtopSubieId :: pkt.header))

/-- The buffer `sixtop_output` hands to the MAC, unless it is too full for any header. -/
theorem sixtopOutput_eq_some {pb₀ pb₁ : Packetbuf} (hcreate : SixpPkt.create pkt pb₀ = some pb₁)
    (h : sixtopOutput payloadTermination config destAddr pb₁ = some pb') :
    pb'.bufptr = 0 ∧ pb'.macMetadata = 1 ∧ pb'.macNoSrcAddr = 0 ∧
      ∃ pre data, contents pb' = pre ++ data ∧ pre.length = dataptr pb' ∧
        (packetbufSize < 2 + (pre ++ data).length ∨
          pre = sixtopPre pkt ∧ data = pkt.body ++ terminationBytes payloadTermination) := by
  rcases SixpPkt.create_contents hcreate with ⟨hcontents₁, hbufptr₁, hhdrlen₁, hattrs₁⟩
  have hdata₁ : dataptr pb₁ = 4 := by simp only [dataptr, packetbufHdrlen, hbufptr₁, hhdrlen₁]
  rcases Option.bind_eq_some_iff.mp h with ⟨pb₂, h₂, h⟩
  rcases Option.bind_eq_some_iff.mp h with ⟨pb₃, h₃, h⟩
  rcases Option.bind_eq_some_iff.mp h with ⟨pb₄, h₄, h⟩
  have hsub := prependSubieId_eq_some h₂
  have htot₂ : totlen pb₂ = 5 + pkt.body.length := by
    rw [← length_contents, hsub.contents_eq, hcontents₁, List.length_append, List.length_append]
    change 1 + (4 + _) = _
    omega
  have hroom₂ := hsub.totlen_le
  have hlen : (UInt16.ofNat (totlen pb₂)).toNat = 5 + pkt.body.length := by
    rw [packetbufSize] at hroom₂
    rw [UInt16.toNat_ofNat', htot₂]
    omega
  have hietf : Prepends (createPayloadIeDescriptor .ietf (5 + pkt.body.length)) pb₂ pb₃ := by
    rw [← hlen]
    exact prependIe_eq_some (fun _ _ => rfl) rfl h₃
  rcases appendTermination_eq_some h₄ with ⟨hcontents₄, hbufptr₄, hdata₄, hsame₄⟩
  have hattrs₄ : SameAttrs (clear pb₀) pb₄ :=
    ((hattrs₁.trans hsub.sameAttrs).trans hietf.sameAttrs).trans hsame₄
  have hbytes₄ : contents pb₄ = (createPayloadIeDescriptor .ietf (5 + pkt.body.length) ++
      (sixtopSubieId :: pkt.header)) ++ (pkt.body ++ terminationBytes payloadTermination) := by
    rw [hcontents₄, hietf.contents_eq, hsub.contents_eq, hcontents₁]
    simp only [List.append_assoc, List.cons_append, List.nil_append]
  have hptr₄ : dataptr pb₄ = 7 := by
    rw [hdata₄, hietf.dataptr_eq, hsub.dataptr_eq, hdata₁]
    rfl
  have hzero₄ : pb₄.bufptr = 0 := by
    rw [hbufptr₄, hietf.bufptr_eq, hsub.bufptr_eq, hbufptr₁]
  cases hlt : prependIe createIeHeaderListTermination1 pb₄ with
  | none =>
    -- no room for two bytes: the header is left out
    rw [hlt, Option.getD_none] at h
    cases h
    have hfull := prependIe_eq_none (fun _ _ => rfl) hlt
    refine ⟨hzero₄, rfl, ?_, _, _, hbytes₄, hptr₄.symm, .inl ?_⟩
    · rw [hattrs₄]
      rfl
    · rw [← hbytes₄, length_contents]
      exact hfull
  | some pb₅ =>
    rw [hlt, Option.getD_some] at h
    cases h
    have hheader : Prepends (createHeaderIeDescriptor .headerListTermination1 0) pb₄ pb₅ :=
      prependIe_eq_some (fun _ _ => rfl) rfl hlt
    refine ⟨hheader.bufptr_eq.trans hzero₄, rfl, ?_, _, _, ?_, ?_, .inr ⟨rfl, rfl⟩⟩
    · rw [hattrs₄.trans hheader.sameAttrs]
      rfl
    · rw [sixtopPre, List.append_assoc, ← hbytes₄]
      exact hheader.contents_eq
    · change 9 = dataptr pb₅
      rw [hheader.dataptr_eq, hptr₄]
      rfl

theorem le_length_sentBody (neighborDiscovery : Bool) (pre data : List UInt8) :
    (pre ++ data).length ≤ (sentBody neighborDiscovery pre data).length := by
  unfold sentBody
  split <;> simp only [List.length_append] <;> omega

/-- The frame of a packet in the queue. -/
theorem sixpSend_eq_some {qb : Queuebuf}
    (h : sixpSend payloadTermination config destAddr pkt pb = some qb) :
    ∃ params, DataHeader params ∧ qb.data = (create params).2 ++
        sentBody config.neighborDiscovery (sixtopPre pkt)
          (pkt.body ++ terminationBytes payloadTermination) ∧
      qb.data.length ≤ packetbufSize := by
  rcases Option.bind_eq_some_iff.mp h with ⟨pb₁, hcreate, h⟩
  rcases Option.bind_eq_some_iff.mp h with ⟨pb₂, hout, hsend⟩
  rcases sixtopOutput_eq_some hcreate hout with
    ⟨hbufptr, hmeta, hsrc, pre, data, hcontents, hpre, hcase⟩
  rcases sendPacket_eq_some hsend hbufptr hmeta hsrc hcontents hpre with
    ⟨_, params, _, _, hheader, hdata, hle, _⟩
  refine ⟨params, hheader, ?_, hle⟩
  rcases hcase with hfull | ⟨rfl, rfl⟩
  · have hhdr := hheader.le_hdrlen
    have hbody := le_length_sentBody config.neighborDiscovery pre data
    rw [hdata, List.length_append, length_create] at hle
    omega
  · exact hdata

end Sending

/-! ## The elements at the receiver -/

section Receiving

variable {offset fuel : ℕ} {content rest : List UInt8} {ies : Ies} {log : List (Element × Write)}

/-- One round over a 6top element. -/
theorem parseLoop_ietf (hlen : 3 + content.length + rest.length ≤ 255) :
    ∃ ies' log', parseLoop true (fuel + 1) (.atPosition .payloadIe offset
        (createPayloadIeDescriptor .ietf (1 + content.length) ++
          (sixtopSubieId :: (content ++ rest))) ies log) =
      parseLoop true fuel (.atPosition .payloadIe (offset + 2 + (1 + content.length)) rest ies'
        log') := by
  have hann : announced true .payloadIe (word _ _) = some (.ietf, 1 + content.length) :=
    (payload_descriptor_iff (by decide) (by omega)).mp rfl
  rw [createPayloadIeDescriptor, le16, List.cons_append, List.cons_append, List.nil_append,
    parseLoop_atPosition (by simp only [List.length_cons, List.length_append]; omega)]
  generalize word _ _ = ieDesc at hann ⊢
  rw [announced] at hann
  split at hann
  case isFalse => cases hann
  case isTrue htype =>
    rcases Option.map_eq_some_iff.mp hann with ⟨e, hsel, heq⟩
    rw [Prod.mk.injEq] at heq
    rcases heq with ⟨rfl, hdesc⟩
    have hstep : ∃ ies' log', dispatch true (.atPosition .payloadIe (offset + 2)
        (sixtopSubieId :: (content ++ rest)) ies log) ieDesc =
        (.atPosition .payloadIe (offset + 2) (sixtopSubieId :: (content ++ rest)) ies' log',
          .next (1 + content.length)) := by
      change ∃ ies' log', payloadStep true _ ieDesc = _
      rw [payloadStep, if_neg (not_not.mpr htype), hsel, hdesc]
      exact ⟨_, _, rfl⟩
    rcases hstep with ⟨ies', log', hstep⟩
    rw [hstep]
    have hadv := advance_atPosition .payloadIe (offset + 2) (sixtopSubieId :: content) rest
    rw [List.length_cons, Nat.add_comm content.length] at hadv
    exact ⟨_, _, congrArg (parseLoop true fuel) (hadv _ _)⟩

/-- A 6top element between the terminations is accepted as a whole. -/
theorem parse_ietf (payloadTermination : Bool)
    (hlen : 5 + content.length + (terminationBytes payloadTermination).length ≤ 255) :
    (parseInformationElements true (createHeaderIeDescriptor .headerListTermination1 0 ++
        (createPayloadIeDescriptor .ietf (1 + content.length) ++
          (sixtopSubieId :: (content ++ terminationBytes payloadTermination)))) Ies.zero).result =
      .ok (5 + content.length + (terminationBytes payloadTermination).length) := by
  have hheader : (createHeaderIeDescriptor .headerListTermination1 0).length = 2 := rfl
  have hietf : (createPayloadIeDescriptor .ietf (1 + content.length)).length = 2 := rfl
  have hinit (buf : List UInt8) : Parser.init buf Ies.zero =
      .atPosition .headerIe 0 buf (Ies.zero.assign (.payloadIeOffset 0)) [] := rfl
  have hfuel : (createHeaderIeDescriptor .headerListTermination1 0 ++
      (createPayloadIeDescriptor .ietf (1 + content.length) ++
        (sixtopSubieId :: (content ++ terminationBytes payloadTermination)))).length + 1 =
      content.length + (terminationBytes payloadTermination).length + 3 + 1 + 1 + 1 := by
    simp only [List.length_append, List.length_cons, hheader, hietf]
    omega
  rw [parseInformationElements, hfuel, hinit, parseLoop_headerListTermination1 (by
    simp only [List.length_append, List.length_cons, hietf]
    omega)]
  -- The element is read to its end, and the termination follows, if there is one.
  rcases @parseLoop_ietf 2 (content.length + (terminationBytes payloadTermination).length + 3 + 1)
    content (terminationBytes payloadTermination)
    ((Ies.zero.assign (.payloadIeOffset 0)).assign (.payloadIeOffset 2))
    [(.headerListTermination1, .payloadIeOffset 2)] (by omega) with ⟨ies', log', hrun⟩
  have hround := congrArg Parsed.result hrun
  refine Eq.trans hround ?_
  cases payloadTermination with
  | false =>
    rw [parseLoop, if_pos (by rfl)]
    change Except.ok (2 + 2 + (1 + content.length)) = Except.ok (5 + content.length + 0)
    congr 1
    omega
  | true =>
    have hterm := @parseLoop_payloadListTermination true
      (content.length + (terminationBytes true).length + 3) (2 + 2 + (1 + content.length)) [] ies'
      log' (by decide)
    rw [List.append_nil] at hterm
    refine (congrArg Parsed.result hterm).trans ?_
    change Except.ok (2 + 2 + (1 + content.length) + 2) = Except.ok (5 + content.length + 2)
    congr 1
    omega

theorem sixtopPre_append (pkt : SixpPkt.Pkt) (bytes : List UInt8) :
    sixtopPre pkt ++ (pkt.body ++ bytes) = createHeaderIeDescriptor .headerListTermination1 0 ++
      (createPayloadIeDescriptor .ietf (1 + (pkt.header ++ pkt.body).length) ++
        (sixtopSubieId :: ((pkt.header ++ pkt.body) ++ bytes))) := by
  have hsize : 1 + (pkt.header ++ pkt.body).length = 5 + pkt.body.length := by
    rw [List.length_append]
    change 1 + (4 + _) = _
    omega
  rw [hsize, sixtopPre]
  simp only [List.append_assoc, List.cons_append]

/-- With neighbor discovery there are two header terminations, and the second one is refused. -/
theorem parse_two_terminations (rest : List UInt8) (hlen : 4 + rest.length ≤ 255) :
    (parseInformationElements true (createHeaderIeDescriptor .headerListTermination1 0 ++
      (createHeaderIeDescriptor .headerListTermination1 0 ++ rest)) Ies.zero).result =
      .error .reject := by
  have hheader : (createHeaderIeDescriptor .headerListTermination1 0).length = 2 := rfl
  have hinit (buf : List UInt8) : Parser.init buf Ies.zero =
      .atPosition .headerIe 0 buf (Ies.zero.assign (.payloadIeOffset 0)) [] := rfl
  have hfuel : (createHeaderIeDescriptor .headerListTermination1 0 ++
      (createHeaderIeDescriptor .headerListTermination1 0 ++ rest)).length + 1 =
      rest.length + 3 + 1 + 1 := by
    simp only [List.length_append, hheader]
    omega
  rw [parseInformationElements, hfuel, hinit, parseLoop_headerListTermination1 (by
    simp only [List.length_append, hheader]
    omega)]
  rw [createHeaderIeDescriptor, le16, List.cons_append, List.cons_append, List.nil_append,
    parseLoop_atPosition (by omega)]
  rfl

/-- Nothing is left for `sixtop_input` in an empty payload. -/
theorem sixtopInput_of_nil {frame : Frame} {pb : Packetbuf} (h : payload pb = []) :
    sixtopInput frame pb = (none, pb) := by
  rw [sixtopInput, h]
  have hptr : (parseInformationElements true [] Ies.zero).ies.sixtopIeContentPtr = 0 := rfl
  generalize Frame802154.parse pb.mem 0 (packetbufHdrlen pb) frame = r
  rcases r with ⟨frame', ret⟩
  dsimp only
  rw [hptr]
  split
  · rfl
  · rw [if_neg (by simp)]

variable {payloadTermination : Bool} {pkt : SixpPkt.Pkt} {r : Receiver} {input : InputPacket}
  {params : Frame}

/-- A frame of a sender with neighbor discovery makes the receiver move memory by a negative
length. -/
theorem receive_of_discovery (hheader : DataHeader params) (hle : input.len ≤ packetbufSize)
    (hinput : input.payload.read 0 input.len = (create params).2 ++
      sentBody true (sixtopPre pkt) (pkt.body ++ terminationBytes payloadTermination)) :
    r.receive input = none := by
  have hlen := congrArg List.length hinput
  rw [length_read, List.length_append] at hlen
  rw [Receiver.receive, rxProcessInput_eq hheader hinput]
  have hbody : sentBody true (sixtopPre pkt) (pkt.body ++ terminationBytes payloadTermination) =
      createHeaderIeDescriptor .headerListTermination1 0 ++
        (createHeaderIeDescriptor .headerListTermination1 0 ++
          (createPayloadIeDescriptor .ietf (5 + pkt.body.length) ++
            (sixtopSubieId :: (pkt.header ++
              (unicastBytes ++ (pkt.body ++ terminationBytes payloadTermination)))))) := by
    rw [sentBody, if_pos rfl, sixtopPre]
    simp only [List.append_assoc, List.cons_append]
  rw [hbody] at hlen hinput
  have hheader : (createHeaderIeDescriptor .headerListTermination1 0).length = 2 := rfl
  rw [packetbufSize] at hle
  have hreject := parse_two_terminations (createPayloadIeDescriptor .ietf (5 + pkt.body.length) ++
    (sixtopSubieId :: (pkt.header ++
      (unicastBytes ++ (pkt.body ++ terminationBytes payloadTermination))))) (by
    rw [List.length_append, List.length_append, hheader] at hlen
    omega)
  rw [stripIes_eq_none (length_create params) hinput hle hreject]

/-- Of a frame of a sender without neighbor discovery the receiver keeps the header only. -/
theorem receive_of_no_discovery (hheader : DataHeader params) (hle : input.len ≤ packetbufSize)
    (hinput : input.payload.read 0 input.len = (create params).2 ++
      sentBody false (sixtopPre pkt) (pkt.body ++ terminationBytes payloadTermination)) :
    ∃ up, r.receive input = some up ∧ up.sixp = none := by
  have hlen := congrArg List.length hinput
  rw [length_read, List.length_append, sentBody, if_neg (by decide), sixtopPre_append] at hlen
  rw [Receiver.receive, rxProcessInput_eq hheader hinput]
  rw [sentBody, if_neg (by decide), sixtopPre_append] at hinput
  generalize pkt.header ++ pkt.body = content at hlen hinput
  have hsize : (createHeaderIeDescriptor .headerListTermination1 0 ++
      (createPayloadIeDescriptor .ietf (1 + content.length) ++
        (sixtopSubieId :: (content ++ terminationBytes payloadTermination)))).length =
      5 + content.length + (terminationBytes payloadTermination).length := by
    have h₁ : (createHeaderIeDescriptor .headerListTermination1 0).length = 2 := rfl
    have h₂ : (createPayloadIeDescriptor .ietf (1 + content.length)).length = 2 := rfl
    simp only [List.length_append, List.length_cons, h₁, h₂]
    omega
  rw [packetbufSize] at hle
  have hparse := @parse_ietf content payloadTermination (by omega)
  rw [← hsize] at hparse
  generalize createHeaderIeDescriptor .headerListTermination1 0 ++
    (createPayloadIeDescriptor .ietf (1 + content.length) ++
      (sixtopSubieId :: (content ++ terminationBytes payloadTermination))) = ie at *
  rw [← List.append_nil ie] at hinput
  -- What the receiver keeps is the frame header, as the elements are stripped.
  rcases stripIes_eq_some (length_create params) hinput (by omega)
    (by rw [List.append_nil]; exact hparse) with ⟨input', hstrip, hread⟩
  rw [hstrip]
  dsimp only
  rw [hread]
  rcases @framerParse_copyfrom params r.framerFrame r.pb [] r.panId hheader (by
    rw [List.append_nil, packetbufSize]
    omega) with ⟨pb', hframer, hpayload, _, _⟩
  rw [packetInput, hframer]
  dsimp only
  split
  · exact ⟨_, rfl, rfl⟩
  · rw [sixtopInput_of_nil hpayload]
    exact ⟨_, rfl, rfl⟩

end Receiving

/-- What the receiver has to do with the frame of a packet: `sixp_input` is called with the bytes
of the packet, and the network layer gets what followed them, which is nothing. -/
def Survives (config : Mac.Config) (pkt : SixpPkt.Pkt) (r : Receiver) (input : InputPacket) :
    Prop :=
  ∃ up pb, r.receive input = some up ∧
    up.sixp = some ⟨pkt.header ++ pkt.body, config.linkaddrNodeAddr⟩ ∧ up.network = some pb ∧
    payload pb = []

/-- No 6P packet that is sent reaches `sixp_input`. Without neighbor discovery the receiver takes
out all elements, the 6top element among them, before it looks for a 6top element; with neighbor
discovery the frame has elements the receiver refuses, and it moves memory by a negative length. -/
theorem sixp_lost (payloadTermination : Bool) (config : Mac.Config) (destAddr : Linkaddr)
    (pkt : SixpPkt.Pkt) (pb : Packetbuf) (qb : Queuebuf)
    (h : sixpSend payloadTermination config destAddr pkt pb = some qb) (r : Receiver)
    (input : InputPacket) (hinput : input.payload.read 0 input.len = qb.data) :
    ¬ Survives config pkt r input := by
  rcases sixpSend_eq_some h with ⟨params, hheader, hdata, hle⟩
  have hlen := congrArg List.length hinput
  rw [length_read] at hlen
  rw [← hlen] at hle
  rw [hdata] at hinput
  rintro ⟨up, _, hup, hsixp, _⟩
  cases hnd : config.neighborDiscovery with
  | true =>
    rw [hnd] at hinput
    rw [receive_of_discovery hheader hle hinput] at hup
    cases hup
  | false =>
    rw [hnd] at hinput
    rcases @receive_of_no_discovery _ pkt r input params hheader hle hinput with ⟨up', hup', hnone⟩
    rw [hup', Option.some.injEq] at hup
    rw [← hup, hnone] at hsixp
    cases hsixp

theorem length_nodeAddr : ([9, 0, 0, 0, 0, 0, 0, 0] : List UInt8).length = 8 := rfl

/-- A node without neighbor discovery. -/
def node : Mac.Config where
  neighborDiscovery := false
  panId := 0xabcd
  macDsn := 1
  tschPacketSeqno := 4
  linkaddrNodeAddr := ⟨[9, 0, 0, 0, 0, 0, 0, 0], length_nodeAddr⟩

/-- A CLEAR request with its metadata. -/
def clearRequest : SixpPkt.Pkt where
  type := .request
  code := SixpPkt.cmdClear
  sfid := 0xf0
  seqno := 1
  gen := 2
  body := [0, 0]

/-- The memory a frame is received into. -/
def inputOf (bytes : List UInt8) : InputPacket := ⟨fun i => bytes.getD i 0, bytes.length⟩

theorem read_inputOf (bytes : List UInt8) :
    (inputOf bytes).payload.read 0 (inputOf bytes).len = bytes := by
  change Memory.read (fun i => bytes.getD i 0) 0 bytes.length = bytes
  apply List.ext_getElem?
  intro i
  by_cases hi : i < bytes.length
  · rw [getElem?_read hi, Nat.zero_add, List.getD_eq_getElem?_getD, List.getElem?_eq_getElem hi]
    rfl
  · rw [List.getElem?_eq_none (not_lt.mp hi), List.getElem?_eq_none]
    rw [length_read]
    exact not_lt.mp hi

/-- A receiver with cleared records. -/
def receiver : Receiver where
  panId := 0xabcd
  rxFrame := setupParams 0xabcd emptyPacketbuf
  framerFrame := setupParams 0xabcd emptyPacketbuf
  sixtopFrame := setupParams 0xabcd emptyPacketbuf
  isDuplicate := fun _ => false
  pb := emptyPacketbuf

theorem sixpSend_clearRequest :
    ∃ qb, sixpSend false node ⟨[3, 0, 0, 0, 0, 0, 0, 0], rfl⟩ clearRequest emptyPacketbuf = some qb :=
  Option.isSome_iff_exists.mp (by decide)

theorem sixp_lost_clearRequest :
    ∃ qb, sixpSend false node ⟨[3, 0, 0, 0, 0, 0, 0, 0], rfl⟩ clearRequest emptyPacketbuf = some qb ∧
      ¬ Survives node clearRequest receiver (inputOf qb.data) := by
  rcases sixpSend_clearRequest with ⟨qb, hqb⟩
  exact ⟨qb, hqb, sixp_lost false node _ clearRequest emptyPacketbuf qb hqb receiver _
    (read_inputOf qb.data)⟩

/-- The CLEAR request is stripped: the receiver calls nothing. -/
theorem clearRequest_stripped :
    ∃ qb, sixpSend false node ⟨[3, 0, 0, 0, 0, 0, 0, 0], rfl⟩ clearRequest emptyPacketbuf = some qb ∧
      (∃ up, receiver.receive (inputOf qb.data) = some up ∧ up.sixp = none) ∧
      ¬ Survives node clearRequest receiver (inputOf qb.data) := by
  rcases sixpSend_clearRequest with ⟨qb, hqb⟩
  rcases sixpSend_eq_some hqb with ⟨params, hheader, hdata, hle⟩
  have hinput := (read_inputOf qb.data).trans hdata
  have hnone := @receive_of_no_discovery false clearRequest receiver _ params hheader hle hinput
  refine ⟨qb, hqb, hnone, ?_⟩
  rintro ⟨up, _, hup, hsixp, _⟩
  rcases hnone with ⟨up', hup', hcall⟩
  rw [hup', Option.some.injEq] at hup
  rw [← hup, hcall] at hsixp
  cases hsixp

end MasterScheduler.Mote.Sixtop

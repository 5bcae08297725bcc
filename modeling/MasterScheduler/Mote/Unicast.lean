import MasterScheduler.Mote.Mac

/-!
# MasterScheduler.Mote.Unicast — an overhearing packet and its resend

The payload of `master-net.c` on its way to a neighbor that others overhear,
and the callback of `master-routing.c` that takes the payload out of its own
frame to send it again.

- `overhearing_roundTrip`: both ends find the payload.
-/

namespace MasterScheduler.Mote.Unicast

open Lib Memory Frame802154 Framer Elements Mac

/-- `FIXED_HDRLEN`. -/
def fixedHdrlen : ℕ := 21

/-- `MAC_MAX_PAYLOAD`. -/
def macMaxPayload : ℕ := 125

/-- `sizeof(mrp)`: flow number, packet number, two slot numbers and `MASTER_MSG_LENGTH`. -/
def sizeofMrp : ℕ := 1 + 2 + 2 + 2 + 59

/-- `output` of `master-net.c`: the buffer as `NETSTACK_MAC.send` finds it. -/
def output (config : Mac.Config) (overhearingActive : UInt8) (masternetBuf : List UInt8)
    (dest : Linkaddr) (pb : Packetbuf) : Option Packetbuf :=
  let pb := { copyfrom pb masternetBuf with
    macMetadata := overhearingActive.toUInt16, receiver := dest, sender := config.linkaddrNodeAddr }
  -- A framer that fails is taken to need the fixed length.
  let framerHdrlen := (framerHdrLength config.panId pb).getD fixedHdrlen
  if masternetBuf.length ≤ macMaxPayload - framerHdrlen then
    some { pb with packetHdrSize := UInt16.ofNat framerHdrlen }
  -- Too long for a frame: the packet is dropped.
  else none

/-- What `handle_callback_commands_divergcast` prepares to send a packet again. -/
structure Resend where
  mrp : List UInt8
  masternetLen : ℕ
  destResend : Linkaddr

/-- `handle_callback_commands_divergcast` on a packet that was not acknowledged, as the queue
gives it back. -/
def resend (qb : Queuebuf) (pb : Packetbuf) : Resend :=
  let pb := queuebufToPacketbuf qb pb
  -- The elements of overhearing are in the queued frame, behind its header.
  let ieOffset := if pb.macMetadata ≠ 0 then 9 else 0
  let hrdLen := pb.packetHdrSize.toNat
  let len := datalen pb - hrdLen - ieOffset
  { mrp := (Memory.write (fun _ => 0) 0 (pb.mem.read (dataptr pb + hrdLen + ieOffset) len)).read 0
      sizeofMrp
    masternetLen := len
    destResend := pb.receiver }

section RoundTrip

variable {config : Mac.Config} {dest : Linkaddr} {pb : Packetbuf} {bytes : List UInt8}

/-- The sub-element of overhearing. -/
def overhearingSubie : Subie := ⟨.overhearing, [1], [.overhearing 1]⟩

/-- The elements of an overhearing packet: nine bytes. -/
def overhearingBytes : List UInt8 :=
  containerBytes [overhearingSubie] ++ createPayloadIeDescriptor .payloadListTermination 0

theorem sentBody_true (data : List UInt8) : sentBody true [] data = overhearingBytes ++ data := rfl

theorem parse_overhearing (sixtop : Bool) (data : List UInt8) (h : data.length ≤ sizeofMrp) :
    (parseInformationElements sixtop (overhearingBytes ++ data) Ies.zero).result =
        .ok overhearingBytes.length ∧
      (parseInformationElements sixtop (overhearingBytes ++ data) Ies.zero).ies.ieOverhearing =
        1 := by
  have haccepted : Accepted [overhearingSubie]
      (createPayloadIeDescriptor .payloadListTermination 0 ++ data) :=
    ⟨.inl ⟨by decide, by decide, rfl⟩, trivial⟩
  have hlen : (containerBytes [overhearingSubie]).length + 2 + data.length ≤ 255 := by
    have hseven : (containerBytes [overhearingSubie]).length = 7 := rfl
    rw [hseven]
    rw [sizeofMrp] at h
    omega
  have hparse := parse_container_terminated sixtop Ies.zero (List.cons_ne_nil _ _) haccepted hlen
  rw [overhearingBytes, List.append_assoc, hparse.1, hparse.2]
  exact ⟨rfl, rfl⟩

/-- The attributes of an overhearing packet that decide on its header. -/
structure UnicastAttrs (dest : Linkaddr) (pb : Packetbuf) : Prop where
  receiver_eq : pb.receiver = dest
  macNoSrcAddr_eq : pb.macNoSrcAddr = 0
  macNoDestAddr_eq : pb.macNoDestAddr = 0
  macMetadata_eq : pb.macMetadata = 1
  packetHdrSize_eq : pb.packetHdrSize = 21

theorem UnicastAttrs.of_same {pb' : Packetbuf} (h : UnicastAttrs dest pb) (hsame : SameAttrs pb pb') :
    UnicastAttrs dest pb' := by
  rcases h with ⟨h₁, h₂, h₃, h₄, h₅⟩
  rw [hsame]
  exact ⟨h₁, h₂, h₃, h₄, h₅⟩

theorem UnicastAttrs.assignSeqno (h : UnicastAttrs dest pb) (macDsn : UInt8) :
    UnicastAttrs dest (assignSeqno macDsn pb) := by
  rcases h with ⟨h₁, h₂, h₃, h₄, h₅⟩
  unfold Framer.assignSeqno
  split <;> exact ⟨h₁, h₂, h₃, h₄, h₅⟩

theorem UnicastAttrs.setAttrs (h : UnicastAttrs dest pb) (config : Mac.Config) :
    UnicastAttrs dest (setAttrs config pb) := by
  rcases h with ⟨h₁, h₂, h₃, h₄, h₅⟩
  rw [setAttrs_eq]
  exact ⟨h₁, h₂, h₃, h₄, h₅⟩

/-- The header of a unicast has 21 bytes. -/
theorem UnicastAttrs.hdrlen_eq (h : UnicastAttrs dest pb) (hdest : dest ≠ linkaddrNull)
    (panId : UInt16) : Frame802154.hdrlen (setupParams panId pb) = 21 := by
  simp only [Frame802154.hdrlen, fieldLen, setupParams, holdsBroadcast, h.receiver_eq, hdest,
    h.macNoSrcAddr_eq, h.macNoDestAddr_eq]
  rfl

/-- A unicast with room for its elements and its header is sent. -/
theorem sendPacket_isSome (hpan : config.panId ≠ 0xffff) (hdest : dest ≠ linkaddrNull)
    (hattrs : UnicastAttrs dest pb) (hroom : totlen pb + 30 ≤ packetbufSize)
    (hdata : dataptr pb = 0) : ∃ qb, sendPacket config pb = some qb := by
  have hset := hattrs.setAttrs config
  have hsame : dataptr (setAttrs config pb) = dataptr pb ∧ totlen (setAttrs config pb) = totlen pb := by
    rw [setAttrs_eq]
    exact ⟨rfl, rfl⟩
  rw [sendPacket]
  generalize setAttrs config pb = pb₁ at hset hsame ⊢
  -- The elements take nine bytes at most, whether or not they are put in.
  have hstep : ∃ pb₂, (if config.neighborDiscovery = true ∧ pb₁.macMetadata ≠ 0 then
      leave (createUnicast pb₁) else pb₁) = pb₂ ∧ SameAttrs pb₁ pb₂ ∧ totlen pb₂ ≤ totlen pb + 9 := by
    split
    · refine ⟨_, rfl, ?_, ?_⟩
      · exact (@createUnicast_contents pb₁ [] (contents pb₁) rfl (by rw [hsame.1, hdata]; rfl)).1
      · rw [← hsame.2]
        exact totlen_createUnicast_le pb₁
    · exact ⟨_, rfl, rfl, by omega⟩
  rcases hstep with ⟨pb₂, hpb₂, hsame₂, htot₂⟩
  have hhdr := ((hset.of_same hsame₂).assignSeqno config.macDsn).hdrlen_eq hdest config.panId
  rcases @framerCreate_isSome config.panId config.macDsn pb₂ hpan (by omega) with ⟨r, hframe⟩
  rw [hpb₂, hframe]
  exact ⟨_, rfl⟩

/-- The buffer `output` hands to the MAC. -/
theorem output_eq_some (hpan : config.panId ≠ 0xffff) (hdest : dest ≠ linkaddrNull)
    (hlen : bytes.length ≤ sizeofMrp) :
    ∃ pb₁, output config 1 bytes dest pb = some pb₁ ∧ contents pb₁ = bytes ∧ pb₁.bufptr = 0 ∧
      dataptr pb₁ = 0 ∧ UnicastAttrs dest pb₁ := by
  rw [sizeofMrp] at hlen
  have hhdr : framerHdrLength config.panId { copyfrom pb bytes with
      macMetadata := UInt8.toUInt16 1, receiver := dest, sender := config.linkaddrNodeAddr } =
      some 21 := by
    rw [framerHdrLength, if_neg hpan]
    simp only [Frame802154.hdrlen, fieldLen, setupParams, holdsBroadcast, hdest]
    rfl
  rw [output]
  dsimp only
  rw [hhdr, Option.getD_some, if_pos (by rw [macMaxPayload]; omega)]
  refine ⟨_, rfl, ?_, rfl, rfl, ⟨rfl, rfl, rfl, rfl, rfl⟩⟩
  have htake : bytes.take packetbufSize = bytes :=
    List.take_of_length_le (by rw [packetbufSize]; omega)
  change (pb.mem.write 0 (bytes.take packetbufSize)).read 0 (0 + 0 + (bytes.take packetbufSize).length) = _
  rw [htake, Nat.zero_add]
  exact read_write_self _ _ _

/-- The payload of an overhearing frame at a receiver. -/
theorem receive_overhearing {sixtop : Bool} {input : InputPacket} {params : Frame}
    (hheader : DataHeader params) (hlen : bytes.length ≤ sizeofMrp)
    (hinput : input.payload.read 0 input.len = (create params).2 ++ (overhearingBytes ++ bytes))
    (hle : input.len ≤ packetbufSize) (panId : UInt16) (frame frame' : Frame) (pbr : Packetbuf) :
    ∃ ies pb₂ pb₃ hdrLen, rxProcessInput sixtop input frame pbr = .packet (some ies) pb₂ ∧
      ies.ieOverhearing = 1 ∧ datalen pb₂ + 9 = input.len ∧
      framerParse panId frame' pb₂ = some (pb₃, hdrLen) ∧ payload pb₃ = bytes := by
  have hnine : overhearingBytes.length = 9 := rfl
  have hsize := congrArg List.length hinput
  rw [length_read, List.length_append, List.length_append, hnine] at hsize
  rcases parse_overhearing sixtop bytes hlen with ⟨hparse, hflag⟩
  -- `tsch_rx_process_pending` takes out the nine bytes that the parser counted.
  rcases stripIes_eq_some (length_create params) hinput (by rw [hnine]; decide) hparse with
    ⟨input', hstrip, hread⟩
  have hfit : ((create params).2 ++ bytes).length ≤ packetbufSize := by
    rw [List.length_append]
    omega
  rcases @framerParse_copyfrom params frame' pbr bytes panId hheader hfit with
    ⟨pb₃, hframer, hpayload, _, _⟩
  refine ⟨_, _, pb₃, _, ?_, hflag, ?_, hframer, hpayload⟩
  · rw [rxProcessInput_eq hheader hinput, hstrip]
    dsimp only
    rw [hread]
  · change (((create params).2 ++ bytes).take packetbufSize).length + 9 = input.len
    rw [List.take_of_length_le hfit, List.length_append]
    omega

/-- The payload of an overhearing frame in the hands of its sender. -/
theorem resend_overhearing {qb : Queuebuf} {hdrBytes : List UInt8} (hlen : bytes.length ≤ sizeofMrp)
    (hdata : qb.data = hdrBytes ++ (overhearingBytes ++ bytes)) (hhdr : hdrBytes.length = 21)
    (hle : qb.data.length ≤ packetbufSize) (hmeta : qb.attrs.macMetadata = 1)
    (hsize : qb.attrs.packetHdrSize = 21) (pbs : Packetbuf) :
    (resend qb pbs).masternetLen = bytes.length ∧ (resend qb pbs).mrp.take bytes.length = bytes ∧
      (resend qb pbs).destResend = qb.attrs.receiver := by
  have hnine : overhearingBytes.length = 9 := rfl
  have htake : qb.data.take packetbufSize = qb.data := List.take_of_length_le hle
  have hfields : ∃ pb₂, queuebufToPacketbuf qb pbs = pb₂ ∧ pb₂.macMetadata = 1 ∧
      pb₂.packetHdrSize = 21 ∧ dataptr pb₂ = 0 ∧ datalen pb₂ = qb.data.length ∧
      pb₂.receiver = qb.attrs.receiver ∧ pb₂.mem.read 0 qb.data.length = qb.data := by
    refine ⟨_, rfl, hmeta, hsize, rfl, ?_, rfl, ?_⟩
    · change (qb.data.take packetbufSize).length = _
      rw [htake]
    · change (pbs.mem.write 0 (qb.data.take packetbufSize)).read 0 _ = _
      rw [htake]
      exact read_write_self _ _ _
  rcases hfields with ⟨pb₂, hpb₂, hmeta₂, hsize₂, hptr, hdatalen, hreceiver, hread⟩
  rw [hdata] at hread
  -- Behind header and elements stands the payload.
  have hbytes := (read_append_inj (read_append_inj hread).2).2
  rw [hhdr, hnine] at hbytes
  have htwentyone : (21 : UInt16).toNat = 21 := rfl
  have hrest : qb.data.length - 21 - 9 = bytes.length := by
    rw [hdata, List.length_append, List.length_append, hhdr, hnine]
    omega
  simp only [resend, hpb₂, hmeta₂, hsize₂, hptr, hdatalen, htwentyone]
  rw [if_pos (by decide), hrest]
  refine ⟨rfl, ?_, hreceiver⟩
  rw [hbytes]
  rcases Nat.exists_eq_add_of_le hlen with ⟨k, hk⟩
  rw [hk, read_append, read_write_self, List.take_left]

/-- An overhearing unicast of any payload that fits is sent. Every receiver finds nine bytes of
elements with the overhearing flag, takes them out, and hands up the payload; the sender finds the
payload in its own frame when it has to send it again. -/
theorem overhearing_roundTrip (sixtop : Bool) (config : Mac.Config) (hnd : config.neighborDiscovery)
    (hpan : config.panId ≠ 0xffff) (dest : Linkaddr) (hdest : dest ≠ linkaddrNull)
    (bytes : List UInt8) (hlen : bytes.length ≤ 66) (pb : Packetbuf) :
    ∃ pb₁ qb, output config 1 bytes dest pb = some pb₁ ∧ sendPacket config pb₁ = some qb ∧
      (∀ (input : InputPacket) (panId : UInt16) (frame frame' : Frame) (pbr : Packetbuf),
        input.payload.read 0 input.len = qb.data →
        ∃ ies pb₂ pb₃ hdrLen, rxProcessInput sixtop input frame pbr = .packet (some ies) pb₂ ∧
          ies.ieOverhearing = 1 ∧ datalen pb₂ + 9 = input.len ∧
          framerParse panId frame' pb₂ = some (pb₃, hdrLen) ∧ payload pb₃ = bytes) ∧
      ∀ pbs : Packetbuf, (resend qb pbs).masternetLen = bytes.length ∧
        (resend qb pbs).mrp.take bytes.length = bytes ∧ (resend qb pbs).destResend = dest := by
  rcases @output_eq_some config dest pb bytes hpan hdest hlen with
    ⟨pb₁, hout, hcontents, hbufptr, hdata, hattrs⟩
  have htot : totlen pb₁ = bytes.length := by rw [← hcontents, length_contents]
  rcases @sendPacket_isSome config dest pb₁ hpan hdest hattrs
    (by rw [htot, packetbufSize]; omega) hdata with ⟨qb, hsend⟩
  rcases sendPacket_eq_some hsend hbufptr hattrs.macMetadata_eq hattrs.macNoSrcAddr_eq
    (show contents pb₁ = [] ++ bytes from hcontents) hdata.symm with
    ⟨pb₂, params, hparams, hsame, hheader, hframe, hle, hqb⟩
  rw [hnd, sentBody_true] at hframe
  refine ⟨pb₁, qb, hout, hsend, ?_, ?_⟩
  -- A receiver gets the frame as it is in the queue.
  · intro input panId frame frame' pbr hinput
    have hlength := congrArg List.length hinput
    rw [length_read] at hlength
    rw [hframe] at hinput
    exact receive_overhearing hheader hlen hinput (by rw [hlength]; exact hle) panId frame frame' pbr
  · intro pbs
    -- The sender reads its own queued frame, with the length of the header in an attribute.
    have hseq := ((hattrs.setAttrs config).of_same hsame).assignSeqno config.macDsn
    have hattrs' := hseq.of_same hqb
    have hhdr : (create params).2.length = 21 := by
      rw [length_create, hparams]
      exact hseq.hdrlen_eq hdest config.panId
    have hres := resend_overhearing hlen hframe hhdr hle hattrs'.macMetadata_eq
      hattrs'.packetHdrSize_eq pbs
    rw [hattrs'.receiver_eq] at hres
    exact hres

theorem length_moteAddr : ([9, 0, 0, 0, 0, 0, 0, 0] : List UInt8).length = 8 := rfl

/-- A mote with neighbor discovery. -/
def mote : Mac.Config where
  neighborDiscovery := true
  panId := 0xabcd
  macDsn := 1
  tschPacketSeqno := 4
  linkaddrNodeAddr := ⟨[9, 0, 0, 0, 0, 0, 0, 0], length_moteAddr⟩

theorem overhearing_mote : ∃ pb₁ qb,
    output mote 1 [5, 6, 7] ⟨[3, 0, 0, 0, 0, 0, 0, 0], rfl⟩ emptyPacketbuf = some pb₁ ∧
    sendPacket mote pb₁ = some qb ∧ (resend qb emptyPacketbuf).mrp.take 3 = [5, 6, 7] := by
  rcases overhearing_roundTrip false mote rfl (by decide) ⟨[3, 0, 0, 0, 0, 0, 0, 0], rfl⟩ (by decide)
    [5, 6, 7] (by decide) emptyPacketbuf with ⟨pb₁, qb, hout, hsend, _, hresend⟩
  exact ⟨pb₁, qb, hout, hsend, (hresend emptyPacketbuf).2.1⟩

end RoundTrip

end MasterScheduler.Mote.Unicast

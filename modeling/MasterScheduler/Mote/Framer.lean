import MasterScheduler.Mote.Frame802154

/-!
# MasterScheduler.Mote.Framer — the packet buffer and the framer

The packet buffer of `packetbuf.c` with the attributes the modelled code uses,
`queuebuf.c` as a copy of it, and `framer-802154.c` over both.
`PACKETBUF_SIZE` is 96 and an address has 8 bytes; the frame version is the one
of 2015, as everywhere with TSCH.

- `framerCreate_contents`: the frame a successful framer leaves in the buffer.
-/

namespace MasterScheduler.Mote.Framer

open Lib Memory Frame802154

/-- `PACKETBUF_SIZE`. -/
def packetbufSize : ℕ := 96

/-- The packet buffer. Behind its `packetbufSize` bytes the memory belongs to something
else. -/
structure Packetbuf where
  mem : Memory
  bufptr : ℕ
  hdrlen : ℕ
  buflen : ℕ
  /-- `PACKETBUF_ATTR_FRAME_TYPE`. -/
  frameType : UInt16
  /-- `PACKETBUF_ATTR_MAC_SEQNO`. -/
  macSeqno : UInt16
  /-- `PACKETBUF_ATTR_MAC_ACK`. -/
  macAck : UInt16
  /-- `PACKETBUF_ATTR_MAC_METADATA`. -/
  macMetadata : UInt16
  /-- `PACKETBUF_ATTR_MAC_NO_SRC_ADDR`. -/
  macNoSrcAddr : UInt16
  /-- `PACKETBUF_ATTR_MAC_NO_DEST_ADDR`. -/
  macNoDestAddr : UInt16
  /-- `PACKETBUF_ATTR_PACKET_HDR_SIZE`. -/
  packetHdrSize : UInt16
  /-- `PACKETBUF_ADDR_SENDER`. -/
  sender : Linkaddr
  /-- `PACKETBUF_ADDR_RECEIVER`. -/
  receiver : Linkaddr

/-- The packet buffer after start. -/
def emptyPacketbuf : Packetbuf where
  mem := fun _ => 0
  bufptr := 0
  hdrlen := 0
  buflen := 0
  frameType := 0
  macSeqno := 0
  macAck := 0
  macMetadata := 0
  macNoSrcAddr := 0
  macNoDestAddr := 0
  packetHdrSize := 0
  sender := linkaddrNull
  receiver := linkaddrNull

/-- `packetbuf_clear`: the attributes and addresses are cleared too. -/
def clear (pb : Packetbuf) : Packetbuf where
  mem := pb.mem
  bufptr := 0
  hdrlen := 0
  buflen := 0
  frameType := 0
  macSeqno := 0
  macAck := 0
  macMetadata := 0
  macNoSrcAddr := 0
  macNoDestAddr := 0
  packetHdrSize := 0
  sender := linkaddrNull
  receiver := linkaddrNull

/-- `packetbuf_copyfrom`. -/
def copyfrom (pb : Packetbuf) (bytes : List UInt8) : Packetbuf :=
  let l := bytes.take packetbufSize
  { clear pb with mem := pb.mem.write 0 l, buflen := l.length }

/-- `packetbuf_hdrlen`. -/
def packetbufHdrlen (pb : Packetbuf) : ℕ := pb.bufptr + pb.hdrlen

/-- `packetbuf_dataptr`, as an address in the memory of the buffer. -/
def dataptr (pb : Packetbuf) : ℕ := packetbufHdrlen pb

/-- `packetbuf_datalen`. -/
def datalen (pb : Packetbuf) : ℕ := pb.buflen

/-- `packetbuf_set_datalen`. -/
def setDatalen (pb : Packetbuf) (len : ℕ) : Packetbuf := { pb with buflen := len }

/-- `packetbuf_totlen`. -/
def totlen (pb : Packetbuf) : ℕ := packetbufHdrlen pb + datalen pb

/-- `packetbuf_remaininglen`: 16 bits, and wrapping when the buffer is overfull. -/
def remaininglen (pb : Packetbuf) : ℕ := (65536 + packetbufSize - totlen pb % 65536) % 65536

/-- `packetbuf_copyto`: the header and the data of the buffer. -/
def copyto (pb : Packetbuf) : List UInt8 :=
  -- Too much to copy: the caller gets a length of zero.
  if pb.hdrlen + pb.buflen > packetbufSize then []
  else pb.mem.read 0 pb.hdrlen ++ pb.mem.read (dataptr pb) pb.buflen

/-- `packetbuf_hdralloc`: all bytes move to the right, or nothing happens. -/
def hdralloc (pb : Packetbuf) (size : ℕ) : Option Packetbuf :=
  if packetbufSize < size + totlen pb then none
  else some { pb with mem := pb.mem.move size 0 (totlen pb), hdrlen := pb.hdrlen + size }

/-- `packetbuf_hdrreduce`. -/
def hdrreduce (pb : Packetbuf) (size : ℕ) : Option Packetbuf :=
  if pb.buflen < size then none
  else some { pb with bufptr := pb.bufptr + size, buflen := pb.buflen - size }

/-- `packetbuf_holds_broadcast`. -/
def holdsBroadcast (pb : Packetbuf) : Bool := decide (pb.receiver = linkaddrNull)

/-- The data of the buffer, as `packetbuf_dataptr` and `packetbuf_datalen` give it. -/
def payload (pb : Packetbuf) : List UInt8 := pb.mem.read (dataptr pb) (datalen pb)

/-- `framer_802154_setup_params` and the addresses `create_frame` adds to it. The bits of
the control field are those `frame802154_create_fcf` keeps of the attributes. -/
def setupParams (panId : UInt16) (pb : Packetbuf) : Frame :=
  let destIsBroadcast := holdsBroadcast pb
  let srcAddrMode := if pb.macNoSrcAddr = 1 then noAddr else longAddrMode
  let destAddrMode :=
    if pb.macNoDestAddr = 1 then noAddr
    else if destIsBroadcast then shortAddrMode else longAddrMode
  { fcf :=
      { frameType := Fin.ofNat 8 pb.frameType.toNat
        securityEnabled := false
        framePending := false
        ackRequired := !destIsBroadcast && decide (pb.macAck.toNat % 2 = 1)
        panidCompression := srcAddrMode == shortAddrMode || destAddrMode == shortAddrMode
        -- A broadcast frame carries no sequence number.
        sequenceNumberSuppression := destIsBroadcast
        ieListPresent := decide (pb.macMetadata.toNat % 2 = 1)
        destAddrMode := destAddrMode
        frameVersion := ieee802154v2015
        srcAddrMode := srcAddrMode }
    destAddr :=
      if destIsBroadcast then ⟨[0xff, 0xff] ++ List.replicate 6 0, rfl⟩ else pb.receiver
    srcAddr := pb.sender
    seq := UInt8.ofNat pb.macSeqno.toNat
    destPid := panId
    srcPid := panId
    payload := dataptr pb
    payloadLen := datalen pb }

/-- The sequence number `create_frame` gives a packet that has none. -/
def assignSeqno (macDsn : UInt8) (pb : Packetbuf) : Packetbuf :=
  if pb.macSeqno = 0 then { pb with macSeqno := (if macDsn = 0 then 1 else macDsn).toUInt16 }
  else pb

/-- `hdr_length` of the framer. -/
def framerHdrLength (panId : UInt16) (pb : Packetbuf) : Option ℕ :=
  if panId = 0xffff then none else some (Frame802154.hdrlen (setupParams panId pb))

/-- `create` of the framer. -/
def framerCreate (panId : UInt16) (macDsn : UInt8) (pb : Packetbuf) : Option (Packetbuf × ℕ) :=
  if panId = 0xffff then none
  else
    let pb := assignSeqno macDsn pb
    let params := setupParams panId pb
    let hdrLen := Frame802154.hdrlen params
    match hdralloc pb hdrLen with
    | none => none
    | some pb => some ({ pb with mem := pb.mem.write 0 (Frame802154.create params).2 }, hdrLen)

/-- `frame802154_is_broadcast_addr`. -/
def isBroadcastAddr (mode : Fin 4) (addr : Linkaddr) : Bool :=
  (addr.u8.take (if mode = shortAddrMode then 2 else 8)).all (· == 0xff)

/-- `parse` of the framer on what the record held before. -/
def framerParse (panId : UInt16) (pf : Frame) (pb : Packetbuf) : Option (Packetbuf × ℕ) :=
  let (frame, hdrLen) := Frame802154.parse pb.mem (dataptr pb) (datalen pb) pf
  -- The header is not well formed.
  if hdrLen = 0 then none
  else
    match hdrreduce pb hdrLen with
    | none => none
    | some pb =>
        -- A frame for another PAN is refused, unless it carries elements, as a beacon does.
        if frame.fcf.destAddrMode ≠ noAddr ∧ frame.destPid ≠ panId ∧ frame.destPid ≠ 0xffff ∧
            frame.fcf.ieListPresent = false then none
        else
          some ({ pb with
            frameType := frame.fcf.frameType.val.toUInt16
            macMetadata := if frame.fcf.ieListPresent then 1 else 0
            -- A broadcast leaves the receiver of the attributes as it was.
            receiver :=
              if frame.fcf.destAddrMode ≠ noAddr ∧
                  isBroadcastAddr frame.fcf.destAddrMode frame.destAddr = false then frame.destAddr
              else pb.receiver
            sender := frame.srcAddr
            macSeqno :=
              -- A suppressed number is marked by `0xffff`.
              if frame.fcf.sequenceNumberSuppression then 0xffff else frame.seq.toUInt16 },
            hdrLen)

section Framing

variable {panId : UInt16} {macDsn : UInt8} {pb pb' : Packetbuf} {n size : ℕ}

/-- The bytes of the buffer, header and data. -/
def contents (pb : Packetbuf) : List UInt8 := pb.mem.read 0 (totlen pb)

theorem length_contents (pb : Packetbuf) : (contents pb).length = totlen pb := length_read

/-- A buffer that no header was taken off is copied as it is. -/
theorem copyto_eq_contents (hbufptr : pb.bufptr = 0) (h : totlen pb ≤ packetbufSize) :
    copyto pb = contents pb := by
  have htot : totlen pb = pb.hdrlen + pb.buflen := by
    simp [totlen, packetbufHdrlen, datalen, hbufptr]
  have hdata : dataptr pb = 0 + pb.hdrlen := by
    simp [dataptr, packetbufHdrlen, hbufptr]
  rw [copyto, if_neg (by omega), contents, htot, read_append, hdata]

/-- Only the bytes of the buffer and their place have changed. -/
def SameAttrs (pb pb' : Packetbuf) : Prop :=
  pb' = { pb with
    mem := pb'.mem, bufptr := pb'.bufptr, hdrlen := pb'.hdrlen, buflen := pb'.buflen }

theorem SameAttrs.trans {a b c : Packetbuf} (hab : SameAttrs a b) (hbc : SameAttrs b c) :
    SameAttrs a c := by
  unfold SameAttrs at *
  rw [hab] at hbc
  exact hbc

theorem sameAttrs_hdralloc (h : hdralloc pb size = some pb') : SameAttrs pb pb' := by
  rw [hdralloc] at h
  split at h
  · cases h
  · cases h
    rfl

/-- Room in front of the contents. -/
theorem hdralloc_eq_some (h : hdralloc pb size = some pb') :
    size + totlen pb ≤ packetbufSize ∧ totlen pb' = size + totlen pb ∧ pb'.bufptr = pb.bufptr ∧
      pb'.buflen = pb.buflen ∧ pb'.hdrlen = pb.hdrlen + size := by
  rw [hdralloc] at h
  split at h
  · cases h
  · cases h
    refine ⟨by omega, ?_, rfl, rfl, rfl⟩
    simp only [totlen, packetbufHdrlen, datalen]
    omega

/-- A header stored in the room made for it. -/
theorem hdralloc_write {bs : List UInt8} (h : hdralloc pb bs.length = some pb') :
    (pb'.mem.write 0 bs).read 0 (totlen pb') = bs ++ contents pb := by
  rw [(hdralloc_eq_some h).2.1]
  rw [hdralloc] at h
  split at h
  · cases h
  · cases h
    have hread := read_write_move pb.mem 0 (totlen pb) bs
    rw [Nat.zero_add] at hread
    exact hread

theorem framerCreate_isSome (hpan : panId ≠ 0xffff)
    (h : Frame802154.hdrlen (setupParams panId (assignSeqno macDsn pb)) + totlen pb ≤ packetbufSize) :
    ∃ r, framerCreate panId macDsn pb = some r := by
  have htot : totlen (assignSeqno macDsn pb) = totlen pb := by
    unfold assignSeqno
    split <;> rfl
  rw [framerCreate, if_neg hpan]
  dsimp only
  rw [hdralloc, htot, if_neg (by omega)]
  exact ⟨_, rfl⟩

theorem sameAttrs_framerCreate (h : framerCreate panId macDsn pb = some (pb', n)) :
    SameAttrs (assignSeqno macDsn pb) pb' := by
  rw [framerCreate] at h
  split at h
  · cases h
  dsimp only at h
  split at h
  · cases h
  case h_2 pb₁ halloc =>
    rw [Option.some.injEq, Prod.mk.injEq] at h
    rcases h with ⟨rfl, _⟩
    exact (sameAttrs_hdralloc halloc).trans rfl

/-- The framer puts the header in front of the contents. -/
theorem framerCreate_contents (h : framerCreate panId macDsn pb = some (pb', n)) :
    let params := setupParams panId (assignSeqno macDsn pb)
    n = Frame802154.hdrlen params ∧ n + totlen pb ≤ packetbufSize ∧
      contents pb' = (Frame802154.create params).2 ++ contents pb ∧ pb'.bufptr = pb.bufptr ∧
      pb'.buflen = pb.buflen ∧ pb'.hdrlen = pb.hdrlen + n := by
  intro params
  have hcontents : contents (assignSeqno macDsn pb) = contents pb := by
    unfold assignSeqno
    split <;> rfl
  have htot : totlen (assignSeqno macDsn pb) = totlen pb := by
    unfold assignSeqno
    split <;> rfl
  have hfields : (assignSeqno macDsn pb).bufptr = pb.bufptr ∧
      (assignSeqno macDsn pb).buflen = pb.buflen ∧ (assignSeqno macDsn pb).hdrlen = pb.hdrlen := by
    unfold assignSeqno
    split <;> exact ⟨rfl, rfl, rfl⟩
  rw [framerCreate] at h
  split at h
  · cases h
  dsimp only at h
  split at h
  · cases h
  case h_2 pb₁ halloc =>
    rw [Option.some.injEq, Prod.mk.injEq] at h
    rcases h with ⟨rfl, rfl⟩
    rcases hdralloc_eq_some halloc with ⟨hroom, _, hbufptr, hbuflen, hhdrlen⟩
    rw [htot] at hroom
    rw [← length_create] at halloc
    refine ⟨rfl, hroom, ?_, hbufptr.trans hfields.1, hbuflen.trans hfields.2.1,
      hhdrlen.trans (by rw [hfields.2.2])⟩
    rw [← hcontents]
    exact hdralloc_write halloc

end Framing

end MasterScheduler.Mote.Framer

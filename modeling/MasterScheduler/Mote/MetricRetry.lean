import MasterScheduler.Mote.SendOutcome
import MasterScheduler.Mote.Unicast

/-!
# MasterScheduler.Mote.MetricRetry — a metric packet that is sent again

A packet with link metrics that did not get through is taken out of the packet
buffer by the sent callback and handed to the network layer again. The callback
skips a header. A packet that comes from the queue has it among its data; one
that `send_packet` could not queue has it in front of them.

1. **Model**: a call of `output`, and what its sent callback does.
2. **One call**: `callbackBuf_queued`, `callbackBuf_refused`.
3. **Runs**: `retried_iff`, any number of calls in any surroundings.

The callback of a packet that is flushed from its queue is not among these.
-/

namespace MasterScheduler.Mote.MetricRetry

open Lib Frame802154 Framer Mac Queue SendOutcome Unicast

/-! ## Model -/

/-- What is handed to `NETSTACK_NETWORK.output`: the memory of `mrp`, how much of it is sent, and
where to. -/
structure Handed where
  mrp : List UInt8
  masternetLen : ℕ
  dest : Linkaddr
  length_mrp : mrp.length = sizeofMrp
  masternetLen_le : masternetLen ≤ sizeofMrp

/-- The packet. -/
def Handed.bytes (h : Handed) : List UInt8 := h.mrp.take h.masternetLen

/-- What a call and its sent callback find, apart from the packet. -/
structure Surroundings where
  sizes : Sizes
  config : Mac.Config
  isAssociated : Bool
  queues : State
  /-- A neighbor entry and a queuebuf are left. -/
  room : Bool
  nodeId : UInt8
  /-- `etx_link` of the destination. -/
  etxLink : UInt16
  transmissionTtl : UInt16
  earliestTxSlot : UInt16
  /-- The packet buffer before the call. -/
  before : Packetbuf
  /-- The packet buffer when the callback of a packet from the queue is due. -/
  later : Packetbuf
  isCoordinator : Bool
  /-- The neighbors `tsch_queue_get_nbr` finds. -/
  knows : Linkaddr → Bool
  /-- The address of `tsch_queue_get_time_source`. -/
  timeSource : Linkaddr

/-- The attributes after `setup_packet_configuration`. -/
def Surroundings.attrs (w : Surroundings) : Attrs where
  maxMacTransmissions := setupMaxTx w.etxLink
  flowNumber := w.nodeId.toUInt16
  sendNbr := 1
  transmissionTtl := w.transmissionTtl
  earliestTxSlot := w.earliestTxSlot

/-- `output` of a packet with `CM_ETX_METRIC_SEND`, up to the sent callback with an error: the
packet buffer it finds, if it is called. A packet that is queued comes back later, after
`queuebuf_to_packetbuf`. -/
def callbackBuf (w : Surroundings) (h : Handed) : Option Packetbuf :=
  match Unicast.output w.config 0 h.bytes h.dest w.before with
  | none => none
  | some pb =>
      let sent := sendPacket w.sizes w.config w.isAssociated w.attrs pb w.room w.queues
      match sent.queuebuf with
      | some qb => some (queuebufToPacketbuf qb w.later)
      | none => if sent.calls = [] then none else some sent.pb

/-- What the sent callback does. `wild` is a `memcpy` of negative length, or past the end of
`mrp`. -/
inductive Reaction where
  | returned
  | wild
  | handed (h : Handed)

/-- `handle_callback_commands_convergcast` in `ST_SEND_METRIC` with a status other than
`MAC_TX_OK`, and `handle_convergcast`. -/
def handleCallback (w : Surroundings) (pb : Packetbuf) : Reaction :=
  if w.knows pb.receiver = false then .returned
  -- the time source has changed
  else if w.isCoordinator = false ∧ w.timeSource ≠ pb.receiver then .returned
  else
    let hrdLen := pb.packetHdrSize.toNat
    let len := datalen pb - hrdLen
    if h : hrdLen ≤ datalen pb ∧ len ≤ sizeofMrp then
      .handed
        { mrp := (Memory.write (fun _ => 0) 0 (pb.mem.read (dataptr pb + hrdLen) len)).read 0 sizeofMrp
          masternetLen := len
          dest := w.timeSource
          length_mrp := Memory.length_read
          masternetLen_le := h.2 }
    else .wild

/-- Every packet handed over in a run is the original: from the packet `h` on, with the
surroundings of one call after the other. -/
def Faithful (original : List UInt8) : List Surroundings → Handed → Prop
  | [], _ => True
  | w :: rest, h =>
      match callbackBuf w h with
      | none => True
      | some pb =>
          match handleCallback w pb with
          | .returned => True
          | .wild => False
          | .handed h' =>
              h'.bytes = original ∧ h'.masternetLen = original.length ∧ Faithful original rest h'

/-! ## The condition -/

/-- A queue has room for a packet. -/
def Accepts (z : Sizes) (s : State) (n : Nbr) (room : Bool) : Prop :=
  s.locked = false ∧ (s.queue n).peekPut ≠ none ∧ s.live.length < z.queuebufs ∧ room = true

/-- The queue of a packet. -/
def target (dest : Linkaddr) : Linkaddr := if dest = linkaddrNull then broadcastAddress else dest

namespace Surroundings

variable (w : Surroundings)

/-- There is neither a transmission nor a callback. -/
def Silent : Prop := w.isAssociated = true ∧ w.etxLink.toNat = 0

/-- The callback gives the packet up. -/
def GivesUp (dest : Linkaddr) : Prop :=
  w.knows dest = false ∨ w.isCoordinator = false ∧ w.timeSource ≠ dest

/-- The packet gets into a queue. -/
def Queues (dest : Linkaddr) : Prop :=
  w.isAssociated = true ∧ w.config.panId ≠ 0xffff ∧
    Accepts w.sizes w.queues (nbrOf (target dest)) w.room

end Surroundings

/-- All packets that come back do so from a queue, up to the end of the retries. -/
def FromQueue : List Surroundings → Linkaddr → Prop
  | [], _ => True
  | w :: rest, dest =>
      w.Silent ∨ w.GivesUp dest ∨ w.Queues dest ∧ FromQueue rest w.timeSource

/-! ## One call -/

/-- The header of a data packet without elements. -/
def headerLen (dest : Linkaddr) : ℕ := if dest = linkaddrNull then 14 else 21

section

variable {w : Surroundings} {h : Handed} {pb : Packetbuf} {z : Sizes} {s : State} {n : Nbr}
  {content : Queue.Packet} {room : Bool} {panId : UInt16}

/-- The attributes of a packet as they stay on its way through `send_packet`. -/
structure RetryAttrs (dest : Linkaddr) (size : ℕ) (pb : Packetbuf) : Prop where
  receiver_eq : pb.receiver = dest
  macNoSrcAddr_eq : pb.macNoSrcAddr = 0
  macNoDestAddr_eq : pb.macNoDestAddr = 0
  macMetadata_eq : pb.macMetadata = 0
  packetHdrSize_eq : pb.packetHdrSize.toNat = size

theorem hdrlen_eq {dest : Linkaddr} {size : ℕ} (hattrs : RetryAttrs dest size pb) :
    Frame802154.hdrlen (setupParams panId pb) = headerLen dest := by
  by_cases hnull : dest = linkaddrNull
  · simp only [Frame802154.hdrlen, fieldLen, setupParams, holdsBroadcast, hattrs.receiver_eq, hnull,
      hattrs.macNoSrcAddr_eq, hattrs.macNoDestAddr_eq, headerLen]
    rfl
  · simp only [Frame802154.hdrlen, fieldLen, setupParams, holdsBroadcast, hattrs.receiver_eq, hnull,
      hattrs.macNoSrcAddr_eq, hattrs.macNoDestAddr_eq, headerLen]
    rfl

theorem RetryAttrs.of_same {dest : Linkaddr} {size : ℕ} {pb' : Packetbuf}
    (hattrs : RetryAttrs dest size pb) (hsame : SameAttrs pb pb') : RetryAttrs dest size pb' := by
  rcases hattrs with ⟨h₁, h₂, h₃, h₄, h₅⟩
  rw [hsame]
  exact ⟨h₁, h₂, h₃, h₄, h₅⟩

/-- The packet in the buffer, without a header. -/
structure Ready (h : Handed) (size : ℕ) (pb : Packetbuf) : Prop where
  attrs : RetryAttrs h.dest size pb
  bufptr_eq : pb.bufptr = 0
  hdrlen_eq : pb.hdrlen = 0
  buflen_eq : pb.buflen = h.masternetLen
  contents_eq : contents pb = h.bytes

theorem Ready.setAttrs {size : ℕ} (hready : Ready h size pb) (config : Mac.Config) :
    Ready h size (setAttrs config pb) := by
  rcases hready with ⟨⟨h₁, h₂, h₃, h₄, h₅⟩, h₆, h₇, h₈, h₉⟩
  rw [setAttrs_eq]
  exact ⟨⟨h₁, h₂, h₃, h₄, h₅⟩, h₆, h₇, h₈, h₉⟩

theorem Ready.assignSeqno {size : ℕ} (hready : Ready h size pb) (macDsn : UInt8) :
    Ready h size (assignSeqno macDsn pb) := by
  rcases hready with ⟨⟨h₁, h₂, h₃, h₄, h₅⟩, h₆, h₇, h₈, h₉⟩
  unfold Framer.assignSeqno
  split <;> exact ⟨⟨h₁, h₂, h₃, h₄, h₅⟩, h₆, h₇, h₈, h₉⟩

theorem length_bytes (h : Handed) : h.bytes.length = h.masternetLen := by
  have hlen := h.length_mrp
  have hle := h.masternetLen_le
  rw [Handed.bytes, List.length_take]
  omega

theorem headerLen_le (dest : Linkaddr) : 0 < headerLen dest ∧ headerLen dest ≤ 21 := by
  unfold headerLen
  split_ifs <;> omega

/-- The header that is remembered with the packet. -/
def rememberedLen (panId : UInt16) (dest : Linkaddr) : ℕ :=
  if panId = 0xffff then fixedHdrlen else headerLen dest

theorem rememberedLen_le (panId : UInt16) (dest : Linkaddr) :
    0 < rememberedLen panId dest ∧ rememberedLen panId dest ≤ 21 := by
  have hle := headerLen_le dest
  unfold rememberedLen fixedHdrlen
  split_ifs <;> omega

/-- The buffer `output` hands to the MAC layer. -/
theorem output_ready (config : Mac.Config) (h : Handed) (before : Packetbuf) :
    ∃ pb, Unicast.output config 0 h.bytes h.dest before = some pb ∧
      Ready h (rememberedLen config.panId h.dest) pb := by
  have hlen := length_bytes h
  have hle := h.masternetLen_le
  have hsize := rememberedLen_le config.panId h.dest
  have hhdr : (framerHdrLength config.panId { copyfrom before h.bytes with
      macMetadata := UInt8.toUInt16 0, receiver := h.dest,
      sender := config.linkaddrNodeAddr }).getD fixedHdrlen = rememberedLen config.panId h.dest := by
    unfold framerHdrLength rememberedLen
    split_ifs
    · rfl
    · exact @hdrlen_eq _ config.panId h.dest 0 ⟨rfl, rfl, rfl, rfl, rfl⟩
  unfold Unicast.output
  dsimp only
  rw [sizeofMrp] at hle
  rw [hhdr, if_pos (by rw [macMaxPayload]; omega)]
  have htake : h.bytes.take packetbufSize = h.bytes :=
    List.take_of_length_le (by rw [packetbufSize]; omega)
  refine ⟨_, rfl, ⟨rfl, rfl, rfl, rfl, ?_⟩, rfl, rfl, ?_, ?_⟩
  · rw [UInt16.toNat_ofNat']
    omega
  · change (h.bytes.take packetbufSize).length = _
    rw [htake, hlen]
  · change (before.mem.write 0 (h.bytes.take packetbufSize)).read 0
      (0 + 0 + (h.bytes.take packetbufSize).length) = _
    rw [htake, Nat.zero_add]
    exact Memory.read_write_self _ _ _

/-- The packet in the buffer behind its header. -/
structure Framed (h : Handed) (size : ℕ) (pb : Packetbuf) : Prop where
  attrs : RetryAttrs h.dest size pb
  bufptr_eq : pb.bufptr = 0
  hdrlen_eq : pb.hdrlen = headerLen h.dest
  buflen_eq : pb.buflen = h.masternetLen
  contents_eq : ∃ header, header.length = headerLen h.dest ∧ contents pb = header ++ h.bytes

/-- The framer does not fail in a network. -/
theorem framerCreate_ready {size : ℕ} {macDsn : UInt8} (hready : Ready h size pb)
    (hpan : panId ≠ 0xffff) :
    ∃ r, framerCreate panId macDsn pb = some r ∧ Framed h size r.1 := by
  have hseq := hready.assignSeqno macDsn
  have hhdr := @hdrlen_eq _ panId h.dest size hseq.attrs
  have htot : totlen pb = h.masternetLen := by
    rw [← length_contents, hready.contents_eq, length_bytes]
  have hle := headerLen_le h.dest
  have hlen := h.masternetLen_le
  have hroom : Frame802154.hdrlen (setupParams panId (assignSeqno macDsn pb)) + totlen pb ≤
      packetbufSize := by
    rw [hhdr, htot]
    rw [sizeofMrp] at hlen
    rw [packetbufSize]
    omega
  rcases framerCreate_isSome hpan hroom with ⟨⟨pb₂, m⟩, hframe⟩
  rcases framerCreate_contents hframe with ⟨hm, _, hcontents, hbufptr, hbuflen, hhdrlen⟩
  refine ⟨_, hframe, hseq.attrs.of_same (sameAttrs_framerCreate hframe), ?_, ?_, ?_, ?_⟩
  · exact hbufptr.trans hready.bufptr_eq
  · rw [hhdrlen, hready.hdrlen_eq, hm, hhdr, Nat.zero_add]
  · exact hbuflen.trans hready.buflen_eq
  · refine ⟨_, ?_, by rw [hcontents, hready.contents_eq]⟩
    rw [length_create, hhdr]

/-- A packet with a budget is framed and queued, or refused. -/
theorem sendPacket_ready {size : ℕ} {config : Mac.Config} {a : Attrs} (hready : Ready h size pb)
    (hmax : a.maxMacTransmissions.toUInt8 ≠ 0) (hnbr : a.sendNbr = 1) :
    (config.panId = 0xffff ∧ ∃ pb₁, Ready h size pb₁ ∧
        sendPacket z config true a pb room s = ⟨s, pb₁, none, [(.err, 1)]⟩) ∨
      (config.panId ≠ 0xffff ∧ ∃ pb₂ content, Framed h size pb₂ ∧
        sendPacket z config true a pb room s =
          enqueue z (nbrOf (target h.dest)) content pb₂ room s) := by
  have hset := hready.setAttrs config
  have hmeta : ¬ (config.neighborDiscovery = true ∧ (Mac.setAttrs config pb).macMetadata ≠ 0) := by
    rintro ⟨_, hne⟩
    exact hne hset.attrs.macMetadata_eq
  unfold SendOutcome.sendPacket
  rw [if_neg (by decide)]
  dsimp only
  rw [if_neg hmax, if_neg hmeta]
  by_cases hpan : config.panId = 0xffff
  · -- the framer fails
    refine .inl ⟨hpan, _, hset, ?_⟩
    have hnone : framerCreate config.panId config.macDsn (Mac.setAttrs config pb) = none := by
      rw [framerCreate, if_pos hpan]
    rw [hnone]
    dsimp only
    rw [framerLeft, if_pos hpan]
  · right
    rcases @framerCreate_ready h _ config.panId size config.macDsn hset hpan with
      ⟨⟨pb₂, m⟩, hframe, hframed⟩
    rw [hframe]
    dsimp only
    have hone : ¬ a.sendNbr.toUInt8 = 0 := by
      rw [hnbr]
      decide
    rw [if_neg hone, hready.attrs.receiver_eq, hframed.attrs.receiver_eq]
    exact ⟨hpan, _, _, hframed, rfl⟩

/-- The queue takes a packet exactly if it has room. -/
theorem enqueue_eq (z : Sizes) (s : State) (n : Nbr) (content : Queue.Packet) (pb : Packetbuf)
    (room : Bool) :
    (Accepts z s n room ∧ ∃ t, enqueue z n content pb room s = ⟨t, pb, some ⟨copyto pb, pb⟩, []⟩) ∨
      (¬ Accepts z s n room ∧ ∃ t, enqueue z n content pb room s = ⟨t, pb, none, [(.err, 1)]⟩) := by
  have hnext : (addPacket z s n content room).nextPacket = s.nextPacket ↔ ¬ Accepts z s n room := by
    unfold addPacket Accepts
    by_cases hl : s.locked = true
    · rw [if_pos hl]
      simp [hl]
    rw [if_neg hl]
    cases hput : (s.queue n).peekPut with
    | none => simp
    | some i =>
      dsimp only
      split_ifs with hfree
      · simp [hl, hfree]
      · simp [hl, hfree]
  unfold enqueue
  dsimp only
  by_cases hacc : Accepts z s n room
  · rw [if_neg fun h => hnext.1 h hacc]
    exact .inl ⟨hacc, _, rfl⟩
  · rw [if_pos (hnext.2 hacc)]
    exact .inr ⟨hacc, _, rfl⟩

theorem toUInt8_setupMaxTx (etxLink : UInt16) :
    (setupMaxTx etxLink).toUInt8 = 0 ↔ etxLink.toNat = 0 := by
  rw [toUInt8_eq_zero_iff, setupMaxTx_low]

theorem callbackBuf_silent (hsilent : w.Silent) : callbackBuf w h = none := by
  rcases hsilent with ⟨hassoc, hetx⟩
  rcases output_ready w.config h w.before with ⟨pb, hout, _⟩
  have hzero : w.attrs.maxMacTransmissions.toUInt8 = 0 := (toUInt8_setupMaxTx w.etxLink).2 hetx
  unfold callbackBuf
  rw [hout, hassoc]
  dsimp only
  unfold SendOutcome.sendPacket
  rw [if_neg (by decide)]
  dsimp only
  rw [if_pos hzero]
  rfl

/-- A packet that is refused has its header in front of its data. -/
theorem callbackBuf_refused (hsilent : ¬ w.Silent) (hqueues : ¬ w.Queues h.dest) :
    ∃ pb, callbackBuf w h = some pb ∧ pb.receiver = h.dest ∧ 0 < pb.packetHdrSize.toNat ∧
      datalen pb = h.masternetLen := by
  rcases output_ready w.config h w.before with ⟨pb, hout, hready⟩
  have hpos := (rememberedLen_le w.config.panId h.dest).1
  unfold callbackBuf
  rw [hout]
  dsimp only
  by_cases hassoc : w.isAssociated = true
  case neg =>
    -- the buffer is as `output` left it
    rw [Bool.not_eq_true] at hassoc
    rw [hassoc]
    refine ⟨pb, rfl, hready.attrs.receiver_eq, ?_, hready.buflen_eq⟩
    rw [hready.attrs.packetHdrSize_eq]
    exact hpos
  have hmax : w.attrs.maxMacTransmissions.toUInt8 ≠ 0 := by
    intro hzero
    exact hsilent ⟨hassoc, (toUInt8_setupMaxTx w.etxLink).1 hzero⟩
  rw [hassoc]
  rcases sendPacket_ready (z := w.sizes) (s := w.queues)
    hready hmax rfl with ⟨_, pb₁, hready₁, hsend⟩ | ⟨hpan, pb₂, content, hframed, hsend⟩
  · -- the framer failed
    rw [hsend]
    refine ⟨pb₁, rfl, hready₁.attrs.receiver_eq, ?_, hready₁.buflen_eq⟩
    rw [hready₁.attrs.packetHdrSize_eq]
    exact hpos
  · -- the queue is full
    have hfull : ¬ Accepts w.sizes w.queues (nbrOf (target h.dest)) w.room := by
      intro hacc
      exact hqueues ⟨hassoc, hpan, hacc⟩
    rcases enqueue_eq w.sizes w.queues (nbrOf (target h.dest)) content pb₂ w.room with
      ⟨hacc, _⟩ | ⟨_, t, henq⟩
    · exact absurd hacc hfull
    · rw [hsend, henq]
      refine ⟨pb₂, rfl, hframed.attrs.receiver_eq, ?_, hframed.buflen_eq⟩
      rw [hframed.attrs.packetHdrSize_eq]
      exact hpos

/-- A packet that comes back from the queue has its header among its data. -/
theorem callbackBuf_queued (hsilent : ¬ w.Silent) (hqueues : w.Queues h.dest) :
    ∃ pb, callbackBuf w h = some pb ∧ pb.receiver = h.dest ∧
      datalen pb = pb.packetHdrSize.toNat + h.masternetLen ∧
      pb.mem.read (dataptr pb + pb.packetHdrSize.toNat) h.masternetLen = h.bytes := by
  rcases hqueues with ⟨hassoc, hpan, hacc⟩
  rcases output_ready w.config h w.before with ⟨pb, hout, hready⟩
  have hmax : w.attrs.maxMacTransmissions.toUInt8 ≠ 0 := by
    intro hzero
    exact hsilent ⟨hassoc, (toUInt8_setupMaxTx w.etxLink).1 hzero⟩
  unfold callbackBuf
  rw [hout, hassoc]
  dsimp only
  -- The packet has room in the frame, so the queue decides.
  rcases sendPacket_ready (z := w.sizes) (s := w.queues)
    hready hmax rfl with ⟨hno, _⟩ | ⟨_, pb₂, content, hframed, hsend⟩
  · exact absurd hno hpan
  rcases enqueue_eq w.sizes w.queues (nbrOf (target h.dest)) content pb₂ w.room with
    ⟨_, t, henq⟩ | ⟨hfull, _⟩
  case inr => exact absurd hacc hfull
  rw [hsend, henq]
  rcases hframed.contents_eq with ⟨header, hheader, hcontents⟩
  have hlen := h.masternetLen_le
  have hle := headerLen_le h.dest
  have htot : totlen pb₂ = headerLen h.dest + h.masternetLen := by
    rw [← length_contents, hcontents, List.length_append, hheader, length_bytes]
  rw [sizeofMrp] at hlen
  have hfit : totlen pb₂ ≤ packetbufSize := by
    rw [htot, packetbufSize]
    omega
  have hdata : copyto pb₂ = header ++ h.bytes := by
    rw [copyto_eq_contents hframed.bufptr_eq hfit, hcontents]
  have htake : (copyto pb₂).take packetbufSize = header ++ h.bytes := by
    rw [hdata, List.take_of_length_le]
    rw [← hcontents, length_contents]
    exact hfit
  have hsize : pb₂.packetHdrSize.toNat = header.length := by
    rw [hframed.attrs.packetHdrSize_eq, rememberedLen, if_neg hpan, hheader]
  refine ⟨_, rfl, hframed.attrs.receiver_eq, ?_, ?_⟩
  · change ((copyto pb₂).take packetbufSize).length = pb₂.packetHdrSize.toNat + _
    rw [htake, hsize, List.length_append, length_bytes]
  · change (w.later.mem.write 0 ((copyto pb₂).take packetbufSize)).read
      (0 + 0 + pb₂.packetHdrSize.toNat) _ = _
    rw [htake, hsize, Nat.zero_add]
    have hself := Memory.read_write_self w.later.mem 0 (header ++ h.bytes)
    have hbytes := (Memory.read_append_inj hself).2
    rw [length_bytes, Nat.zero_add] at hbytes
    exact hbytes

/-- The callback gives up on the receiver of the packet. -/
theorem handleCallback_givesUp (hgive : w.GivesUp pb.receiver) :
    handleCallback w pb = .returned := by
  unfold handleCallback
  rcases hgive with hknows | hsource
  · rw [if_pos hknows]
  · split_ifs <;> rfl

theorem handleCallback_of_not_givesUp (hgive : ¬ w.GivesUp pb.receiver)
    (hdrop : 0 < pb.packetHdrSize.toNat) (hlen : datalen pb = h.masternetLen) :
    handleCallback w pb = .wild ∨
      ∃ h', handleCallback w pb = .handed h' ∧ h'.masternetLen < h.masternetLen := by
  unfold handleCallback
  rw [if_neg fun hknows => hgive (.inl hknows), if_neg fun hsource => hgive (.inr hsource)]
  dsimp only
  split_ifs with hfit
  · -- a header too much is skipped
    right
    refine ⟨_, rfl, ?_⟩
    dsimp only
    omega
  · exact .inl rfl

theorem handleCallback_queued (hgive : ¬ w.GivesUp pb.receiver)
    (hlen : datalen pb = pb.packetHdrSize.toNat + h.masternetLen)
    (hread : pb.mem.read (dataptr pb + pb.packetHdrSize.toNat) h.masternetLen = h.bytes) :
    ∃ h', handleCallback w pb = .handed h' ∧ h'.bytes = h.bytes ∧
      h'.masternetLen = h.masternetLen ∧ h'.dest = w.timeSource := by
  have hrest : datalen pb - pb.packetHdrSize.toNat = h.masternetLen := by omega
  have hle := h.masternetLen_le
  unfold handleCallback
  rw [if_neg fun hknows => hgive (.inl hknows), if_neg fun hsource => hgive (.inr hsource)]
  dsimp only
  rw [dif_pos ⟨by omega, by omega⟩]
  refine ⟨_, rfl, ?_, hrest, rfl⟩
  unfold Handed.bytes
  dsimp only
  rw [hrest, hread]
  rcases Nat.exists_eq_add_of_le hle with ⟨k, hk⟩
  have hself := Memory.read_write_self (fun _ => 0) 0 h.bytes
  rw [length_bytes] at hself
  rw [hk, Memory.read_append, hself, List.take_left' (length_bytes h)]
  rfl

end

/-! ## Runs -/

/-- All packets handed over are the original exactly if all that come back do so from a queue. The
induction is on the calls: as long as the condition holds, the packet is the same in each. -/
theorem faithful_iff (original : Handed) (ws : List Surroundings) (h : Handed)
    (hbytes : h.bytes = original.bytes) :
    Faithful original.bytes ws h ↔ FromQueue ws h.dest := by
  -- On the surroundings of the transmissions; each one is silent, gives up, or hands a packet back.
  induction ws generalizing h with
  | nil => exact Iff.rfl
  | cons w rest ih =>
    unfold Faithful FromQueue
    by_cases hsilent : w.Silent
    · rw [callbackBuf_silent hsilent]
      exact iff_of_true trivial (.inl hsilent)
    rw [or_iff_right hsilent]
    by_cases hgive : w.GivesUp h.dest
    · -- nothing is handed over
      refine iff_of_true ?_ (.inl hgive)
      by_cases hqueues : w.Queues h.dest
      · rcases callbackBuf_queued hsilent hqueues with ⟨pb, hbuf, hreceiver, _, _⟩
        rw [hbuf]
        dsimp only
        rw [handleCallback_givesUp (by rw [hreceiver]; exact hgive)]
        trivial
      · rcases callbackBuf_refused hsilent hqueues with ⟨pb, hbuf, hreceiver, _, _⟩
        rw [hbuf]
        dsimp only
        rw [handleCallback_givesUp (by rw [hreceiver]; exact hgive)]
        trivial
    rw [or_iff_right hgive]
    by_cases hqueues : w.Queues h.dest
    · rcases callbackBuf_queued hsilent hqueues with ⟨pb, hbuf, hreceiver, hlen, hread⟩
      rcases handleCallback_queued (by rw [hreceiver]; exact hgive) hlen hread with
        ⟨h', hhanded, hbytes', hlen', hdest'⟩
      have hsame : h'.bytes = original.bytes := hbytes'.trans hbytes
      rw [hbuf]
      dsimp only
      rw [hhanded]
      dsimp only
      rw [ih h' hsame, hdest']
      constructor
      · rintro ⟨_, _, hrest⟩
        exact ⟨hqueues, hrest⟩
      · rintro ⟨_, hrest⟩
        refine ⟨hsame, ?_, hrest⟩
        rw [hlen', ← length_bytes, hbytes]
    · -- the packet gets shorter, or the copy runs wild
      refine iff_of_false ?_ fun hcond => hqueues hcond.1
      rcases callbackBuf_refused hsilent hqueues with ⟨pb, hbuf, hreceiver, hpos, hlen⟩
      rw [hbuf]
      dsimp only
      rcases handleCallback_of_not_givesUp (by rw [hreceiver]; exact hgive) hpos hlen with
        hwild | ⟨h', hhanded, hlt⟩
      · rw [hwild]
        exact not_false
      · rw [hhanded]
        rintro ⟨_, hlen', _⟩
        rw [← hbytes, length_bytes] at hlen'
        omega

/-- For every metric packet and every run of retries: all packets handed over are the original
exactly if none comes back from a call of `send_packet` that failed. -/
theorem retried_iff (h : Handed) (ws : List Surroundings) :
    Faithful h.bytes ws h ↔ FromQueue ws h.dest :=
  faithful_iff h ws h rfl

theorem length_nodeOne : ([0, 0, 0, 0, 0, 0, 0, 1] : List UInt8).length = 8 := rfl

/-- The time source of a node. -/
def nodeOne : Linkaddr := ⟨[0, 0, 0, 0, 0, 0, 0, 1], length_nodeOne⟩

/-- A metric of 30 bytes. -/
def metricPacket : Handed where
  mrp := (List.range sizeofMrp).map UInt8.ofNat
  masternetLen := 30
  dest := nodeOne
  length_mrp := by decide
  masternetLen_le := by decide

/-- A node of a running network whose queues are full. -/
def fullQueues : Surroundings where
  sizes := fourSizes
  config := runningConfig
  isAssociated := true
  queues := initState fourSizes
  room := false
  nodeId := 5
  etxLink := 1000
  transmissionTtl := 1000
  earliestTxSlot := 745
  before := emptyPacketbuf
  later := emptyPacketbuf
  isCoordinator := false
  knows := fun _ => true
  timeSource := nodeOne

/-- What the callback hands over. -/
def Reaction.bytes? : Reaction → Option (List UInt8)
  | .handed h => some h.bytes
  | _ => none

/-- The queue is full once: nine bytes of thirty are handed over. -/
theorem shortened :
    ((callbackBuf fullQueues metricPacket).bind fun pb => (handleCallback fullQueues pb).bytes?) =
        some [21, 22, 23, 24, 25, 26, 27, 28, 29] ∧
      ¬ Faithful metricPacket.bytes [fullQueues] metricPacket := by
  refine ⟨by decide, ?_⟩
  rw [faithful_iff metricPacket _ _ rfl]
  rintro (hsilent | hgive | ⟨hqueues, _⟩)
  · exact absurd hsilent.2 (by decide)
  · rcases hgive with hknows | ⟨_, hsource⟩
    · cases hknows
    · exact hsource rfl
  · exact absurd hqueues.2.2.2.2.2 (by decide)

end MasterScheduler.Mote.MetricRetry

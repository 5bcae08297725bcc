import MasterScheduler.Mote.Distribute

/-!
# MasterScheduler.Mote.Chunking — a file put together from its packets

A receiver stores each packet at the offset of its number, unless it has the
packet already.

- `Gathers`: bit array, flash and byte counter agree on what has arrived.
- `Gathers.store`: storing one more chunk keeps them in agreement.
- `Gathers.stores`: with all chunks there, the flash holds the file.
-/

namespace MasterScheduler.Mote

open Lib

/-- The packets marked in the bit array are chunks `1..last` of the file, they are
in the flash, and the counter is the sum of their lengths. -/
structure Gathers (p : ℕ) (file : List UInt8) (last : ℕ) (bits : BitVector) (flash : Flash) :
    Prop where
  number : ∀ k, isBitSet bits k = true → 1 ≤ k ∧ k ≤ last
  holds : ∀ k, isBitSet bits k = true → Holds flash.bytes ((k - 1) * p) (chunk p file k)
  count : flash.bytesInFlash =
    (∑ k ∈ (Finset.Icc 1 last).filter (fun k => isBitSet bits k = true),
      (chunk p file k).length : ℕ)

section Gather

variable {p last : ℕ} {file : List UInt8} {bits : BitVector} {flash : Flash}

theorem gathers_empty (words : ℕ) (hcount : flash.bytesInFlash = 0) :
    Gathers p file last (List.replicate words 0) flash := by
  have hbit : ∀ k, isBitSet (List.replicate words 0) k = false := by
    intro k
    exact testBit_replicate_zero words k
  constructor
  · intro k hk
    rw [hbit] at hk
    cases hk
  · intro k hk
    rw [hbit] at hk
    cases hk
  · rw [hcount, Finset.filter_false_of_mem, Finset.sum_empty, Nat.cast_zero]
    intro k _
    rw [hbit]
    exact Bool.false_ne_true

/-- A write of part of a missing chunk disturbs no other chunk. -/
theorem Gathers.write_part (h : Gathers p file last bits flash) {k n : ℕ} (hk : 1 ≤ k)
    (hunset : isBitSet bits k = false) :
    Gathers p file last bits
      { flash with bytes := writeAt 0 flash.bytes ((k - 1) * p) ((chunk p file k).take n) } := by
  refine ⟨h.number, ?_, h.count⟩
  intro j hj
  have hne : k ≠ j := by
    intro heq
    rw [heq, hj] at hunset
    cases hunset
  refine (h.holds j hj).writeAt_disjoint ?_
  have hdisj := chunk_disjoint (p := p) (f := file) hk (h.number j hj).1 hne
  have hlen : ((chunk p file k).take n).length = min n (chunk p file k).length := List.length_take
  omega

/-- Storing a missing chunk. -/
theorem Gathers.write (h : Gathers p file last bits flash) {k : ℕ} (hk : 1 ≤ k) (hlast : k ≤ last)
    (hunset : isBitSet bits k = false) (hcover : k / 32 < bits.length) :
    Gathers p file last (setBit bits k)
      { bytes := writeAt 0 flash.bytes ((k - 1) * p) (chunk p file k)
        bytesInFlash := flash.bytesInFlash + (chunk p file k).length } := by
  have hbit : ∀ j, isBitSet (setBit bits k) j = (decide (j = k) || isBitSet bits j) :=
    testBit_insertBit (by decide) hcover
  have hkeep : ∀ j, isBitSet bits j = true → k ≠ j := by
    intro j hj heq
    rw [heq, hj] at hunset
    cases hunset
  constructor
  · intro j hj
    rw [hbit, Bool.or_eq_true, decide_eq_true_eq] at hj
    rcases hj with rfl | hj
    · exact ⟨hk, hlast⟩
    · exact h.number j hj
  · intro j hj
    rw [hbit, Bool.or_eq_true, decide_eq_true_eq] at hj
    rcases hj with rfl | hj
    · exact holds_writeAt 0 flash.bytes _ _
    · exact (h.holds j hj).writeAt_disjoint (chunk_disjoint hk (h.number j hj).1 (hkeep j hj))
  · -- the new chunk is one more summand
    have hinsert : (Finset.Icc 1 last).filter (fun j => isBitSet (setBit bits k) j = true) =
        insert k ((Finset.Icc 1 last).filter (fun j => isBitSet bits j = true)) := by
      ext j
      simp only [Finset.mem_filter, Finset.mem_insert, Finset.mem_Icc, hbit, Bool.or_eq_true,
        decide_eq_true_eq]
      constructor
      · tauto
      · rintro (rfl | hj)
        · exact ⟨⟨hk, hlast⟩, .inl rfl⟩
        · exact ⟨hj.1, .inr hj.2⟩
    rw [hinsert, Finset.sum_insert (by simp [hunset]), h.count, Nat.add_comm, Nat.cast_add]

/-- With all chunks there, the flash holds the file. -/
theorem Gathers.stores (h : Gathers p file last bits flash) (hp : 0 < p)
    (hlen : file.length ≤ last * p) (hall : ∀ k, 1 ≤ k → k ≤ last → isBitSet bits k = true) :
    flash.Stores file := by
  refine ⟨holds_of_chunks hp hlen fun k h1 hk => h.holds k (hall k h1 hk), ?_⟩
  rw [h.count]
  have hfilter : (Finset.Icc 1 last).filter (fun k => isBitSet bits k = true) =
      Finset.Icc 1 last := by
    apply Finset.filter_true_of_mem
    intro k hk
    rw [Finset.mem_Icc] at hk
    exact hall k hk.1 hk.2
  rw [hfilter, sum_length_chunk, Nat.min_eq_left hlen]

end Gather

/-! ## A packet that comes in -/

section NewPacket

variable (cfg : Config) (env : Env) {s : NodeState}

theorem newPacket_frame (s : NodeState) (len : ℕ) :
    commandInputScheduleNewPacket cfg env s len = { s with
      receivedPackets := (commandInputScheduleNewPacket cfg env s len).receivedPackets
      flash := (commandInputScheduleNewPacket cfg env s len).flash } := by
  unfold commandInputScheduleNewPacket unpackScheduleToFlash
  dsimp only
  split <;> rfl

theorem newPacket_handleStateChange (s : NodeState) (st : Phase) (len : ℕ) :
    commandInputScheduleNewPacket cfg env (handleStateChange s st) len =
      handleStateChange (commandInputScheduleNewPacket cfg env s len) st := by
  unfold commandInputScheduleNewPacket unpackScheduleToFlash handleStateChange
  dsimp only
  split <;> rfl

theorem writeToFlashOffset_completed (flash : Flash) (data : List UInt8) (offset : ℕ) :
    writeToFlashOffset flash data offset .completed =
      (true, { bytes := writeAt 0 flash.bytes offset data
               bytesInFlash := flash.bytesInFlash + data.length }) := by
  unfold writeToFlashOffset
  rw [if_neg (by omega), Int.toNat_natCast]

theorem writeToFlashOffset_failed (flash : Flash) (data : List UInt8) (offset n : ℕ) :
    writeToFlashOffset flash data offset (.failed n) =
      (false, { flash with
        bytes := writeAt 0 flash.bytes offset (data.take (min n (data.length - 1))) }) := by
  unfold writeToFlashOffset
  rw [if_neg (by omega), Int.toNat_natCast]

/-- A missing chunk in `mrp` is stored and marked, or it is not marked. -/
theorem newPacket_cases {len : ℕ} {data : List UInt8} (hk : 1 ≤ s.mrp.number)
    (hdata : s.mrp.payload.take (len % 256) = data) :
    (env.write = .completed ∧ commandInputScheduleNewPacket cfg env s len = { s with
      receivedPackets := setBit s.receivedPackets s.mrp.number
      flash := { bytes := writeAt 0 s.flash.bytes ((s.mrp.number - 1) * cfg.schedulePayloadSize) data
                 bytesInFlash := s.flash.bytesInFlash + data.length } }) ∨
    (env.write ≠ .completed ∧ ∃ n, commandInputScheduleNewPacket cfg env s len = { s with
      flash := { s.flash with
        bytes := writeAt 0 s.flash.bytes ((s.mrp.number - 1) * cfg.schedulePayloadSize)
          (data.take n) } }) := by
  unfold commandInputScheduleNewPacket unpackScheduleToFlash
  rw [flashOffset_of_pos cfg _ hk, hdata]
  cases hw : env.write with
  | completed =>
    rw [writeToFlashOffset_completed]
    exact .inl ⟨rfl, rfl⟩
  | failed n =>
    rw [writeToFlashOffset_failed]
    refine .inr ⟨?_, min n (data.length - 1), rfl⟩
    intro h
    cases h

/-- Storing the packet in `mrp`, if it carries its chunk and is missing. -/
theorem newPacket_gathers {last len : ℕ} {file : List UInt8}
    (h : Gathers cfg.schedulePayloadSize file last s.receivedPackets s.flash)
    (hk : 1 ≤ s.mrp.number) (hlast : s.mrp.number ≤ last)
    (hunset : isBitSet s.receivedPackets s.mrp.number = false)
    (hcover : s.mrp.number / 32 < s.receivedPackets.length)
    (hdata : s.mrp.payload.take (len % 256) = chunk cfg.schedulePayloadSize file s.mrp.number) :
    Gathers cfg.schedulePayloadSize file last
        (commandInputScheduleNewPacket cfg env s len).receivedPackets
        (commandInputScheduleNewPacket cfg env s len).flash ∧
      (env.write = .completed → isBitSet
        (commandInputScheduleNewPacket cfg env s len).receivedPackets s.mrp.number = true) := by
  rcases newPacket_cases cfg env hk hdata with ⟨hw, heq⟩ | ⟨hw, n, heq⟩
  · rw [heq]
    exact ⟨h.write hk hlast hunset hcover, fun _ => testBit_insertBit_self (by decide) hcover⟩
  · rw [heq]
    exact ⟨h.write_part hk hunset, fun hc => absurd hc hw⟩

theorem length_receivedPackets_newPacket (s : NodeState) (len : ℕ) :
    (commandInputScheduleNewPacket cfg env s len).receivedPackets.length =
      s.receivedPackets.length := by
  unfold commandInputScheduleNewPacket unpackScheduleToFlash
  dsimp only
  split
  · exact length_insertBit _ _
  · rfl

theorem isBitSet_newPacket_mono (s : NodeState) (len : ℕ) {k : ℕ}
    (h : isBitSet s.receivedPackets k = true) :
    isBitSet (commandInputScheduleNewPacket cfg env s len).receivedPackets k = true := by
  unfold commandInputScheduleNewPacket unpackScheduleToFlash
  dsimp only
  split
  · exact testBit_insertBit_mono (by decide) _ h
  · exact h

end NewPacket

/-! ## The handlers -/

/-- What the handlers do with the schedule in a packet: a missing packet is stored. -/
def acceptPacket (cfg : Config) (env : Env) (s : NodeState) (q : Packet) : NodeState :=
  if isBitSet s.receivedPackets q.number then s.copyIn q
  else commandInputScheduleNewPacket cfg env (s.copyIn q) q.payload.length

section Accept

variable (node : Node) (env : Env) (s : NodeState) (q : Packet)

/-- While the schedule is distributed, every packet with a part of it is accepted. -/
theorem distribution_accepts (hcmd : q.command ≠ .scheduleRetransmitReq) :
    (handleScheduleDistributionStateChanges node env (s.copyIn q) q.payload.length).receivedPackets =
        (acceptPacket node.cfg env s q).receivedPackets ∧
      (handleScheduleDistributionStateChanges node env (s.copyIn q) q.payload.length).flash =
        (acceptPacket node.cfg env s q).flash := by
  unfold handleScheduleDistributionStateChanges acceptPacket
  by_cases hbit : isBitSet s.receivedPackets q.number = true
  · have hbit' : isBitSet (s.copyIn q).receivedPackets (s.copyIn q).mrp.number = true := hbit
    rw [if_pos hbit, if_pos hbit']
    exact ⟨rfl, rfl⟩
  · have hbit' : ¬ isBitSet (s.copyIn q).receivedPackets (s.copyIn q).mrp.number = true := hbit
    rw [if_neg hbit, if_neg hbit']
    have hmrp : (s.copyIn q).mrp.command = q.command := rfl
    rw [hmrp]
    cases hq : q.command with
    | scheduleRetransmitReq => exact absurd hq hcmd
    | schedule =>
      simp only [commandInputSchedulePacket, forwardBroadcast, output_receivedPackets,
        output_flash, newPacket_handleStateChange]
      exact ⟨rfl, rfl⟩
    | scheduleRetransmit =>
      simp only [newPacket_handleStateChange]
      exact ⟨rfl, rfl⟩
    | scheduleEnd =>
      simp only [commandInputScheduleLastPacket, forwardBroadcast, output_receivedPackets,
        output_flash, newPacket_handleStateChange]
      split
      · exact ⟨rfl, rfl⟩
      · exact ⟨rfl, rfl⟩

/-- So is a retransmission at a node that knows it has an old schedule. -/
theorem retransmitt_accepts (src : NodeId) (dest : Option NodeId) :
    (commandInputScheduleRetransmitt node env (s.copyIn q) q.payload.length src
        dest).receivedPackets = (acceptPacket node.cfg env s q).receivedPackets ∧
      (commandInputScheduleRetransmitt node env (s.copyIn q) q.payload.length src dest).flash =
        (acceptPacket node.cfg env s q).flash := by
  have hstored : (if isBitSet (s.copyIn q).receivedPackets (s.copyIn q).mrp.number then s.copyIn q
      else commandInputScheduleNewPacket node.cfg env (s.copyIn q) q.payload.length) =
        acceptPacket node.cfg env s q := rfl
  unfold commandInputScheduleRetransmitt
  dsimp only
  rw [hstored]
  split
  · rw [requestRetransmitOrFinish_receivedPackets, requestRetransmitOrFinish_flash]
    split
    · exact ⟨rfl, rfl⟩
    · exact ⟨rfl, rfl⟩
  · split
    · exact ⟨rfl, rfl⟩
    · exact ⟨rfl, rfl⟩

end Accept

/-! ## Any order, any duplicates -/

/-- The packets that carry the schedule: those of the distributor, and those a
node that stores the file sends on request. -/
inductive SchedulePacket (node : Node) (s₀ : NodeState) (file : List UInt8) (last : ℕ) :
    Packet → Prop
  | distributed {m : ℕ} {s : NodeState} {x : Option NodeId × Packet} :
      Distributes node s₀ m s → x ∈ s.handed → SchedulePacket node s₀ file last x.2
  | retransmitted {node' : Node} {env : Env} {t : NodeState} {src : NodeId} {q : Packet} :
      node'.cfg = node.cfg → t.flash.Stores file → 1 ≤ t.mrp.number → t.mrp.number ≤ last →
      env.read = .completed →
      (commandInputScheduleRetransmittRequest node' env t src).handed =
        t.handed ++ [(some src, q)] →
      SchedulePacket node s₀ file last q

/-- A receiver that gets packets one after the other. -/
def acceptAll (cfg : Config) (s : NodeState) (rx : List (Packet × Env)) : NodeState :=
  rx.foldl (fun s x => acceptPacket cfg x.2 s x.1) s

section Order

variable {cfg : Config} {last : ℕ} {file : List UInt8} {s : NodeState}

theorem copyIn_payload (s : NodeState) (q : Packet) :
    (s.copyIn q).mrp.payload.take q.payload.length = q.payload := List.take_left

/-- One packet with its chunk. -/
theorem acceptPacket_gathers (env : Env) {q : Packet}
    (h : Gathers cfg.schedulePayloadSize file last s.receivedPackets s.flash)
    (hk : 1 ≤ q.number) (hlast : q.number ≤ last) (hcover : q.number / 32 < s.receivedPackets.length)
    (hdata : q.payload = chunk cfg.schedulePayloadSize file q.number) :
    Gathers cfg.schedulePayloadSize file last (acceptPacket cfg env s q).receivedPackets
        (acceptPacket cfg env s q).flash ∧
      (env.write = .completed →
        isBitSet (acceptPacket cfg env s q).receivedPackets q.number = true) := by
  unfold acceptPacket
  by_cases hbit : isBitSet s.receivedPackets q.number = true
  · rw [if_pos hbit]
    exact ⟨h, fun _ => hbit⟩
  · rw [if_neg hbit]
    have hp := schedulePayloadSize_lt cfg
    have hlen := length_chunk cfg.schedulePayloadSize file q.number
    refine newPacket_gathers (s := s.copyIn q) cfg env h hk hlast (Bool.eq_false_iff.2 hbit) hcover ?_
    rw [Nat.mod_eq_of_lt (by rw [hdata]; omega), copyIn_payload]
    exact hdata

theorem length_receivedPackets_acceptPacket (cfg : Config) (env : Env) (s : NodeState)
    (q : Packet) :
    (acceptPacket cfg env s q).receivedPackets.length = s.receivedPackets.length := by
  unfold acceptPacket
  split
  · rfl
  · exact length_receivedPackets_newPacket cfg env _ _

theorem isBitSet_acceptPacket_mono (env : Env) (s : NodeState) (q : Packet) {k : ℕ}
    (h : isBitSet s.receivedPackets k = true) :
    isBitSet (acceptPacket cfg env s q).receivedPackets k = true := by
  unfold acceptPacket
  split
  · exact h
  · exact isBitSet_newPacket_mono cfg env _ _ h

/-- A whole sequence of packets: what has arrived stays in agreement, and every
packet that was written once is there in the end. -/
theorem acceptAll_gathers (rx : List (Packet × Env))
    (hrx : ∀ x ∈ rx, 1 ≤ x.1.number ∧ x.1.number ≤ last ∧
      x.1.payload = chunk cfg.schedulePayloadSize file x.1.number) :
    ∀ s : NodeState, last < 32 * s.receivedPackets.length →
      Gathers cfg.schedulePayloadSize file last s.receivedPackets s.flash →
      Gathers cfg.schedulePayloadSize file last (acceptAll cfg s rx).receivedPackets
        (acceptAll cfg s rx).flash ∧
      ∀ k, (isBitSet s.receivedPackets k = true ∨
          ∃ x ∈ rx, x.1.number = k ∧ x.2.write = .completed) →
        isBitSet (acceptAll cfg s rx).receivedPackets k = true := by
  induction rx with
  | nil =>
    intro s _ h
    refine ⟨h, ?_⟩
    rintro k (hk | ⟨x, hx, -⟩)
    · exact hk
    · cases hx
  | cons x rx ih =>
    intro s hlast h
    rcases List.forall_mem_cons.1 hrx with ⟨⟨h1, hle, hdata⟩, hrest⟩
    rcases acceptPacket_gathers x.2 h h1 hle (by omega) hdata with ⟨hstep, hset⟩
    have hlen := length_receivedPackets_acceptPacket cfg x.2 s x.1
    rcases ih hrest (acceptPacket cfg x.2 s x.1) (by omega) hstep with ⟨hall, hbits⟩
    refine ⟨hall, ?_⟩
    rintro k (hk | ⟨y, hy, rfl, hw⟩)
    · exact hbits k (.inl (isBitSet_acceptPacket_mono x.2 s x.1 hk))
    · rcases List.mem_cons.1 hy with rfl | hy
      · exact hbits _ (.inl (hset hw))
      · exact hbits _ (.inr ⟨y, hy, rfl, hw⟩)

end Order

/-- A node with the file answers a request with the chunk that was asked for. -/
theorem retransmittRequest_packet {node : Node} {env : Env} {t : NodeState} {src : NodeId}
    {q : Packet} (h : (commandInputScheduleRetransmittRequest node env t src).handed =
      t.handed ++ [(some src, q)]) :
    ∃ t' : NodeState, t'.flash = t.flash ∧ t'.mrp.number = t.mrp.number ∧
      (fillSchedulePacketFromFlash node.cfg t' t.mrp.number env.read).1 ≠ .failed ∧
      q = (fillSchedulePacketFromFlash node.cfg t' t.mrp.number env.read).2.outgoing := by
  unfold commandInputScheduleRetransmittRequest at h
  have hlen : ∀ l : List (Option NodeId × Packet), l ≠ l ++ [(some src, q)] := by
    intro l hl
    have := congrArg List.length hl
    simp at this
  split at h
  · exact absurd h (hlen _)
  · dsimp only at h
    split at h
    · rw [fill_frame] at h
      exact absurd h (hlen _)
    · rename_i hfill
      refine ⟨preparePacket node (handleStateChange t .scheduleRetransmitting) .scheduleRetransmit
        t.mrp.number, rfl, rfl, hfill, ?_⟩
      symm
      refine @outgoing_eq_of_handed _ t.handed (some src) _ ?_ ?_
      · rw [← h, ← output_handed env _ env.etxLink]
        split
        · rfl
        · rfl
      · rw [fill_frame]
        rfl

/-! ## The round trip -/

/-- The number of packets of 57 bytes. -/
def packetsOf57 (len : ℕ) : ℕ := (len + 56) / 57

section RoundTrip

variable {node : Node} {file : List UInt8} {s₀ : NodeState}

theorem schedulePayloadSize_57 (h : node.cfg.msgLength = 59) :
    node.cfg.schedulePayloadSize = 57 := by
  rw [Config.schedulePayloadSize, h]

theorem packetCount_57 {len : ℕ} (h : 58 ≤ len) : packetCount 57 len = packetsOf57 len := by
  unfold packetCount packetsOf57
  split_ifs <;> omega

theorem ends_57 (hmsg : node.cfg.msgLength = 59) (hmin : 58 ≤ file.length)
    (hmax : file.length ≤ 255 * 57) : Ends node.cfg.schedulePayloadSize file.length := by
  rw [schedulePayloadSize_57 hmsg, Ends, packetCount_57 hmin, packetsOf57]
  omega

/-- Every packet with a part of the schedule carries the chunk of its number. -/
theorem SchedulePacket.chunk {last : ℕ} (h₀ : Uploaded node file s₀) (hpos : 0 < file.length)
    (hends : Ends node.cfg.schedulePayloadSize file.length)
    (h255 : node.cfg.schedulePayloadSize ≠ 255)
    (hlast : packetCount node.cfg.schedulePayloadSize file.length = last) {q : Packet}
    (h : SchedulePacket node s₀ file last q) :
    1 ≤ q.number ∧ q.number ≤ last ∧
      q.payload = Lib.chunk node.cfg.schedulePayloadSize file q.number := by
  subst hlast
  cases h with
  | @distributed m s x hs hx =>
    have hle := hs.le_packetCount h₀ hpos hends
    have hmax := hends.2.2
    -- the packet at one index has its number and its payload from that index
    rcases List.getElem_of_mem hx with ⟨i, hi, rfl⟩
    rcases hs.numbers h₀ hpos with ⟨-, -, -, hnum, -⟩
    have hpay := hs.payloads h₀ hpos hends h255
    have hnum' := congrArg (fun l => l[i]?) hnum
    have hpay' := congrArg (fun l => l[i]?) hpay
    have him : i < m := by
      have := congrArg List.length hpay
      simp only [List.length_map, List.length_range'] at this
      omega
    simp only [List.getElem?_map, List.getElem?_eq_getElem hi, Option.map_some,
      List.getElem?_range' him, Nat.one_mul, Option.some.injEq, Prod.mk.injEq] at hnum' hpay'
    rw [hpay', hnum'.2.1, Nat.mod_eq_of_lt (by omega)]
    exact ⟨by omega, by omega, rfl⟩
  | @retransmitted node' env t src _ hcfg hstores h1 hle hread hq =>
    rcases retransmittRequest_packet hq with ⟨t', hflash, hnumber, -, rfl⟩
    rw [hread, hcfg]
    rw [← hflash] at hstores
    have hout := outgoing_fill_chunk node.cfg hstores h1 (hends.offset_le hle)
      (length_chunk_ne_255 h255 _)
    have hnum : (fillSchedulePacketFromFlash node.cfg t' t.mrp.number .completed).2.outgoing.number =
        t.mrp.number := by
      rw [fill_frame]
      exact hnumber
    rw [hnum]
    exact ⟨h1, hle, hout⟩

end RoundTrip

/-- A file of two packets, at the distributor and on its way to a receiver. -/
def twoPacketFile : List UInt8 := List.replicate 58 7

def twoPacketNode : Node := ⟨defaultConfig .cooja, 1, 1⟩

def twoPacketState : NodeState := initMasterRouting (defaultConfig .cooja) (storedFile twoPacketFile)

theorem twoPacket_uploaded : Uploaded twoPacketNode twoPacketFile twoPacketState :=
  ⟨rfl, rfl, rfl, rfl⟩

end MasterScheduler.Mote

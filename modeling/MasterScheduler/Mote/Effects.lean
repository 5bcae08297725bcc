import MasterScheduler.Mote.Routing

/-!
# MasterScheduler.Mote.Effects — what the helpers of a node change

Frame lemmas for the functions of `Routing` that every handler is made of:
queues, output, the payload and the bit array.
-/

namespace MasterScheduler.Mote

open Lib

/-! ## Output -/

section Output

variable (env : Env) (s : NodeState) (etxLink : ℕ) (d : Option NodeId) (p : Packet)

/-- A new neighbour is the only change. -/
theorem addNbr_frame : s.addNbr d = { s with nbrs := (s.addNbr d).nbrs } := by
  unfold NodeState.addNbr
  split
  · rfl
  · split <;> rfl

/-- A packet goes to the queue of its neighbour. -/
theorem tschQueueAddPacket_frame :
    tschQueueAddPacket s d p = { s with
      nbrs := (s.addNbr d).nbrs
      queue := Function.update s.queue d (s.queue d ++ [p]) } := by
  unfold tschQueueAddPacket
  dsimp only
  rw [addNbr_frame]

/-- A repeated transmission changes phase and link. -/
theorem handleRetransmit_frame :
    handleRetransmit s = { s with
      currentState := (handleRetransmit s).currentState
      link := (handleRetransmit s).link } := by
  unfold handleRetransmit
  split <;> rfl

/-- So does an error, and it may stop the timer. -/
theorem handleTxErr_frame :
    handleTxErr s = { s with
      currentState := (handleTxErr s).currentState
      link := (handleTxErr s).link
      missingResponseTimer := (handleTxErr s).missingResponseTimer } := by
  unfold handleTxErr
  split
  · rfl
  · split
    · rw [handleRetransmit_frame]
    · rfl

/-- Sending changes phase, link and queues, and hands over one packet. -/
theorem output_frame :
    output env s etxLink d = { s with
      currentState := (output env s etxLink d).currentState
      link := (output env s etxLink d).link
      missingResponseTimer := (output env s etxLink d).missingResponseTimer
      nbrs := (output env s etxLink d).nbrs
      queue := (output env s etxLink d).queue
      handed := s.handed ++ [(d, s.outgoing)] } := by
  unfold output
  split
  · rfl
  · split
    · rw [tschQueueAddPacket_frame]
    · rw [handleTxErr_frame]

/-- Sending keeps the version. -/
@[simp] theorem output_scheduleVersion :
    (output env s etxLink d).scheduleVersion = s.scheduleVersion := by rw [output_frame]

/-- Sending keeps the number of packets. -/
@[simp] theorem output_schedulePackets :
    (output env s etxLink d).schedulePackets = s.schedulePackets := by rw [output_frame]

/-- Sending keeps the bits. -/
@[simp] theorem output_receivedPackets :
    (output env s etxLink d).receivedPackets = s.receivedPackets := by rw [output_frame]

/-- Sending keeps the flags. -/
@[simp] theorem output_scheduleReceived :
    (output env s etxLink d).scheduleReceived = s.scheduleReceived := by rw [output_frame]

/-- Sending keeps the flash. -/
@[simp] theorem output_flash : (output env s etxLink d).flash = s.flash := by rw [output_frame]

/-- Sending keeps the number of the packet. -/
@[simp] theorem output_schedulePacketNumber :
    (output env s etxLink d).schedulePacketNumber = s.schedulePacketNumber := by rw [output_frame]

/-- Sending keeps the callbacks that wait. -/
@[simp] theorem output_pending : (output env s etxLink d).pending = s.pending := by
  rw [output_frame]

/-- Sending keeps the timer. -/
@[simp] theorem output_installTimer :
    (output env s etxLink d).installTimer = s.installTimer := by rw [output_frame]

/-- One packet is handed over. -/
@[simp] theorem output_handed :
    (output env s etxLink d).handed = s.handed ++ [(d, s.outgoing)] := by rw [output_frame]

end Output

/-! ## Requests -/

section Request

variable (node : Node) (env : Env) (s : NodeState) (dest : NodeId)

/-- The request for a packet, or the end, leaves bits and flash. -/
theorem requestRetransmitOrFinish_frame :
    requestRetransmitOrFinish node env s dest = { s with
      currentState := (requestRetransmitOrFinish node env s dest).currentState
      scheduleVersion := (requestRetransmitOrFinish node env s dest).scheduleVersion
      scheduleReceived := (requestRetransmitOrFinish node env s dest).scheduleReceived
      ownPacketNumber := (requestRetransmitOrFinish node env s dest).ownPacketNumber
      mrp := (requestRetransmitOrFinish node env s dest).mrp
      payloadLen := (requestRetransmitOrFinish node env s dest).payloadLen
      link := (requestRetransmitOrFinish node env s dest).link
      missingResponseTimer := (requestRetransmitOrFinish node env s dest).missingResponseTimer
      nbrs := (requestRetransmitOrFinish node env s dest).nbrs
      queue := (requestRetransmitOrFinish node env s dest).queue
      handed := (requestRetransmitOrFinish node env s dest).handed } := by
  unfold requestRetransmitOrFinish
  split
  · rfl
  · split
    · rfl
    · split
      · rfl
      · rw [output_frame]
        rfl

/-- It keeps the bits. -/
@[simp] theorem requestRetransmitOrFinish_receivedPackets :
    (requestRetransmitOrFinish node env s dest).receivedPackets = s.receivedPackets := by
  rw [requestRetransmitOrFinish_frame]

/-- It keeps the flash. -/
@[simp] theorem requestRetransmitOrFinish_flash :
    (requestRetransmitOrFinish node env s dest).flash = s.flash := by
  rw [requestRetransmitOrFinish_frame]

end Request

/-! ## The payload of a packet -/

section Fill

variable (cfg : Config) (s : NodeState) (k : ℕ) (outcome : FlashOutcome)

/-- Filling a packet changes its payload only. -/
theorem fill_frame :
    (fillSchedulePacketFromFlash cfg s k outcome).2 = { s with
      mrp.payload := (fillSchedulePacketFromFlash cfg s k outcome).2.mrp.payload
      payloadLen := (fillSchedulePacketFromFlash cfg s k outcome).2.payloadLen } := by
  unfold fillSchedulePacketFromFlash
  dsimp only
  split <;> rfl

/-- The offset of a packet in the file. -/
theorem flashOffset_of_pos (hk : 1 ≤ k) :
    flashOffset cfg k = ((k - 1) * cfg.schedulePayloadSize : ℕ) := by
  obtain ⟨j, rfl⟩ : ∃ j, k = j + 1 := ⟨k - 1, by omega⟩
  unfold flashOffset
  push_cast
  ring

/-- The length of a payload is a byte. -/
theorem schedulePayloadSize_lt : cfg.schedulePayloadSize < 256 := Nat.mod_lt _ (by decide)

/-- The number of bytes of a chunk that starts inside the file. -/
theorem bytesToWrite_eq {file : List UInt8} (hk : 1 ≤ k)
    (hoff : (k - 1) * cfg.schedulePayloadSize ≤ file.length) :
    bytesToWrite cfg file.length k = (chunk cfg.schedulePayloadSize file k).length := by
  have hp := schedulePayloadSize_lt cfg
  rw [length_chunk]
  simp only [bytesToWrite, flashOffset_of_pos cfg k hk]
  split_ifs with h <;> omega

/-- The flash holds the file, and the counter is its length. -/
def Flash.Stores (flash : Flash) (file : List UInt8) : Prop :=
  Holds flash.bytes 0 file ∧ flash.bytesInFlash = file.length

/-- The outcome depends on the flash only. -/
theorem fill_fst_congr {s t : NodeState} (h : s.flash = t.flash) :
    (fillSchedulePacketFromFlash cfg s k outcome).1 =
      (fillSchedulePacketFromFlash cfg t k outcome).1 := by
  unfold fillSchedulePacketFromFlash
  simp only [h]
  split <;> rfl

/-- The file is in the flash that stores it. -/
theorem storedFile_stores (file : List UInt8) : (storedFile file).Stores file :=
  ⟨holds_self file, rfl⟩

variable {s k}

/-- A packet of the file is in the flash. -/
theorem readAt_chunk {flash : Flash} {file : List UInt8} (h : flash.Stores file)
    (hoff : (k - 1) * cfg.schedulePayloadSize ≤ file.length) :
    readAt flash.bytes ((k - 1) * cfg.schedulePayloadSize)
        (chunk cfg.schedulePayloadSize file k).length = chunk cfg.schedulePayloadSize file k := by
  have hlen := length_chunk cfg.schedulePayloadSize file k
  rw [h.1.readAt_eq (by omega), hlen]
  unfold chunk readAt
  rw [← List.length_drop, ← List.take_take, List.take_length]

/-- Reading the `k`-th chunk of a stored file. -/
theorem readFlash_chunk {flash : Flash} {file : List UInt8} (h : flash.Stores file)
    (hoff : (k - 1) * cfg.schedulePayloadSize ≤ file.length)
    (h255 : (chunk cfg.schedulePayloadSize file k).length ≠ 255) :
    readFlash flash ((k - 1) * cfg.schedulePayloadSize : ℕ)
        (chunk cfg.schedulePayloadSize file k).length .completed =
      (chunk cfg.schedulePayloadSize file k,
        some (chunk cfg.schedulePayloadSize file k).length) := by
  unfold readFlash
  rw [if_neg (by omega)]
  simp only [Int.toNat_natCast, readAt_chunk cfg h hoff, ne_eq, not_true_eq_false, if_false, h255]

/-- A read that fails has put a part of the chunk into the buffer at most. -/
theorem fill_failed {file : List UInt8} (h : s.flash.Stores file) (hk : 1 ≤ k)
    (hoff : (k - 1) * cfg.schedulePayloadSize ≤ file.length) (n : ℕ) :
    ∃ m, fillSchedulePacketFromFlash cfg s k (.failed n) =
      (.failed, { s with
        mrp.payload := (chunk cfg.schedulePayloadSize file k).take m ++
          s.mrp.payload.drop ((chunk cfg.schedulePayloadSize file k).take m).length }) := by
  refine ⟨min n ((chunk cfg.schedulePayloadSize file k).length - 1), ?_⟩
  unfold fillSchedulePacketFromFlash readFlash
  simp only [flashOffset_of_pos cfg k hk, h.2, bytesToWrite_eq cfg k hk hoff]
  rw [if_neg (by omega)]
  simp only [Int.toNat_natCast, readAt_chunk cfg h hoff]

/-- A stored file goes out chunk by chunk. -/
theorem fill_chunk {file : List UInt8} (h : s.flash.Stores file) (hk : 1 ≤ k)
    (hoff : (k - 1) * cfg.schedulePayloadSize ≤ file.length)
    (h255 : (chunk cfg.schedulePayloadSize file k).length ≠ 255) :
    fillSchedulePacketFromFlash cfg s k .completed =
      (if file.length ≤ k * cfg.schedulePayloadSize then .last else .more,
        { s with
          mrp.payload := chunk cfg.schedulePayloadSize file k ++
            s.mrp.payload.drop (chunk cfg.schedulePayloadSize file k).length
          payloadLen := (chunk cfg.schedulePayloadSize file k).length }) := by
  have hlen := length_chunk cfg.schedulePayloadSize file k
  have hstep : (k - 1) * cfg.schedulePayloadSize + cfg.schedulePayloadSize =
      k * cfg.schedulePayloadSize := by
    rw [← Nat.succ_mul, Nat.succ_eq_add_one, Nat.sub_add_cancel hk]
  unfold fillSchedulePacketFromFlash
  simp only [flashOffset_of_pos cfg k hk, h.2, bytesToWrite_eq cfg k hk hoff,
    readFlash_chunk cfg h hoff h255]
  congr 1
  by_cases hlast : file.length ≤ k * cfg.schedulePayloadSize
  · rw [if_pos hlast, if_pos (by omega)]
  · rw [if_neg hlast, if_neg (by omega)]

/-- A filled buffer goes out as the chunk. -/
theorem outgoing_fill_chunk {file : List UInt8} (h : s.flash.Stores file) (hk : 1 ≤ k)
    (hoff : (k - 1) * cfg.schedulePayloadSize ≤ file.length)
    (h255 : (chunk cfg.schedulePayloadSize file k).length ≠ 255) :
    (fillSchedulePacketFromFlash cfg s k .completed).2.outgoing.payload =
      chunk cfg.schedulePayloadSize file k := by
  rw [fill_chunk cfg h hk hoff h255]
  exact List.take_left

/-- A second read that fails leaves the chunk in the buffer. -/
theorem outgoing_fill_failed {file : List UInt8} (h : s.flash.Stores file) (hk : 1 ≤ k)
    (hoff : (k - 1) * cfg.schedulePayloadSize ≤ file.length) (n : ℕ)
    (hs : s.outgoing.payload = chunk cfg.schedulePayloadSize file k) :
    (fillSchedulePacketFromFlash cfg s k (.failed n)).2.outgoing.payload =
      chunk cfg.schedulePayloadSize file k := by
  obtain ⟨m, hm⟩ := fill_failed cfg h hk hoff n
  rw [hm]
  unfold NodeState.outgoing at hs ⊢
  dsimp only at hs ⊢
  -- the part that was read is what stands there already
  have hsame : ∀ j, s.mrp.payload.take j ++ s.mrp.payload.drop (s.mrp.payload.take j).length =
      s.mrp.payload := by
    intro j
    rw [List.length_take]
    rcases Nat.le_total j s.mrp.payload.length with hj | hj
    · rw [Nat.min_eq_left hj, List.take_append_drop]
    · rw [Nat.min_eq_right hj, List.take_of_length_le hj, List.drop_length, List.append_nil]
  rw [← hs, List.take_take, hsame]

/-- A read that gives bytes is neither before the file nor of the length of the error. -/
theorem readFlash_eq_some {flash : Flash} {offset : ℤ} {len n : ℕ}
    (h : (readFlash flash offset len outcome).2 = some n) : 0 ≤ offset ∧ n = len ∧ len ≠ 255 := by
  unfold readFlash at h
  split at h
  · cases h
  · rename_i hneg
    dsimp only at h
    cases outcome with
    | failed m => cases h
    | completed =>
      dsimp only at h
      split_ifs at h with h1 h2
      cases h
      exact ⟨by omega, rfl, h2⟩

/-- The last packet is the one that ends with the file. -/
theorem fill_eq_last {cfg : Config} {outcome : FlashOutcome}
    (h : (fillSchedulePacketFromFlash cfg s k outcome).1 = .last) :
    0 ≤ flashOffset cfg k ∧ bytesToWrite cfg s.flash.bytesInFlash k ≠ 255 ∧
      flashOffset cfg k + bytesToWrite cfg s.flash.bytesInFlash k = s.flash.bytesInFlash := by
  unfold fillSchedulePacketFromFlash at h
  dsimp only at h
  split at h
  · cases h
  · rename_i n hret
    obtain ⟨hoff, rfl, h255⟩ := readFlash_eq_some _ hret
    dsimp only at h
    split_ifs at h with hend
    exact ⟨hoff, h255, hend⟩

/-- Which packet of a file of its own the distributor takes for the last. -/
theorem fill_eq_last_iff {file : List UInt8} (h : s.flash = storedFile file)
    (hpos : 0 < file.length) :
    (fillSchedulePacketFromFlash cfg s k .completed).1 = .last ↔
      1 ≤ k ∧ (k - 1) * cfg.schedulePayloadSize ≤ file.length ∧
        file.length ≤ k * cfg.schedulePayloadSize ∧
        (chunk cfg.schedulePayloadSize file k).length ≠ 255 := by
  have hstores : s.flash.Stores file := h ▸ storedFile_stores file
  constructor
  · intro hlast
    obtain ⟨hnonneg, h255, hend⟩ := fill_eq_last hlast
    rw [hstores.2] at h255 hend
    have hk : 1 ≤ k := by
      by_contra hk
      obtain rfl : k = 0 := by omega
      have hp : cfg.schedulePayloadSize = 0 := by
        unfold flashOffset at hnonneg
        omega
      simp only [flashOffset, bytesToWrite, hp] at hend
      split_ifs at hend <;> omega
    have hlen := length_chunk cfg.schedulePayloadSize file k
    have hstep : (k - 1) * cfg.schedulePayloadSize + cfg.schedulePayloadSize =
        k * cfg.schedulePayloadSize := by
      rw [← Nat.succ_mul, Nat.succ_eq_add_one, Nat.sub_add_cancel hk]
    rw [flashOffset_of_pos cfg k hk] at hend
    have hoff : (k - 1) * cfg.schedulePayloadSize ≤ file.length := by omega
    rw [bytesToWrite_eq cfg k hk hoff] at h255 hend
    exact ⟨hk, hoff, by omega, h255⟩
  · rintro ⟨hk, hoff, hend, h255⟩
    rw [fill_chunk cfg hstores hk hoff h255, if_pos hend]

end Fill

/-! ## Retransmissions -/

section Retransmit

variable (node : Node) (env : Env) (s : NodeState) (src : NodeId)

/-- A node about to retransmit, with the packet in its buffer. -/
structure Serves (s t : NodeState) : Prop where
  frame : t = { s with
    currentState := .scheduleRetransmitting
    ownPacketNumber := t.ownPacketNumber
    mrp := t.mrp
    payloadLen := t.payloadLen }
  command : t.mrp.command = .scheduleRetransmit
  number : t.mrp.number = s.mrp.number

/-- Whether the packet for a request can be read from flash. -/
def Readable : Prop :=
  (fillSchedulePacketFromFlash node.cfg s s.mrp.number env.read).1 ≠ .failed

instance : Decidable (Readable node env s) := inferInstanceAs (Decidable (_ ≠ _))

/-- A request is dropped, fails for the flash, or is answered. -/
theorem retransmittRequest_cases :
    (tschQueueIsPacketInNbrQueue s src s.mrp.number = true ∧
      commandInputScheduleRetransmittRequest node env s src = s) ∨
    (tschQueueIsPacketInNbrQueue s src s.mrp.number = false ∧ ∃ t, Serves s t ∧
      (¬ Readable node env s ∧ commandInputScheduleRetransmittRequest node env s src = t ∨
        Readable node env s ∧
          commandInputScheduleRetransmittRequest node env s src =
            if (output env t env.etxLink (some src)).link = none then
              changeLink (output env t env.etxLink (some src)) (some src)
            else output env t env.etxLink (some src))) := by
  unfold commandInputScheduleRetransmittRequest Readable
  -- A packet that is queued already is not queued twice.
  split
  · rename_i hqueued
    exact .inl ⟨hqueued, rfl⟩
  -- Else it is read from flash, and sent if the read succeeded.
  · rename_i hqueued
    refine .inr ⟨by simpa using hqueued, (fillSchedulePacketFromFlash node.cfg (preparePacket node
      (handleStateChange s .scheduleRetransmitting) .scheduleRetransmit s.mrp.number)
      s.mrp.number env.read).2, ⟨?_, ?_, ?_⟩, ?_⟩
    · rw [fill_frame]
      rfl
    · rw [fill_frame]
      rfl
    · rw [fill_frame]
      rfl
    · have hsame : (fillSchedulePacketFromFlash node.cfg (preparePacket node
          (handleStateChange s .scheduleRetransmitting) .scheduleRetransmit s.mrp.number)
          s.mrp.number env.read).1 =
            (fillSchedulePacketFromFlash node.cfg s s.mrp.number env.read).1 :=
        fill_fst_congr _ _ _ rfl
      rw [← hsame]
      dsimp only
      split
      · rename_i hfailed
        exact .inl ⟨fun h => h hfailed, rfl⟩
      · rename_i hread
        exact .inr ⟨hread, rfl⟩

end Retransmit

end MasterScheduler.Mote

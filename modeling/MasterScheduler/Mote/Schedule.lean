import MasterScheduler.Lib.BitArray
import MasterScheduler.Lib.Store
import MasterScheduler.Mote.Config

/-!
# MasterScheduler.Mote.Schedule — the schedule in the flash of a node

`master-schedule.c`: the bit arrays for received packets, the file in flash
that is written at offsets and read back in pieces, and the decoder that finds
a node's own record in it.

An open, a seek or a transfer that goes wrong is an outcome of the call, chosen
by the environment (`FlashOutcome`); a transfer may then have moved fewer bytes
than asked for.
-/

namespace MasterScheduler.Mote

open Lib

/-! ## Bit arrays

`1 << (k%32)` has the width of `int`, which is that of a word here: 32 bits. What becomes of the
arrays for other widths is in `Mote.MissingPacket`. -/

/-- A `uint32_t` bit vector. -/
abbrev BitVector := List (BitVec 32)

/-- A `uint8_t` bit vector, as it travels in beacons. -/
abbrev ByteVector := List (BitVec 8)

def setBit (bitVector : BitVector) (k : ℕ) : BitVector := insertBit bitVector k

def isBitSet (bitVector : BitVector) (k : ℕ) : Bool := testBit bitVector k

def setBit1Byte (bitVector : ByteVector) (k : ℕ) : ByteVector := insertBit bitVector k

def isBitSet1Byte (bitVector : ByteVector) (k : ℕ) : Bool := testBit bitVector k

/-- The words `resetBitVector(bit_vector, n)` clears; `n` is a byte. -/
def resetWords (n : ℕ) : ℕ := n % 256

/-- `getMissingPacket`; `none` is the return value `-1`. -/
def getMissingPacket (bitVector : BitVector) (lastPacket : ℕ) : Option ℕ :=
  firstMissing bitVector lastPacket

/-! ## Flash -/

/-- How a call into the flash file system ends. `failed n` stands for a failed
open or seek, or a transfer cut off after `n` bytes. -/
inductive FlashOutcome where
  | completed
  | failed (n : ℕ)
deriving DecidableEq, Repr

/-- What one node has stored, and what it believes to have stored. -/
structure Flash where
  bytes : List UInt8
  bytesInFlash : ℤ

/-- The flash of a node that holds a file exactly. -/
def storedFile (file : List UInt8) : Flash := ⟨file, file.length⟩

/-- `write_to_flash_offset`; the counter moves only if everything was written. -/
def writeToFlashOffset (flash : Flash) (data : List UInt8) (offset : ℤ) (outcome : FlashOutcome) :
    Bool × Flash :=
  if offset < 0 then (false, flash)
  else
    match outcome with
    | .failed n =>
        -- What was written before the failure stays, and is not counted.
        let written := data.take (min n (data.length - 1))
        (false, { flash with bytes := writeAt 0 flash.bytes offset.toNat written })
    | .completed =>
        (true, { bytes := writeAt 0 flash.bytes offset.toNat data
                 bytesInFlash := flash.bytesInFlash + data.length })

/-- `read_flash`: the bytes put into the buffer, and the return value, where
`none` is the error code `255`. -/
def readFlash (flash : Flash) (offset : ℤ) (len : ℕ) (outcome : FlashOutcome) :
    List UInt8 × Option ℕ :=
  if offset < 0 then ([], none)
  else
    let data := readAt flash.bytes offset.toNat len
    match outcome with
    | .failed n => (data.take (min n (len - 1)), none)
    | .completed =>
        if data.length ≠ len then (data, none)
        -- 255 bytes cannot be told from the error code.
        else (data, if len = 255 then none else some len)

/-! ## Decoding -/

/-- `scheduled_link_t`. -/
structure ScheduledLink where
  slotframeHandle : UInt8
  sendReceive : UInt8
  timeslot : UInt8
  channelOffset : UInt8
deriving DecidableEq, Repr

/-- `master_tsch_schedule_t`; the array `links` is kept as memory. -/
structure MasterTschSchedule where
  ownTransmissionFlow : UInt8
  ownReceiver : UInt8
  flowForwards : List UInt8
  maxTransmission : List UInt8
  linksLen : UInt8
  linksMemory : List UInt8

/-- `links[idx]`. -/
def MasterTschSchedule.link (s : MasterTschSchedule) (idx : ℕ) : ScheduledLink where
  slotframeHandle := s.linksMemory.getD (4 * idx) 0
  sendReceive := s.linksMemory.getD (4 * idx + 1) 0
  timeslot := s.linksMemory.getD (4 * idx + 2) 0
  channelOffset := s.linksMemory.getD (4 * idx + 3) 0

/-- `links[0]` up to `links[links_len - 1]`. -/
def MasterTschSchedule.links (s : MasterTschSchedule) : List ScheduledLink :=
  (List.range s.linksLen.toNat).map s.link

/-- The part of `master_tsch_schedule_universall_config_t` that is in the file. -/
structure UniversalConfig where
  scheduleLength : UInt8
  slotFrames : UInt8
  senderOfFlow : List UInt8
  receiverOfFlow : List UInt8
  firstTxSlotInFlow : List UInt8
  lastTxSlotInFlow : List UInt8

/-- `cfs_read` into a buffer: the number of bytes read, the buffer, and the
unread rest of the file. -/
def cfsRead (rest : List UInt8) (buf : List UInt8) (len : ℕ) : ℕ × List UInt8 × List UInt8 :=
  let data := rest.take len
  (data.length, data ++ buf.drop data.length, rest.drop len)

/-- `cfs_read(fd, &x, 1)`. -/
def cfsReadByte (rest : List UInt8) (x : UInt8) : ℕ × UInt8 × List UInt8 :=
  match rest with
  | [] => (0, x, [])
  | b :: rest => (1, b, rest)

/-- The header; `none` in place of the rest if it is incomplete. -/
def readConfig (file : List UInt8) (config : UniversalConfig) :
    UniversalConfig × Option (List UInt8) :=
  let (n₁, scheduleLength, rest) := cfsReadByte file config.scheduleLength
  let (n₂, slotFrames, rest) := cfsReadByte rest config.slotFrames
  let (n₃, senders, rest) := cfsRead rest config.senderOfFlow masterNumFlows
  let (n₄, receivers, rest) := cfsRead rest config.receiverOfFlow masterNumFlows
  let (n₅, first, rest) := cfsRead rest config.firstTxSlotInFlow masterNumFlows
  let (n₆, last, rest) := cfsRead rest config.lastTxSlotInFlow masterNumFlows
  (⟨scheduleLength, slotFrames, senders, receivers, first, last⟩,
    if n₁ + n₂ + n₃ + n₄ + n₅ + n₆ ≠ 4 * masterNumFlows + 2 then none else some rest)

/-- What one round of the loop over the records leaves behind. -/
structure RecordRead where
  idx : UInt8
  schedule : MasterTschSchedule
  readBytes : ℕ
  expectedBytes : ℕ
  rest : List UInt8

/-- `own_transmission_flow`, and `own_receiver` only if the node has a flow:
bytes read, bytes expected, the two values and the rest. -/
def readOwnFlow (rest : List UInt8) (s : MasterTschSchedule) :
    ℕ × ℕ × UInt8 × UInt8 × List UInt8 :=
  let (n, ownFlow, rest) := cfsReadByte rest s.ownTransmissionFlow
  -- Without a flow of its own the node has no receiver in its record.
  if ownFlow = 0 then (n, 1, ownFlow, 0, rest)
  else
    let (n', receiver, rest) := cfsReadByte rest s.ownReceiver
    (n + n', 2, ownFlow, receiver, rest)

/-- One record. More links than the array has room for overrun it: `none`. -/
def readRecord (rest : List UInt8) (idx : UInt8) (s : MasterTschSchedule) : Option RecordRead :=
  let (n₁, idx, rest) := cfsReadByte rest idx
  let (n₂, e₂, ownFlow, receiver, rest) := readOwnFlow rest s
  let (n₃, linksLen, rest) := cfsReadByte rest s.linksLen
  -- `cfs_read` writes as many links as the file says.
  if s.linksMemory.length < (rest.take (linksLen.toNat * 4)).length then none
  else
    let (n₄, links, rest) := cfsRead rest s.linksMemory (linksLen.toNat * 4)
    let (n₅, forwards, rest) := cfsRead rest s.flowForwards 8
    let (n₆, maxTx, rest) := cfsRead rest s.maxTransmission 8
    some { idx := idx
           schedule := ⟨ownFlow, receiver, forwards, maxTx, linksLen, links⟩
           readBytes := n₁ + n₂ + n₃ + n₄ + n₅ + n₆
           expectedBytes := 1 + e₂ + 1 + linksLen.toNat * 4 + 8 + 8
           rest := rest }

/-- The loop over the records. A complete record is at least one byte long, so
the length of the file bounds the rounds. -/
def readRecords (bytesInFlash id : ℤ) : ℕ → List UInt8 → UInt8 → MasterTschSchedule → ℕ →
    Option (Bool × MasterTschSchedule)
  | 0, _, _, _, _ => none
  | fuel + 1, rest, idx, s, total =>
      match readRecord rest idx s with
      | none => none
      | some r =>
          if r.readBytes ≠ r.expectedBytes then some (false, r.schedule)
          -- The last record ends the loop too, and counts as found whatever its number.
          else if (r.idx.toNat : ℤ) ≠ id ∧ (total + r.readBytes : ℤ) < bytesInFlash then
            readRecords bytesInFlash id fuel r.rest r.idx r.schedule (total + r.readBytes)
          else some (true, r.schedule)

/-- `read_from_flash_by_id` on a file that can be opened: the return value and
the two structures it fills. -/
def readFromFlashById (flash : Flash) (config : UniversalConfig) (s : MasterTschSchedule)
    (id : ℤ) : Option (Bool × UniversalConfig × MasterTschSchedule) :=
  match readConfig flash.bytes config with
  | (config, none) => some (false, config, s)
  | (config, some rest) =>
      (readRecords flash.bytesInFlash id (flash.bytes.length + 1) rest 0 s 0).map
        fun (found, s) => (found, config, s)

end MasterScheduler.Mote

import MasterScheduler.Lib.Clock
import MasterScheduler.Lib.Traced
import MasterScheduler.Mote.Iphc
import Mathlib.Data.List.FinRange

/-!
# MasterScheduler.Mote.SicslowpanInput — received frames with fragments

`input` of `sicslowpan.c` as a whole: the fragmentation headers, the reassembly contexts with
their stored fragments, and the headers of `Iphc`. The bytes that are read through
`packetbuf_ptr` and `hc06_ptr` and the bytes that are written into the buffers of a datagram
are put on record.

- `touchHeaders`: what the functions of `Iphc` touch, in the order of the source.
- `addFirst`, `storeFragment`, `addNext`, `addFragment`, `copyFrags2uip`: the reassembly
  contexts.
- `input`: a frame.

The buffers have their default sizes. There are `c` contexts and `b` buffers for fragments, with
`c` at most 127. The field `receiver` of a context is never used and left out.
-/

namespace MasterScheduler.Mote.Sicslowpan

open Lib Traced Frame802154

/-! ## Frames and buffers -/

/-- `SICSLOWPAN_FRAGMENT_SIZE`. -/
def fragmentSize : ℕ := macMaxPayload - 15

/-- `SICSLOWPAN_FIRST_FRAGMENT_SIZE`. -/
def firstFragmentSize : ℕ := fragmentSize + 38

/-- `sizeof(uip_buf)`. -/
def uipBufferSize : ℕ := 1280

/-- A received frame in `packetbuf`, with the addresses of its attributes. -/
structure Frame where
  pb : Memory
  datalen : ℕ
  datalen_pos : 0 < datalen
  datalen_le : datalen ≤ packetbufSize
  sender : Linkaddr
  receiver : Linkaddr

/-- A buffer for a datagram. -/
inductive Target
  | uipBuf
  | firstFrag

/-- The size of the buffer. -/
def Target.size : Target → ℕ
  | .uipBuf => uipBufferSize
  | .firstFrag => firstFragmentSize

/-- What is put on record. -/
inductive Access
  /-- Bytes read through `packetbuf_ptr` or `hc06_ptr`. -/
  | read (start size : ℕ)
  /-- Bytes written into a buffer. -/
  | write (t : Target) (start size : ℕ)
  /-- Bytes written into the data of a fragment buffer whose length field gets a value. -/
  | store (size len : ℕ)

/-- The access is inside its array, and a length field is right. -/
def Access.Ok (datalen : ℕ) : Access → Prop
  | .read start size => size = 0 ∨ start + size ≤ datalen
  | .write t start size => size = 0 ∨ start + size ≤ t.size
  | .store size len => size ≤ fragmentSize ∧ len = size

/-- `struct timer`. -/
structure Timer where
  start : ℕ
  interval : ℕ

/-- `struct sicslowpan_frag_info`. -/
structure FragInfo where
  sender : Linkaddr
  tag : ℕ
  len : ℕ
  reassembledLen : ℕ
  reassTimer : Timer
  firstFragLen : ℕ
  firstFrag : Memory

/-- `struct sicslowpan_frag_buf`. -/
structure FragBuf where
  index : ℕ
  offset : UInt8
  len : ℕ
  data : Memory

/-- `frag_info`, `frag_buf` and `uip_buf`. -/
structure State (c b : ℕ) where
  fragInfo : Fin c → FragInfo
  fragBuf : Fin b → FragBuf
  uipBuf : Memory

/-- The address contexts, the clock with its range, and the time a datagram may take. -/
structure Env where
  contexts : AddrContexts
  clockTime : ℕ
  clockRange : ℕ
  reassTime : ℕ
  one_lt_clockRange : 1 < clockRange
  reassTime_pos : 0 < reassTime

/-- `timer_expired`. -/
def timerExpired (env : Env) (t : Timer) : Prop :=
  t.interval < since env.clockRange (env.clockTime + 1) t.start

instance (env : Env) (t : Timer) : Decidable (timerExpired env t) := Nat.decLt _ _

/-- `GET16`. -/
def get16 (pb : Memory) (i : ℕ) : ℕ := word (pb (i + 1)) (pb i)

/-! ## Headers -/

/-- Bytes between two values of `hc06_ptr`. -/
def touchInline (p p' : ℕ) : Traced Access Unit := touch (.read p (p' - p))

/-- What an extension header makes `uncompress_hdr_iphc` touch. -/
def touchExtHdr (pb : Memory) (t : Target) (w : HdrWalk) : Traced Access Unit := do
  let enc := pb w.hc06Ptr
  let p := if enc &&& 0x01 = 0 then w.hc06Ptr + 2 else w.hc06Ptr + 1
  touchInline w.hc06Ptr p
  touch (.read p 1)
  let len := (pb p).toNat
  match protoOfEid ((enc &&& 0x0e) >>> 1) with
  -- An unknown header type ends the decompression before anything is written.
  | none => pure ()
  | some _ => do
    touch (.write t w.lastNextheader 1)
    touch (.write t w.ipPayload 2)
    touch (.read (p + 1) len)
    touch (.write t (w.ipPayload + 2) len)

/-- The loop over the extension headers. -/
def touchExtHdrs (pb : Memory) (t : Target) : ℕ → HdrWalk → Traced Access Unit
  | 0, _ => pure ()
  | fuel + 1, w =>
    if w.nhc then do
      touch (.read w.hc06Ptr 1)
      if pb w.hc06Ptr &&& nhcMask = nhcExtHdr then do
        touchExtHdr pb t w
        match uncompressExtHdr pb w with
        | .ok w => touchExtHdrs pb t fuel w
        | .error _ => pure ()
      else pure ()
    else pure ()

/-- The UDP header. -/
def touchUdp (pb : Memory) (t : Target) (w : HdrWalk) : Traced Access Unit :=
  if w.nhc then do
    touch (.read w.hc06Ptr 1)
    if pb w.hc06Ptr &&& nhcUdpMask = nhcUdpId then do
      touch (.write t w.lastNextheader 1)
      let p := w.hc06Ptr + (uncompressPorts pb w.hc06Ptr).2
      touchInline w.hc06Ptr p
      touch (.write t w.ipPayload 4)
      -- The checksum is in the frame, or elided and left as it was.
      if pb w.hc06Ptr &&& nhcUdpChecksumC = 0 then do
        touch (.read p 2)
        touch (.write t (w.ipPayload + 6) 2)
        touch (.write t (w.ipPayload + 4) 2)
      else touch (.write t (w.ipPayload + 4) 2)
    else pure ()
  else pure ()

/-- The headers behind the IP header. -/
def touchNext (pb : Memory) (t : Target) (w : HdrWalk) : Traced Access Unit := do
  touchExtHdrs pb t packetbufSize w
  match uncompressExtHdrs pb packetbufSize w with
  | .error _ => pure ()
  | .ok w => do
    touchUdp pb t w
    touch (.write t 4 2)

/-- The bytes behind the encoding: traffic class, flow label, next header and hop limit. -/
def uncompressFields (pb : Memory) (hdr : ℕ) (buf : Memory) : Memory × ℕ :=
  let p := hdr + (if pb (hdr + 1) &&& iphcCid ≠ 0 then 3 else 2)
  let tf := uncompressTf pb (pb hdr) p
  let nh := uncompressNh pb (pb hdr) (buf.write 0 tf.1) tf.2
  let ttl := uncompressTtl pb (pb hdr) nh.2
  (nh.1.write 7 [ttl.1], ttl.2)

/-- What these fields touch. -/
def touchFields (pb : Memory) (t : Target) (hdr : ℕ) (buf : Memory) : Traced Access Unit := do
  touch (.read hdr 2)
  let p := hdr + (if pb (hdr + 1) &&& iphcCid ≠ 0 then 3 else 2)
  let tf := uncompressTf pb (pb hdr) p
  touchInline p tf.2
  touch (.write t 0 4)
  let nh := uncompressNh pb (pb hdr) (buf.write 0 tf.1) tf.2
  touchInline tf.2 nh.2
  touch (.write t 6 (nh.2 - tf.2))
  touchInline nh.2 (uncompressTtl pb (pb hdr) nh.2).2
  touch (.write t 7 1)

/-- The walk over the headers behind the addresses, at its start. -/
def firstHdr (pb : Memory) (hdr : ℕ) (buf : Memory) (dest : List UInt8 × ℕ) : HdrWalk where
  buf := buf.write 24 dest.1
  hc06Ptr := dest.2
  lastNextheader := 6
  ipPayload := iphLen
  uncompHdrLen := iphLen
  extHdrLen := 0
  nhc := pb hdr &&& iphcNhC ≠ 0

/-- The destination address and what comes after it. -/
def touchDest (env : Env) (f : Frame) (t : Target) (hdr : ℕ) (buf : Memory) (p : ℕ) :
    Traced Access Unit := do
  let iphc1 := f.pb (hdr + 1)
  touch (.read (hdr + 2)
    (if iphc1 &&& iphcM = 0 ∧ iphc1 &&& iphcDac ≠ 0 ∧ iphc1 &&& iphcCid ≠ 0 then 1 else 0))
  match uncompressDest env.contexts f.pb hdr iphc1 f.receiver buf p with
  | none => pure ()
  | some dest => do
    touchInline p dest.2
    touch (.write t 24 (if iphc1 &&& iphcM ≠ 0 ∧ iphc1 &&& iphcDac ≠ 0 then 0 else 16))
    touchNext f.pb t (firstHdr f.pb hdr buf dest)

/-- `uncompress_hdr_iphc`. -/
def touchHdrIphc (env : Env) (f : Frame) (t : Target) (hdr : ℕ) (buf : Memory) :
    Traced Access Unit := do
  touchFields f.pb t hdr buf
  let (buf, p) := uncompressFields f.pb hdr buf
  let iphc1 := f.pb (hdr + 1)
  touch (.read (hdr + 2) (if iphc1 &&& iphcSac ≠ 0 ∧ iphc1 &&& iphcCid ≠ 0 then 1 else 0))
  match uncompressSrc env.contexts f.pb hdr iphc1 f.sender p with
  | none => pure ()
  | some src => do
    touchInline p src.2
    touch (.write t 8 16)
    touchDest env f t hdr (buf.write 8 src.1) src.2

/-- From the paging dispatch to the end of the headers. -/
def touchHeaders (env : Env) (f : Frame) (t : Target) (hdr : ℕ) (buf : Memory) :
    Traced Access Unit := do
  touch (.read hdr 1)
  let paged : Bool := f.pb hdr &&& 0xf0 == 0xf0
  -- Only pages 0 and 1 are known.
  if paged ∧ 1 < (f.pb hdr &&& 0x0f).toNat then pure ()
  else do
    let hdr := if paged then hdr + 1 else hdr
    touch (.read hdr 1)
    if f.pb hdr &&& 0xe0 = dispatchIphc then touchHdrIphc env f t hdr buf
    -- An uncompressed header is copied as a whole.
    else if f.pb hdr = 0x41 then do
      touch (.read (hdr + 1) iphLen)
      touch (.write t 0 iphLen)
    else pure ()

/-- `input` from the paging dispatch to the end of the headers, with what it touches. -/
def readHeaders (env : Env) (f : Frame) (t : Target) (hdr : ℕ) (buf : Memory) (fragSize : ℕ) :
    Traced Access (Option Uncompressed) := do
  touchHeaders env f t hdr buf
  pure (inputHeaders env.contexts f.pb f.datalen f.sender f.receiver hdr buf fragSize)

/-- The payload behind the headers, where the frame and `uip_buf` are long enough: the buffer and
the length of the packet. -/
def copyPayload (f : Frame) (t : Target) (u : Uncompressed) : Traced Access (Memory × Option ℕ) :=
  if f.datalen < u.packetbufHdrLen then pure (u.buf, none)
  else
    let payloadLen := f.datalen - u.packetbufHdrLen
    -- The only check of a size, against `uip_buf` also for a first fragment.
    if uipBufferSize < u.uncompHdrLen + payloadLen then pure (u.buf, none)
    else do
      touch (.read u.packetbufHdrLen payloadLen)
      touch (.write t u.uncompHdrLen payloadLen)
      pure (u.buf.write u.uncompHdrLen (f.pb.read u.packetbufHdrLen payloadLen),
        some (u.uncompHdrLen + payloadLen))

/-! ## Reassembly contexts -/

section Contexts

variable {c b : ℕ}

namespace State

/-- The state with another context. -/
def setInfo (s : State c b) (i : Fin c) (info : FragInfo) : State c b :=
  { s with fragInfo := Function.update s.fragInfo i info }

/-- A buffer holds a fragment of a context. -/
def Holds (s : State c b) (i : Fin c) (j : Fin b) : Prop :=
  0 < (s.fragBuf j).len ∧ (s.fragBuf j).index = i

instance (s : State c b) (i : Fin c) (j : Fin b) : Decidable (s.Holds i j) := instDecidableAnd

/-- `clear_fragments`. -/
def clearFragments (s : State c b) (i : Fin c) : State c b :=
  { s with
    fragInfo := Function.update s.fragInfo i { s.fragInfo i with len := 0 }
    fragBuf := fun j => if s.Holds i j then { s.fragBuf j with len := 0 } else s.fragBuf j }

/-- What `clear_fragments` returns. -/
def clearCount (s : State c b) (i : Fin c) : ℕ :=
  (List.finRange b).countP fun j => decide (s.Holds i j)

/-- A context is in use and its time is over. -/
def Expired (s : State c b) (env : Env) (i : Fin c) : Prop :=
  0 < (s.fragInfo i).len ∧ timerExpired env (s.fragInfo i).reassTimer

instance (s : State c b) (env : Env) (i : Fin c) : Decidable (s.Expired env i) := instDecidableAnd

/-- `timeout_fragments`. -/
def timeoutFragments (s : State c b) (env : Env) (notContext : Fin c) : State c b × ℕ :=
  (List.finRange c).foldl
    (fun r i =>
      -- The context that the fragment is for is spared.
      if r.1.Expired env i ∧ i ≠ notContext then (r.1.clearFragments i, r.2 + r.1.clearCount i)
      else r)
    (s, 0)

/-- A round of the loop over the contexts for a first fragment. -/
def findFree (env : Env) (r : State c b × Option (Fin c)) (i : Fin c) : State c b × Option (Fin c) :=
  let s := if r.1.Expired env i then r.1.clearFragments i else r.1
  -- The first free context is taken; the loop goes on to clear the expired ones behind it.
  (s, if r.2 = none ∧ (s.fragInfo i).len = 0 then some i else r.2)

/-- `add_fragment` with offset 0: a context is taken. What it counted before stays. -/
def addFirst (s : State c b) (env : Env) (f : Frame) (tag fragSize : ℕ) :
    State c b × Option (Fin c) :=
  match (List.finRange c).foldl (findFree env) (s, none) with
  | (s, none) => (s, none)
  | (s, some i) =>
    (s.setInfo i
      -- `reassembled_len` and `first_frag_len` are not reset here.
      { s.fragInfo i with
        len := fragSize
        tag
        sender := f.sender
        reassTimer := ⟨env.clockTime % env.clockRange, env.reassTime⟩ },
      some i)

/-- `store_fragment`: the length of the stored fragment, if there is a free buffer. The size of
the copy has 32 bits, the field 8. -/
def storeFragment (s : State c b) (f : Frame) (i : Fin c) (offset : UInt8)
    (hdr : ℕ) : Traced Access (State c b × Option ℕ) :=
  match (List.finRange b).find? fun j => (s.fragBuf j).len = 0 with
  | none => pure (s, none)
  | some j => do
    let size := (f.datalen + 2 ^ 32 - hdr) % 2 ^ 32
    let len := size % 256
    -- Nothing compares `size` with the buffer.
    touch (.read hdr size)
    touch (.store size len)
    pure ({ s with
      fragBuf := Function.update s.fragBuf j
        ⟨i, offset, len, (s.fragBuf j).data.write 0 (f.pb.read hdr size)⟩ }, some len)

/-- The two attempts to store a fragment. -/
def storeOrTimeout (s : State c b) (env : Env) (f : Frame) (i : Fin c)
    (offset : UInt8) (hdr : ℕ) : Traced Access (State c b × Option ℕ) := do
  let r ← s.storeFragment f i offset hdr
  match r with
  | (s, some len) => pure (s, some len)
  | (s, none) =>
    let t := s.timeoutFragments env i
    -- The second attempt is made only if a time-out freed a buffer.
    if 0 < t.2 then t.1.storeFragment f i offset hdr else pure (t.1, none)

/-- The context of a later fragment. -/
def findContext (s : State c b) (f : Frame) (tag : ℕ) : Option (Fin c) :=
  (List.finRange c).find? fun i =>
    (s.fragInfo i).tag = tag ∧ 0 < (s.fragInfo i).len ∧ (s.fragInfo i).sender = f.sender

/-- `add_fragment` with another offset: the fragment is stored for its context. -/
def addNext (s : State c b) (env : Env) (f : Frame) (tag : ℕ) (offset : UInt8) (hdr : ℕ) :
    Traced Access (State c b × Option (Fin c)) :=
  match s.findContext f tag with
  | none => pure (s, none)
  | some i => do
    let (s, len) ← s.storeOrTimeout env f i offset hdr
    let len := len.getD 0
    -- Nothing stored, or an empty fragment: the frame is dropped.
    if 0 < len then
      pure (s.setInfo i
        { s.fragInfo i with reassembledLen := ((s.fragInfo i).reassembledLen + len) % 2 ^ 16 },
        some i)
    else pure (s, none)

/-- `add_fragment`. It looks at the offset, which may be 0 in a later fragment too. -/
def addFragment (s : State c b) (env : Env) (f : Frame) (tag fragSize : ℕ) (offset : UInt8)
    (hdr : ℕ) : Traced Access (State c b × Option (Fin c)) :=
  if offset = 0 then pure (s.addFirst env f tag fragSize) else s.addNext env f tag offset hdr

theorem addFragment_zero {s : State c b} {env : Env} {f : Frame} {tag fragSize hdr : ℕ} :
    s.addFragment env f tag fragSize 0 hdr = pure (s.addFirst env f tag fragSize) := if_pos rfl

theorem addFragment_ne {s : State c b} {env : Env} {f : Frame} {tag fragSize hdr : ℕ}
    {offset : UInt8} (h : offset ≠ 0) :
    s.addFragment env f tag fragSize offset hdr = s.addNext env f tag offset hdr := if_neg h

/-- The loop of `copy_frags2uip`. -/
def copyBufs (i : Fin c) : List (Fin b) → State c b → Traced Access (State c b)
  | [], s => pure s
  | j :: js, s =>
    if s.Holds i j then do
      let buf := s.fragBuf j
      let start := 8 * buf.offset.toNat
      touch (.write .uipBuf start buf.len)
      copyBufs i js { s with uipBuf := s.uipBuf.write start (buf.data.read 0 buf.len) }
    else copyBufs i js s

/-- `copy_frags2uip`. -/
def copyFrags2uip (s : State c b) (i : Fin c) : Traced Access (State c b) := do
  let info := s.fragInfo i
  touch (.write .uipBuf 0 info.firstFragLen)
  -- The later fragments are copied over the first one, in the order of the buffers.
  let s ← copyBufs i (List.finRange b)
    { s with uipBuf := s.uipBuf.write 0 (info.firstFrag.read 0 info.firstFragLen) }
  pure (s.clearFragments i)

end State

/-! ## Input -/

/-- A frame that is a first fragment. -/
def inputFirst (env : Env) (f : Frame) (s : State c b) : Traced Access (State c b × Option ℕ) := do
  touch (.read 0 2)
  let fragSize := get16 f.pb 0 % 2048
  touch (.read 2 2)
  let tag := get16 f.pb 2
  let r ← s.addFragment env f tag fragSize 0 4
  match r with
  | (s, none) => pure (s, none)
  | (s, some i) => do
    let info := s.fragInfo i
    let u ← readHeaders env f .firstFrag 4 info.firstFrag fragSize
    match u with
    | none => pure (s, none)
    | some u => do
      let (firstFrag, len) ← copyPayload f .firstFrag u
      let info := { info with firstFrag }
      match len with
      | none => pure (s.setInfo i info, none)
      | some len =>
        if 0 < fragSize then
          pure (s.setInfo i { info with reassembledLen := len, firstFragLen := len }, none)
        else pure (s.setInfo i info, none)

/-- A frame that is a later fragment. -/
def inputNext (env : Env) (f : Frame) (s : State c b) : Traced Access (State c b × Option ℕ) := do
  touch (.read 4 1)
  let offset := f.pb 4
  touch (.read 2 2)
  let tag := get16 f.pb 2
  touch (.read 0 2)
  let fragSize := get16 f.pb 0 % 2048
  let (s, found) ← s.addFragment env f tag fragSize offset 5
  match found with
  | none => pure (s, none)
  | some i =>
    if f.datalen < 5 then pure (s, none)
    else if uipBufferSize < 8 * offset.toNat + (f.datalen - 5) then pure (s, none)
    else if fragSize ≤ (s.fragInfo i).reassembledLen then
      if 0 < fragSize then do
        let s ← (s.setInfo i { s.fragInfo i with reassembledLen := fragSize }).copyFrags2uip i
        pure (s, some fragSize)
      else pure (s, some fragSize)
    else pure (s, none)

/-- A frame that is no fragment. -/
def inputWhole (env : Env) (f : Frame) (s : State c b) : Traced Access (State c b × Option ℕ) := do
  let u ← readHeaders env f .uipBuf 0 s.uipBuf 0
  match u with
  | none => pure (s, none)
  | some u => do
    let (uipBuf, len) ← copyPayload f .uipBuf u
    pure ({ s with uipBuf }, len)

/-- The frame is a first fragment: `SICSLOWPAN_DISPATCH_FRAG1`. -/
def Frame.IsFirst (f : Frame) : Prop := f.pb 0 &&& 0xf8 = 0xc0

/-- The frame is a later fragment: `SICSLOWPAN_DISPATCH_FRAGN`. -/
def Frame.IsNext (f : Frame) : Prop := f.pb 0 &&& 0xf8 = 0xe0

instance (f : Frame) : Decidable f.IsFirst := inferInstanceAs (Decidable (_ = _))

instance (f : Frame) : Decidable f.IsNext := inferInstanceAs (Decidable (_ = _))

/-- `input`: the state afterwards, and `uip_len` where `tcpip_input` is called. -/
def input (env : Env) (f : Frame) (s : State c b) : Traced Access (State c b × Option ℕ) := do
  touch (.read 0 2)
  if f.IsFirst then inputFirst env f s
  else if f.IsNext then inputNext env f s
  else inputWhole env f s

end Contexts

end MasterScheduler.Mote.Sicslowpan

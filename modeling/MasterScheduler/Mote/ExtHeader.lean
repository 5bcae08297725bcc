import MasterScheduler.Lib.Traced
import MasterScheduler.Lib.Words

/-!
# MasterScheduler.Mote.ExtHeader — IPv6 extension headers

Four functions walk over the extension headers of the packet in `uip_buf`. They follow
the lengths that the headers give, and keep the offset in eight bits.

1. **Model**: the functions, with what they touch of the packet.
2. **Headers in the packet**: the packets on which the walks stay inside and end.
3. **Walks**: each loop, in both directions.
4. **Result**: the four functions.

Positions count from the IPv6 header. An option that is not known may make
`ext_hdr_options_process` put an error message in front of the packet. That removes the headers
of RPL first, makes the packet longer and moves it.
-/

namespace MasterScheduler.Mote.ExtHeader

open Lib Traced

/-! ## Model -/

/-- `uip_buf` from the IPv6 header on, and `uip_len`. -/
structure Packet where
  buf : Memory
  len : ℕ
  len_lt : len < 2 ^ 16

/-- An access to some bytes, with the length of the packet at that time. -/
structure Access where
  start : ℕ
  size : ℕ
  bound : ℕ

/-- The access is inside the packet. -/
def Access.Inside (a : Access) : Prop := a.size = 0 ∨ a.start + a.size ≤ a.bound

namespace Packet

/-- Touch some bytes. -/
def touch (p : Packet) (i n : ℕ) : Traced Access Unit := Traced.touch ⟨i, n, p.len⟩

/-- Read a byte. -/
def get (p : Packet) (i : ℕ) : Traced Access UInt8 := do
  p.touch i 1
  pure (p.buf i)

/-- Read some bytes. -/
def read (p : Packet) (i n : ℕ) : Traced Access (List UInt8) := do
  p.touch i n
  pure (p.buf.read i n)

/-- Write some bytes. -/
def write (p : Packet) (i : ℕ) (bs : List UInt8) : Traced Access Packet := do
  p.touch i bs.length
  pure { p with buf := p.buf.write i bs }

end Packet

/-- `UIP_PROTO_HBHO`, `UIP_PROTO_DESTO` and `UIP_PROTO_ROUTING`. -/
def protoHbho : UInt8 := 0

@[inherit_doc protoHbho]
def protoDesto : UInt8 := 60

@[inherit_doc protoHbho]
def protoRouting : UInt8 := 43

/-- `UIP_EXT_HDR_OPT_PAD1`, `UIP_EXT_HDR_OPT_PADN` and `UIP_EXT_HDR_OPT_RPL`. -/
def optPad1 : UInt8 := 0

@[inherit_doc optPad1]
def optPadN : UInt8 := 1

@[inherit_doc optPad1]
def optRpl : UInt8 := 0x63

/-- `UIP_PROTO_ICMP6`. -/
def protoIcmp6 : UInt8 := 58

/-- `ICMP6_PARAM_PROB` and `ICMP6_PARAMPROB_OPTION`. -/
def paramProb : UInt8 := 4

@[inherit_doc paramProb]
def paramProbOption : UInt8 := 2

/-- `RPL_RH_TYPE_SRH`. -/
def rhTypeSrh : UInt8 := 3

/-- What the functions ask the rest of the system: `rpl_is_addr_in_our_dag`, whether an address is
a child of the root in the graph, the instance with its rank, `rpl_process_hbh`,
`UIP_CONF_IPV6_RPL`, `uip_ds6_select_src` and the hop limit. -/
structure Env where
  inOurDag : List UInt8 → Bool
  childOfRoot : List UInt8 → Bool
  used : Bool
  instanceId : UInt8
  rank : ℕ
  processHbh : ℕ → Bool → Bool → Bool
  ipv6Rpl : Bool
  selectSrc : List UInt8 → List UInt8
  curHopLimit : UInt8
  length_selectSrc : ∀ dest, (selectSrc dest).length = 16

/-- Two bytes, the high one first. -/
def bigEndian (bs : List UInt8) : ℕ := bs.foldl (fun n b => 256 * n + b.toNat) 0

/-- `(UIP_EXT_BUF->len << 3) + 8`. -/
def hdrLen (len : UInt8) : ℕ := 8 * len.toNat + 8

/-- The loop that looks for the routing header, with `uip_ext_len` and the position of the next
header field. It ends at a routing header, or with a null pointer. -/
def findRouting (p : Packet) : ℕ → ℕ → ℕ → Traced Access (ℕ × Option ℕ)
  | 0, _, _ => diverge
  | n + 1, ext, hdr => do
    let v ← p.get hdr
    if v = protoRouting then pure (ext, some hdr)
    else if v = protoHbho ∨ v = protoDesto then do
      let len ← p.get (40 + ext + 1)
      findRouting p n ((ext + hdrLen len) % 256) (40 + ext)
    else pure (ext, none)

/-- The header that was found is a source routing header. -/
def isSourceRouting (p : Packet) (ext : ℕ) : Option ℕ → Traced Access Bool
  | none => pure false
  | some hdr => do
    let v ← p.get hdr
    if v = protoRouting then do
      let type ← p.get (40 + ext + 2)
      pure (type == rhTypeSrh)
    else pure false

/-- `rpl_ext_header_srh_get_next_hop`: the link-local address of the next hop, if there is one,
and `uip_ext_len` afterwards. -/
def srhGetNextHop (env : Env) (p : Packet) (extLen n : ℕ) :
    Traced Access (Option (List UInt8) × ℕ) := do
  let (ext, hdr) ← findRouting p n 0 6
  let dest ← p.read 24 16
  if env.inOurDag dest = false then pure (none, ext)
  else do
    let dest ← p.read 24 16
    let found ← isSourceRouting p ext hdr
    if found = true ∨ env.childOfRoot dest = true then do
      let dest ← p.read 24 16
      pure (some ([0xfe, 0x80, 0, 0, 0, 0, 0, 0] ++ dest.drop 8), extLen)
    else pure (none, extLen)

/-- The number of addresses in a source routing header, from its length, its compression and its
padding, as 8 bits hold it. -/
def pathLen (len cmpr pad : UInt8) : ℕ :=
  let extLen : ℤ := (hdrLen len % 256 : ℕ)
  (((extLen - (pad.toNat / 16 : ℕ) - 4 - 4 - (16 - (cmpr.toNat % 16 : ℕ))).tdiv
    (16 - (cmpr.toNat / 16 : ℕ)) + 1) % 256).toNat

/-- The offset in the header of the address to be visited next. -/
def nextAddress (segmentsLeft len cmpr pad : UInt8) : ℕ :=
  8 + (pathLen len cmpr pad + 256 - segmentsLeft.toNat) % 256 * (16 - cmpr.toNat / 16)

/-- The bytes of that address that are left out. -/
def nextCmpr (segmentsLeft cmpr : UInt8) : ℕ :=
  if segmentsLeft = 1 then cmpr.toNat % 16 else cmpr.toNat / 16

/-- The rest of `rpl_ext_header_srh_update` at a source routing header. -/
def visitNext (p : Packet) (ext : ℕ) : Traced Access (Packet × Bool) := do
  let segmentsLeft ← p.get (40 + ext + 3)
  let len ← p.get (40 + ext + 1)
  let cmpr ← p.get (40 + ext + 4)
  let pad ← p.get (40 + ext + 5)
  if segmentsLeft = 0 then pure (p, true)
  else do
    let addrPtr := 40 + ext + nextAddress segmentsLeft len cmpr pad
    let cmpr := nextCmpr segmentsLeft cmpr
    -- the destination address and the address in the header change places
    let current ← p.read 24 16
    let next ← p.read addrPtr (16 - cmpr)
    let p ← p.write (24 + cmpr) next
    let p ← p.write addrPtr (current.drop cmpr)
    let left ← p.get (40 + ext + 3)
    let p ← p.write (40 + ext + 3) [left - 1]
    pure (p, true)

/-- `rpl_ext_header_srh_update`. -/
def srhUpdate (p : Packet) (n : ℕ) : Traced Access (Packet × Bool) := do
  let (ext, hdr) ← findRouting p n 0 6
  let found ← isSourceRouting p ext hdr
  if found = true then visitNext p ext else pure (p, false)

namespace Packet

/-- The buffer with the next header field in front of a header replaced by that of the header. -/
def unlinked (p : Packet) (ext hdr : ℕ) : Memory := Function.update p.buf hdr (p.buf (40 + ext))

/-- The length of the header that is removed, as 8 bits hold it. -/
def removedLen (p : Packet) (ext hdr : ℕ) : ℕ := hdrLen (p.unlinked ext hdr (40 + ext + 1)) % 256

/-- `uip_len` without the header. -/
def lenAfter (p : Packet) (ext hdr : ℕ) : ℕ := (p.len + 2 ^ 16 - p.removedLen ext hdr) % 2 ^ 16

/-- The packet without the header. -/
def removeHeader (p : Packet) (ext hdr : ℕ) : Packet where
  buf :=
    let buf := p.unlinked ext hdr
    let tempLen := buf 5
    let buf := Function.update buf 5 (tempLen - UInt8.ofNat (p.removedLen ext hdr))
    let buf := if tempLen < buf 5 then Function.update buf 4 (buf 4 - 1) else buf
    Memory.move buf (40 + ext) (40 + ext + p.removedLen ext hdr) (p.lenAfter ext hdr - 40)
  len := p.lenAfter ext hdr
  len_lt := Nat.mod_lt _ (by decide)

end Packet

/-- A header after this next header field is one of RPL. -/
def isRplHeader (p : Packet) (ext : ℕ) (v : UInt8) : Traced Access Bool :=
  if v ≠ protoHbho then pure true
  else do
    let type ← p.get (40 + ext + 2)
    pure (type == optRpl)

/-- The bytes that `memmove` moves; a size has 32 bits. -/
def moveSize (p : Packet) (ext hdr : ℕ) : ℕ := (p.lenAfter ext hdr + 2 ^ 32 - 40) % 2 ^ 32

/-- The loop of `rpl_ext_header_remove` with `uip_ext_len` and the next header field. -/
def removeHeaders : ℕ → Packet → ℕ → ℕ → Traced Access (Packet × ℕ)
  | 0, _, _, _ => diverge
  | n + 1, p, ext, hdr => do
    let v ← p.get hdr
    if v = protoHbho ∨ v = protoRouting then do
      let rpl ← isRplHeader p ext v
      if rpl = true then do
        p.touch (40 + ext) 2
        p.touch hdr 1
        p.touch 4 2
        p.touch (40 + ext + p.removedLen ext hdr) (moveSize p ext hdr)
        p.touch (40 + ext) (moveSize p ext hdr)
        removeHeaders n (p.removeHeader ext hdr) ext hdr
      else do
        let len ← p.get (40 + ext + 1)
        removeHeaders n p ((ext + hdrLen len) % 256) (40 + ext)
    else if v = protoDesto then do
      let len ← p.get (40 + ext + 1)
      removeHeaders n p ((ext + hdrLen len) % 256) (40 + ext)
    else pure (p, ext)

/-- `rpl_ext_header_remove`. -/
def rplExtHeaderRemove (p : Packet) (n : ℕ) : Traced Access (Packet × ℕ) := removeHeaders n p 0 6

/-- `UIP_EXT_BUF->next` behind extension headers, and else the next header field of the IPv6
header. -/
def nextField (ext : ℕ) : ℕ := if ext ≠ 0 then 40 + ext else 6

/-- `UIP_FIRST_EXT_BUF->next` in front of extension headers, and else the same. -/
def firstNextField (ext : ℕ) : ℕ := if ext ≠ 0 then 40 else 6

/-- The packet that is answered is an ICMPv6 error message itself. -/
def isIcmpError (p : Packet) (ext : ℕ) : Traced Access Bool := do
  let next ← p.get (nextField ext)
  if next = protoIcmp6 then do
    let type ← p.get (40 + ext)
    pure (decide (type < 128))
  else pure false

/-- A word is added to a sum, with the carry. -/
def addCarry (sum word : ℕ) : ℕ :=
  let next := (sum + word) % 2 ^ 16
  if next < word then next + 1 else next

/-- `chksum`. -/
def chksum (sum : ℕ) : List UInt8 → ℕ
  | [] => sum
  | [b] => addCarry sum (256 * b.toNat)
  | a :: b :: bs => chksum (addCarry sum (256 * a.toNat + b.toNat)) bs

/-- `upper_layer_chksum`, before the bytes change places. -/
def upperLayerChksum (p : Packet) (ext : ℕ) (proto : UInt8) : Traced Access ℕ := do
  let lenField ← p.read 4 2
  let upperLayerLen := (bigEndian lenField + 2 ^ 16 - ext) % 2 ^ 16
  let addresses ← p.read 8 32
  let data ← p.read (40 + ext) upperLayerLen
  let sum := chksum (chksum ((upperLayerLen + proto.toNat) % 2 ^ 16) addresses) data
  pure (if sum = 0 then 0xffff else sum)

/-- Two bytes of a number, the high one first. -/
def bytes16 (n : ℕ) : List UInt8 := [UInt8.ofNat (n / 256), UInt8.ofNat n]

namespace Packet

/-- `uip_len` with an error message in front, at most `UIP_LINK_MTU`. -/
def errorLen (p : Packet) : ℕ := min ((p.len + 48) % 2 ^ 16) 1280

theorem errorLen_lt (p : Packet) : p.errorLen < 2 ^ 16 :=
  (Nat.min_le_right _ _).trans_lt (by decide)

/-- The bytes that `memmove` moves for an error message; a size has 32 bits. -/
def quotedSize (p : Packet) (ext : ℕ) : ℕ := (p.errorLen + 2 ^ 32 - (48 + ext)) % 2 ^ 32

/-- The packet moved for an error message. The length of the extension headers counts twice. -/
def quoted (p : Packet) (ext : ℕ) : Packet :=
  ⟨Memory.move p.buf (48 + 2 * ext) 0 (p.quotedSize ext), p.errorLen, p.errorLen_lt⟩

/-- No byte fits the length field. -/
theorem zero_lt_len : 0 < 2 ^ 16 := by decide

/-- `uip_clear_buf`. -/
def cleared (p : Packet) : Packet := ⟨p.buf, 0, zero_lt_len⟩

end Packet

/-- The header of an error message: ICMPv6 and the checksum. -/
def writeIcmp (p : Packet) (ext : ℕ) (type code : UInt8) (param : ℕ) :
    Traced Access (Packet × ℕ) := do
  let p ← p.write (40 + ext) [type, code]
  let p ← p.write (44 + ext) (bytes16 (param / 2 ^ 16) ++ bytes16 param)
  let p ← p.write 4 (bytes16 (p.len - 40))
  let p ← p.write (42 + ext) [0, 0]
  let sum ← upperLayerChksum p ext protoIcmp6
  let p ← p.write (42 + ext) (bytes16 (0xffff - sum))
  pure (p, ext)

/-- The headers in front of the packet that is answered, which was sent to `dest`. -/
def writeHeaders (env : Env) (p : Packet) (ext : ℕ) (dest : List UInt8) (type code : UInt8)
    (param : ℕ) : Traced Access (Packet × ℕ) := do
  let p ← p.write 0 [0x60, 0, 0, 0]
  let p ← p.write (firstNextField ext) [protoIcmp6]
  let p ← p.write 7 [env.curHopLimit]
  let src ← p.read 8 16
  if src = List.replicate 16 0 then pure (p.cleared, 0)
  else do
    let p ← p.write 24 src
    if dest.head? = some 0xff ∧ ¬ (type = paramProb ∧ code = paramProbOption) then
      pure (p.cleared, 0)
    else do
      let p ← p.write 8 (env.selectSrc dest)
      writeIcmp p ext type code param

/-- `uip_icmp6_error_output` from the copy of the destination address on: the packet and
`uip_ext_len`. -/
def errorMessage (env : Env) (p : Packet) (ext : ℕ) (type code : UInt8) (param : ℕ) :
    Traced Access (Packet × ℕ) := do
  let dest ← p.read 24 16
  (p.quoted ext).touch 0 (p.quotedSize ext)
  (p.quoted ext).touch (48 + 2 * ext) (p.quotedSize ext)
  writeHeaders env (p.quoted ext) ext dest type code param

/-- `uip_icmp6_error_output`: the packet and `uip_ext_len`. -/
def errorOutput (env : Env) (p : Packet) (ext n : ℕ) (type code : UInt8) (param : ℕ) :
    Traced Access (Packet × ℕ) := do
  let isError ← isIcmpError p ext
  if isError = true then pure (p.cleared, 0)
  else if env.ipv6Rpl = true then do
    let (p, ext) ← rplExtHeaderRemove p n
    errorMessage env p ext type code param
  else errorMessage env p 0 type code param

/-- The rest of `rpl_ext_header_hbh_update` for an option of our instance: the rank of the sender. -/
def hbhCheckRank (env : Env) (p : Packet) (ext off : ℕ) : Traced Access (Packet × Bool) := do
  let flags ← p.get (40 + ext + off + 2)
  if flags &&& 0x20 ≠ 0 then pure (p, false)
  else do
    let rank ← p.read (40 + ext + off + 4) 2
    let senderRank := bigEndian rank
    let down : Bool := flags &&& 0x80 ≠ 0
    let closer : Bool := senderRank < env.rank
    let loop := (down && !closer) || (!down && closer)
    let signaled : Bool := flags &&& 0x40 ≠ 0
    if loop then do
      let p ← p.write (40 + ext + off + 2) [flags ||| 0x40]
      pure (p, env.processHbh senderRank loop signaled)
    else pure (p, env.processHbh senderRank loop signaled)

/-- `rpl_ext_header_hbh_update`. -/
def hbhUpdate (env : Env) (p : Packet) (ext off : ℕ) : Traced Access (Packet × Bool) := do
  let type ← p.get (40 + ext + off)
  let len ← p.get (40 + ext + off + 1)
  let hbhoLen ← p.get (40 + ext + 1)
  if hbhoLen ≠ 0 ∨ type ≠ optRpl ∨ len ≠ 4 then pure (p, false)
  else if env.used = false then pure (p, false)
  else do
    let instanceId ← p.get (40 + ext + off + 3)
    if env.instanceId ≠ instanceId then pure (p, false) else hbhCheckRank env p ext off

/-- An option of this type is dropped without a message: the two highest bits ask for none in
answer to a packet for a multicast address, and this one is. -/
def isSilent (p : Packet) (type : UInt8) : Traced Access Bool :=
  if type &&& 0xC0 = 0xC0 then do
    let dest ← p.get 24
    pure (dest == 0xff)
  else pure false

/-- The loop of `ext_hdr_options_process` with `uip_ext_opt_offset`: the packet, `uip_ext_len` and
what is returned. -/
def processOptions (env : Env) (p : Packet) (ext : ℕ) : ℕ → ℕ → Traced Access (Packet × ℕ × ℕ)
  | 0, _ => diverge
  | n + 1, off => do
    let len ← p.get (40 + ext + 1)
    if off < hdrLen len then do
      let type ← p.get (40 + ext + off)
      if type = optPad1 then processOptions env p ext n ((off + 1) % 256)
      else if type = optPadN then do
        let optLen ← p.get (40 + ext + off + 1)
        processOptions env p ext n ((off + (optLen.toNat + 2)) % 256)
      else if type = optRpl then
        if env.ipv6Rpl then do
          let (p, ok) ← hbhUpdate env p ext off
          if ok = false then pure (p, ext, 1)
          else do
            let _ ← p.get (40 + ext + off + 1)
            pure (p, ext, 0)
        else do
          let _ ← p.get (40 + ext + off + 1)
          pure (p, ext, 0)
      else if type &&& 0xC0 = 0 then do
        let optLen ← p.get (40 + ext + off + 1)
        processOptions env p ext n ((off + (optLen.toNat + 2)) % 256)
      else if type &&& 0xC0 = 0x40 then pure (p, ext, 1)
      else do
        let silent ← isSilent p type
        if silent = true then pure (p, ext, 1)
        else do
          let (p, ext') ← errorOutput env p ext n paramProb paramProbOption (40 + ext + off)
          pure (p, ext', 2)
    else pure (p, ext, 0)

/-- `ext_hdr_options_process`. -/
def extHdrOptionsProcess (env : Env) (p : Packet) (ext n : ℕ) : Traced Access (Packet × ℕ × ℕ) :=
  processOptions env p ext n 2

/-! ## Headers in the packet -/

/-- The walk to the routing header stays in the packet and ends: every header field on the way is
in it, and the headers, at offsets of eight bits, do not come round. -/
inductive Walk (p : Packet) : ℕ → ℕ → ℕ × Option ℕ → Prop
  | routing {ext hdr : ℕ} : hdr < p.len → p.buf hdr = protoRouting → Walk p ext hdr (ext, some hdr)
  | skip {ext hdr : ℕ} {r : ℕ × Option ℕ} : hdr < p.len →
      p.buf hdr = protoHbho ∨ p.buf hdr = protoDesto → 40 + ext + 1 < p.len →
      Walk p ((ext + hdrLen (p.buf (40 + ext + 1))) % 256) (40 + ext) r → Walk p ext hdr r
  | other {ext hdr : ℕ} : hdr < p.len → p.buf hdr ≠ protoRouting → p.buf hdr ≠ protoHbho →
      p.buf hdr ≠ protoDesto → Walk p ext hdr (ext, none)

/-- What `rpl_ext_header_srh_get_next_hop` needs. -/
def NextHopFits (env : Env) (p : Packet) : Prop :=
  ∃ ext hdr, Walk p 0 6 (ext, hdr) ∧ 40 ≤ p.len ∧
    (env.inOurDag (p.buf.read 24 16) = true → hdr ≠ none → 40 + ext + 2 < p.len)

/-- The address that `rpl_ext_header_srh_update` exchanges is in the packet. -/
def AddressFits (p : Packet) (ext : ℕ) : Prop :=
  p.buf (40 + ext + 3) ≠ 0 →
    40 + ext + nextAddress (p.buf (40 + ext + 3)) (p.buf (40 + ext + 1)) (p.buf (40 + ext + 4))
      (p.buf (40 + ext + 5)) + (16 - nextCmpr (p.buf (40 + ext + 3)) (p.buf (40 + ext + 4))) ≤ p.len

/-- What `rpl_ext_header_srh_update` needs. -/
def UpdateFits (p : Packet) : Prop :=
  ∃ ext hdr, Walk p 0 6 (ext, hdr) ∧ (hdr ≠ none → 40 + ext + 2 < p.len ∧
    (p.buf (40 + ext + 2) = rhTypeSrh → 40 + ext + 5 < p.len ∧ AddressFits p ext))

/-- What `rpl_ext_header_hbh_update` needs of an option with this type. -/
def HbhFits (env : Env) (p : Packet) (ext off : ℕ) : Prop :=
  p.buf (40 + ext + 1) = 0 → p.buf (40 + ext + off + 1) = 4 → env.used = true →
    40 + ext + off + 3 < p.len ∧
      (env.instanceId = p.buf (40 + ext + off + 3) →
        p.buf (40 + ext + off + 2) &&& 0x20 = 0 → 40 + ext + off + 5 < p.len)

/-- The header is one that `rpl_ext_header_remove` takes out. -/
def Removed (p : Packet) (ext hdr : ℕ) : Prop :=
  p.buf hdr = protoHbho ∧ 40 + ext + 2 < p.len ∧ p.buf (40 + ext + 2) = optRpl ∨
    p.buf hdr = protoRouting

/-- The header is one that `rpl_ext_header_remove` passes by. -/
def Kept (p : Packet) (ext hdr : ℕ) : Prop :=
  p.buf hdr = protoHbho ∧ 40 + ext + 2 < p.len ∧ p.buf (40 + ext + 2) ≠ optRpl ∨
    p.buf hdr = protoDesto

/-- What is behind a header that is taken out can be moved: nothing stands in front of it, or
nothing behind it. -/
def Removable (p : Packet) (ext hdr : ℕ) : Prop :=
  p.removedLen ext hdr + 40 ≤ p.len ∧ (ext = 0 ∨ p.len = p.removedLen ext hdr + 40)

/-- The removal of the headers stays in the packet and ends, with this packet and this
`uip_ext_len`. -/
inductive Removal : Packet → ℕ → ℕ → Packet × ℕ → Prop
  | stop {p : Packet} {ext hdr : ℕ} : hdr < p.len → p.buf hdr ≠ protoHbho →
      p.buf hdr ≠ protoRouting → p.buf hdr ≠ protoDesto → Removal p ext hdr (p, ext)
  | skip {p : Packet} {ext hdr : ℕ} {r : Packet × ℕ} : hdr < p.len → 40 + ext + 1 < p.len →
      Kept p ext hdr →
      Removal p ((ext + hdrLen (p.buf (40 + ext + 1))) % 256) (40 + ext) r → Removal p ext hdr r
  | remove {p : Packet} {ext hdr : ℕ} {r : Packet × ℕ} : hdr < p.len → 40 + ext + 1 < p.len →
      Removed p ext hdr → Removable p ext hdr →
      Removal (p.removeHeader ext hdr) ext hdr r → Removal p ext hdr r

/-- An error message fits in front of the packet: no extension headers are left, or nothing is left
behind them. -/
def MessageFits (p : Packet) (ext : ℕ) : Prop :=
  40 ≤ p.len ∧ 48 + ext ≤ p.errorLen ∧ (ext = 0 ∨ p.errorLen = 48 + ext)

/-- The packet is an ICMPv6 error message. -/
def IcmpError (p : Packet) (ext : ℕ) : Prop :=
  p.buf (nextField ext) = protoIcmp6 ∧ p.buf (40 + ext) < 128

/-- What `uip_icmp6_error_output` needs. -/
def ErrorFits (env : Env) (p : Packet) (ext : ℕ) : Prop :=
  ¬ IcmpError p ext → (env.ipv6Rpl = true → ∃ r, Removal p 0 6 r ∧ MessageFits r.1 r.2) ∧
    (env.ipv6Rpl = false → MessageFits p 0)

/-- An error message is sent for an option of this type. -/
def Reported (p : Packet) (type : UInt8) : Prop :=
  type &&& 0xC0 ≠ 0x40 ∧ (type &&& 0xC0 = 0xC0 → p.buf 24 ≠ 0xff)

/-- The walk over the options of a header stays in the packet and ends. -/
inductive Options (env : Env) (p : Packet) (ext : ℕ) : ℕ → Prop
  | done {off : ℕ} : hdrLen (p.buf (40 + ext + 1)) ≤ off → Options env p ext off
  | pad1 {off : ℕ} : off < hdrLen (p.buf (40 + ext + 1)) → 40 + ext + off < p.len →
      p.buf (40 + ext + off) = optPad1 → Options env p ext ((off + 1) % 256) →
      Options env p ext off
  | skip {off : ℕ} : off < hdrLen (p.buf (40 + ext + 1)) → 40 + ext + off + 1 < p.len →
      p.buf (40 + ext + off) ≠ optPad1 → p.buf (40 + ext + off) &&& 0xC0 = 0 →
      Options env p ext ((off + ((p.buf (40 + ext + off + 1)).toNat + 2)) % 256) →
      Options env p ext off
  | rpl {off : ℕ} : off < hdrLen (p.buf (40 + ext + 1)) → 40 + ext + off + 1 < p.len →
      p.buf (40 + ext + off) = optRpl → (env.ipv6Rpl = true → HbhFits env p ext off) →
      Options env p ext off
  | reject {off : ℕ} : off < hdrLen (p.buf (40 + ext + 1)) → 40 + ext + off < p.len →
      p.buf (40 + ext + off) ≠ optRpl → p.buf (40 + ext + off) &&& 0xC0 ≠ 0 →
      (Reported p (p.buf (40 + ext + off)) → ErrorFits env p ext) → Options env p ext off

/-! ## Walks -/

/-- The function ends, from some bound on its rounds on, and stays in the packet. -/
def Safe {α : Type} (x : ℕ → Traced Access α) : Prop := ∃ n, Fine Access.Inside (x n)

section Accesses

variable {p : Packet} {i n : ℕ}

/-- A byte is read if it lies in the packet. -/
theorem ends_get {v : UInt8} :
    Ends Access.Inside (p.get i) v ↔ i < p.len ∧ v = p.buf i := by
  simp only [Packet.get, Packet.touch, ends_bind, ends_touch, Access.Inside, one_ne_zero, false_or,
    ends_pure, exists_const, Nat.lt_iff_add_one_le]

variable {α : Type} {a : α}

/-- Reading a byte, and what follows. -/
theorem ends_get_bind {f : UInt8 → Traced Access α} :
    Ends Access.Inside (p.get i >>= f) a ↔ i < p.len ∧ Ends Access.Inside (f (p.buf i)) a := by
  simp [ends_bind, ends_get, and_assoc]

/-- Reading several bytes, and what follows. -/
theorem ends_read_bind {f : List UInt8 → Traced Access α} :
    Ends Access.Inside (p.read i n >>= f) a ↔
      (n = 0 ∨ i + n ≤ p.len) ∧ Ends Access.Inside (f (p.buf.read i n)) a := by
  simp [Packet.read, Packet.touch, ends_bind, Access.Inside, and_assoc]

/-- Writing, and what follows in the packet that was written. -/
theorem ends_write_bind {bs : List UInt8} {f : Packet → Traced Access α} :
    Ends Access.Inside (p.write i bs >>= f) a ↔
      (bs.length = 0 ∨ i + bs.length ≤ p.len) ∧
        Ends Access.Inside (f { p with buf := p.buf.write i bs }) a := by
  simp [Packet.write, Packet.touch, ends_bind, Access.Inside, and_assoc]

/-- Bytes that are touched only have to lie in the packet. -/
theorem ends_packet_touch_bind {f : Unit → Traced Access α} :
    Ends Access.Inside (p.touch i n >>= f) a ↔
      (n = 0 ∨ i + n ≤ p.len) ∧ Ends Access.Inside (f ()) a := by
  simp only [Packet.touch, ends_bind, ends_touch, Access.Inside]
  constructor
  · rintro ⟨_, h⟩
    exact h
  · intro h
    exact ⟨(), h⟩

@[simp]
theorem fine_packet_touch_bind {f : Unit → Traced Access α} :
    Fine Access.Inside (p.touch i n >>= f) ↔
      (n = 0 ∨ i + n ≤ p.len) ∧ Fine Access.Inside (f ()) := fine_touch_bind

/-- The same for reads and writes without a result to name. -/
@[simp]
theorem fine_get_bind {f : UInt8 → Traced Access α} :
    Fine Access.Inside (p.get i >>= f) ↔ i < p.len ∧ Fine Access.Inside (f (p.buf i)) := by
  simp [fine_bind, ends_get, and_assoc]

@[simp]
theorem fine_read_bind {f : List UInt8 → Traced Access α} :
    Fine Access.Inside (p.read i n >>= f) ↔
      (n = 0 ∨ i + n ≤ p.len) ∧ Fine Access.Inside (f (p.buf.read i n)) := by
  simp [Packet.read, Packet.touch, fine_bind, ends_bind, Access.Inside, and_assoc]

@[simp]
theorem fine_write_bind {bs : List UInt8} {f : Packet → Traced Access α} :
    Fine Access.Inside (p.write i bs >>= f) ↔
      (bs.length = 0 ∨ i + bs.length ≤ p.len) ∧
        Fine Access.Inside (f { p with buf := p.buf.write i bs }) := by
  simp [Packet.write, Packet.touch, fine_bind, ends_bind, Access.Inside, and_assoc]

end Accesses

section Routing

variable {p : Packet} {n ext hdr : ℕ} {r : ℕ × Option ℕ}

/-- What the search for the routing header ends with is a walk over the headers. -/
theorem walk_of_ends : ∀ {n ext hdr : ℕ}, Ends Access.Inside (findRouting p n ext hdr) r →
    Walk p ext hdr r := by
  intro n
  induction n with
  | zero => exact fun h => absurd h ends_diverge
  | succ n ih =>
    intro ext hdr h
    rw [findRouting, ends_get_bind] at h
    obtain ⟨hlt, h⟩ := h
    split_ifs at h with hrouting hskip
    · obtain rfl := ends_pure.mp h
      exact .routing hlt hrouting
    · obtain ⟨hlt', h⟩ := ends_get_bind.mp h
      exact .skip hlt hskip hlt' (ih h)
    · obtain rfl := ends_pure.mp h
      obtain ⟨hhbho, hdesto⟩ := not_or.mp hskip
      exact .other hlt hrouting hhbho hdesto

/-- Enough rounds end the search. -/
theorem Walk.ends (h : Walk p ext hdr r) :
    ∃ n, Ends Access.Inside (findRouting p n ext hdr) r := by
  induction h with
  | routing hlt hv =>
    refine ⟨1, ?_⟩
    simp [findRouting, ends_get_bind, hlt, hv]
  | skip hlt hv hlt' _ ih =>
    obtain ⟨n, ih⟩ := ih
    refine ⟨n + 1, ?_⟩
    rcases hv with hv | hv
    · simp [findRouting, ends_get_bind, hlt, hv, hlt', ih, protoRouting, protoHbho]
    · simp [findRouting, ends_get_bind, hlt, hv, hlt', ih, protoRouting, protoDesto]
  | other hlt hrouting hhbho hdesto =>
    refine ⟨1, ?_⟩
    simp [findRouting, ends_get_bind, hlt, hrouting, hhbho, hdesto]

/-- The pointer that the walk ends with is at a routing header. -/
theorem Walk.found {h' : ℕ} (h : Walk p ext hdr r) (hr : r.2 = some h') :
    h' < p.len ∧ p.buf h' = protoRouting := by
  induction h with
  | routing hlt hv =>
    obtain rfl := Option.some.inj hr
    exact ⟨hlt, hv⟩
  | skip _ _ _ _ ih => exact ih hr
  | other => cases hr

/-- Whether a source routing header was found, at the end of a walk. -/
theorem ends_isSourceRouting {h : Option ℕ} {b : Bool} (hwalk : Walk p 0 6 (ext, h)) :
    Ends Access.Inside (isSourceRouting p ext h) b ↔
      (h ≠ none → 40 + ext + 2 < p.len) ∧
        b = (h.isSome && p.buf (40 + ext + 2) == rhTypeSrh) := by
  cases h with
  | none => simp [isSourceRouting]
  | some h' =>
    obtain ⟨hlt, hv⟩ := hwalk.found rfl
    simp [isSourceRouting, ends_get_bind, hlt, hv]

/-- The next hop is read inside the packet exactly when the routing header fits. -/
theorem safe_srhGetNextHop {env : Env} {extLen : ℕ} :
    Safe (srhGetNextHop env p extLen) ↔ NextHopFits env p := by
  constructor
  · rintro ⟨n, h⟩
    obtain ⟨⟨ext, hdr⟩, hfind, h⟩ := fine_bind.mp h
    have hwalk := walk_of_ends hfind
    obtain ⟨hlen, h⟩ := fine_read_bind.mp h
    refine ⟨ext, hdr, hwalk, by omega, fun hdag => ?_⟩
    rw [if_neg (by simp [hdag]), fine_read_bind, fine_bind] at h
    obtain ⟨_, found, hfound, _⟩ := h
    exact ((ends_isSourceRouting hwalk).mp hfound).1
  · rintro ⟨ext, hdr, hwalk, hlen, hfits⟩
    obtain ⟨n, hfind⟩ := hwalk.ends
    have hread : 24 + 16 ≤ p.len := hlen
    refine ⟨n, fine_bind.mpr ⟨_, hfind, fine_read_bind.mpr ⟨.inr hread, ?_⟩⟩⟩
    by_cases hdag : env.inOurDag (p.buf.read 24 16) = true
    · rw [if_neg (by simp [hdag]), fine_read_bind, fine_bind]
      refine ⟨.inr hread, _, (ends_isSourceRouting hwalk).mpr ⟨hfits hdag, rfl⟩, ?_⟩
      split_ifs
      · exact fine_read_bind.mpr ⟨.inr hread, fine_pure⟩
      · exact fine_pure
    · rw [if_pos (Bool.not_eq_true _ ▸ hdag)]
      exact fine_pure

/-- The compression is half a byte. -/
theorem nextCmpr_lt (segmentsLeft cmpr : UInt8) : nextCmpr segmentsLeft cmpr < 16 := by
  have := cmpr.toNat_lt
  unfold nextCmpr
  split_ifs <;> omega

theorem le_nextAddress (segmentsLeft len cmpr pad : UInt8) :
    8 ≤ nextAddress segmentsLeft len cmpr pad := Nat.le_add_right 8 _

/-- The visit of the next address: every byte it touches is before the end of the exchanged
address or of the fixed part of the header. -/
theorem fine_visitNext :
    Fine Access.Inside (visitNext p ext) ↔ 40 + ext + 5 < p.len ∧ AddressFits p ext := by
  unfold visitNext AddressFits
  simp only [fine_get_bind]
  split_ifs with hzero
  · simp [hzero]
    omega
  · have hcmpr := nextCmpr_lt (p.buf (40 + ext + 3)) (p.buf (40 + ext + 4))
    have haddress := le_nextAddress (p.buf (40 + ext + 3)) (p.buf (40 + ext + 1))
      (p.buf (40 + ext + 4)) (p.buf (40 + ext + 5))
    simp only [fine_read_bind, fine_write_bind, fine_get_bind, fine_pure, Memory.length_read,
      List.length_drop, List.length_singleton, and_true]
    generalize nextCmpr (p.buf (40 + ext + 3)) (p.buf (40 + ext + 4)) = cmpr at *
    generalize nextAddress (p.buf (40 + ext + 3)) (p.buf (40 + ext + 1)) (p.buf (40 + ext + 4))
      (p.buf (40 + ext + 5)) = address at *
    constructor
    · rintro ⟨_, _, _, hlt, _, hfits, _⟩
      exact ⟨hlt, fun _ => by omega⟩
    · rintro ⟨hlt, hfits⟩
      have hfits := hfits hzero
      refine ⟨?_, ?_, ?_, ?_, ?_, ?_, ?_, ?_, ?_, ?_⟩ <;> omega

/-- The update of the routing header is safe exactly when its addresses fit. -/
theorem safe_srhUpdate : Safe (srhUpdate p) ↔ UpdateFits p := by
  constructor
  · rintro ⟨n, h⟩
    obtain ⟨⟨ext, hdr⟩, hfind, h⟩ := fine_bind.mp h
    have hwalk := walk_of_ends hfind
    obtain ⟨found, hfound, h⟩ := fine_bind.mp h
    obtain ⟨hlt, rfl⟩ := (ends_isSourceRouting hwalk).mp hfound
    refine ⟨ext, hdr, hwalk, fun hne => ⟨hlt hne, fun htype => ?_⟩⟩
    obtain ⟨hdr, rfl⟩ := Option.ne_none_iff_exists'.mp hne
    rw [if_pos (by simp [htype])] at h
    exact fine_visitNext.mp h
  · rintro ⟨ext, hdr, hwalk, hfits⟩
    obtain ⟨n, hfind⟩ := hwalk.ends
    have hfound := (ends_isSourceRouting hwalk).mpr ⟨fun hne => (hfits hne).1, rfl⟩
    refine ⟨n, fine_bind.mpr ⟨_, hfind, fine_bind.mpr ⟨_, hfound, ?_⟩⟩⟩
    split_ifs with h
    · obtain ⟨hsome, htype⟩ := Bool.and_eq_true_iff.mp h
      have hne : hdr ≠ none := Option.isSome_iff_ne_none.mp hsome
      exact fine_visitNext.mpr ((hfits hne).2 (beq_iff_eq.mp htype))
    · exact fine_pure

end Routing

section Remove

variable {p : Packet} {n ext hdr : ℕ} {r : Packet × ℕ}

theorem removedLen_lt : p.removedLen ext hdr < 256 := Nat.mod_lt _ (by decide)

/-- The two sides of the move are in the packet just when the header is removable. -/
theorem moves_inside (hext : 40 + ext + 1 < p.len) :
    (moveSize p ext hdr = 0 ∨ 40 + ext + p.removedLen ext hdr + moveSize p ext hdr ≤ p.len) ∧
        (moveSize p ext hdr = 0 ∨ 40 + ext + moveSize p ext hdr ≤ p.len) ↔
      Removable p ext hdr := by
  have hlen := p.len_lt
  have hremoved : p.removedLen ext hdr < 256 := removedLen_lt
  unfold Removable moveSize Packet.lenAfter
  omega

/-- Whether a header belongs to RPL, and what has to be read for it. -/
theorem ends_isRplHeader {v : UInt8} {b : Bool} :
    Ends Access.Inside (isRplHeader p ext v) b ↔
      (v = protoHbho → 40 + ext + 2 < p.len) ∧
        b = (v != protoHbho || p.buf (40 + ext + 2) == optRpl) := by
  unfold isRplHeader
  by_cases hv : v = protoHbho
  · simp [hv, ends_get_bind]
  · have hne : (v != protoHbho) = true := bne_iff_ne.mpr hv
    simp [hv, hne]

/-- A header that is taken out. -/
theorem ends_removed (h : Removed p ext hdr) :
    Ends Access.Inside (removeHeaders (n + 1) p ext hdr) r ↔
      hdr < p.len ∧ 40 + ext + 1 < p.len ∧ Removable p ext hdr ∧
        Ends Access.Inside (removeHeaders n (p.removeHeader ext hdr) ext hdr) r := by
  have hv : p.buf hdr = protoHbho ∨ p.buf hdr = protoRouting := h.imp And.left id
  have hrpl : Ends Access.Inside (isRplHeader p ext (p.buf hdr)) true := by
    rw [ends_isRplHeader]
    rcases h with ⟨hv, hlt, htype⟩ | hv
    · exact ⟨fun _ => hlt, by simp [htype]⟩
    · rw [hv]
      exact ⟨fun h => absurd h (by decide), rfl⟩
  have huniq : ∀ b, Ends Access.Inside (isRplHeader p ext (p.buf hdr)) b → b = true := by
    intro b hb
    rw [(ends_isRplHeader.mp hb).2, (ends_isRplHeader.mp hrpl).2]
  rw [removeHeaders, ends_get_bind, if_pos hv, ends_bind]
  refine and_congr_right fun hlt => ?_
  constructor
  · rintro ⟨b, hb, hrest⟩
    obtain rfl := huniq b hb
    simp only [if_true, ends_packet_touch_bind] at hrest
    obtain ⟨hext, _, _, hfrom, hto, hrest⟩ := hrest
    have hext : 40 + ext + 1 < p.len := by omega
    exact ⟨hext, (moves_inside hext).mp ⟨hfrom, hto⟩, hrest⟩
  · rintro ⟨hext, hmove, hrest⟩
    refine ⟨true, hrpl, ?_⟩
    obtain ⟨hfrom, hto⟩ := (moves_inside hext).mpr hmove
    simp only [if_true, ends_packet_touch_bind]
    exact ⟨.inr hext, .inr hlt, .inr (by omega), hfrom, hto, hrest⟩

/-- A header that is passed by. -/
theorem ends_kept (h : Kept p ext hdr) :
    Ends Access.Inside (removeHeaders (n + 1) p ext hdr) r ↔
      hdr < p.len ∧ 40 + ext + 1 < p.len ∧ Ends Access.Inside
        (removeHeaders n p ((ext + hdrLen (p.buf (40 + ext + 1))) % 256) (40 + ext)) r := by
  rw [removeHeaders, ends_get_bind]
  refine and_congr_right fun hlt => ?_
  rcases h with ⟨hv, hlt', htype⟩ | hv
  · have hrpl : ∀ b, Ends Access.Inside (isRplHeader p ext (p.buf hdr)) b ↔ b = false := by
      intro b
      have hne : (p.buf (40 + ext + 2) == optRpl) = false := beq_eq_false_iff_ne.mpr htype
      rw [ends_isRplHeader, hv, hne]
      simp [hlt']
    rw [if_pos (.inl hv), ends_bind]
    simp only [hrpl, exists_eq_left, Bool.false_eq_true, if_false, ends_get_bind]
  · have hne : ¬ (protoDesto = protoHbho ∨ protoDesto = protoRouting) := by decide
    rw [hv, if_neg hne, if_pos rfl, ends_get_bind]

/-- What the loop ends with is the removal. -/
theorem removal_of_ends : ∀ {n : ℕ} {p : Packet} {ext hdr : ℕ},
    Ends Access.Inside (removeHeaders n p ext hdr) r → Removal p ext hdr r := by
  intro n
  induction n with
  | zero => exact fun h => absurd h ends_diverge
  | succ n ih =>
    intro p ext hdr h
    obtain ⟨hlt, hrest⟩ := ends_get_bind.mp h
    by_cases hremoved : Removed p ext hdr
    · obtain ⟨_, hext, hmove, h⟩ := (ends_removed hremoved).mp h
      exact .remove hlt hext hremoved hmove (ih h)
    by_cases hkept : Kept p ext hdr
    · obtain ⟨_, hext, h⟩ := (ends_kept hkept).mp h
      exact .skip hlt hext hkept (ih h)
    · have hrouting : p.buf hdr ≠ protoRouting := fun hv => hremoved (.inr hv)
      have hdesto : p.buf hdr ≠ protoDesto := fun hv => hkept (.inr hv)
      by_cases hv : p.buf hdr = protoHbho
      · rw [if_pos (.inl hv), ends_bind] at hrest
        obtain ⟨b, hb, _⟩ := hrest
        have hlt' := (ends_isRplHeader.mp hb).1 hv
        by_cases htype : p.buf (40 + ext + 2) = optRpl
        · exact absurd (.inl ⟨hv, hlt', htype⟩) hremoved
        · exact absurd (.inl ⟨hv, hlt', htype⟩) hkept
      · rw [if_neg (not_or.mpr ⟨hv, hrouting⟩), if_neg hdesto] at hrest
        obtain rfl := ends_pure.mp hrest
        exact .stop hlt hv hrouting hdesto

/-- Enough rounds end the loop. -/
theorem Removal.ends (h : Removal p ext hdr r) :
    ∃ n, Ends Access.Inside (removeHeaders n p ext hdr) r := by
  induction h with
  | stop hlt hhbho hrouting hdesto =>
    refine ⟨1, ends_get_bind.mpr ⟨hlt, ?_⟩⟩
    rw [if_neg (not_or.mpr ⟨hhbho, hrouting⟩), if_neg hdesto]
    exact ends_pure.mpr rfl
  | skip hlt hext hkept _ ih =>
    obtain ⟨n, ih⟩ := ih
    exact ⟨n + 1, (ends_kept hkept).mpr ⟨hlt, hext, ih⟩⟩
  | remove hlt hext hremoved hmove _ ih =>
    obtain ⟨n, ih⟩ := ih
    exact ⟨n + 1, (ends_removed hremoved).mpr ⟨hlt, hext, hmove, ih⟩⟩

/-- The removal is safe exactly when it comes to an end inside the packet. -/
theorem safe_rplExtHeaderRemove : Safe (rplExtHeaderRemove p) ↔ ∃ r, Removal p 0 6 r :=
  ⟨fun ⟨_, r, h⟩ => ⟨r, removal_of_ends h⟩, fun ⟨r, h⟩ => h.ends.imp fun _ h => ⟨r, h⟩⟩

end Remove

section ErrorOutput

variable {env : Env} {p : Packet} {n ext param : ℕ} {type code : UInt8}

/-- Sixteen bits are read back as they were written. -/
theorem bigEndian_bytes16 {n : ℕ} (h : n < 65536) : bigEndian (bytes16 n) = n := by
  simp only [bigEndian, bytes16, List.foldl_cons, List.foldl_nil, UInt8.toNat_ofNat']
  omega

/-- The sum goes to the end of the packet, if the length field says where that is. -/
theorem fine_upperLayerChksum {proto : UInt8} (h : 40 + ext ≤ p.len)
    (hfield : p.buf.read 4 2 = bytes16 (p.len - 40)) :
    Fine Access.Inside (upperLayerChksum p ext proto) := by
  have hlt := p.len_lt
  have hupper : (p.len - 40 + 2 ^ 16 - ext) % 2 ^ 16 = p.len - 40 - ext := by omega
  unfold upperLayerChksum
  rw [fine_read_bind, hfield, bigEndian_bytes16 (by omega)]
  dsimp only
  rw [hupper, fine_read_bind, fine_read_bind]
  exact ⟨by omega, by omega, by omega, fine_pure⟩

/-- The length field is not disturbed by what is written behind the headers. -/
theorem read_lengthField {buf : Memory} {bs : List UInt8} :
    ((buf.write 4 (bytes16 n)).write (42 + ext) bs).read 4 2 = bytes16 n := by
  have hfour : ∀ i < 42, (buf.write 4 (bytes16 n)).write (42 + ext) bs i =
      buf.write 4 (bytes16 n) i := fun i hi => Memory.write_below (by omega)
  rw [Memory.read_two, hfour 4 (by decide), hfour 5 (by decide)]
  rfl

/-- The ICMPv6 header is written inside the packet. -/
theorem fine_writeIcmp (h : 48 + ext ≤ p.len) :
    Fine Access.Inside (writeIcmp p ext type code param) := by
  unfold writeIcmp
  simp only [fine_write_bind, List.length_append, List.length_cons, List.length_nil, bytes16]
  refine ⟨by omega, by omega, by omega, by omega, ?_⟩
  let q : Packet := { p with
    buf := (((p.buf.write (40 + ext) [type, code]).write (44 + ext)
      (bytes16 (param / 2 ^ 16) ++ bytes16 param)).write 4 (bytes16 (p.len - 40))).write
        (42 + ext) [0, 0] }
  have hfine : Fine Access.Inside (upperLayerChksum q ext protoIcmp6) :=
    fine_upperLayerChksum (by dsimp only [q]; omega) read_lengthField
  obtain ⟨sum, hsum⟩ := hfine
  refine fine_bind.mpr ⟨sum, hsum, ?_⟩
  simp only [fine_write_bind, fine_pure, List.length_cons, List.length_nil, and_true]
  omega

/-- So are the headers in front of it. -/
theorem fine_writeHeaders {dest : List UInt8} (h : 48 + ext ≤ p.len) :
    Fine Access.Inside (writeHeaders env p ext dest type code param) := by
  have hproto : firstNextField ext + 1 ≤ p.len := by
    unfold firstNextField
    split_ifs <;> omega
  unfold writeHeaders
  simp only [fine_write_bind, fine_read_bind, List.length_cons, List.length_nil]
  refine ⟨by omega, .inr hproto, by omega, by omega, ?_⟩
  split_ifs with hsrc hmcast
  · exact fine_pure
  · exact fine_write_bind.mpr ⟨by rw [Memory.length_read]; dsimp only; omega, fine_pure⟩
  · refine fine_write_bind.mpr ⟨by rw [Memory.length_read]; dsimp only; omega, ?_⟩
    refine fine_write_bind.mpr ⟨by rw [env.length_selectSrc]; dsimp only; omega, ?_⟩
    exact fine_writeIcmp h

/-- What is moved stays in the packet just when it fits. -/
theorem quoted_inside (hext : ext < 256) :
    (p.quotedSize ext = 0 ∨ 0 + p.quotedSize ext ≤ p.errorLen) ∧
        (p.quotedSize ext = 0 ∨ 48 + 2 * ext + p.quotedSize ext ≤ p.errorLen) ↔
      48 + ext ≤ p.errorLen ∧ (ext = 0 ∨ p.errorLen = 48 + ext) := by
  have hlt := p.errorLen_lt
  unfold Packet.quotedSize
  omega

/-- The message is safe exactly when the headers it goes behind leave room for it. -/
theorem fine_errorMessage (hext : ext < 256) :
    Fine Access.Inside (errorMessage env p ext type code param) ↔ MessageFits p ext := by
  have hdest : (16 = 0 ∨ 24 + 16 ≤ p.len) ↔ 40 ≤ p.len := by omega
  have hlen : (p.quoted ext).len = p.errorLen := rfl
  unfold errorMessage MessageFits
  rw [fine_read_bind, hdest]
  refine and_congr_right fun _ => ?_
  rw [fine_packet_touch_bind, fine_packet_touch_bind, ← and_assoc, hlen, quoted_inside hext]
  exact and_iff_left_of_imp fun h => fine_writeHeaders h.1

/-- Errors are not answered with errors. -/
theorem ends_isIcmpError {b : Bool} (hext : 40 + ext + 1 < p.len) :
    Ends Access.Inside (isIcmpError p ext) b ↔ (b = true ↔ IcmpError p ext) := by
  have hnext : nextField ext < p.len := by
    unfold nextField
    split_ifs <;> omega
  unfold isIcmpError IcmpError
  rw [ends_get_bind]
  split_ifs with hproto
  · rw [ends_get_bind, ends_pure]
    have htype : 40 + ext < p.len := by omega
    rw [Bool.eq_iff_iff, decide_eq_true_iff]
    simp only [hproto, hnext, htype, true_and]
  · rw [ends_pure]
    simp [hproto, hnext]

/-- The lengths of the headers that stay are kept in a byte. -/
theorem Removal.snd_lt {hdr : ℕ} {r : Packet × ℕ} (h : Removal p ext hdr r) (hext : ext < 256) :
    r.2 < 256 := by
  induction h with
  | stop => exact hext
  | skip _ _ _ _ ih => exact ih (Nat.mod_lt _ (by decide))
  | remove _ _ _ _ _ ih => exact ih hext

/-- An error message: what is known of the bound on the rounds is that some bound is enough. -/
theorem errorFits_of_fine (hext : 40 + ext + 1 < p.len)
    (h : Fine Access.Inside (errorOutput env p ext n type code param)) : ErrorFits env p ext := by
  obtain ⟨b, hb, h⟩ := fine_bind.mp h
  intro hno
  have hfalse : b ≠ true := fun htrue => hno (((ends_isIcmpError hext).mp hb).mp htrue)
  rw [if_neg hfalse] at h
  split_ifs at h with hrpl
  · obtain ⟨r, hr, h⟩ := fine_bind.mp h
    have hremoval := removal_of_ends hr
    exact ⟨fun _ => ⟨r, hremoval, (fine_errorMessage (hremoval.snd_lt (by decide))).mp h⟩,
      fun hoff => absurd hrpl (by simp [hoff])⟩
  · exact ⟨fun hon => absurd hon hrpl, fun _ => (fine_errorMessage (by decide)).mp h⟩

/-- Where the removal and the message fit, the error is output safely. -/
theorem ErrorFits.fine (hext : 40 + ext + 1 < p.len) (h : ErrorFits env p ext) :
    ∃ n, Fine Access.Inside (errorOutput env p ext n type code param) := by
  by_cases herror : IcmpError p ext
  · refine ⟨0, fine_bind.mpr ⟨true, (ends_isIcmpError hext).mpr (by simp [herror]), ?_⟩⟩
    exact fine_pure
  · have hfalse : Ends Access.Inside (isIcmpError p ext) false :=
      (ends_isIcmpError hext).mpr (by simp [herror])
    obtain ⟨hon, hoff⟩ := h herror
    by_cases hrpl : env.ipv6Rpl = true
    · obtain ⟨r, hremoval, hfits⟩ := hon hrpl
      obtain ⟨n, hn⟩ := hremoval.ends
      refine ⟨n, fine_bind.mpr ⟨false, hfalse, ?_⟩⟩
      rw [if_neg (by decide), if_pos hrpl]
      exact fine_bind.mpr ⟨r, hn, (fine_errorMessage (hremoval.snd_lt (by decide))).mpr hfits⟩
    · refine ⟨0, fine_bind.mpr ⟨false, hfalse, ?_⟩⟩
      rw [if_neg (by decide), if_neg hrpl]
      exact (fine_errorMessage (by decide)).mpr (hoff (Bool.not_eq_true _ ▸ hrpl))

end ErrorOutput

section HopByHop

variable {env : Env} {p q : Packet} {ext off : ℕ} {ok : Bool}

/-- The rank is checked inside the packet exactly when it is there. -/
theorem fine_hbhCheckRank (hid : 40 + ext + off + 3 < p.len) :
    Fine Access.Inside (hbhCheckRank env p ext off) ↔
      (p.buf (40 + ext + off + 2) &&& 0x20 = 0 → 40 + ext + off + 5 < p.len) := by
  have hflags : 40 + ext + off + 2 < p.len := by omega
  unfold hbhCheckRank
  rw [fine_get_bind]
  split_ifs with hflag
  · simp [hflags, hflag]
  · rw [not_not] at hflag
    rw [fine_read_bind]
    dsimp only
    split_ifs
    · simp only [fine_write_bind, fine_pure, List.length_singleton, and_true, false_or]
      exact ⟨fun h _ => h.2.1, fun h => ⟨hflags, h hflag, by omega⟩⟩
    · simp only [fine_pure, and_true, false_or]
      exact ⟨fun h _ => h.2, fun h => ⟨hflags, h hflag⟩⟩

/-- The RPL option is safe exactly when it fits. -/
theorem fine_hbhUpdate (htype : p.buf (40 + ext + off) = optRpl)
    (hext : 40 + ext + 1 < p.len) (hoff : 40 + ext + off + 1 < p.len) :
    Fine Access.Inside (hbhUpdate env p ext off) ↔ HbhFits env p ext off := by
  have hlt : 40 + ext + off < p.len := by omega
  unfold hbhUpdate HbhFits
  simp only [fine_get_bind, hlt, hoff, hext, true_and, htype, ne_eq, not_true_eq_false, false_or]
  split_ifs with hlen hused
  · simp only [fine_pure, true_iff]
    intro hzero hfour
    exact absurd hlen (by simp [hzero, hfour])
  · simp [hused]
  · obtain ⟨hzero, hfour⟩ := not_or.mp hlen
    rw [not_not] at hzero hfour
    rw [fine_get_bind]
    simp only [hzero, hfour, forall_const, Bool.of_not_eq_false hused]
    refine and_congr_right fun hid => ?_
    split_ifs with heq
    · rw [fine_hbhCheckRank hid]
      simp only [heq, forall_const]
    · simp [heq]

/-- The check of the rank leaves the length. -/
theorem len_of_ends_hbhCheckRank (h : Ends Access.Inside (hbhCheckRank env p ext off) (q, ok)) :
    q.len = p.len := by
  obtain ⟨-, h⟩ := ends_get_bind.mp h
  split_ifs at h
  · obtain ⟨rfl, -⟩ := Prod.mk.inj (ends_pure.mp h)
    rfl
  · obtain ⟨-, h⟩ := ends_read_bind.mp h
    dsimp only at h
    split_ifs at h
    · obtain ⟨-, h⟩ := ends_write_bind.mp h
      obtain ⟨rfl, -⟩ := Prod.mk.inj (ends_pure.mp h)
      rfl
    · obtain ⟨rfl, -⟩ := Prod.mk.inj (ends_pure.mp h)
      rfl

/-- The update leaves the length as it is. -/
theorem len_of_ends_hbhUpdate (h : Ends Access.Inside (hbhUpdate env p ext off) (q, ok)) :
    q.len = p.len := by
  unfold hbhUpdate at h
  simp only [ends_get_bind] at h
  obtain ⟨-, -, -, h⟩ := h
  split_ifs at h
  · obtain ⟨rfl, -⟩ := Prod.mk.inj (ends_pure.mp h)
    rfl
  · obtain ⟨rfl, -⟩ := Prod.mk.inj (ends_pure.mp h)
    rfl
  · obtain ⟨-, h⟩ := ends_get_bind.mp h
    split_ifs at h
    · obtain ⟨rfl, -⟩ := Prod.mk.inj (ends_pure.mp h)
      rfl
    · exact len_of_ends_hbhCheckRank h

/-- The RPL option of a header. -/
theorem fine_rplOption (hext : 40 + ext + 1 < p.len) (hoff : off < hdrLen (p.buf (40 + ext + 1)))
    (htype : p.buf (40 + ext + off) = optRpl) {n : ℕ} :
    Fine Access.Inside (processOptions env p ext (n + 1) off) ↔
      40 + ext + off + 1 < p.len ∧ (env.ipv6Rpl = true → HbhFits env p ext off) := by
  have hpad1 : optRpl ≠ optPad1 := by decide
  have hpadN : optRpl ≠ optPadN := by decide
  unfold processOptions
  simp only [fine_get_bind, if_pos hoff, htype, if_neg hpad1, if_neg hpadN, hext, true_and, if_true]
  split_ifs with hrpl
  · rw [fine_bind]
    constructor
    · rintro ⟨_, ⟨q, ok⟩, h, _⟩
      have hlt := (ends_get_bind.mp (ends_get_bind.mp h).2).1
      exact ⟨hlt, fun _ => (fine_hbhUpdate htype hext hlt).mp ⟨_, h⟩⟩
    · rintro ⟨hlt, hfits⟩
      refine ⟨by omega, ?_⟩
      obtain ⟨⟨q, ok⟩, h⟩ := (fine_hbhUpdate htype hext hlt).mpr (hfits hrpl)
      refine ⟨(q, ok), h, ?_⟩
      dsimp only
      split_ifs
      · exact fine_pure
      · rw [fine_get_bind, len_of_ends_hbhUpdate h]
        exact ⟨hlt, fine_pure⟩
  · simp only [fine_get_bind, fine_pure, and_true]
    simp [hrpl]
    omega

/-- An option of this type is dropped without a message. -/
def silent (p : Packet) (type : UInt8) : Bool := type &&& 0xC0 == 0xC0 && p.buf 24 == 0xff

/-- Whether an option is dropped without a message. -/
theorem ends_isSilent {type : UInt8} {b : Bool} (hext : 40 + ext + 1 < p.len) :
    Ends Access.Inside (isSilent p type) b ↔ b = silent p type := by
  have hdest : 24 < p.len := by omega
  unfold isSilent silent
  split_ifs with htype
  · simp [ends_get_bind, hdest, htype]
  · rw [ends_pure, beq_eq_false_iff_ne.mpr htype, Bool.false_and]

theorem not_silent_of_reported {type : UInt8} (h : Reported p type) : ¬ silent p type = true := by
  intro hsilent
  obtain ⟨htype, hdest⟩ := Bool.and_eq_true_iff.mp hsilent
  exact h.2 (beq_iff_eq.mp htype) (beq_iff_eq.mp hdest)

/-- An option that is not reported is silent. -/
theorem silent_of_not_reported {type : UInt8} (hdrop : type &&& 0xC0 ≠ 0x40)
    (h : ¬ Reported p type) : silent p type = true := by
  unfold Reported at h
  unfold silent
  simp only [hdrop, ne_eq, not_false_eq_true, true_and, Classical.not_imp, not_not] at h
  simp [h]

/-- The walk over the options stays in the packet and ends. -/
theorem options_of_fine (hext : 40 + ext + 1 < p.len) : ∀ {n off : ℕ},
    Fine Access.Inside (processOptions env p ext n off) → Options env p ext off := by
  intro n
  induction n with
  | zero => exact fun h => absurd h not_fine_diverge
  | succ n ih =>
    intro off h
    by_cases hrpl : off < hdrLen (p.buf (40 + ext + 1)) ∧ p.buf (40 + ext + off) = optRpl
    · obtain ⟨hoff, htype⟩ := hrpl
      obtain ⟨hlt, hfits⟩ := (fine_rplOption hext hoff htype).mp h
      exact .rpl hoff hlt htype hfits
    · obtain ⟨-, h⟩ := fine_get_bind.mp h
      by_cases hoff : off < hdrLen (p.buf (40 + ext + 1))
      · rw [if_pos hoff] at h
        obtain ⟨hlt, h⟩ := fine_get_bind.mp h
        have hne : p.buf (40 + ext + off) ≠ optRpl := fun hv => hrpl ⟨hoff, hv⟩
        rw [if_neg hne] at h
        split_ifs at h with hpad1 hpadN hskip hdrop
        · exact .pad1 hoff hlt hpad1 (ih h)
        · obtain ⟨hlt', h⟩ := fine_get_bind.mp h
          exact .skip hoff hlt' hpad1 (by rw [hpadN]; rfl) (ih h)
        · obtain ⟨hlt', h⟩ := fine_get_bind.mp h
          exact .skip hoff hlt' hpad1 hskip (ih h)
        · exact .reject hoff hlt hne hskip fun hreported => absurd hdrop hreported.1
        · obtain ⟨silent, hsilent, h⟩ := fine_bind.mp h
          refine .reject hoff hlt hne hskip fun hreported => ?_
          rw [(ends_isSilent hext).mp hsilent, if_neg (not_silent_of_reported hreported)] at h
          obtain ⟨r, hr, _⟩ := fine_bind.mp h
          exact errorFits_of_fine hext ⟨r, hr⟩
      · exact .done (Nat.le_of_not_lt hoff)

/-- Where every option fits, the options are processed safely. -/
theorem Options.fine (hext : 40 + ext + 1 < p.len) (h : Options env p ext off) :
    ∃ n, Fine Access.Inside (processOptions env p ext n off) := by
  -- On the options, as the code walks them.
  induction h with
  | done hoff =>
    refine ⟨1, fine_get_bind.mpr ⟨hext, ?_⟩⟩
    rw [if_neg (Nat.not_lt.mpr hoff)]
    exact fine_pure
  | pad1 hoff hlt hpad1 _ ih =>
    obtain ⟨n, ih⟩ := ih
    refine ⟨n + 1, fine_get_bind.mpr ⟨hext, ?_⟩⟩
    rw [if_pos hoff, fine_get_bind, if_pos hpad1]
    exact ⟨hlt, ih⟩
  | skip hoff hlt hpad1 hskip _ ih =>
    obtain ⟨n, ih⟩ := ih
    have hne : p.buf _ ≠ optRpl := fun hv => by
      rw [hv] at hskip
      exact absurd hskip (by decide)
    refine ⟨n + 1, fine_get_bind.mpr ⟨hext, ?_⟩⟩
    rw [if_pos hoff, fine_get_bind, if_neg hpad1, if_neg hne, if_pos hskip]
    refine ⟨by omega, ?_⟩
    split_ifs <;> exact fine_get_bind.mpr ⟨hlt, ih⟩
  | rpl hoff hlt htype hfits => exact ⟨1, (fine_rplOption hext hoff htype).mpr ⟨hlt, hfits⟩⟩
  | @reject off hoff hlt hne hskip hdest =>
    have hpad1 : p.buf _ ≠ optPad1 := fun hv => by
      rw [hv] at hskip
      exact hskip rfl
    have hpadN : p.buf _ ≠ optPadN := fun hv => by
      rw [hv] at hskip
      exact hskip rfl
    by_cases hreported : Reported p (p.buf (40 + ext + off))
    · obtain ⟨n, hn⟩ := (hdest hreported).fine hext
      obtain ⟨r, hr⟩ := hn
      refine ⟨n + 1, fine_get_bind.mpr ⟨hext, ?_⟩⟩
      rw [if_pos hoff, fine_get_bind, if_neg hpad1, if_neg hpadN, if_neg hne, if_neg hskip,
        if_neg hreported.1]
      refine ⟨hlt, fine_bind.mpr ⟨_, (ends_isSilent hext).mpr rfl, ?_⟩⟩
      rw [if_neg (not_silent_of_reported hreported)]
      exact fine_bind.mpr ⟨r, hr, fine_pure⟩
    · refine ⟨1, fine_get_bind.mpr ⟨hext, ?_⟩⟩
      rw [if_pos hoff, fine_get_bind, if_neg hpad1, if_neg hpadN, if_neg hne, if_neg hskip]
      refine ⟨hlt, ?_⟩
      split_ifs with hdrop
      · exact fine_pure
      · refine fine_bind.mpr ⟨_, (ends_isSilent hext).mpr rfl, ?_⟩
        rw [if_pos (silent_of_not_reported hdrop hreported)]
        exact fine_pure

/-- The options are safe exactly when the header and all options fit. -/
theorem safe_extHdrOptionsProcess :
    Safe (extHdrOptionsProcess env p ext) ↔ 40 + ext + 1 < p.len ∧ Options env p ext 2 := by
  constructor
  · rintro ⟨n, h⟩
    have hext : 40 + ext + 1 < p.len := by
      cases n with
      | zero => exact absurd h not_fine_diverge
      | succ n => exact (fine_get_bind.mp h).1
    exact ⟨hext, options_of_fine hext h⟩
  · rintro ⟨hext, h⟩
    exact h.fine hext

end HopByHop

/-! ## Result -/

/-- A packet of one hop-by-hop header that says it is followed by another one and is 256 bytes
long. -/
def hangingPacket : Packet where
  buf i := if i = 41 then 31 else 0
  len := 1280
  len_lt := by decide

/-- The search never leaves the header that points at itself. -/
theorem findRouting_hanging : ∀ {n hdr : ℕ}, hdr = 6 ∨ hdr = 40 →
    findRouting hangingPacket n 0 hdr = none := by
  intro n
  induction n with
  | zero => exact fun _ => rfl
  | succ n ih =>
    intro hdr hhdr
    have hget : hangingPacket.get hdr = some ([⟨hdr, 1, 1280⟩], protoHbho) := by
      rcases hhdr with rfl | rfl <;> rfl
    have hlen : hangingPacket.get 41 = some ([⟨41, 1, 1280⟩], 31) := rfl
    refine bind_diverge hget ?_
    rw [if_neg (by decide), if_pos (.inl rfl)]
    exact bind_diverge hlen (ih (.inr rfl))

end MasterScheduler.Mote.ExtHeader

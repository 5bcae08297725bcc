import MasterScheduler.Mote.Frame802154

/-!
# MasterScheduler.Mote.Iphc — header compression of `sicslowpan.c`

The IPv6 header, a chain of extension headers and the UDP header, written
field by field behind two encoding bytes, and read back from them. Both sides
walk over flat memory: the sender over `uip_buf`, the receiver over the frame.
Link-layer addresses have eight bytes and `UIP_LLH_LEN` is zero.

- `compressHdrIphc`, `outputPlain`: the frame of a packet that needs no
  fragments.
- `uncompressHdrIphc`, `inputPlain`: the packet of such a frame.
-/

namespace MasterScheduler.Mote.Sicslowpan

open Lib Memory Frame802154

/-! ## Constants -/

/-- `SICSLOWPAN_DISPATCH_IPHC`. -/
def dispatchIphc : UInt8 := 0x60

/-- `SICSLOWPAN_IPHC_FL_C`: the flow label is elided. -/
def iphcFlC : UInt8 := 0x10

/-- `SICSLOWPAN_IPHC_TC_C`: the traffic class is elided. -/
def iphcTcC : UInt8 := 0x08

/-- `SICSLOWPAN_IPHC_NH_C`: the next header is compressed. -/
def iphcNhC : UInt8 := 0x04

/-- `SICSLOWPAN_IPHC_CID`: a byte with context numbers follows. -/
def iphcCid : UInt8 := 0x80

/-- `SICSLOWPAN_IPHC_SAC`. -/
def iphcSac : UInt8 := 0x40

/-- `SICSLOWPAN_IPHC_SAM_BIT`. -/
def iphcSamBit : UInt8 := 4

/-- `SICSLOWPAN_IPHC_SAM_11`. -/
def iphcSam11 : UInt8 := 0x30

/-- `SICSLOWPAN_IPHC_M`: the destination is multicast. -/
def iphcM : UInt8 := 0x08

/-- `SICSLOWPAN_IPHC_DAC`. -/
def iphcDac : UInt8 := 0x04

/-- `SICSLOWPAN_IPHC_DAM_BIT`. -/
def iphcDamBit : UInt8 := 0

/-- `SICSLOWPAN_IPHC_DAM_11`. -/
def iphcDam11 : UInt8 := 0x03

/-- `SICSLOWPAN_NHC_EXT_HDR`. -/
def nhcExtHdr : UInt8 := 0xE0

/-- `SICSLOWPAN_NHC_MASK`. -/
def nhcMask : UInt8 := 0xF0

/-- `SICSLOWPAN_NHC_BIT`. -/
def nhcBit : UInt8 := 0x01

/-- `SICSLOWPAN_NHC_UDP_ID`, which is also `SICSLOWPAN_NHC_UDP_CS_P_00`. -/
def nhcUdpId : UInt8 := 0xF0

/-- `SICSLOWPAN_NHC_UDP_MASK`. -/
def nhcUdpMask : UInt8 := 0xF8

/-- `SICSLOWPAN_NHC_UDP_CHECKSUMC`. -/
def nhcUdpChecksumC : UInt8 := 0x04

/-- `SICSLOWPAN_NHC_UDP_CS_P_01`. -/
def nhcUdpCsP01 : UInt8 := 0xF1

/-- `SICSLOWPAN_NHC_UDP_CS_P_10`. -/
def nhcUdpCsP10 : UInt8 := 0xF2

/-- `SICSLOWPAN_NHC_UDP_CS_P_11`. -/
def nhcUdpCsP11 : UInt8 := 0xF3

/-- `SICSLOWPAN_UDP_4_BIT_PORT_MIN`. -/
def udp4BitPortMin : ℕ := 0xF0B0

/-- `SICSLOWPAN_UDP_8_BIT_PORT_MIN`. -/
def udp8BitPortMin : ℕ := 0xF000

/-- `UIP_PROTO_HBHO`. -/
def protoHbho : UInt8 := 0

/-- `UIP_PROTO_UDP`. -/
def protoUdp : UInt8 := 17

/-- `UIP_PROTO_ROUTING`. -/
def protoRouting : UInt8 := 43

/-- `UIP_PROTO_FRAG`. -/
def protoFrag : UInt8 := 44

/-- `UIP_PROTO_DESTO`. -/
def protoDesto : UInt8 := 60

/-- `UIP_IPH_LEN`. -/
def iphLen : ℕ := 40

/-- `UIP_UDPH_LEN`. -/
def udphLen : ℕ := 8

/-- `MAC_MAX_PAYLOAD`. -/
def macMaxPayload : ℕ := 125

/-- `PACKETBUF_SIZE`: no reader gets further than this. -/
def packetbufSize : ℕ := 128

/-- `unc_llconf`. -/
def uncLlconf : List ℕ := [0x0f, 0x28, 0x22, 0x20]

/-- `unc_ctxconf`. -/
def uncCtxconf : List ℕ := [0x00, 0x88, 0x82, 0x80]

/-- `unc_mxconf`. -/
def uncMxconf : List ℕ := [0x0f, 0x25, 0x23, 0x21]

/-- `llprefix`. -/
def llprefixBytes : List UInt8 := [0xfe, 0x80]

/-- `ttl_values`. -/
def ttlValues : List UInt8 := [0, 1, 64, 255]

/-- `IS_COMPRESSABLE_PROTO`, with `COMPRESS_EXT_HDR`. -/
def isCompressableProto (x : UInt8) : Bool :=
  x == protoUdp || x == protoHbho || x == protoDesto || x == protoRouting || x == protoFrag

/-! ## Address contexts -/

/-- `struct sicslowpan_addr_context`. -/
structure AddrContext where
  used : Bool
  number : UInt8
  prefixBytes : List UInt8
  length_prefixBytes : prefixBytes.length = 8

/-- `addr_contexts`. The numbers in use have four bits and tell the contexts apart, as
`sicslowpan_init` gives them out. -/
structure AddrContexts where
  entries : List AddrContext
  number_lt : ∀ c ∈ entries, c.used = true → c.number.toNat < 16
  number_inj : ∀ c ∈ entries, ∀ c' ∈ entries, c.used = true → c'.used = true →
    c.number = c'.number → c = c'

/-- `addr_context_lookup_by_prefix`. -/
def lookupByPrefix (cs : AddrContexts) (ipaddr : List UInt8) : Option AddrContext :=
  cs.entries.find? fun c => c.used && c.prefixBytes == ipaddr.take 8

/-- `addr_context_lookup_by_number`. -/
def lookupByNumber (cs : AddrContexts) (number : UInt8) : Option AddrContext :=
  cs.entries.find? fun c => c.used && c.number == number

/-! ## Addresses -/

/-- `a->u8[i]`. -/
def u8 (a : List UInt8) (i : ℕ) : UInt8 := a.getD i 0

/-- `a->u16[i]`, in the order of the host. It is only compared with zero. -/
def u16 (a : List UInt8) (i : ℕ) : ℕ := word (u8 a (2 * i)) (u8 a (2 * i + 1))

/-- The interface identifier of a link-layer address: `lladdr` with the universal bit turned. -/
def iid (lladdr : Linkaddr) : List UInt8 := (u8 lladdr.u8 0 ^^^ 0x02) :: lladdr.u8.drop 1

/-- `uip_ds6_set_addr_iid`. -/
def setAddrIid (ipaddr : List UInt8) (lladdr : Linkaddr) : List UInt8 := ipaddr.take 8 ++ iid lladdr

/-- `uip_is_addr_mac_addr_based`. -/
def isAddrMacAddrBased (a : List UInt8) (m : Linkaddr) : Bool := a.drop 8 == iid m

/-- `uip_is_addr_unspecified`. -/
def isAddrUnspecified (a : List UInt8) : Bool :=
  u16 a 0 == 0 && u16 a 1 == 0 && u16 a 2 == 0 && u16 a 3 == 0 && u16 a 4 == 0 && u16 a 5 == 0 &&
    u16 a 6 == 0 && u16 a 7 == 0

/-- `uip_is_addr_linklocal`. -/
def isAddrLinklocal (a : List UInt8) : Bool := u8 a 0 == 0xfe && u8 a 1 == 0x80

/-- `uip_is_addr_mcast`. -/
def isAddrMcast (a : List UInt8) : Bool := u8 a 0 == 0xff

/-- `sicslowpan_is_iid_16_bit_compressable`. -/
def isIid16BitCompressable (a : List UInt8) : Bool :=
  u16 a 4 == 0 && u8 a 10 == 0 && u8 a 11 == 0xff && u8 a 12 == 0xfe && u8 a 13 == 0

/-- `sicslowpan_is_mcast_addr_compressable48`: FFXX::00XX:XXXX:XXXX. -/
def isMcastAddrCompressable48 (a : List UInt8) : Bool :=
  u16 a 1 == 0 && u16 a 2 == 0 && u16 a 3 == 0 && u16 a 4 == 0 && u8 a 10 == 0

/-- `sicslowpan_is_mcast_addr_compressable32`: FFXX::00XX:XXXX. -/
def isMcastAddrCompressable32 (a : List UInt8) : Bool :=
  u16 a 1 == 0 && u16 a 2 == 0 && u16 a 3 == 0 && u16 a 4 == 0 && u16 a 5 == 0 && u8 a 12 == 0

/-- `sicslowpan_is_mcast_addr_compressable8`: FF02::00XX. -/
def isMcastAddrCompressable8 (a : List UInt8) : Bool :=
  u8 a 1 == 2 && u16 a 1 == 0 && u16 a 2 == 0 && u16 a 3 == 0 && u16 a 4 == 0 && u16 a 5 == 0 &&
    u16 a 6 == 0 && u8 a 14 == 0

/-- `compress_addr_64`: the mode and the bytes sent inline. -/
def compressAddr64 (bitpos : UInt8) (ipaddr : List UInt8) (lladdr : Linkaddr) :
    UInt8 × List UInt8 :=
  if isAddrMacAddrBased ipaddr lladdr then (3 <<< bitpos, [])
  else if isIid16BitCompressable ipaddr then (2 <<< bitpos, ipaddr.drop 14)
  else (1 <<< bitpos, ipaddr.drop 8)

/-- `uncompress_addr`, with `hc06_ptr` before and after. -/
def uncompressAddr (pb : Memory) (hc06Ptr : ℕ) (prefixBytes : List UInt8) (prefPostCount : ℕ)
    (lladdr : Linkaddr) : List UInt8 × ℕ :=
  let prefcount := if prefPostCount / 16 = 15 then 16 else prefPostCount / 16
  let postcount := if prefPostCount % 16 = 15 then 16 else prefPostCount % 16
  let ipaddr := prefixBytes.take prefcount ++ List.replicate (16 - (prefcount + postcount)) 0 ++
    pb.read hc06Ptr postcount
  if 0 < postcount then
    -- 16 bits: 0000:00ff:fe00:XXXX
    (if postcount = 2 ∧ prefcount < 11 then (ipaddr.set 11 0xff).set 12 0xfe else ipaddr,
      hc06Ptr + postcount)
  else if 0 < prefcount then (setAddrIid ipaddr lladdr, hc06Ptr)
  else (ipaddr, hc06Ptr)

/-! ## Compression

Each part of `compress_hdr_iphc` sets bits of the encoding and writes bytes
behind what is written already. -/

/-- The traffic class in the order of the encoding: ECN, then DSCP. -/
def ecnDscp (vtc tcflow : UInt8) : UInt8 :=
  let tmp : UInt8 := (vtc <<< 4) ||| (tcflow >>> 4)
  ((tmp &&& 0x03) <<< 6) ||| (tmp >>> 2)

/-- Traffic class and flow label. -/
def compressTf (ip : Memory) : UInt8 × List UInt8 :=
  let vtc := ip 0
  let tcflow := ip 1
  let tmp := ecnDscp vtc tcflow
  if tcflow &&& 0x0F = 0 ∧ ip 2 = 0 ∧ ip 3 = 0 then
    if vtc &&& 0x0F = 0 ∧ tcflow &&& 0xF0 = 0 then (iphcFlC ||| iphcTcC, [])
    else (iphcFlC, [tmp])
  else if vtc &&& 0x0F = 0 ∧ tcflow &&& 0xF0 = 0 then
    (iphcTcC, [(tmp &&& 0xc0) ||| (tcflow &&& 0x0F), ip 2, ip 3])
  else (0, [tmp, tcflow, ip 2, ip 3])

/-- The next header. -/
def compressNh (ip : Memory) : UInt8 × List UInt8 :=
  if isCompressableProto (ip 6) then (iphcNhC, []) else (0, [ip 6])

/-- The hop limit. -/
def compressTtl (ip : Memory) : UInt8 × List UInt8 :=
  if ip 7 = 1 then (1, []) else if ip 7 = 64 then (2, []) else if ip 7 = 255 then (3, [])
  else (0, [ip 7])

/-- `UIP_IP_BUF->srcipaddr`. -/
def srcipaddr (ip : Memory) : List UInt8 := ip.read 8 16

/-- `UIP_IP_BUF->destipaddr`. -/
def destipaddr (ip : Memory) : List UInt8 := ip.read 24 16

/-- What the address parts write: bits of `iphc1`, bits of the context byte, bytes inline. -/
structure AddrCode where
  iphc1 : UInt8
  cid : UInt8
  bytes : List UInt8

/-- The source address. The test behind `uip_is_addr_linklocal` looks at the destination. -/
def compressSrc (cs : AddrContexts) (lladdr : Linkaddr) (ip : Memory) : AddrCode :=
  let src := srcipaddr ip
  let dest := destipaddr ip
  if isAddrUnspecified src then { iphc1 := iphcSac, cid := 0, bytes := [] }
  else
    match lookupByPrefix cs src with
    | some context =>
      let code := compressAddr64 iphcSamBit src lladdr
      { iphc1 := iphcCid ||| iphcSac ||| code.1, cid := context.number <<< 4, bytes := code.2 }
    | none =>
      if isAddrLinklocal src && u16 dest 1 == 0 && u16 dest 2 == 0 && u16 dest 3 == 0 then
        let code := compressAddr64 iphcSamBit src lladdr
        { iphc1 := code.1, cid := 0, bytes := code.2 }
      else { iphc1 := 0, cid := 0, bytes := src }

/-- The destination address. -/
def compressDest (cs : AddrContexts) (linkDestaddr : Linkaddr) (ip : Memory) : AddrCode :=
  let dest := destipaddr ip
  if isAddrMcast dest then
    if isMcastAddrCompressable8 dest then
      { iphc1 := iphcM ||| 3, cid := 0, bytes := [u8 dest 15] }
    else if isMcastAddrCompressable32 dest then
      { iphc1 := iphcM ||| 2, cid := 0, bytes := u8 dest 1 :: dest.drop 13 }
    else if isMcastAddrCompressable48 dest then
      { iphc1 := iphcM ||| 1, cid := 0, bytes := u8 dest 1 :: dest.drop 11 }
    else { iphc1 := iphcM, cid := 0, bytes := dest }
  else
    match lookupByPrefix cs dest with
    | some context =>
      let code := compressAddr64 iphcDamBit dest linkDestaddr
      { iphc1 := iphcDac ||| code.1, cid := context.number, bytes := code.2 }
    | none =>
      if isAddrLinklocal dest && u16 dest 1 == 0 && u16 dest 2 == 0 && u16 dest 3 == 0 then
        let code := compressAddr64 iphcDamBit dest linkDestaddr
        { iphc1 := code.1, cid := 0, bytes := code.2 }
      else { iphc1 := 0, cid := 0, bytes := dest }

/-- The encoding byte, the ports and the checksum of the UDP header at an address. -/
def compressUdp (ip : Memory) (p : ℕ) : List UInt8 :=
  let srcport := word (ip (p + 1)) (ip p)
  let destport := word (ip (p + 3)) (ip (p + 2))
  let ports :=
    if srcport / 16 * 16 = udp4BitPortMin ∧ destport / 16 * 16 = udp4BitPortMin then
      [nhcUdpCsP11, UInt8.ofNat ((srcport - udp4BitPortMin) * 16) +
        UInt8.ofNat (destport - udp4BitPortMin)]
    else if destport / 256 * 256 = udp8BitPortMin then
      [nhcUdpCsP01, ip p, ip (p + 1), UInt8.ofNat (destport - udp8BitPortMin)]
    else if srcport / 256 * 256 = udp8BitPortMin then
      [nhcUdpCsP10, UInt8.ofNat (srcport - udp8BitPortMin), ip (p + 2), ip (p + 3)]
    else nhcUdpId :: ip.read p 4
  ports ++ ip.read (p + 6) 2

/-- `SICSLOWPAN_NHC_ETX_HDR_HBHO` and the like, for the header a next-header byte names. -/
def nhcEtxHdr (nextHdr : UInt8) : UInt8 :=
  if nextHdr = protoHbho then 0 else if nextHdr = protoRouting then 1
  else if nextHdr = protoFrag then 2 else 3

/-- The loop over the headers behind the IP header: the bytes written and the length of the
headers they stand for. `ext_hdr_len` is what the loop has passed. A header takes eight bytes
at least, so the length of the packet is fuel enough. -/
def compressHdrs (ip : Memory) : ℕ → UInt8 → ℕ → List UInt8 × ℕ
  | 0, _, _ => ([], 0)
  | fuel + 1, nextHdr, extHdrLen =>
    if isCompressableProto nextHdr then
      if nextHdr = protoUdp then (compressUdp ip (iphLen + extHdrLen), udphLen)
      else
        let extHdr := iphLen + extHdrLen
        let len := (ip (extHdr + 1)).toNat * 8 + 8
        let next := ip extHdr
        let copy := (ip.read extHdr len).set 1 (UInt8.ofNat (len - 2))
        let nhc := nhcExtHdr ||| (if isCompressableProto next then nhcBit else 0) |||
          (nhcEtxHdr nextHdr <<< 1)
        -- The byte of an elided next header is where the encoding byte goes.
        let bytes := if isCompressableProto next then copy.set 0 nhc else nhc :: copy
        let rest := compressHdrs ip fuel next (extHdrLen + len)
        (bytes ++ rest.1, len + rest.2)
    else ([], 0)

/-- `compress_hdr_iphc`: the bytes put in the frame and `uncomp_hdr_len`. -/
def compressHdrIphc (cs : AddrContexts) (lladdr linkDestaddr : Linkaddr) (ip : Memory)
    (uipLen : ℕ) : List UInt8 × ℕ :=
  let hasCid :=
    (lookupByPrefix cs (destipaddr ip)).isSome || (lookupByPrefix cs (srcipaddr ip)).isSome
  let tf := compressTf ip
  let nh := compressNh ip
  let ttl := compressTtl ip
  let src := compressSrc cs lladdr ip
  let dest := compressDest cs linkDestaddr ip
  let hdrs := compressHdrs ip uipLen (ip 6) 0
  let iphc0 := dispatchIphc ||| tf.1 ||| nh.1 ||| ttl.1
  let iphc1 := (if hasCid then iphcCid else 0) ||| src.iphc1 ||| dest.iphc1
  ([iphc0, iphc1] ++ (if hasCid then [src.cid ||| dest.cid] else []) ++ tf.2 ++ nh.2 ++ ttl.2 ++
    src.bytes ++ dest.bytes ++ hdrs.1, iphLen + hdrs.2)

/-- `output` of a packet that fits one frame: the frame, or nothing where it needs fragments. -/
def outputPlain (cs : AddrContexts) (lladdr localdest : Linkaddr) (maxPayload : ℕ) (ip : Memory)
    (uipLen : ℕ) : Option (List UInt8) :=
  let hdr := compressHdrIphc cs lladdr localdest ip uipLen
  -- Both lengths are kept in eight bits.
  let uncompHdrLen := hdr.2 % 256
  let packetbufHdrLen := hdr.1.length % 256
  if (maxPayload : ℤ) - packetbufHdrLen < (uipLen : ℤ) - uncompHdrLen then none
  else some (hdr.1.take packetbufHdrLen ++ ip.read uncompHdrLen (uipLen - uncompHdrLen))

/-! ## Decompression -/

/-- Version 6 and the upper half of the traffic class in the order of the encoding. -/
def vtcOf (tmp : UInt8) : UInt8 := (0x60 : UInt8) ||| ((tmp >>> 2) &&& (0x0f : UInt8))

/-- ECN rolled down two steps. -/
def ecnOf (tmp : UInt8) : UInt8 := (tmp >>> 2) &&& (0x30 : UInt8)

/-- Traffic class and flow label: the first four bytes of the header. -/
def uncompressTf (pb : Memory) (iphc0 : UInt8) (p : ℕ) : List UInt8 × ℕ :=
  if iphc0 &&& iphcFlC = 0 then
    if iphc0 &&& iphcTcC = 0 then
      ([vtcOf (pb p), ecnOf (pb p) ||| (pb p <<< 6) ||| (pb (p + 1) &&& 0x0f), pb (p + 2),
        pb (p + 3)], p + 4)
    else ([0x60, (pb p &&& 0x0F) ||| ecnOf (pb p), pb (p + 1), pb (p + 2)], p + 3)
  else if iphc0 &&& iphcTcC = 0 then
    ([vtcOf (pb p), ((pb p <<< 6) &&& (0xC0 : UInt8)) ||| ecnOf (pb p), 0, 0], p + 1)
  else ([0x60, 0, 0, 0], p)

/-- The next header, where it is inline. -/
def uncompressNh (pb : Memory) (iphc0 : UInt8) (buf : Memory) (p : ℕ) : Memory × ℕ :=
  if iphc0 &&& iphcNhC = 0 then (buf.write 6 [pb p], p + 1) else (buf, p)

/-- The hop limit. -/
def uncompressTtl (pb : Memory) (iphc0 : UInt8) (p : ℕ) : UInt8 × ℕ :=
  if iphc0 &&& 0x03 ≠ 0 then (ttlValues.getD (iphc0 &&& 0x03).toNat 0, p) else (pb p, p + 1)

/-- The source address; nothing where its context is not known. -/
def uncompressSrc (cs : AddrContexts) (pb : Memory) (iphcBuf : ℕ) (iphc1 : UInt8)
    (sender : Linkaddr) (p : ℕ) : Option (List UInt8 × ℕ) :=
  let tmp := ((iphc1 &&& iphcSam11) >>> iphcSamBit) &&& 0x03
  if iphc1 &&& iphcSac ≠ 0 then
    let sci := if iphc1 &&& iphcCid ≠ 0 then pb (iphcBuf + 2) >>> 4 else 0
    -- Without a mode there is no context, and no prefix to copy.
    if tmp ≠ 0 then
      (lookupByNumber cs sci).map fun context =>
        uncompressAddr pb p context.prefixBytes (uncCtxconf.getD tmp.toNat 0) sender
    else some (uncompressAddr pb p [] (uncCtxconf.getD tmp.toNat 0) sender)
  else some (uncompressAddr pb p llprefixBytes (uncLlconf.getD tmp.toNat 0) sender)

/-- The destination address; nothing where its context is not known. The multicast forms with
a context are not implemented: the address stays as it was. -/
def uncompressDest (cs : AddrContexts) (pb : Memory) (iphcBuf : ℕ) (iphc1 : UInt8)
    (receiver : Linkaddr) (buf : Memory) (p : ℕ) : Option (List UInt8 × ℕ) :=
  let tmp := (iphc1 &&& iphcDam11) >>> iphcDamBit &&& 0x03
  if iphc1 &&& iphcM ≠ 0 then
    if iphc1 &&& iphcDac ≠ 0 then some (destipaddr buf, p)
    else if tmp ≠ 0 ∧ tmp.toNat < 3 then
      -- The address passed is never looked at: each of these forms has bytes inline.
      some (uncompressAddr pb (p + 1) [0xff, pb p] (uncMxconf.getD tmp.toNat 0) linkaddrNull)
    else some (uncompressAddr pb p [0xff, 0x02] (uncMxconf.getD tmp.toNat 0) linkaddrNull)
  else if iphc1 &&& iphcDac ≠ 0 then
    let dci := if iphc1 &&& iphcCid ≠ 0 then pb (iphcBuf + 2) &&& 0x0f else 0
    (lookupByNumber cs dci).map fun context =>
      uncompressAddr pb p context.prefixBytes (uncCtxconf.getD tmp.toNat 0) receiver
  else some (uncompressAddr pb p llprefixBytes (uncLlconf.getD tmp.toNat 0) receiver)

/-- The variables of the walk over the next headers. -/
structure HdrWalk where
  buf : Memory
  hc06Ptr : ℕ
  /-- The byte of the buffer that names the header to come. -/
  lastNextheader : ℕ
  ipPayload : ℕ
  uncompHdrLen : ℕ
  extHdrLen : ℕ
  nhc : Bool

/-- `UIP_PROTO_HBHO` and the like, for the identifier of an encoding byte. -/
def protoOfEid (eid : UInt8) : Option UInt8 :=
  if eid = 0 then some protoHbho else if eid = 1 then some protoRouting
  else if eid = 2 then some protoFrag else if eid = 3 then some protoDesto else none

/-- One extension header; an unknown one ends the decompression. -/
def uncompressExtHdr (pb : Memory) (w : HdrWalk) : Except HdrWalk HdrWalk :=
  let enc := pb w.hc06Ptr
  let nh := enc &&& 0x01
  let next := if nh = 0 then pb (w.hc06Ptr + 1) else 0
  let p := if nh = 0 then w.hc06Ptr + 2 else w.hc06Ptr + 1
  let len := (pb p).toNat
  match protoOfEid ((enc &&& 0x0e) >>> 1) with
  | none => .error { w with hc06Ptr := p + 1, nhc := nh ≠ 0 }
  | some proto =>
    -- `(2 + len) / 8 - 1` in eight bits.
    let extLen := UInt8.ofNat ((2 + len) / 8 + 255)
    let buf := (w.buf.write w.lastNextheader [proto]).write w.ipPayload [next, extLen]
    let size := (extLen.toNat + 1) * 8
    .ok
      { buf := buf.write (w.ipPayload + 2) (pb.read (p + 1) len)
        hc06Ptr := p + 1 + len
        lastNextheader := w.ipPayload
        ipPayload := w.ipPayload + size
        uncompHdrLen := (w.uncompHdrLen + size) % 256
        extHdrLen := (w.extHdrLen + size) % 256
        nhc := nh ≠ 0 }

/-- The loop over extension headers. One takes two bytes of the frame at least, so the size of
the packet buffer is fuel enough. -/
def uncompressExtHdrs (pb : Memory) : ℕ → HdrWalk → Except HdrWalk HdrWalk
  | 0, w => .ok w
  | fuel + 1, w =>
    if w.nhc ∧ pb w.hc06Ptr &&& nhcMask = nhcExtHdr then
      (uncompressExtHdr pb w).bind (uncompressExtHdrs pb fuel)
    else .ok w

/-- Two bytes in network order; a larger number is truncated. -/
def be16 (n : ℕ) : List UInt8 := [UInt8.ofNat (n / 256), UInt8.ofNat n]

/-- The ports of a UDP header and the bytes they took. -/
def uncompressPorts (pb : Memory) (p : ℕ) : List UInt8 × ℕ :=
  let cs := pb p &&& nhcUdpCsP11
  if cs = nhcUdpId then (pb.read (p + 1) 4, 5)
  else if cs = nhcUdpCsP01 then
    (pb.read (p + 1) 2 ++ be16 (udp8BitPortMin + (pb (p + 3)).toNat), 4)
  else if cs = nhcUdpCsP10 then
    (be16 (udp8BitPortMin + (pb (p + 1)).toNat) ++ pb.read (p + 2) 2, 4)
  else
    (be16 (udp4BitPortMin + (pb (p + 1) >>> 4).toNat) ++
      be16 (udp4BitPortMin + (pb (p + 1) &&& 0x0F).toNat), 2)

/-- The UDP header, where one follows. The lengths are subtracted in 16 bits. -/
def uncompressUdp (pb : Memory) (datalen ipLen : ℕ) (w : HdrWalk) : HdrWalk :=
  if w.nhc ∧ pb w.hc06Ptr &&& nhcUdpMask = nhcUdpId then
    let ports := uncompressPorts pb w.hc06Ptr
    let buf := (w.buf.write w.lastNextheader [protoUdp]).write w.ipPayload ports.1
    let p := w.hc06Ptr + ports.2
    let elided := pb w.hc06Ptr &&& nhcUdpChecksumC ≠ 0
    let p' := if elided then p else p + 2
    let buf := if elided then buf else buf.write (w.ipPayload + 6) (pb.read p 2)
    let udpLen := if ipLen = 0 then 8 + datalen + 65536 - p'
      else ipLen + 65536 - iphLen - w.extHdrLen
    { w with
      buf := buf.write (w.ipPayload + 4) (be16 udpLen)
      hc06Ptr := p'
      uncompHdrLen := (w.uncompHdrLen + udphLen) % 256 }
  else w

/-- What `uncompress_hdr_iphc` leaves: the buffer and the two header lengths. -/
structure Uncompressed where
  buf : Memory
  packetbufHdrLen : ℕ
  uncompHdrLen : ℕ

/-- The headers behind the IP header and the IP length field. -/
def uncompressNext (pb : Memory) (datalen ipLen packetbufHdrLen : ℕ) (w : HdrWalk) :
    Uncompressed :=
  match uncompressExtHdrs pb packetbufSize w with
  | .error w => ⟨w.buf, packetbufHdrLen, w.uncompHdrLen⟩
  | .ok w =>
    let w := uncompressUdp pb datalen ipLen w
    let hdrLen := w.hc06Ptr % 256
    let len := if ipLen = 0 then datalen + 65536 - hdrLen + w.uncompHdrLen - iphLen
      else ipLen + 65536 - iphLen
    ⟨w.buf.write 4 (be16 len), hdrLen, w.uncompHdrLen⟩

/-- `uncompress_hdr_iphc`. `ip_len` is zero for a packet that is no fragment. -/
def uncompressHdrIphc (cs : AddrContexts) (pb : Memory) (datalen : ℕ) (sender receiver : Linkaddr)
    (packetbufHdrLen : ℕ) (buf : Memory) (ipLen : ℕ) : Uncompressed :=
  let iphc0 := pb packetbufHdrLen
  let iphc1 := pb (packetbufHdrLen + 1)
  let p := packetbufHdrLen + (if iphc1 &&& iphcCid ≠ 0 then 3 else 2)
  let tf := uncompressTf pb iphc0 p
  let nh := uncompressNh pb iphc0 (buf.write 0 tf.1) tf.2
  let ttl := uncompressTtl pb iphc0 nh.2
  let buf := nh.1.write 7 [ttl.1]
  match uncompressSrc cs pb packetbufHdrLen iphc1 sender ttl.2 with
  | none => ⟨buf, packetbufHdrLen, 0⟩
  | some src =>
    let buf := buf.write 8 src.1
    match uncompressDest cs pb packetbufHdrLen iphc1 receiver buf src.2 with
    | none => ⟨buf, packetbufHdrLen, 0⟩
    | some dest =>
      uncompressNext pb datalen ipLen packetbufHdrLen
        { buf := buf.write 24 dest.1
          hc06Ptr := dest.2
          lastNextheader := 6
          ipPayload := iphLen
          uncompHdrLen := iphLen
          extHdrLen := 0
          nhc := iphc0 &&& iphcNhC ≠ 0 }

/-! ## Input -/

/-- A fragmentation header stands in front: `SICSLOWPAN_DISPATCH_FRAG1` or
`SICSLOWPAN_DISPATCH_FRAGN`. -/
def isFragment (dispatch : UInt8) : Bool :=
  dispatch &&& 0xf8 == 0xc0 || dispatch &&& 0xf8 == 0xe0

/-- `input` from the paging dispatch to the end of the headers. `digest_6lorh_hdr` does
nothing. -/
def inputHeaders (cs : AddrContexts) (pb : Memory) (datalen : ℕ) (sender receiver : Linkaddr)
    (packetbufHdrLen : ℕ) (buf : Memory) (fragSize : ℕ) : Option Uncompressed :=
  let paged : Bool := pb packetbufHdrLen &&& 0xf0 == 0xf0
  if paged ∧ 1 < (pb packetbufHdrLen &&& 0x0f).toNat then none
  else
    let hdrLen := if paged then packetbufHdrLen + 1 else packetbufHdrLen
    if pb hdrLen &&& 0xe0 = dispatchIphc then
      some (uncompressHdrIphc cs pb datalen sender receiver hdrLen buf fragSize)
    else if pb hdrLen = 0x41 then
      -- `SICSLOWPAN_DISPATCH_IPV6`: the header is inline.
      some ⟨buf.write 0 (pb.read (hdrLen + 1) iphLen), hdrLen + 1 + iphLen, iphLen⟩
    else none

/-- `input` on a frame without fragmentation header: `uip_buf` and `uip_len` as
`tcpip_input` finds them, or nothing where the frame is dropped. -/
def inputPlain (cs : AddrContexts) (pb : Memory) (datalen : ℕ) (sender receiver : Linkaddr)
    (uipBufSize : ℕ) (uipBuf : Memory) : Option (Memory × ℕ) :=
  if datalen = 0 then none
  else
    (inputHeaders cs pb datalen sender receiver 0 uipBuf 0).bind fun u =>
      if datalen < u.packetbufHdrLen then none
      else
        let payloadLen := datalen - u.packetbufHdrLen
        if uipBufSize < u.uncompHdrLen + payloadLen then none
        else
          some (u.buf.write u.uncompHdrLen (pb.read u.packetbufHdrLen payloadLen),
            payloadLen + u.uncompHdrLen)

end MasterScheduler.Mote.Sicslowpan

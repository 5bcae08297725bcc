import Mathlib.Algebra.Order.Ring.Nat
import MasterScheduler.Lib.Bytes

/-!
# MasterScheduler.Mote.Coap — CoAP messages

`coap_serialize_message` writes a packet as a header, a token, options in the
order of their numbers, and a payload. `coap_parse_message` reads such bytes in
place: strings are pointers into the message, and the parts of a path or a query
are moved together while what follows them is still to be parsed.

1. **Packet**: `coap_packet_t`, with its options grouped by how they are treated.
2. **Serializer**: the bytes of a packet.
3. **Parser**: the packet of a message, with everything that it reads and writes.

Pointers are offsets from the start of the message.
-/

namespace MasterScheduler.Mote.Coap

open Lib

/-! ## Packet -/

/-- `COAP_MAX_HEADER_SIZE` and `REST_MAX_CHUNK_SIZE`. Their sum is compared with the size of the
packet buffer when the code is compiled. -/
structure Config where
  maxHeaderSize : ℕ
  restMaxChunkSize : ℕ
  fits : maxHeaderSize + restMaxChunkSize < 65535

/-- The values that the code sets by default. -/
def Config.default : Config := ⟨62, 64, by decide⟩

/-- `coap_message_type_t`. -/
inductive MessageType
  | con
  | non
  | ack
  | rst
deriving DecidableEq

/-- The value of an enumerator. -/
def MessageType.toByte : MessageType → UInt8
  | con => 0
  | non => 1
  | ack => 2
  | rst => 3

/-- The type with the two bits of a header. -/
def MessageType.ofByte (b : UInt8) : MessageType :=
  if b = 0 then con else if b = 1 then non else if b = 2 then ack else rst

/-- The options that are integers. -/
inductive IntOption
  | observe
  | uriPort
  | contentFormat
  | maxAge
  | accept
  | size2
  | size1
deriving DecidableEq

/-- The width of the field of an integer option. -/
def IntOption.bits : IntOption → ℕ
  | observe | maxAge | size2 | size1 => 32
  | uriPort | contentFormat | accept => 16

/-- The options of at most eight bytes. -/
inductive BytesOption
  | ifMatch
  | etag
deriving DecidableEq

/-- The options that describe a block. -/
inductive BlockOption
  | block2
  | block1
deriving DecidableEq

/-- The options that are strings. -/
inductive StringOption
  | uriHost
  | locationPath
  | uriPath
  | uriQuery
  | locationQuery
  | proxyUri
  | proxyScheme
deriving DecidableEq

/-- `coap_option_t`. -/
inductive CoapOption
  | int (o : IntOption)
  | bytes (o : BytesOption)
  | block (o : BlockOption)
  | string (o : StringOption)
  | ifNoneMatch
deriving DecidableEq

/-- The value of an enumerator. -/
def CoapOption.number : CoapOption → ℕ
  | bytes .ifMatch => 1
  | string .uriHost => 3
  | bytes .etag => 4
  | ifNoneMatch => 5
  | int .observe => 6
  | int .uriPort => 7
  | string .locationPath => 8
  | string .uriPath => 11
  | int .contentFormat => 12
  | int .maxAge => 14
  | string .uriQuery => 15
  | int .accept => 17
  | string .locationQuery => 20
  | block .block2 => 23
  | block .block1 => 27
  | int .size2 => 28
  | string .proxyUri => 35
  | string .proxyScheme => 39
  | int .size1 => 60

/-- `COAP_OPTION_SIZE1`, the largest number. -/
def coapOptionSize1 : ℕ := 60

/-- An array of eight bytes with its length. -/
structure ShortBytes where
  len : UInt8
  array : Memory

/-- The fields of a block option. -/
structure Block where
  num : UInt32
  more : UInt8
  size : UInt16
  offset : UInt32
deriving DecidableEq

/-- `coap_packet_t`. `Str` is how strings are held. -/
structure CoapPacket (Str : Type) where
  version : UInt8
  type : MessageType
  code : UInt8
  mid : UInt16
  tokenLen : UInt8
  token : Memory
  /-- The bitmap of the options that are set. -/
  options : ℕ → Bool
  /-- A field of 16 bits holds a value of 16 bits, and `observe` the bits of its value. -/
  ints : IntOption → UInt32
  bytes : BytesOption → ShortBytes
  blocks : BlockOption → Block
  strings : StringOption → Str
  ifNoneMatch : UInt8
  payload : Str

/-- `SET_OPTION`. -/
def CoapPacket.setOption {Str : Type} (pkt : CoapPacket Str) (opt : ℕ) : CoapPacket Str :=
  { pkt with options := fun n => if n = opt then true else pkt.options n }

/-- A string elsewhere in memory: its bytes, what lies behind them, and its length. -/
structure CString where
  bytes : Memory
  len : ℕ

/-- A string in the message that is parsed. -/
structure Slice where
  start : ℕ
  len : ℕ
deriving DecidableEq

/-! ## Serializer -/

/-- `coap_option_nibble`. -/
def coapOptionNibble (value : ℕ) : UInt8 :=
  if value < 13 then UInt8.ofNat value else if value ≤ 0xff + 13 then 13 else 14

/-- The bytes with which a delta or a length is continued. -/
def extension (value : ℕ) : List UInt8 :=
  if 268 < value then [UInt8.ofNat ((value - 269) / 256), UInt8.ofNat (value - 269)]
  else if 12 < value then [UInt8.ofNat (value - 13)]
  else []

/-- `coap_set_option_header`. -/
def coapSetOptionHeader (delta length : ℕ) : List UInt8 :=
  (coapOptionNibble delta <<< 4 ||| coapOptionNibble length) ::
    (extension delta ++ extension length)

/-- The bytes of a number without leading zeros. -/
def intBytes (value : UInt32) : List UInt8 :=
  (if 0xff000000 &&& value ≠ 0 then [(value >>> 24).toUInt8] else []) ++
  (if 0xffff0000 &&& value ≠ 0 then [(value >>> 16).toUInt8] else []) ++
  (if 0xffffff00 &&& value ≠ 0 then [(value >>> 8).toUInt8] else []) ++
  (if 0xffffffff &&& value ≠ 0 then [value.toUInt8] else [])

/-- `coap_serialize_int_option`. -/
def coapSerializeIntOption (number currentNumber : ℕ) (value : UInt32) : List UInt8 :=
  coapSetOptionHeader (number - currentNumber) (intBytes value).length ++ intBytes value

/-- The loop of `coap_serialize_array_option`. It looks at the byte behind the array. -/
def splitLoop (array : Memory) (length : ℕ) (splitChar : UInt8) (number : ℕ) :
    ℕ → ℕ → ℕ → ℕ → List UInt8
  | 0, _, _, _ => []
  | fuel + 1, j, partStart, currentNumber =>
    if j ≤ length + 1 then
      if array j = splitChar ∨ j = length then
        let tempLength := j - partStart
        coapSetOptionHeader (number - currentNumber) tempLength ++
          array.read partStart tempLength ++
          -- the splitter is skipped, and then the loop counts
          splitLoop array length splitChar number fuel (j + 1 + 1) (j + 1) number
      else splitLoop array length splitChar number fuel (j + 1) partStart currentNumber
    else []

/-- `coap_serialize_array_option`. -/
def coapSerializeArrayOption (number currentNumber : ℕ) (array : Memory) (length : ℕ)
    (splitChar : UInt8) : List UInt8 :=
  if splitChar ≠ 0 then splitLoop array length splitChar number (length + 3) 0 0 currentNumber
  else coapSetOptionHeader (number - currentNumber) length ++ array.read 0 length

/-- The splitters with which `coap_serialize_message` calls it. -/
def StringOption.splitter : StringOption → UInt8
  | locationPath | uriPath => 0x2f
  | uriQuery | locationQuery => 0x26
  | uriHost | proxyUri | proxyScheme => 0

/-- The rounds of `coap_log_2`. -/
def log2Rounds : ℕ → UInt16 → ℕ
  | 0, _ => 0
  | fuel + 1, value => if value >>> 1 = 0 then 1 else log2Rounds fuel (value >>> 1) + 1

/-- `coap_log_2`. -/
def coapLog2 (value : UInt16) : UInt32 :=
  UInt32.ofNat (log2Rounds 17 value - 1)

/-- The number that `COAP_SERIALIZE_BLOCK_OPTION` makes of a block. -/
def Block.encode (b : Block) : UInt32 :=
  let block := b.num <<< 4
  let block := if b.more ≠ 0 then block ||| 8 else block
  block ||| (0xf &&& coapLog2 (b.size / 16))

/-- The `COAP_SERIALIZE_*_OPTION` of an option that is set. -/
def serializeOption (pkt : CoapPacket CString) (o : CoapOption) (currentNumber : ℕ) : List UInt8 :=
  match o with
  | .int i => coapSerializeIntOption o.number currentNumber (pkt.ints i)
  | .ifNoneMatch => coapSerializeIntOption o.number currentNumber 0
  | .block b => coapSerializeIntOption o.number currentNumber (pkt.blocks b).encode
  | .bytes b =>
      coapSerializeArrayOption o.number currentNumber (pkt.bytes b).array (pkt.bytes b).len.toNat 0
  | .string s =>
      coapSerializeArrayOption o.number currentNumber (pkt.strings s).bytes (pkt.strings s).len
        s.splitter

/-- The options in the order in which they are serialized. -/
def coapOptions : List CoapOption :=
  [.bytes .ifMatch, .string .uriHost, .bytes .etag, .ifNoneMatch, .int .observe, .int .uriPort,
    .string .locationPath, .string .uriPath, .int .contentFormat, .int .maxAge, .string .uriQuery,
    .int .accept, .string .locationQuery, .block .block2, .block .block1, .int .size2,
    .string .proxyUri, .string .proxyScheme, .int .size1]

/-- The options that are set. -/
def serializeOptions (pkt : CoapPacket CString) : List CoapOption → ℕ → List UInt8
  | [], _ => []
  | o :: os, currentNumber =>
    if pkt.options o.number then
      serializeOption pkt o currentNumber ++ serializeOptions pkt os o.number
    else serializeOptions pkt os currentNumber

/-- The first byte of a message: the version, the type and the length of the token. -/
def serializeFirst (pkt : CoapPacket CString) : UInt8 :=
  let version : UInt8 := 1
  (0xc0 : UInt8) &&& version <<< 6 ||| (0x30 : UInt8) &&& pkt.type.toByte <<< 4 |||
    (0x0f : UInt8) &&& pkt.tokenLen

/-- `coap_serialize_message`: the bytes of the message, or the error where it returns 0. -/
def coapSerializeMessage (cfg : Config) (pkt : CoapPacket CString) : Except String (List UInt8) :=
  let header := [serializeFirst pkt, pkt.code, (pkt.mid >>> 8).toUInt8, pkt.mid.toUInt8]
  if pkt.code = 0 then .ok header
  else
    let header := header ++ pkt.token.read 0 pkt.tokenLen.toNat ++
      serializeOptions pkt coapOptions 0
    if header.length ≤ cfg.maxHeaderSize then
      .ok (header ++ (if pkt.payload.len ≠ 0 then [0xff] else []) ++
        pkt.payload.bytes.read 0 pkt.payload.len)
    else .error "Serialized header exceeds COAP_MAX_HEADER_SIZE"

/-! ## Parser -/

/-- The results of `coap_parse_message`, of `coap_status_t`. -/
inductive Status
  | noError
  | badRequest400
  | badOption402
  | proxyingNotSupported505
deriving DecidableEq

/-- What the parser does with the message. -/
inductive Access
  | read (start len : ℕ)
  | write (start len : ℕ)
  /-- The zero behind a payload. -/
  | terminate (start : ℕ)
deriving DecidableEq

/-- The state of the parser. -/
structure Parser where
  pkt : CoapPacket Slice
  mem : Memory
  currentOption : ℕ
  optionNumber : ℕ
  trace : List Access

/-- What a round of the loop ends with. -/
inductive Control
  | next
  | stop (status : Status) (errorMessage : Option String)

/-- The result of the parser, with the text that it sets as `coap_error_message`. -/
structure Parsed where
  status : Status
  errorMessage : Option String
  parser : Parser

/-- `coap_parse_int_option`. -/
def coapParseIntOption (bytes : List UInt8) : UInt32 :=
  bytes.foldl (fun var b => var <<< 8 ||| b.toUInt32) 0

/-- A delta or a length whose nibble was read, and the pointer behind it. -/
def readExtension (m : Memory) (p nibble : ℕ) : ℕ × ℕ :=
  if nibble = 13 then (nibble + (m p).toNat, p + 1)
  else if nibble = 14 then (nibble + 255 + (m p).toNat * 256 + (m (p + 1)).toNat, p + 2)
  else (nibble, p)

/-- The delta and the length of an option, and the pointer behind them. -/
def readHeader (m : Memory) (p : ℕ) : ℕ × ℕ × ℕ :=
  let (delta, q) := readExtension m (p + 1) (m p >>> 4).toNat
  let (length, q) := readExtension m q (m p &&& 0x0f).toNat
  (delta, length, q)

/-- `coap_merge_multi_option`, for a string of the packet. -/
def Parser.mergeMultiOption (s : Parser) (o : StringOption) (optionLen : ℕ) (separator : UInt8) :
    Parser :=
  let dst := s.pkt.strings o
  if 0 < dst.len then
    { s with
      mem := (s.mem.write (dst.start + dst.len) [separator]).move (dst.start + dst.len + 1)
        s.currentOption optionLen
      pkt := { s.pkt with
        strings := Function.update s.pkt.strings o ⟨dst.start, dst.len + 1 + optionLen⟩ }
      trace := s.trace ++ [.write (dst.start + dst.len) 1, .read s.currentOption optionLen,
        .write (dst.start + dst.len + 1) optionLen] }
  else
    { s with pkt := { s.pkt with
        strings := Function.update s.pkt.strings o ⟨s.currentOption, optionLen⟩ } }

/-- The separators with which `coap_parse_message` calls it. -/
def StringOption.separator : StringOption → UInt8
  | locationPath | uriPath => 0x2f
  | uriQuery | locationQuery => 0x26
  | uriHost | proxyUri | proxyScheme => 0

/-- What `coap_parse_message` makes of the number of a block. -/
def Block.decode (num : UInt32) : Block where
  num := num >>> 4
  more := ((num &&& 0x08) >>> 3).toUInt8
  size := 16 <<< (num &&& 0x07).toUInt16
  offset := (num &&& 0xfffffff0) <<< (num &&& 0x07)

/-- A number, as a field of an integer option keeps it. -/
def IntOption.truncate (o : IntOption) (value : UInt32) : UInt32 :=
  UInt32.ofNat (value.toNat % 2 ^ o.bits)

/-- The cases of the `switch` for the options that are known, without proxy options. -/
def Parser.parseKnown (s : Parser) (o : CoapOption) (optionLength : ℕ) : Parser × Control :=
  let touched := { s with trace := s.trace ++ [Access.read s.currentOption optionLength] }
  let value := coapParseIntOption (s.mem.read s.currentOption optionLength)
  match o with
  | .int i =>
      ({ touched with pkt := { s.pkt with
          ints := Function.update s.pkt.ints i (i.truncate value) } }, .next)
  | .block b =>
      ({ touched with pkt := { s.pkt with
          blocks := Function.update s.pkt.blocks b (.decode value) } }, .next)
  | .bytes b =>
      let len := min 8 optionLength
      ({ s with
          pkt := { s.pkt with
            bytes := Function.update s.pkt.bytes b ⟨UInt8.ofNat len,
              (s.pkt.bytes b).array.write 0 (s.mem.read s.currentOption len)⟩ }
          trace := s.trace ++ [.read s.currentOption len] }, .next)
  | .ifNoneMatch => ({ s with pkt := { s.pkt with ifNoneMatch := 1 } }, .next)
  | .string .uriHost =>
      ({ s with pkt := { s.pkt with
          strings := Function.update s.pkt.strings .uriHost ⟨s.currentOption, optionLength⟩ } },
        .next)
  | .string .proxyUri | .string .proxyScheme =>
      (s, .stop .proxyingNotSupported505 (some "This is a constrained server (Contiki)"))
  | .string o => (s.mergeMultiOption o optionLength o.separator, .next)

/-- The option with a number. -/
def ofNumber (number : ℕ) : Option CoapOption := coapOptions.find? (·.number = number)

/-- The `switch`. -/
def Parser.parseValue (s : Parser) (optionLength : ℕ) : Parser × Control :=
  match ofNumber s.optionNumber with
  | some o => s.parseKnown o optionLength
  | none =>
    -- critical options are odd
    if s.optionNumber % 2 = 1 then
      (s, .stop .badOption402 (some "Unsupported critical option"))
    else (s, .next)

/-- The payload behind its marker. -/
def Parser.parsePayload (cfg : Config) (dataLen : ℕ) (s : Parser) : Parser :=
  let payload := s.currentOption + 1
  let payloadLen := min (dataLen - payload) cfg.restMaxChunkSize
  { s with
    pkt := { s.pkt with payload := ⟨payload, payloadLen⟩ }
    mem := s.mem.write (payload + payloadLen) [0]
    currentOption := payload
    trace := s.trace ++ [.read s.currentOption 1, .terminate (payload + payloadLen)] }

/-- A round of the loop. -/
def Parser.round (cfg : Config) (dataLen : ℕ) (s : Parser) : Parser × Control :=
  if s.mem s.currentOption &&& 0xf0 = 0xf0 then (s.parsePayload cfg dataLen, .stop .noError none)
  else
    let (optionDelta, optionLength, p) := readHeader s.mem s.currentOption
    let s := { s with
      currentOption := p
      trace := s.trace ++ [.read s.currentOption (p - s.currentOption)] }
    if dataLen < p + optionLength then (s, .stop .badRequest400 none)
    else
      let s := { s with optionNumber := s.optionNumber + optionDelta }
      if coapOptionSize1 < s.optionNumber then (s, .stop .badRequest400 none)
      else
        let s := { s with pkt := s.pkt.setOption s.optionNumber }
        let (s, control) := s.parseValue optionLength
        ({ s with currentOption := p + optionLength }, control)

/-- The loop `while(current_option < data + data_len)`. -/
def parseLoop (cfg : Config) (dataLen : ℕ) : ℕ → Parser → Option Parsed
  | 0, _ => none
  | fuel + 1, s =>
    if s.currentOption < dataLen then
      match s.round cfg dataLen with
      | (s, .next) => parseLoop cfg dataLen fuel s
      | (s, .stop status errorMessage) => some ⟨status, errorMessage, s⟩
    else some ⟨.noError, none, s⟩

/-- The packet after `memset`. -/
def CoapPacket.zero : CoapPacket Slice where
  version := 0
  type := .con
  code := 0
  mid := 0
  tokenLen := 0
  token := fun _ => 0
  options := fun _ => false
  ints := fun _ => 0
  bytes := fun _ => ⟨0, fun _ => 0⟩
  blocks := fun _ => ⟨0, 0, 0, 0⟩
  strings := fun _ => ⟨0, 0⟩
  ifNoneMatch := 0
  payload := ⟨0, 0⟩

/-- The packet with the fields of the header. -/
def parseHeader (m : Memory) : CoapPacket Slice :=
  { CoapPacket.zero with
    version := (0xc0 &&& m 0) >>> 6
    type := .ofByte ((0x30 &&& m 0) >>> 4)
    tokenLen := 0x0f &&& m 0
    code := m 1
    mid := (m 2).toUInt16 <<< 8 ||| (m 3).toUInt16 }

/-- `COAP_HEADER_LEN`. -/
def coapHeaderLen : ℕ := 4

/-- The parser in front of the options, with the token copied. -/
def Parser.start (m : Memory) : Parser :=
  let pkt := parseHeader m
  { pkt := { pkt with token := pkt.token.write 0 (m.read coapHeaderLen pkt.tokenLen.toNat) }
    mem := m
    currentOption := coapHeaderLen + pkt.tokenLen.toNat
    optionNumber := 0
    trace := [.read 0 coapHeaderLen, .read coapHeaderLen pkt.tokenLen.toNat] }

/-- `coap_parse_message`. Every round takes at least a byte. -/
def coapParseMessage (cfg : Config) (m : Memory) (dataLen : ℕ) : Option Parsed :=
  let pkt := parseHeader m
  let header : Parser := ⟨pkt, m, 0, 0, [.read 0 coapHeaderLen]⟩
  if pkt.version ≠ 1 then some ⟨.badRequest400, some "CoAP version must be 1", header⟩
  else if 8 < pkt.tokenLen then
    some ⟨.badRequest400, some "Token Length must not be more than 8", header⟩
  else parseLoop cfg dataLen (dataLen + 1) (.start m)

end MasterScheduler.Mote.Coap

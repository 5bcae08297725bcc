import Mathlib.Data.UInt
import MasterScheduler.Lib.Words
import MasterScheduler.Mote.CcmStar
import MasterScheduler.Mote.ElementOffset
import MasterScheduler.Mote.Frame802154

/-!
# MasterScheduler.Mote.Security — link-layer security

`tsch-security.c` authenticates and encrypts a frame. Both sides look for the
information elements behind the header, to leave the header elements in the
clear; the sender does so in the plain text and the receiver in the cipher text.

1. **Model**: the header with its security part, securing and parsing a frame.
2. **Header**: it is read from the bytes before the data.
3. **Round trip**: a frame survives, whatever the block cipher, unless its data
   is encrypted and is not a sequence of information elements.

The frame counter and the key source of a header are left out.
-/

namespace MasterScheduler.Mote.Security

open Lib Frame802154 Hopping CcmStar

/-! ## Model -/

/-- `frame802154_aux_hdr_t`. -/
structure AuxHdr where
  securityLevel : UInt8
  keyIdMode : UInt8
  frameCounterSuppression : UInt8
  frameCounterSize : UInt8
  keyIndex : UInt8
deriving DecidableEq

/-- `frame802154_t`, with its auxiliary security header. -/
structure FullFrame where
  frame : Frame
  auxHdr : AuxHdr

/-- The security part of `frame802154_parse`, with the pointer behind it. A header without a key
identifier leaves the key index as it was. -/
def parseAuxHdr (m : Memory) (p : ℕ) (old : AuxHdr) : AuxHdr × ℕ :=
  let aux := { old with
    securityLevel := m p &&& 7
    keyIdMode := (m p >>> 3) &&& 3
    frameCounterSuppression := m p >>> 5
    frameCounterSize := m p >>> 6 }
  let p := p + 1
  let p := if aux.frameCounterSuppression = 0 then
      if aux.frameCounterSize = 1 then p + 5 else p + 4
    else p
  if aux.keyIdMode ≠ 0 then
    let p := p + (aux.keyIdMode.toNat - 1) * 4
    ({ aux with keyIndex := m p }, p + 1)
  else (aux, p)

/-- `frame802154_parse` with `LLSEC802154_USES_EXPLICIT_KEYS`. -/
def frame802154Parse (m : Memory) (data len : ℕ) (pf : FullFrame) : FullFrame × ℕ :=
  if len < 2 then (pf, 0)
  else
    let frame := (Frame802154.parse m data len pf.frame).1
    let (auxHdr, p) := if frame.fcf.securityEnabled then parseAuxHdr m frame.payload pf.auxHdr
      else (pf.auxHdr, frame.payload)
    let c := p - data
    (⟨{ frame with payload := p, payloadLen := (len : ℤ) - c }, auxHdr⟩, if len < c then 0 else c)

/-- The key indices and security levels that are required, by frame type. -/
structure Required where
  keyIndexEb : UInt8
  secLevelEb : UInt8
  keyIndexAck : UInt8
  secLevelAck : UInt8
  keyIndexOther : UInt8
  secLevelOther : UInt8

/-- `TSCH_SECURITY_KEY_INDEX_*` and `TSCH_SECURITY_KEY_SEC_LEVEL_*`. -/
def Required.default : Required := ⟨1, 1, 2, 5, 2, 5⟩

/-- `tsch_security_check_level`. -/
def tschSecurityCheckLevel (cfg : Required) (isAssociated isPanSecured : Bool)
    (frame : FullFrame) : Bool :=
  if !frame.frame.fcf.securityEnabled then !(isAssociated && isPanSecured)
  else if isAssociated && !isPanSecured then false
  else
    let (level, index) :=
      if frame.frame.fcf.frameType = beaconFrame then (cfg.secLevelEb, cfg.keyIndexEb)
      else if frame.frame.fcf.frameType = ackFrame then (cfg.secLevelAck, cfg.keyIndexAck)
      else (cfg.secLevelOther, cfg.keyIndexOther)
    decide (frame.auxHdr.securityLevel = level) && decide (frame.auxHdr.keyIndex = index)

/-- `tsch_security_mic_len`. -/
def tschSecurityMicLen (frame : FullFrame) : ℕ :=
  if frame.frame.fcf.securityEnabled then 2 <<< (frame.auxHdr.securityLevel.toNat % 4) else 0

/-- `TSCH_SECURITY_K1`. -/
def k1 : Block := fun i => [0x36, 0x54, 0x69, 0x53, 0x43, 0x48, 0x20, 0x6d, 0x69, 0x6e, 0x69,
  0x6d, 0x61, 0x6c, 0x31, 0x35].getD i.val 0

/-- `TSCH_SECURITY_K2`. -/
def k2 : Block := fun i => [0xde, 0xad, 0xbe, 0xef, 0xfa, 0xce, 0xca, 0xfe, 0xde, 0xad, 0xbe,
  0xef, 0xfa, 0xce, 0xca, 0xfe].getD i.val 0

/-- `keys`. -/
def keys : List Block := [k1, k2]

/-- `tsch_security_init_nonce`. -/
def initNonce (sender : Linkaddr) (asn : Asn) : ℕ → UInt8 := fun i =>
  (sender.u8 ++ [asn.ms1b, UInt8.ofNat (asn.ls4b.toNat / 16777216),
    UInt8.ofNat (asn.ls4b.toNat / 65536), UInt8.ofNat (asn.ls4b.toNat / 256),
    UInt8.ofNat asn.ls4b.toNat]).getD i 0

/-- `frame802154e_parse_information_elements` on a buffer in memory. The parser may look at
eight bytes behind the buffer. -/
def parseIes (m : Memory) (buf size : ℕ) : Elements.Parsed :=
  Elements.parseLoop false (size + 1)
    { Elements.Parser.init (m.read buf (size + 8)) .zero with bufSize := UInt8.ofNat size }

/-- More rounds than the positions of 8 bits that a loop of CCM* visits. -/
def rounds : ℕ := 17

/-- `a_len` and `m_len`. -/
def aeadLens (aux : AuxHdr) (hdrlen datalen : ℕ) : UInt8 × UInt8 :=
  if aux.securityLevel &&& 4 ≠ 0 then (UInt8.ofNat hdrlen, UInt8.ofNat datalen)
  else (UInt8.ofNat (hdrlen + datalen), 0)

/-- By how much the sender moves the end of the header. -/
def secureOffset (ies : Elements.Parsed) : Option ℕ :=
  match ies.result with
  | .ok n => some (if 0 < n then ies.ies.iePayloadIeOffset.toNat else 0)
  | .error .reject => some 0
  | .error _ => none

/-- By how much the receiver moves the end of the header: it does not look at the result. -/
def parseOffset (ies : Elements.Parsed) : Option ℕ :=
  match ies.result with
  | .ok _ | .error .reject => some ies.ies.iePayloadIeOffset.toNat
  | .error _ => none

/-- `tsch_security_secure_frame` of the node with address `node`. `pf` is what the local record
of the frame holds before it is filled. -/
def tschSecuritySecureFrame (aes : Block → Block → Block) (node : Linkaddr) (m : Memory)
    (hdr outbuf hdrlen datalen : ℕ) (asn : Asn) (pf : FullFrame) : Option (ℕ × Memory) :=
  let (frame, len) := frame802154Parse m hdr (hdrlen + datalen) pf
  if len < 3 then some (0, m)
  else
    (secureOffset (parseIes m (hdr + hdrlen) datalen)).bind fun offset =>
      let hdrlen := hdrlen + offset
      let datalen := datalen - offset
      if !frame.frame.fcf.securityEnabled then some (0, m)
      else
        let micLen := tschSecurityMicLen frame
        if frame.auxHdr.keyIndex = 0 ∨ keys.length < frame.auxHdr.keyIndex.toNat then some (0, m)
        else
          let (aLen, mLen) := aeadLens frame.auxHdr hdrlen datalen
          let m := if hdr ≠ outbuf then m.move outbuf hdr (aLen.toNat + mLen.toNat) else m
          (aead (aes (keys.getD (frame.auxHdr.keyIndex.toNat - 1) 0)) rounds (initNonce node asn) m
            (outbuf + aLen.toNat) mLen outbuf aLen (outbuf + hdrlen + datalen)
            (UInt8.ofNat micLen) true).map fun m => (micLen, m)

/-- `tsch_security_parse_frame`, with the local MIC at `generatedMic`. -/
def tschSecurityParseFrame (aes : Block → Block → Block) (cfg : Required)
    (isAssociated isPanSecured : Bool) (m : Memory) (hdr hdrlen datalen : ℕ) (frame : FullFrame)
    (sender : Linkaddr) (asn : Asn) (generatedMic : ℕ) : Option (ℕ × Memory) :=
  if !tschSecurityCheckLevel cfg isAssociated isPanSecured frame then some (0, m)
  else if !frame.frame.fcf.securityEnabled then some (1, m)
  else
    let micLen := tschSecurityMicLen frame
    if frame.auxHdr.keyIndex = 0 ∨ keys.length < frame.auxHdr.keyIndex.toNat then some (0, m)
    else
      (parseOffset (parseIes m (hdr + hdrlen) datalen)).bind fun offset =>
        let hdrlen := hdrlen + offset
        let datalen := datalen - offset
        let (aLen, mLen) := aeadLens frame.auxHdr hdrlen datalen
        (aead (aes (keys.getD (frame.auxHdr.keyIndex.toNat - 1) 0)) rounds (initNonce sender asn) m
          (hdr + aLen.toNat) mLen hdr aLen generatedMic (UInt8.ofNat micLen) false).map fun m =>
          (if 0 < micLen ∧ m.read generatedMic micLen ≠ m.read (hdr + hdrlen + datalen) micLen
            then 0 else 1, m)

/-- `tsch_rx_slot`, as far as it parses a frame of `len` bytes. -/
def receive (aes : Block → Block → Block) (cfg : Required) (isAssociated isPanSecured : Bool)
    (m : Memory) (payload len : ℕ) (pf : FullFrame) (sender : Linkaddr) (asn : Asn)
    (generatedMic : ℕ) : Option (ℕ × Memory) :=
  let (frame, headerLen) := frame802154Parse m payload len pf
  tschSecurityParseFrame aes cfg isAssociated isPanSecured m payload headerLen
    (len - headerLen - tschSecurityMicLen frame) frame sender asn generatedMic

/-! ## Header -/

section

variable {m m' : Memory} {p p' data data' len len' n : ℕ} {old old' : AuxHdr} {pf pf' : FullFrame}

/-- The bytes of a header in front of its security part. -/
def bodyLen (fcf : Fcf) : ℕ :=
  2 + (if fcf.sequenceNumberSuppression then 0 else 1) +
    (if fcf.destAddrMode ≠ noAddr then
      (if (hasPanid fcf).2 then 2 else 0) + addrLen fcf.destAddrMode else 0) +
    (if fcf.srcAddrMode ≠ noAddr then
      (if (hasPanid fcf).1 then 2 else 0) + addrLen fcf.srcAddrMode else 0)

/-- An address is skipped. -/
theorem readAddr_snd (m : Memory) (p : ℕ) (mode : Fin 4) (old : Linkaddr) :
    (readAddr m p mode old).2 = p + addrLen mode := by
  unfold readAddr addrLen
  split_ifs <;> rfl

/-- The control field is the first word. -/
theorem parse_fcf (h : ¬ len < 2) (pf : Frame) :
    (Frame802154.parse m data len pf).1.fcf = parseFcf (m data) (m (data + 1)) := by
  rw [Frame802154.parse, if_neg h]

/-- The destination is skipped. -/
theorem parseDest_snd (m : Memory) (p : ℕ) (fcf : Fcf) (pf : Frame) :
    (parseDest m p fcf pf).2.2 = p + if fcf.destAddrMode ≠ noAddr then
      (if (hasPanid fcf).2 then 2 else 0) + addrLen fcf.destAddrMode else 0 := by
  unfold parseDest
  split_ifs <;> simp only [readAddr_snd] <;> omega

/-- The source is skipped. -/
theorem parseSrc_snd (m : Memory) (p : ℕ) (fcf : Fcf) (pf : Frame) (destPid : UInt16) :
    (parseSrc m p fcf pf destPid).2.2.2 = p + if fcf.srcAddrMode ≠ noAddr then
      (if (hasPanid fcf).1 then 2 else 0) + addrLen fcf.srcAddrMode else 0 := by
  unfold parseSrc
  split_ifs <;> simp only [readAddr_snd] <;> omega

/-- The body follows the header. -/
theorem parse_payload (h : ¬ len < 2) (pf : Frame) :
    (Frame802154.parse m data len pf).1.payload =
      data + bodyLen (parseFcf (m data) (m (data + 1))) := by
  rw [Frame802154.parse, if_neg h]
  dsimp only
  rw [parseSrc_snd, parseDest_snd, bodyLen]
  split_ifs <;> dsimp only <;> omega

variable (m' p' old') in
/-- A security header with a key identifier is read from its bytes alone. -/
theorem parseAuxHdr_congr (hkey : (parseAuxHdr m p old).1.keyIdMode ≠ 0)
    (h : ∀ i, p + i < (parseAuxHdr m p old).2 → m' (p' + i) = m (p + i)) :
    (parseAuxHdr m' p' old').1 = (parseAuxHdr m p old).1 ∧
      (parseAuxHdr m' p' old').2 + p = (parseAuxHdr m p old).2 + p' ∧
      p < (parseAuxHdr m p old).2 := by
  have hmode : (m p >>> 3) &&& 3 ≠ 0 := by
    intro hzero
    apply hkey
    simp [parseAuxHdr, hzero]
  have heq : ∀ (m : Memory) (p : ℕ) (old : AuxHdr), (m p >>> 3) &&& 3 ≠ 0 →
      parseAuxHdr m p old =
        let k := (if m p >>> 5 = 0 then if m p >>> 6 = 1 then 6 else 5 else 1) +
          (((m p >>> 3) &&& 3).toNat - 1) * 4
        (⟨m p &&& 7, (m p >>> 3) &&& 3, m p >>> 5, m p >>> 6, m (p + k)⟩, p + k + 1) := by
    intro m p old hmode
    simp only [parseAuxHdr, hmode, ne_eq, not_false_eq_true, if_true]
    split_ifs <;> simp [Nat.add_assoc]
  rw [heq m p old hmode] at h ⊢
  have hcontrol : m' p' = m p := by
    have hfirst := h 0 (by dsimp only; omega)
    simpa using hfirst
  rw [heq m' p' old' (by rwa [hcontrol]), hcontrol]
  dsimp only at h ⊢
  generalize hk : (if m p >>> 5 = 0 then if m p >>> 6 = 1 then 6 else 5 else 1) +
    (((m p >>> 3) &&& 3).toNat - 1) * 4 = k at h ⊢
  rw [h k (by omega)]
  exact ⟨rfl, by omega, by omega⟩

variable (m' data' len' pf') in
/-- A header with a key identifier is read from its bytes alone. -/
theorem frame802154Parse_congr (hlen : (frame802154Parse m data len pf).2 = n) (hn : 3 ≤ n)
    (hsec : (frame802154Parse m data len pf).1.frame.fcf.securityEnabled = true)
    (hkey : (frame802154Parse m data len pf).1.auxHdr.keyIdMode ≠ 0)
    (hle : len ≤ len') (h : ∀ i < n, m' (data' + i) = m (data + i)) :
    (frame802154Parse m' data' len' pf').1.frame.fcf =
        (frame802154Parse m data len pf).1.frame.fcf ∧
      (frame802154Parse m' data' len' pf').1.auxHdr =
        (frame802154Parse m data len pf).1.auxHdr ∧
      (frame802154Parse m' data' len' pf').2 = n := by
  have hlong : ¬ len < 2 := by
    intro hshort
    rw [frame802154Parse, if_pos hshort] at hlen
    dsimp only at hlen
    omega
  -- The control field is the same, so the layout of the header is.
  have hfcf : parseFcf (m' data') (m' (data' + 1)) = parseFcf (m data) (m (data + 1)) := by
    have h₀ := h 0 (by omega)
    have h₁ := h 1 (by omega)
    rw [Nat.add_zero, Nat.add_zero] at h₀
    rw [h₀, h₁]
  have hlong' : ¬ len' < 2 := by omega
  simp only [frame802154Parse, if_neg hlong, parse_fcf hlong, parse_payload hlong] at hlen hsec hkey
  simp only [frame802154Parse, if_neg hlong, if_neg hlong', parse_fcf hlong, parse_fcf hlong',
    parse_payload hlong, parse_payload hlong', hfcf]
  generalize parseFcf (m data) (m (data + 1)) = fcf at *
  simp only [hsec, if_true] at hlen hkey ⊢
  have hc : (parseAuxHdr m (data + bodyLen fcf) pf.auxHdr).2 - data = n := by
    split at hlen
    · omega
    · exact hlen
  -- The auxiliary header stands behind the same number of bytes.
  have haux := parseAuxHdr_congr m' (data' + bodyLen fcf) pf'.auxHdr hkey (by
    intro i hi
    rw [Nat.add_assoc, Nat.add_assoc]
    exact h (bodyLen fcf + i) (by omega))
  obtain ⟨haux, hend, hlt⟩ := haux
  have hc' : (parseAuxHdr m' (data' + bodyLen fcf) pf'.auxHdr).2 - data' = n := by omega
  refine ⟨trivial, haux, ?_⟩
  rw [hc', if_neg]
  split at hlen
  · omega
  · omega

end

/-! ## Round trip -/

section

variable {m m' : Memory} {buf buf' size n : ℕ}

/-- The parser has the frame and eight bytes more. -/
theorem parseIes_wide (m : Memory) (buf : ℕ) (h : size < 256) :
    Elements.Wide { Elements.Parser.init (m.read buf (size + 8)) .zero with
      bufSize := UInt8.ofNat size } := by
  simp only [Elements.Wide, Elements.Parser.init, Memory.length_read, UInt8.toNat_ofNat']
  omega

/-- A length that fits a byte. -/
theorem toNat_ofNat_of_lt (h : n < 256) : (UInt8.ofNat n).toNat = n := by
  rw [UInt8.toNat_ofNat', Nat.mod_eq_of_lt h]

/-- The parser of the elements returns. -/
theorem parseIes_returns (m : Memory) (buf : ℕ) (h : size < 256) :
    Elements.Returns (parseIes m buf size).result := by
  apply Elements.parseLoop_returns (parseIes_wide m buf h)
  simp only [toNat_ofNat_of_lt h]
  omega

/-- The elements are within the frame. -/
theorem parseIes_offset_le (m : Memory) (buf : ℕ) (h : size < 256) :
    (parseIes m buf size).ies.iePayloadIeOffset.toNat ≤ size := by
  have hle : (parseIes m buf size).ies.iePayloadIeOffset.toNat ≤ 0 + (UInt8.ofNat size).toNat :=
    Elements.parseLoop_offset_le (parseIes_wide m buf h) rfl
      (by simpa only [Elements.Parser.init, toNat_ofNat_of_lt h, Nat.zero_add] using h)
      (le_of_eq rfl)
  rwa [Nat.zero_add, toNat_ofNat_of_lt h] at hle

variable (m' buf') in
/-- Two buffers that agree up to the offset of one that is accepted have the same offset. -/
theorem parseIes_together (h : size < 256) (hok : (parseIes m buf size).result = .ok n)
    (hsame : ∀ i < (parseIes m buf size).ies.iePayloadIeOffset.toNat,
      m (buf + i) = m' (buf' + i)) :
    (parseIes m' buf' size).ies.iePayloadIeOffset =
      (parseIes m buf size).ies.iePayloadIeOffset := by
  have hle := parseIes_offset_le m buf h
  refine (Elements.parseLoop_together ⟨parseIes_wide m buf h,
    parseIes_wide m' buf' h, rfl, rfl, rfl, rfl⟩ ?_ hok).2.2 ?_
  · simpa only [Elements.Parser.init, toNat_ofNat_of_lt h, Nat.zero_add] using h
  · intro i hi
    have hi' : i < (parseIes m buf size).ies.iePayloadIeOffset.toNat := by
      rw [← Nat.zero_add i]
      exact hi
    simp only [Elements.Parser.init, List.getD_eq_getElem?_getD]
    rw [Memory.getElem?_read (by omega), Memory.getElem?_read (by omega), hsame i hi']

/-- Data that begins with a list termination. -/
theorem parseIes_terminated (hsize : 2 ≤ size) (h : size < 256) (h₀ : m buf = 0x80)
    (h₁ : m (buf + 1) = 0x3f) :
    (parseIes m buf size).result = .ok 2 ∧ (parseIes m buf size).ies.iePayloadIeOffset = 2 := by
  have hdesc : ({ Elements.Parser.init (m.read buf (size + 8)) .zero with
      bufSize := UInt8.ofNat size } : Elements.Parser).descriptor = 16256 := by
    simp only [Elements.Parser.descriptor, Elements.Parser.init, List.getD_eq_getElem?_getD]
    rw [Memory.getElem?_read (by omega), Memory.getElem?_read (by omega), Nat.add_zero, h₀, h₁]
    rfl
  rw [parseIes, Elements.parseLoop_succ (parseIes_wide m buf h)
    (by simpa only [toNat_ofNat_of_lt h] using hsize), hdesc]
  exact ⟨rfl, rfl⟩

end

/-- A frame that a node secures. -/
structure Job where
  node : Linkaddr
  asn : Asn
  m : Memory
  hdr : ℕ
  outbuf : ℕ
  hdrlen : ℕ
  datalen : ℕ
  pf : FullFrame

namespace Job

/-- The header as the sender parses it. -/
def frame (j : Job) : FullFrame := (frame802154Parse j.m j.hdr (j.hdrlen + j.datalen) j.pf).1

/-- The elements that the sender finds behind the header. -/
def ies (j : Job) : Elements.Parsed := parseIes j.m (j.hdr + j.hdrlen) j.datalen

/-- A frame with security enabled, a valid key index and the level that is required. -/
structure Valid (cfg : Required) (j : Job) : Prop where
  header : (frame802154Parse j.m j.hdr (j.hdrlen + j.datalen) j.pf).2 = j.hdrlen
  parsed : 3 ≤ j.hdrlen
  short : j.hdrlen + j.datalen ≤ 112
  secured : j.frame.frame.fcf.securityEnabled = true
  identified : j.frame.auxHdr.keyIdMode ≠ 0
  index : j.frame.auxHdr.keyIndex ≠ 0 ∧ j.frame.auxHdr.keyIndex.toNat ≤ keys.length
  level : tschSecurityCheckLevel cfg true true j.frame = true

/-- The level asks for encryption. -/
def Encrypted (j : Job) : Prop := j.frame.auxHdr.securityLevel &&& 4 ≠ 0

/-- The data is a sequence of information elements, for the parser. -/
def Accepted (j : Job) : Prop := ∃ n > 0, j.ies.result = .ok n

end Job

/-- A node that receives a frame, at `hdr` in its memory. -/
structure Receiver where
  m : Memory
  hdr : ℕ
  generatedMic : ℕ
  isAssociated : Bool
  isPanSecured : Bool
  pf : FullFrame

/-- The receiver has stored a frame, and takes secured frames. -/
structure Receiver.Holds (r : Receiver) (out : Memory) (outbuf len : ℕ) : Prop where
  bytes : ∀ i < len, r.m (r.hdr + i) = out (outbuf + i)
  apart : Apart r.hdr len r.generatedMic 16
  member : r.isAssociated = true → r.isPanSecured = true

/-- What the sender returns is a MIC, and every receiver of the frame accepts it and restores the
plain text. -/
def RoundTrip (aes : Block → Block → Block) (cfg : Required) (j : Job) : Prop :=
  ∃ micLen out, tschSecuritySecureFrame aes j.node j.m j.hdr j.outbuf j.hdrlen j.datalen j.asn
      j.pf = some (micLen, out) ∧ 0 < micLen ∧
    ∀ r : Receiver, r.Holds out j.outbuf (j.hdrlen + j.datalen + micLen) →
      ∃ out', receive aes cfg r.isAssociated r.isPanSecured r.m r.hdr
          (j.hdrlen + j.datalen + micLen) r.pf j.node j.asn r.generatedMic = some (1, out') ∧
        ∀ i < j.hdrlen + j.datalen, out' (r.hdr + i) = j.m (j.hdr + i)

section

variable {aes : Block → Block → Block} {cfg : Required} {j : Job} {r : Receiver} {out : Memory}
  {o : ℕ} {aux : AuxHdr} {frame : FullFrame}

/-- The lengths that CCM* works with are those of the frame. -/
theorem aeadLens_add {hdrlen datalen : ℕ} (h : hdrlen + datalen < 256) :
    (aeadLens aux hdrlen datalen).1.toNat + (aeadLens aux hdrlen datalen).2.toNat =
      hdrlen + datalen := by
  unfold aeadLens
  split
  · dsimp only
    rw [toNat_ofNat_of_lt (by omega), toNat_ofNat_of_lt (by omega)]
  · dsimp only
    rw [toNat_ofNat_of_lt h]
    rfl

/-- A secured frame has a code of up to 16 bytes. -/
theorem micLen_mem (h : frame.frame.fcf.securityEnabled = true) :
    0 < tschSecurityMicLen frame ∧ tschSecurityMicLen frame ≤ 16 := by
  rw [tschSecurityMicLen, if_pos h, Nat.shiftLeft_eq]
  have hmod := Nat.mod_lt frame.auxHdr.securityLevel.toNat (show 0 < 4 by decide)
  generalize frame.auxHdr.securityLevel.toNat % 4 = k at hmod ⊢
  have hcases : k = 0 ∨ k = 1 ∨ k = 2 ∨ k = 3 := by omega
  rcases hcases with rfl | rfl | rfl | rfl <;> decide

/-- The part that is only authenticated is within the frame. -/
theorem secureOffset_le (hv : j.Valid cfg) :
    ∃ o, secureOffset j.ies = some o ∧ o ≤ j.datalen := by
  have hsize : j.datalen < 256 := by
    have hshort := hv.short
    omega
  have hle : j.ies.ies.iePayloadIeOffset.toNat ≤ j.datalen := parseIes_offset_le _ _ hsize
  unfold secureOffset
  rcases parseIes_returns j.m (j.hdr + j.hdrlen) hsize with hreject | ⟨n, hok⟩
  · rw [Job.ies, hreject]
    exact ⟨0, rfl, Nat.zero_le _⟩
  · rw [Job.ies, hok]
    refine ⟨_, rfl, ?_⟩
    split
    · exact hle
    · exact Nat.zero_le _

/-- Where the parser takes the payload to start. -/
theorem parseOffset_eq {m : Memory} {buf size : ℕ} (h : size < 256) :
    parseOffset (parseIes m buf size) =
      some (parseIes m buf size).ies.iePayloadIeOffset.toNat := by
  unfold parseOffset
  rcases parseIes_returns m buf h with hreject | ⟨n, hok⟩
  · rw [hreject]
  · rw [hok]

namespace Job

/-- The block cipher with the key of the frame. -/
def cipher (aes : Block → Block → Block) (j : Job) : Block → Block :=
  aes (keys.getD (j.frame.auxHdr.keyIndex.toNat - 1) 0)

/-- The lengths for CCM* if the end of the header is moved. -/
def lens (j : Job) (offset : ℕ) : UInt8 × UInt8 :=
  aeadLens j.frame.auxHdr (j.hdrlen + offset) (j.datalen - offset)

/-- The two parts make up the frame. -/
theorem lens_add (hv : j.Valid cfg) (ho : o ≤ j.datalen) :
    (j.lens o).1.toNat + (j.lens o).2.toNat = j.hdrlen + j.datalen := by
  have hshort := hv.short
  rw [lens, aeadLens_add (by omega)]
  omega

/-- The header stays in the clear, with what was added to it. -/
theorem hdrlen_le_lens (hv : j.Valid cfg) (ho : o ≤ j.datalen) :
    j.hdrlen + o ≤ (j.lens o).1.toNat := by
  have hshort := hv.short
  unfold lens aeadLens
  split
  · dsimp only
    rw [toNat_ofNat_of_lt (by omega)]
  · dsimp only
    rw [toNat_ofNat_of_lt (by omega)]
    omega

end Job

/-- The sender seals a copy of the frame. -/
theorem secure_sealed (aes : Block → Block → Block) (hv : j.Valid cfg)
    (hoffset : secureOffset j.ies = some o) (ho : o ≤ j.datalen) :
    ∃ plain out x,
      tschSecuritySecureFrame aes j.node j.m j.hdr j.outbuf j.hdrlen j.datalen j.asn j.pf =
        some (tschSecurityMicLen j.frame, out) ∧
      (∀ i < j.hdrlen + j.datalen, plain (j.outbuf + i) = j.m (j.hdr + i)) ∧
      Sealed (j.cipher aes) rounds (initNonce j.node j.asn) plain
        (j.outbuf + (j.lens o).1.toNat) (j.lens o).2 j.outbuf (j.lens o).1
        (j.outbuf + (j.hdrlen + j.datalen)) (UInt8.ofNat (tschSecurityMicLen j.frame)) out x := by
  have hshort := hv.short
  have hadd := Job.lens_add hv ho
  obtain ⟨hpos, hmic⟩ := micLen_mem hv.secured
  have hmic' : (UInt8.ofNat (tschSecurityMicLen j.frame)).toNat ≤ 16 := by
    rwa [toNat_ofNat_of_lt (by omega)]
  -- The frame is copied to the output buffer first, if that is another one.
  let plain := if j.hdr ≠ j.outbuf then
      j.m.move j.outbuf j.hdr ((j.lens o).1.toNat + (j.lens o).2.toNat)
    else j.m
  have hplain : ∀ i < j.hdrlen + j.datalen, plain (j.outbuf + i) = j.m (j.hdr + i) := by
    intro i hi
    by_cases hsame : j.hdr = j.outbuf
    · simp only [plain, if_neg (not_not.mpr hsame), hsame]
    · simp only [plain, if_pos (show j.hdr ≠ j.outbuf from hsame)]
      rw [Memory.move_apply (by omega)]
  -- There it is encrypted in place, and the code is appended.
  obtain ⟨out, x, haead, hsealed⟩ := aead_seals (j.cipher aes) (initNonce j.node j.asn) plain
    (j.outbuf + (j.lens o).1.toNat) j.outbuf (j.outbuf + (j.hdrlen + j.datalen)) (j.lens o).2
    (j.lens o).1 hmic' (by omega) (by omega) (show 16 < rounds by decide)
    (by unfold Apart; omega)
  refine ⟨plain, out, x, ?_, hplain, hsealed⟩
  have hend : j.outbuf + (j.hdrlen + o) + (j.datalen - o) =
      j.outbuf + (j.hdrlen + j.datalen) := by omega
  have hlen : ¬ (frame802154Parse j.m j.hdr (j.hdrlen + j.datalen) j.pf).2 < 3 := by
    rw [hv.header]
    exact Nat.not_lt.mpr hv.parsed
  have hindex : ¬ (j.frame.auxHdr.keyIndex = 0 ∨
      keys.length < j.frame.auxHdr.keyIndex.toNat) := by
    rintro (hzero | hlarge)
    · exact hv.index.1 hzero
    · exact absurd hv.index.2 (Nat.not_le.mpr hlarge)
  have hsec : ¬ (!j.frame.frame.fcf.securityEnabled) = true := by simp [hv.secured]
  unfold Job.ies at hoffset
  unfold Job.frame at hindex hsec haead ⊢
  rw [tschSecuritySecureFrame]
  simp only [if_neg hlen, hoffset, Option.bind_some, if_neg hsec, if_neg hindex]
  rw [hend]
  exact congrArg _ haead

/-- A frame is checked by what its header says. -/
theorem checkLevel_congr {f g : FullFrame} {isAssociated isPanSecured : Bool}
    (hfcf : f.frame.fcf = g.frame.fcf) (haux : f.auxHdr = g.auxHdr)
    (hmember : isAssociated = true → isPanSecured = true)
    (h : tschSecurityCheckLevel cfg true true g = true)
    (hsec : g.frame.fcf.securityEnabled = true) :
    tschSecurityCheckLevel cfg isAssociated isPanSecured f = true := by
  have hrefuse : (isAssociated && !isPanSecured) = false := by
    cases isAssociated with
    | false => rfl
    | true => simp [hmember rfl]
  simp only [tschSecurityCheckLevel, hsec, Bool.not_true, Bool.false_eq_true, if_false,
    Bool.and_false] at h
  simp only [tschSecurityCheckLevel, hfcf, haux, hsec, hrefuse, Bool.not_true,
    Bool.false_eq_true, if_false]
  exact h

/-- A receiver of the frame decrypts it with the lengths that it finds itself. -/
theorem receive_eq (aes : Block → Block → Block) (hv : j.Valid cfg)
    (hmember : r.isAssociated = true → r.isPanSecured = true)
    (hheader : ∀ i < j.hdrlen, r.m (r.hdr + i) = j.m (j.hdr + i))
    (ho : (parseIes r.m (r.hdr + j.hdrlen) j.datalen).ies.iePayloadIeOffset.toNat = o) :
    receive aes cfg r.isAssociated r.isPanSecured r.m r.hdr
        (j.hdrlen + j.datalen + tschSecurityMicLen j.frame) r.pf j.node j.asn r.generatedMic =
      (aead (j.cipher aes) rounds (initNonce j.node j.asn) r.m (r.hdr + (j.lens o).1.toNat)
        (j.lens o).2 r.hdr (j.lens o).1 r.generatedMic
        (UInt8.ofNat (tschSecurityMicLen j.frame)) false).map fun m =>
          (if 0 < tschSecurityMicLen j.frame ∧
              m.read r.generatedMic (tschSecurityMicLen j.frame) ≠
                m.read (r.hdr + (j.hdrlen + j.datalen)) (tschSecurityMicLen j.frame)
            then 0 else 1, m) := by
  have hshort := hv.short
  -- The receiver parses the header of the sender.
  obtain ⟨hfcf, haux, hlen⟩ := frame802154Parse_congr r.m r.hdr
    (j.hdrlen + j.datalen + tschSecurityMicLen j.frame) r.pf hv.header hv.parsed hv.secured
    hv.identified (Nat.le_add_right _ _) hheader
  have hle : o ≤ j.datalen := by
    rw [← ho]
    exact parseIes_offset_le _ _ (by omega)
  -- It accepts the level, as it holds the same keys.
  have hlevel := checkLevel_congr hfcf haux hmember hv.level hv.secured
  rw [receive]
  generalize frame802154Parse r.m r.hdr _ r.pf = parsed at hfcf haux hlen hlevel
  obtain ⟨frame, len⟩ := parsed
  dsimp only at hfcf haux hlen hlevel ⊢
  subst hlen
  -- So it takes the code from where the sender has put it.
  have hmic : tschSecurityMicLen frame = tschSecurityMicLen j.frame := by
    rw [tschSecurityMicLen, tschSecurityMicLen, hfcf, haux, Job.frame]
  have hdata : j.hdrlen + j.datalen + tschSecurityMicLen j.frame - j.hdrlen -
      tschSecurityMicLen j.frame = j.datalen := by omega
  have hindex : ¬ (frame.auxHdr.keyIndex = 0 ∨ keys.length < frame.auxHdr.keyIndex.toNat) := by
    rw [haux]
    rintro (hzero | hlarge)
    · exact hv.index.1 hzero
    · exact absurd hv.index.2 (Nat.not_le.mpr hlarge)
  have hsec' : frame.frame.fcf.securityEnabled = true := by
    rw [hfcf]
    exact hv.secured
  have hend : r.hdr + (j.hdrlen + o) + (j.datalen - o) = r.hdr + (j.hdrlen + j.datalen) := by
    omega
  rw [hmic, hdata, tschSecurityParseFrame]
  simp only [hlevel, hsec', Bool.not_true, Bool.false_eq_true, if_false, if_neg hindex,
    parseOffset_eq (show j.datalen < 256 by omega), Option.bind_some, ho, hmic]
  rw [hend, haux]
  rfl

/-- The receiver does not touch what it takes for the part in the clear. -/
theorem receive_clear {ret : ℕ} {opened : Memory} (hv : j.Valid cfg)
    (hmember : r.isAssociated = true → r.isPanSecured = true)
    (hheader : ∀ i < j.hdrlen, r.m (r.hdr + i) = j.m (j.hdr + i))
    (ho : (parseIes r.m (r.hdr + j.hdrlen) j.datalen).ies.iePayloadIeOffset.toNat = o)
    (hle : o ≤ j.datalen)
    (hapart : Apart r.hdr (j.hdrlen + j.datalen + tschSecurityMicLen j.frame) r.generatedMic 16)
    (h : receive aes cfg r.isAssociated r.isPanSecured r.m r.hdr
      (j.hdrlen + j.datalen + tschSecurityMicLen j.frame) r.pf j.node j.asn r.generatedMic =
        some (ret, opened)) :
    ∀ i < (j.lens o).1.toNat, opened (r.hdr + i) = r.m (r.hdr + i) := by
  intro i hi
  have hshort := hv.short
  have hadd := Job.lens_add hv hle
  obtain ⟨hpos, hmic⟩ := micLen_mem hv.secured
  obtain ⟨x, -, haead⟩ := aead_backward (j.cipher aes) (initNonce j.node j.asn) r.m
    (r.hdr + (j.lens o).1.toNat) r.hdr r.generatedMic
    (j.lens o).2 (j.lens o).1 (UInt8.ofNat (tschSecurityMicLen j.frame)) (by omega) (by omega)
    (show 16 < rounds by decide)
  rw [receive_eq aes hv hmember hheader ho, haead] at h
  obtain ⟨-, rfl⟩ := Prod.mk.inj (Option.some.inj h)
  have htoNat : (UInt8.ofNat (tschSecurityMicLen j.frame)).toNat = tschSecurityMicLen j.frame :=
    toNat_ofNat_of_lt (by omega)
  unfold Apart at hapart
  rw [write_of_outside (length_cut x (by omega)) (by omega), xorStream_of_outside (by omega)]

/-- Where both sides find the same lengths, the frame arrives. -/
theorem roundTrip_of_lens (aes : Block → Block → Block) (hv : j.Valid cfg)
    (hoffset : secureOffset j.ies = some o) (ho : o ≤ j.datalen)
    (hlens : ∀ (m : Memory) (buf : ℕ), (∀ i < o, m (buf + i) = j.m (j.hdr + j.hdrlen + i)) →
      j.lens (parseIes m buf j.datalen).ies.iePayloadIeOffset.toNat = j.lens o) :
    RoundTrip aes cfg j := by
  have hshort := hv.short
  have hadd := Job.lens_add hv ho
  have hhdr := Job.hdrlen_le_lens hv ho
  obtain ⟨hpos, hmic⟩ := micLen_mem hv.secured
  obtain ⟨plain, out, x, hsecure, hplain, hsealed⟩ := secure_sealed aes hv hoffset ho
  refine ⟨_, out, hsecure, hpos, ?_⟩
  generalize hk : tschSecurityMicLen j.frame = k at *
  have htoNat : (UInt8.ofNat k).toNat = k := toNat_ofNat_of_lt (by omega)
  intro r hr
  -- the part in front of the cipher text arrives as it was
  have hclear : ∀ i < (j.lens o).1.toNat, r.m (r.hdr + i) = plain (j.outbuf + i) := by
    intro i hi
    rw [hr.bytes i (by omega)]
    exact hsealed.other _ (by omega) (by omega)
  have hreceive := receive_eq aes hv hr.member (by
    intro i hi
    rw [hclear i (by omega), hplain i (by omega)]) rfl
  have hsame := hlens r.m (r.hdr + j.hdrlen) (by
    intro i hi
    rw [Nat.add_assoc, Nat.add_assoc, hclear _ (by omega), hplain _ (by omega)])
  have hapart := hr.apart
  rw [hk, hsame] at hreceive
  obtain ⟨opened, haead, htext, hmicOpened, hother⟩ := aead_opens r.m
    (r.hdr + (j.lens o).1.toNat) r.hdr r.generatedMic
    (by rwa [htoNat]) (by omega) (by omega) (by decide) hsealed
    (by
      intro i hi
      rw [Nat.add_assoc, Nat.add_assoc, hr.bytes _ (by omega)])
    hclear (by unfold Apart; omega) (by unfold Apart at hapart ⊢; omega)
  rw [htoNat] at hmicOpened hother
  rw [haead, Option.map_some] at hreceive
  have hread : opened.read r.generatedMic k = opened.read (r.hdr + (j.hdrlen + j.datalen)) k := by
    apply List.ext_getElem?
    intro i
    by_cases hi : i < k
    · rw [Memory.getElem?_read hi, Memory.getElem?_read hi, hmicOpened i hi,
        hother _ (by omega) (by unfold Apart at hapart; omega), Nat.add_assoc r.hdr,
        hr.bytes _ (by omega), Nat.add_assoc j.outbuf]
    · rw [List.getElem?_eq_none (by simpa using hi), List.getElem?_eq_none (by simpa using hi)]
  rw [if_neg (by simp [hread])] at hreceive
  refine ⟨opened, hreceive, ?_⟩
  intro i hi
  rw [← hplain i hi]
  rcases Nat.lt_or_ge i (j.lens o).1.toNat with hlt | hge
  · rw [hother _ (by omega) (by unfold Apart at hapart; omega), hclear i hlt]
  · have hinside := htext (i - (j.lens o).1.toNat) (by omega)
    rw [Nat.add_assoc, Nat.add_assoc, Nat.add_sub_cancel' hge] at hinside
    exact hinside

/-- A frame without room for a descriptor. -/
theorem parseIes_short (m : Memory) (buf : ℕ) {size : ℕ} (h : size < 2) :
    (parseIes m buf size).ies.iePayloadIeOffset = 0 ∧
      ((parseIes m buf size).result = .ok 0 ∨
        (parseIes m buf size).result = .error .reject) := by
  have hcases : size = 0 ∨ size = 1 := by omega
  rcases hcases with rfl | rfl
  · rw [parseIes, Elements.parseLoop_empty rfl]
    exact ⟨rfl, .inl rfl⟩
  · rw [parseIes, Elements.parseLoop_single rfl]
    exact ⟨rfl, .inr rfl⟩

/-- The sender moves the end of the header only over elements that were accepted. -/
theorem secureOffset_of_not_accepted (hv : j.Valid cfg) (h : ¬ j.Accepted) :
    secureOffset j.ies = some 0 := by
  have hshort := hv.short
  have hreturns : Elements.Returns j.ies.result := parseIes_returns _ _ (by omega)
  rcases hreturns with hreject | ⟨n, hok⟩
  · rw [secureOffset, hreject]
  · rw [secureOffset, hok]
    dsimp only
    rw [if_neg]
    intro hn
    exact h ⟨n, hn, hok⟩

/-- A frame that is only authenticated is one part. -/
theorem lens_of_not_encrypted (h : ¬ j.Encrypted) (ho : o ≤ j.datalen) :
    j.lens o = (UInt8.ofNat (j.hdrlen + j.datalen), 0) := by
  unfold Job.Encrypted at h
  have hadd : j.hdrlen + o + (j.datalen - o) = j.hdrlen + j.datalen := by omega
  rw [Job.lens, aeadLens, if_neg h, hadd]

/-- A cipher whose key stream turns the data of a frame into a list termination. -/
def collide (j : Job) : Block := fun i =>
  if i.val = 0 then j.m (j.hdr + j.hdrlen) ^^^ 0x80 else j.m (j.hdr + j.hdrlen + 1) ^^^ 0x3f

/-- Data that is no sequence of elements is lost where the cipher text begins with one. -/
theorem not_roundTrip (hv : j.Valid cfg) (henc : j.Encrypted) (hdata : 2 ≤ j.datalen)
    (hnot : ¬ j.Accepted) : ¬ RoundTrip (fun _ _ => collide j) cfg j := by
  rintro ⟨micLen, out, hsecure, -, hreceived⟩
  apply hnot
  have hshort := hv.short
  obtain ⟨hpos, hmic⟩ := micLen_mem hv.secured
  obtain ⟨plain, out', x, hsecure', hplain, hsealed⟩ := secure_sealed (fun _ _ => collide j) hv
    (secureOffset_of_not_accepted hv hnot) (Nat.zero_le _)
  rw [hsecure] at hsecure'
  obtain ⟨rfl, rfl⟩ := Prod.mk.inj (Option.some.inj hsecure')
  have hlens : ∀ o ≤ j.datalen, (j.lens o).1.toNat = j.hdrlen + o := by
    intro o ho
    unfold Job.Encrypted at henc
    rw [Job.lens, aeadLens, if_pos henc]
    exact toNat_ofNat_of_lt (by omega)
  have hsum := Job.lens_add hv (Nat.zero_le _)
  have hclear := hlens 0 (Nat.zero_le _)
  rw [Nat.add_zero] at hclear
  -- the cipher text begins with a list termination
  have htext : ∀ i < 2, out (j.outbuf + j.hdrlen + i) = if i = 0 then 0x80 else 0x3f := by
    intro i hi
    have hbyte := hsealed.text i (by omega)
    rw [hclear, Nat.add_assoc, hplain _ (by omega), ← Nat.add_assoc, ← Nat.add_assoc] at hbyte
    have hcases : i = 0 ∨ i = 1 := by omega
    rcases hcases with rfl | rfl
    · have hstream : stream (j.cipher fun _ _ => collide j) (initNonce j.node j.asn) 0 =
          j.m (j.hdr + j.hdrlen) ^^^ 0x80 := rfl
      rw [hbyte, hstream, Nat.add_zero, ← UInt8.xor_assoc, UInt8.xor_self, UInt8.zero_xor]
      rfl
    · have hstream : stream (j.cipher fun _ _ => collide j) (initNonce j.node j.asn) 1 =
          j.m (j.hdr + j.hdrlen + 1) ^^^ 0x3f := rfl
      rw [hbyte, hstream, ← UInt8.xor_assoc, UInt8.xor_self, UInt8.zero_xor]
      rfl
  have hheader : ∀ i < j.hdrlen, out (j.outbuf + i) = j.m (j.hdr + i) := by
    intro i hi
    rw [hsealed.other _ (by omega) (by omega), hplain i (by omega)]
  have hfound := (parseIes_terminated hdata (show j.datalen < 256 by omega) (htext 0 (by decide))
    (htext 1 (by decide))).2
  let r : Receiver := ⟨out, j.outbuf, j.outbuf + (j.hdrlen + j.datalen) +
    tschSecurityMicLen j.frame, false, false, j.pf⟩
  have hmember : r.isAssociated = true → r.isPanSecured = true := nofun
  have hapart : Apart r.hdr (j.hdrlen + j.datalen + tschSecurityMicLen j.frame)
      r.generatedMic 16 := .inr (.inr (.inl (by simp only [r]; omega)))
  obtain ⟨opened, hreceive, hplain'⟩ := hreceived r ⟨fun _ _ => rfl, hapart, hmember⟩
  have htwo : (parseIes r.m (r.hdr + j.hdrlen) j.datalen).ies.iePayloadIeOffset.toNat = 2 :=
    congrArg UInt8.toNat hfound
  have hkept := receive_clear hv hmember hheader htwo hdata hapart hreceive
  have hlong := hlens 2 hdata
  have hbyte : ∀ i < 2, j.m (j.hdr + j.hdrlen + i) = if i = 0 then 0x80 else 0x3f := by
    intro i hi
    rw [← htext i hi, Nat.add_assoc, ← hplain' _ (by omega), hkept _ (by omega), Nat.add_assoc]
  exact ⟨2, by decide, (parseIes_terminated hdata (by omega) (hbyte 0 (by decide))
    (hbyte 1 (by decide))).1⟩

/-- A frame arrives, whatever the block cipher, exactly if its data is not encrypted, holds no
descriptor, or is a sequence of information elements. -/
theorem secured_roundTrip_iff (hv : j.Valid cfg) :
    (∀ aes, RoundTrip aes cfg j) ↔ ¬ j.Encrypted ∨ j.datalen < 2 ∨ j.Accepted := by
  have hshort := hv.short
  have hsize : j.datalen < 256 := by omega
  -- Without encryption, or with nothing to encrypt, the payload is not moved.
  constructor
  · intro h
    by_contra hnot
    push Not at hnot
    obtain ⟨henc, hdata, hrefused⟩ := hnot
    exact not_roundTrip hv henc hdata hrefused (h _)
  · intro h aes
    obtain ⟨o, hoffset, ho⟩ := secureOffset_le hv
    apply roundTrip_of_lens aes hv hoffset ho
    intro m buf hsame
    rcases h with hclear | hdata | ⟨n, hn, hok⟩
    · rw [lens_of_not_encrypted hclear (parseIes_offset_le _ _ hsize),
        lens_of_not_encrypted hclear ho]
    · have hzero : secureOffset j.ies = some 0 := by
        rcases (parseIes_short j.m (j.hdr + j.hdrlen) hdata).2 with hok | hreject
        · rw [secureOffset, Job.ies, hok]
          rfl
        · rw [secureOffset, Job.ies, hreject]
      rw [hoffset] at hzero
      rw [Option.some.inj hzero, (parseIes_short m buf hdata).1]
      rfl
    · have hsender : j.ies.ies.iePayloadIeOffset.toNat = o := by
        rw [secureOffset, hok] at hoffset
        dsimp only at hoffset
        rw [if_pos hn] at hoffset
        exact Option.some.inj hoffset
      have htogether := parseIes_together m buf hsize hok (by
        intro i hi
        exact (hsame i (by rwa [← hsender])).symm)
      rw [htogether]
      exact congrArg j.lens hsender

/-- A data frame of level 5 with key 2 that has four bytes of data. -/
def dataJob (data : List UInt8) : Job where
  node := ⟨[0x00, 0x12, 0x4b, 0x00, 0x00, 0x00, 0x00, 0x01], rfl⟩
  asn := ⟨44853, 0⟩
  m := fun i => ([0x09, 0x20, 0x01, 0x2d, 0x02] ++ data).getD i 0
  hdr := 0
  outbuf := 200
  hdrlen := 5
  datalen := 4
  pf := ⟨⟨parseFcf 0 0, linkaddrNull, linkaddrNull, 0, 0, 0, 0, 0⟩, ⟨0, 0, 0, 0, 0⟩⟩

/-- The header does not depend on the data. -/
theorem dataJob_valid (data : List UInt8) : (dataJob data).Valid Required.default := by
  have hsame : ∀ i < 5, (dataJob data).m (0 + i) = (dataJob []).m (0 + i) := by
    intro i hi
    simp only [dataJob, List.getD_eq_getElem?_getD, Nat.zero_add, List.append_nil]
    rw [List.getElem?_append_left (by simpa using hi)]
  obtain ⟨hfcf, haux, hlen⟩ := frame802154Parse_congr (dataJob data).m 0 9 (dataJob []).pf
    (show (frame802154Parse (dataJob []).m 0 9 (dataJob []).pf).2 = 5 by decide) (by decide)
    (by decide) (by decide) le_rfl hsame
  refine ⟨hlen, show 3 ≤ 5 by decide, show 5 + 4 ≤ 112 by decide, ?_, ?_, ?_, ?_⟩
  · exact (congrArg Fcf.securityEnabled hfcf).trans (by decide)
  · rw [Job.frame]
    exact haux ▸ by decide
  · rw [Job.frame]
    exact haux ▸ by decide
  · exact checkLevel_congr hfcf haux (fun h => h) (by decide) (by decide)

/-- Header elements followed by data. -/
theorem roundTrip_terminated : (dataJob [0x80, 0x3f, 1, 2]).Accepted ∧
    ∀ aes, RoundTrip aes Required.default (dataJob [0x80, 0x3f, 1, 2]) := by
  have haccepted : (dataJob [0x80, 0x3f, 1, 2]).Accepted := ⟨2, by decide, rfl⟩
  exact ⟨haccepted, (secured_roundTrip_iff (dataJob_valid _)).mpr (.inr (.inr haccepted))⟩

/-- Data that is no sequence of elements. -/
theorem lost_data : (dataJob [0, 0, 0, 0]).Valid Required.default ∧
    ¬ RoundTrip (fun _ _ => collide (dataJob [0, 0, 0, 0])) Required.default
      (dataJob [0, 0, 0, 0]) := by
  refine ⟨dataJob_valid _, not_roundTrip (dataJob_valid _) ?_ (by decide) ?_⟩
  · exact show (5 : UInt8) &&& 4 ≠ 0 by decide
  · rintro ⟨n, -, hok⟩
    have hrejected : (dataJob [0, 0, 0, 0]).ies.result = .error .reject := rfl
    rw [hrejected] at hok
    cases hok

end

end MasterScheduler.Mote.Security

import Mathlib.Algebra.Order.Ring.Nat
import MasterScheduler.Lib.Bytes
import Mathlib.Data.Fin.Basic
import Mathlib.Tactic.FinCases

/-!
# MasterScheduler.Mote.Frame802154 — the header of a frame

The frame header of `frame802154.c`, in a build without auxiliary security
header. The fields of the frame control field have the widths the header file
gives them.

- `parse_roundTrip_iff`: the frames whose header is read back as it was
  written.
-/

namespace MasterScheduler.Mote.Frame802154

open Lib Memory

/-! ## The frame -/

/-- `linkaddr_t`. -/
structure Linkaddr where
  u8 : List UInt8
  length_u8 : u8.length = 8
deriving DecidableEq, Repr

/-- `linkaddr_null`. -/
def linkaddrNull : Linkaddr := ⟨List.replicate 8 0, rfl⟩

/-- `frame802154_fcf_t`. -/
structure Fcf where
  frameType : Fin 8
  securityEnabled : Bool
  framePending : Bool
  ackRequired : Bool
  panidCompression : Bool
  sequenceNumberSuppression : Bool
  ieListPresent : Bool
  destAddrMode : Fin 4
  frameVersion : Fin 4
  srcAddrMode : Fin 4
deriving DecidableEq, Repr

instance neZero_eight : NeZero 8 := ⟨by decide⟩

/-- `FRAME802154_BEACONFRAME`. -/
def beaconFrame : Fin 8 := 0

/-- `FRAME802154_DATAFRAME`. -/
def dataFrame : Fin 8 := 1

/-- `FRAME802154_ACKFRAME`. -/
def ackFrame : Fin 8 := 2

/-- `FRAME802154_NOADDR`. -/
def noAddr : Fin 4 := 0

/-- `FRAME802154_SHORTADDRMODE`. -/
def shortAddrMode : Fin 4 := 2

/-- `FRAME802154_LONGADDRMODE`. -/
def longAddrMode : Fin 4 := 3

/-- `FRAME802154_IEEE802154_2015`. -/
def ieee802154v2015 : Fin 4 := 2

/-- `frame802154_t`, less the auxiliary security header. -/
structure Frame where
  fcf : Fcf
  destAddr : Linkaddr
  srcAddr : Linkaddr
  seq : UInt8
  destPid : UInt16
  srcPid : UInt16
  /-- The address of the payload. -/
  payload : ℕ
  payloadLen : ℤ
deriving DecidableEq, Repr

/-- `addr_len`. -/
def addrLen (mode : Fin 4) : ℕ :=
  if mode = shortAddrMode then 2 else if mode = longAddrMode then 8 else 0

/-- The source and destination PAN id flags of `frame802154_has_panid`. -/
def hasPanid (fcf : Fcf) : Bool × Bool :=
  if fcf.frameVersion = ieee802154v2015 then
    (!fcf.panidCompression &&
      ((fcf.destAddrMode == noAddr && fcf.srcAddrMode == longAddrMode) ||
       (fcf.destAddrMode == noAddr && fcf.srcAddrMode == shortAddrMode) ||
       (fcf.destAddrMode == shortAddrMode && fcf.srcAddrMode == shortAddrMode) ||
       (fcf.destAddrMode == shortAddrMode && fcf.srcAddrMode == longAddrMode) ||
       (fcf.destAddrMode == longAddrMode && fcf.srcAddrMode == shortAddrMode)),
     (fcf.destAddrMode == noAddr && fcf.srcAddrMode == noAddr && fcf.panidCompression) ||
      (fcf.destAddrMode != noAddr && fcf.srcAddrMode == noAddr && !fcf.panidCompression) ||
      (fcf.destAddrMode == longAddrMode && fcf.srcAddrMode == longAddrMode &&
        !fcf.panidCompression) ||
      ((fcf.destAddrMode == shortAddrMode && fcf.srcAddrMode != noAddr) ||
       (fcf.destAddrMode != noAddr && fcf.srcAddrMode == shortAddrMode)))
  else
    (fcf.frameType != ackFrame && !fcf.panidCompression && fcf.srcAddrMode != noAddr,
     fcf.frameType != ackFrame && fcf.destAddrMode != noAddr)

/-- `field_length_t`. -/
structure FieldLength where
  seqnoLen : ℕ
  destPidLen : ℕ
  destAddrLen : ℕ
  srcPidLen : ℕ
  srcAddrLen : ℕ

/-- `field_len`. Before the version of 2015 it sets the compression flag of the frame. -/
def fieldLen (p : Frame) : Frame × FieldLength :=
  let fcf :=
    if p.fcf.frameVersion.val < ieee802154v2015.val then
      { p.fcf with
        panidCompression :=
          p.fcf.destAddrMode != noAddr && p.fcf.srcAddrMode != noAddr && p.srcPid == p.destPid }
    else p.fcf
  ({ p with fcf := fcf },
   { seqnoLen := if fcf.sequenceNumberSuppression then 0 else 1
     destPidLen := if (hasPanid fcf).2 then 2 else 0
     destAddrLen := addrLen fcf.destAddrMode
     srcPidLen := if (hasPanid fcf).1 then 2 else 0
     srcAddrLen := addrLen fcf.srcAddrMode })

/-- `frame802154_hdrlen`. -/
def hdrlen (p : Frame) : ℕ :=
  let flen := (fieldLen p).2
  2 + flen.seqnoLen + flen.destPidLen + flen.destAddrLen + flen.srcPidLen + flen.srcAddrLen

/-- `frame802154_create_fcf`. -/
def createFcf (fcf : Fcf) : List UInt8 :=
  [UInt8.ofNat (fcf.frameType.val + fcf.securityEnabled.toNat * 8 + fcf.framePending.toNat * 16 +
      fcf.ackRequired.toNat * 32 + fcf.panidCompression.toNat * 64),
   UInt8.ofNat (fcf.sequenceNumberSuppression.toNat + fcf.ieListPresent.toNat * 2 +
      fcf.destAddrMode.val * 4 + fcf.frameVersion.val * 16 + fcf.srcAddrMode.val * 64)]

/-- A PAN id field of the header. -/
def pidField (len : ℕ) (pid : UInt16) : List UInt8 :=
  if len = 2 then le16 pid.toNat else []

/-- An address field of the header: the last byte comes first. -/
def addrField (len : ℕ) (addr : Linkaddr) : List UInt8 := (addr.u8.take len).reverse

/-- `frame802154_create`: the frame as it is left, and the bytes of its header. -/
def create (p : Frame) : Frame × List UInt8 :=
  let (p, flen) := fieldLen p
  (p, createFcf p.fcf ++ (if flen.seqnoLen = 1 then [p.seq] else []) ++
    pidField flen.destPidLen p.destPid ++ addrField flen.destAddrLen p.destAddr ++
    pidField flen.srcPidLen p.srcPid ++ addrField flen.srcAddrLen p.srcAddr)

/-- `frame802154_parse_fcf`. -/
def parseFcf (b₀ b₁ : UInt8) : Fcf where
  frameType := Fin.ofNat 8 b₀.toNat
  securityEnabled := decide (b₀.toNat / 8 % 2 = 1)
  framePending := decide (b₀.toNat / 16 % 2 = 1)
  ackRequired := decide (b₀.toNat / 32 % 2 = 1)
  panidCompression := decide (b₀.toNat / 64 % 2 = 1)
  sequenceNumberSuppression := decide (b₁.toNat % 2 = 1)
  ieListPresent := decide (b₁.toNat / 2 % 2 = 1)
  destAddrMode := Fin.ofNat 4 (b₁.toNat / 4)
  frameVersion := Fin.ofNat 4 (b₁.toNat / 16)
  srcAddrMode := Fin.ofNat 4 (b₁.toNat / 64)

/-- A PAN id at an address. -/
def readPid (m : Memory) (p : ℕ) : UInt16 := UInt16.ofNat (word (m p) (m (p + 1)))

/-- A short address at an address; the other bytes are those of `linkaddr_null`. -/
def readShortAddr (m : Memory) (p : ℕ) : Linkaddr :=
  ⟨[m (p + 1), m p] ++ List.replicate 6 0, rfl⟩

/-- A long address at an address. -/
def readLongAddr (m : Memory) (p : ℕ) : Linkaddr := ⟨(m.read p 8).reverse, by simp⟩

/-- An address of the given mode, with the pointer behind it. A reserved mode leaves the
field as it was. -/
def readAddr (m : Memory) (p : ℕ) (mode : Fin 4) (old : Linkaddr) : Linkaddr × ℕ :=
  if mode = shortAddrMode then (readShortAddr m p, p + 2)
  else if mode = longAddrMode then (readLongAddr m p, p + 8)
  else (old, p)

/-- The destination of `frame802154_parse`: PAN id, address and the pointer behind them. The
PAN id is looked for only where there is an address. -/
def parseDest (m : Memory) (p : ℕ) (fcf : Fcf) (pf : Frame) : UInt16 × Linkaddr × ℕ :=
  if fcf.destAddrMode ≠ noAddr then
    if (hasPanid fcf).2 then (readPid m p, readAddr m (p + 2) fcf.destAddrMode pf.destAddr)
    else (0, readAddr m p fcf.destAddrMode pf.destAddr)
  else (0, linkaddrNull, p)

/-- The source of `frame802154_parse`: both PAN ids, address and the pointer behind them. -/
def parseSrc (m : Memory) (p : ℕ) (fcf : Fcf) (pf : Frame) (destPid : UInt16) :
    UInt16 × UInt16 × Linkaddr × ℕ :=
  if fcf.srcAddrMode ≠ noAddr then
    if (hasPanid fcf).1 then
      (if (hasPanid fcf).2 then destPid else readPid m p, readPid m p,
        readAddr m (p + 2) fcf.srcAddrMode pf.srcAddr)
    else (destPid, destPid, readAddr m p fcf.srcAddrMode pf.srcAddr)
  else (destPid, 0, linkaddrNull, p)

/-- `frame802154_parse` of `len` bytes at `data`: the record as it is left, and the length of
the header or 0. -/
def parse (m : Memory) (data len : ℕ) (pf : Frame) : Frame × ℕ :=
  if len < 2 then (pf, 0)
  else
    let fcf := parseFcf (m data) (m (data + 1))
    let p := data + 2
    let (seq, p) := if fcf.sequenceNumberSuppression then (pf.seq, p) else (m p, p + 1)
    let (destPid, destAddr, p) := parseDest m p fcf pf
    let (destPid, srcPid, srcAddr, p) := parseSrc m p fcf pf destPid
    let c := p - data
    ({ fcf := fcf, destAddr := destAddr, srcAddr := srcAddr, seq := seq, destPid := destPid,
       srcPid := srcPid, payload := p, payloadLen := (len : ℤ) - c },
     if len < c then 0 else c)

/-! ## The round trip -/

/-- What parsing has to return for a frame whose header stands at an address: the length of
the header, its control field, and every field the control field declares. -/
structure RoundTrip (p : Frame) (data : ℕ) (r : Frame × ℕ) : Prop where
  length_eq : r.2 = hdrlen p
  fcf_eq : r.1.fcf = (create p).1.fcf
  seq_eq : p.fcf.sequenceNumberSuppression = false → r.1.seq = p.seq
  destAddr_eq : r.1.destAddr.u8.take (addrLen p.fcf.destAddrMode) =
    p.destAddr.u8.take (addrLen p.fcf.destAddrMode)
  srcAddr_eq : r.1.srcAddr.u8.take (addrLen p.fcf.srcAddrMode) =
    p.srcAddr.u8.take (addrLen p.fcf.srcAddrMode)
  destPid_eq : (hasPanid (create p).1.fcf).2 = true → r.1.destPid = p.destPid
  srcPid_eq : (hasPanid (create p).1.fcf).1 = true → r.1.srcPid = p.srcPid
  payload_eq : r.1.payload = data + hdrlen p

/-- A PAN id without addresses is declared and written, but parsing looks for it only where
there is a destination address. -/
def Skewed (fcf : Fcf) : Prop :=
  fcf.frameVersion = ieee802154v2015 ∧ fcf.destAddrMode = noAddr ∧ fcf.srcAddrMode = noAddr ∧
    fcf.panidCompression = true

section RoundTrip

variable {m : Memory} {p : ℕ} {fcf : Fcf} {pf : Frame}

theorem parseFcf_createFcf (fcf : Fcf) {b₀ b₁ : UInt8} (h : createFcf fcf = [b₀, b₁]) :
    parseFcf b₀ b₁ = fcf := by
  rcases fcf with ⟨type, sec, pend, ack, comp, seq, ie, dest, version, src⟩
  simp only [createFcf, List.cons.injEq, and_true] at h
  rcases h with ⟨rfl, rfl⟩
  have htype := type.isLt
  have hdest := dest.isLt
  have hversion := version.isLt
  have hsrc := src.isLt
  -- The fields are disjoint parts of the two bytes.
  have hbit : ∀ b : Bool, b.toNat < 2 := fun b => b.toNat_lt
  have h₀ : type.val + sec.toNat * 8 + pend.toNat * 16 + ack.toNat * 32 + comp.toNat * 64 < 256 := by
    have := hbit sec
    have := hbit pend
    have := hbit ack
    have := hbit comp
    omega
  have h₁ : seq.toNat + ie.toNat * 2 + dest.val * 4 + version.val * 16 + src.val * 64 < 256 := by
    have := hbit seq
    have := hbit ie
    omega
  have hb : ∀ (b : Bool) {n : ℕ}, n = b.toNat → decide (n = 1) = b := by
    rintro b n rfl
    cases b <;> rfl
  have := hbit sec
  have := hbit pend
  have := hbit ack
  have := hbit comp
  have := hbit seq
  have := hbit ie
  simp only [parseFcf, UInt8.toNat_ofNat', Fcf.mk.injEq]
  refine ⟨?_, hb sec (by omega), hb pend (by omega), hb ack (by omega), hb comp (by omega),
    hb seq (by omega), hb ie (by omega), ?_, ?_, ?_⟩
  all_goals
    apply Fin.ext
    simp only [Fin.ofNat]
    omega

theorem readAddr_eq {mode : Fin 4} {addr : Linkaddr} (old : Linkaddr)
    (h : m.read p (addrLen mode) = addrField (addrLen mode) addr) :
    (readAddr m p mode old).2 = p + addrLen mode ∧
      (readAddr m p mode old).1.u8.take (addrLen mode) = addr.u8.take (addrLen mode) := by
  unfold addrLen readAddr addrField at *
  by_cases hshort : mode = shortAddrMode
  · simp only [if_pos hshort] at h ⊢
    rw [read_two] at h
    have hrev := congrArg List.reverse h
    rw [List.reverse_reverse] at hrev
    rw [← hrev]
    exact ⟨trivial, rfl⟩
  · simp only [if_neg hshort] at h ⊢
    by_cases hlong : mode = longAddrMode
    · simp only [if_pos hlong] at h ⊢
      refine ⟨trivial, ?_⟩
      change (m.read p 8).reverse.take 8 = _
      rw [h, List.reverse_reverse, List.take_take]
      rfl
    · simp only [if_neg hlong]
      exact ⟨rfl, by simp⟩

theorem readPid_eq {pid : UInt16} (h : m.read p 2 = le16 pid.toNat) : readPid m p = pid := by
  rw [read_two, le16] at h
  simp only [List.cons.injEq, and_true] at h
  rw [readPid, h.1, h.2, word_le16 pid.toNat_lt]
  exact UInt16.ofNat_toNat

theorem length_addrField (mode : Fin 4) (addr : Linkaddr) :
    (addrField (addrLen mode) addr).length = addrLen mode := by
  have hlen : addrLen mode ≤ 8 := by
    unfold addrLen
    split_ifs <;> omega
  rw [addrField, List.length_reverse, List.length_take, addr.length_u8, min_eq_left hlen]

theorem length_pidField (b : Bool) (pid : UInt16) :
    (pidField (if b then 2 else 0) pid).length = if b then 2 else 0 := by
  cases b <;> rfl

theorem addrLen_noAddr : addrLen noAddr = 0 := rfl

/-- The destination is read where it was written. -/
theorem parseDest_eq {pid : UInt16} {addr : Linkaddr} (pf : Frame)
    (hpid : m.read p (if (hasPanid fcf).2 then 2 else 0) =
      pidField (if (hasPanid fcf).2 then 2 else 0) pid)
    (haddr : m.read (p + if (hasPanid fcf).2 then 2 else 0) (addrLen fcf.destAddrMode) =
      addrField (addrLen fcf.destAddrMode) addr)
    (hskew : (hasPanid fcf).2 = true → fcf.destAddrMode ≠ noAddr) :
    (parseDest m p fcf pf).2.2 =
        p + (if (hasPanid fcf).2 then 2 else 0) + addrLen fcf.destAddrMode ∧
      (parseDest m p fcf pf).2.1.u8.take (addrLen fcf.destAddrMode) =
        addr.u8.take (addrLen fcf.destAddrMode) ∧
      ((hasPanid fcf).2 = true → (parseDest m p fcf pf).1 = pid) := by
  rw [parseDest]
  by_cases hmode : fcf.destAddrMode = noAddr
  · have hnone : (hasPanid fcf).2 = false := by
      by_contra h
      exact hskew (by simpa using h) hmode
    rw [if_neg (not_not.mpr hmode), hnone, hmode, addrLen_noAddr]
    simp
  rw [if_pos hmode]
  cases hp : (hasPanid fcf).2 with
  | true =>
    rw [hp] at hpid haddr
    rcases readAddr_eq pf.destAddr haddr with ⟨hptr, hread⟩
    refine ⟨hptr, hread, fun _ => readPid_eq hpid⟩
  | false =>
    rw [hp] at haddr
    rcases readAddr_eq pf.destAddr haddr with ⟨hptr, hread⟩
    exact ⟨hptr, hread, by simp⟩

theorem srcAddrMode_ne_of_hasPanid (h : (hasPanid fcf).1 = true) : fcf.srcAddrMode ≠ noAddr := by
  intro hmode
  unfold hasPanid at h
  split at h
  · simp [hmode, noAddr, longAddrMode, shortAddrMode] at h
  · simp [hmode] at h

/-- The source is read where it was written. -/
theorem parseSrc_eq {pid : UInt16} {addr : Linkaddr} (pf : Frame) (destPid : UInt16)
    (hpid : m.read p (if (hasPanid fcf).1 then 2 else 0) =
      pidField (if (hasPanid fcf).1 then 2 else 0) pid)
    (haddr : m.read (p + if (hasPanid fcf).1 then 2 else 0) (addrLen fcf.srcAddrMode) =
      addrField (addrLen fcf.srcAddrMode) addr) :
    (parseSrc m p fcf pf destPid).2.2.2 =
        p + (if (hasPanid fcf).1 then 2 else 0) + addrLen fcf.srcAddrMode ∧
      (parseSrc m p fcf pf destPid).2.2.1.u8.take (addrLen fcf.srcAddrMode) =
        addr.u8.take (addrLen fcf.srcAddrMode) ∧
      ((hasPanid fcf).1 = true → (parseSrc m p fcf pf destPid).2.1 = pid) ∧
      ((hasPanid fcf).2 = true → (parseSrc m p fcf pf destPid).1 = destPid) := by
  rw [parseSrc]
  by_cases hmode : fcf.srcAddrMode = noAddr
  · have hnone : (hasPanid fcf).1 = false := by
      by_contra h
      exact srcAddrMode_ne_of_hasPanid (by simpa using h) hmode
    rw [if_neg (not_not.mpr hmode), hnone, hmode, addrLen_noAddr]
    simp
  rw [if_pos hmode]
  cases hp : (hasPanid fcf).1 with
  | true =>
    rw [hp] at hpid haddr
    rcases readAddr_eq pf.srcAddr haddr with ⟨hptr, hread⟩
    refine ⟨hptr, hread, fun _ => readPid_eq hpid, fun hdest => ?_⟩
    simp [hdest]
  | false =>
    rw [hp] at haddr
    rcases readAddr_eq pf.srcAddr haddr with ⟨hptr, hread⟩
    exact ⟨hptr, hread, by simp, fun _ => rfl⟩

theorem skewed_iff :
    Skewed fcf ↔ (hasPanid fcf).2 = true ∧ fcf.destAddrMode = noAddr := by
  unfold Skewed hasPanid
  constructor
  · rintro ⟨hv, hd, hs, hc⟩
    simp [hv, hd, hs, hc]
  · rintro ⟨h, hd⟩
    split at h
    case isTrue hv =>
      simp [hd, noAddr, longAddrMode, shortAddrMode] at h
      exact ⟨hv, hd, h.1, h.2⟩
    case isFalse => simp [hd] at h

/-- The frame `create` leaves differs from the one given in the compression flag only. -/
theorem create_fst (q : Frame) : (create q).1.fcf.destAddrMode = q.fcf.destAddrMode ∧
    (create q).1.fcf.srcAddrMode = q.fcf.srcAddrMode ∧
    (create q).1.fcf.sequenceNumberSuppression = q.fcf.sequenceNumberSuppression ∧
    (create q).1.fcf.frameVersion = q.fcf.frameVersion := by
  simp only [create, fieldLen]
  split <;> simp

theorem length_create (q : Frame) : (create q).2.length = hdrlen q := by
  have hseq : ∀ b : Bool, (if (if b then 0 else 1) = 1 then [q.seq] else []).length =
      if b then 0 else 1 := by
    intro b
    cases b <;> rfl
  simp only [create, fieldLen, hdrlen, List.length_append, length_addrField, length_pidField, hseq]
  rfl

/-- The fields of a header in memory, each behind the one before. -/
theorem read_create {q : Frame} {data : ℕ}
    (h : m.read data (create q).2.length = (create q).2) :
    let fcf := (create q).1.fcf
    let seqLen := if fcf.sequenceNumberSuppression then 0 else 1
    let destPidLen := if (hasPanid fcf).2 then 2 else 0
    let srcPidLen := if (hasPanid fcf).1 then 2 else 0
    let dest := data + 2 + seqLen
    let src := dest + destPidLen + addrLen fcf.destAddrMode
    parseFcf (m data) (m (data + 1)) = fcf ∧
      (fcf.sequenceNumberSuppression = false → m (data + 2) = q.seq) ∧
      m.read dest destPidLen = pidField destPidLen q.destPid ∧
      m.read (dest + destPidLen) (addrLen fcf.destAddrMode) =
        addrField (addrLen fcf.destAddrMode) q.destAddr ∧
      m.read src srcPidLen = pidField srcPidLen q.srcPid ∧
      m.read (src + srcPidLen) (addrLen fcf.srcAddrMode) =
        addrField (addrLen fcf.srcAddrMode) q.srcAddr := by
  have hcreate : (create q).2 = createFcf (create q).1.fcf ++
      (if (if (create q).1.fcf.sequenceNumberSuppression then 0 else 1) = 1 then [q.seq] else []) ++
      pidField (if (hasPanid (create q).1.fcf).2 then 2 else 0) q.destPid ++
      addrField (addrLen (create q).1.fcf.destAddrMode) q.destAddr ++
      pidField (if (hasPanid (create q).1.fcf).1 then 2 else 0) q.srcPid ++
      addrField (addrLen (create q).1.fcf.srcAddrMode) q.srcAddr := rfl
  rw [hcreate] at h
  generalize (create q).1.fcf = fcf at h ⊢
  dsimp only
  -- The bytes are those of the fields in order.
  rcases read_append_inj h with ⟨h, hsrc⟩
  rcases read_append_inj h with ⟨h, hsrcPid⟩
  rcases read_append_inj h with ⟨h, hdest⟩
  rcases read_append_inj h with ⟨h, hdestPid⟩
  rcases read_append_inj h with ⟨hfcf, hseq⟩
  have hseqLen : (if (if fcf.sequenceNumberSuppression then 0 else 1) = 1 then [q.seq]
      else []).length = if fcf.sequenceNumberSuppression then 0 else 1 := by
    cases fcf.sequenceNumberSuppression <;> rfl
  have hfcfLen : (createFcf fcf).length = 2 := rfl
  simp only [List.length_append, length_addrField, length_pidField, hseqLen, hfcfLen,
    ← Nat.add_assoc] at hsrc hsrcPid hdest hdestPid hseq hfcf
  refine ⟨parseFcf_createFcf fcf ?_, ?_, hdestPid, hdest, hsrcPid, hsrc⟩
  · rw [← hfcf, read_two]
  · intro hsup
    rw [hsup] at hseq
    exact (List.cons.inj hseq).1

theorem parse_eq {data len : ℕ} (h : ¬ len < 2) : parse m data len pf =
    let fcf := parseFcf (m data) (m (data + 1))
    let dest := data + 2 + if fcf.sequenceNumberSuppression then 0 else 1
    let d := parseDest m dest fcf pf
    let s := parseSrc m d.2.2 fcf pf d.1
    ({ fcf := fcf, destAddr := d.2.1, srcAddr := s.2.2.1,
       seq := if fcf.sequenceNumberSuppression then pf.seq else m (data + 2), destPid := s.1,
       srcPid := s.2.1, payload := s.2.2.2, payloadLen := (len : ℤ) - (s.2.2.2 - data : ℕ) },
     if len < s.2.2.2 - data then 0 else s.2.2.2 - data) := by
  rw [parse, if_neg h]
  dsimp only
  cases (parseFcf (m data) (m (data + 1))).sequenceNumberSuppression <;> rfl

/-- A header that stands in memory is read back. -/
theorem parse_of_read {q : Frame} {data len : ℕ}
    (h : m.read data (create q).2.length = (create q).2) (hlen : hdrlen q ≤ len)
    (hskew : ¬ Skewed (create q).1.fcf) : RoundTrip q data (parse m data len pf) := by
  rcases create_fst q with ⟨hdestMode, hsrcMode, hsup, _⟩
  have hhdr : hdrlen q = 2 + (if (create q).1.fcf.sequenceNumberSuppression then 0 else 1) +
      (if (hasPanid (create q).1.fcf).2 then 2 else 0) +
      addrLen (create q).1.fcf.destAddrMode +
      (if (hasPanid (create q).1.fcf).1 then 2 else 0) +
      addrLen (create q).1.fcf.srcAddrMode := rfl
  rcases read_create h with ⟨hfcf, hseq, hdestPid, hdest, hsrcPid, hsrc⟩
  -- The control field that was written decides how the rest is read.
  generalize hq : (create q).1.fcf = fcf at *
  have hskew' : (hasPanid fcf).2 = true → fcf.destAddrMode ≠ noAddr :=
    fun hp hm => hskew (skewed_iff.mpr ⟨hp, hm⟩)
  have h2 : ¬ len < 2 := by omega
  rw [parse_eq h2, hfcf]
  dsimp only
  generalize hptr : data + 2 + (if fcf.sequenceNumberSuppression then 0 else 1) = dest at *
  rcases parseDest_eq pf hdestPid hdest hskew' with ⟨hdp, hda, hdpid⟩
  generalize parseDest m dest fcf pf = d at hdp hda hdpid ⊢
  rw [← hdp] at hsrcPid hsrc
  rcases parseSrc_eq pf d.1 hsrcPid hsrc with ⟨hsp, hsa, hspid, hdpid'⟩
  generalize parseSrc m d.2.2 fcf pf d.1 = s at hsp hsa hspid hdpid' ⊢
  have hc : s.2.2.2 = data + hdrlen q := by
    rw [hsp, hdp, hhdr]
    omega
  constructor
  · dsimp only
    rw [hc, Nat.add_sub_cancel_left, if_neg (by omega)]
  · exact hq.symm
  · intro hs
    rw [← hsup] at hs
    dsimp only
    rw [hs]
    exact hseq hs
  · rw [← hdestMode]
    exact hda
  · rw [← hsrcMode]
    exact hsa
  · intro hp
    dsimp only
    rw [hq] at hp
    rw [hdpid' hp, hdpid hp]
  · intro hp
    rw [hq] at hp
    exact hspid hp
  · exact hc

/-- In the skewed case the pointer stays in front of the PAN id. -/
theorem parse_skewed {q : Frame} {data len : ℕ} (pf : Frame)
    (h : m.read data (create q).2.length = (create q).2) (hlen : hdrlen q ≤ len)
    (hskew : Skewed (create q).1.fcf) : (parse m data len pf).2 + 2 = hdrlen q := by
  have hhdr : hdrlen q = 2 + (if (create q).1.fcf.sequenceNumberSuppression then 0 else 1) +
      (if (hasPanid (create q).1.fcf).2 then 2 else 0) +
      addrLen (create q).1.fcf.destAddrMode +
      (if (hasPanid (create q).1.fcf).1 then 2 else 0) +
      addrLen (create q).1.fcf.srcAddrMode := rfl
  rcases read_create h with ⟨hfcf, _⟩
  have hpan := (skewed_iff.mp hskew).1
  rcases hskew with ⟨hv, hd, hs, hcomp⟩
  generalize (create q).1.fcf = fcf at *
  have hsrc : (hasPanid fcf).1 = false := by
    by_contra hp
    exact srcAddrMode_ne_of_hasPanid (by simpa using hp) hs
  rw [hpan, hsrc, hd, hs, addrLen_noAddr] at hhdr
  have h2 : ¬ len < 2 := by omega
  rw [parse_eq h2, hfcf]
  simp only [parseDest, parseSrc, hd, hs, ne_eq, not_true_eq_false, if_false]
  have hc : data + 2 + (if fcf.sequenceNumberSuppression then 0 else 1) - data =
      2 + if fcf.sequenceNumberSuppression then 0 else 1 := by omega
  rw [hc, if_neg (by simp at hhdr; omega), hhdr]
  simp

/-- The header of a frame, stored in front of any payload, has the announced length, and is
read back as it was written unless a PAN id stands in it without addresses. -/
theorem parse_roundTrip_iff (q pf : Frame) (m : Memory) (data payloadLen : ℕ) :
    ((create q).2.length = hdrlen q ∧
      RoundTrip q data (parse (m.write data (create q).2) data (hdrlen q + payloadLen) pf)) ↔
      ¬ (q.fcf.frameVersion = ieee802154v2015 ∧ q.fcf.destAddrMode = noAddr ∧
        q.fcf.srcAddrMode = noAddr ∧ q.fcf.panidCompression = true) := by
  have hread : (m.write data (create q).2).read data (create q).2.length = (create q).2 :=
    read_write_self m data _
  have hskew : Skewed (create q).1.fcf ↔ Skewed q.fcf := by
    rcases create_fst q with ⟨hd, hs, _, hv⟩
    unfold Skewed
    rw [hd, hs, hv]
    constructor
    · rintro ⟨hv', hd', hs', hc⟩
      refine ⟨hv', hd', hs', ?_⟩
      simpa [create, fieldLen, hv', ieee802154v2015] using hc
    · rintro ⟨hv', hd', hs', hc⟩
      refine ⟨hv', hd', hs', ?_⟩
      simpa [create, fieldLen, hv', ieee802154v2015] using hc
  change _ ↔ ¬ Skewed q.fcf
  rw [← hskew]
  constructor
  · rintro ⟨_, h⟩ hs
    have hlen := parse_skewed pf hread (Nat.le_add_right _ payloadLen) hs
    rw [h.length_eq] at hlen
    omega
  · intro hs
    exact ⟨length_create q, parse_of_read hread (Nat.le_add_right _ _) hs⟩

/-- A frame of version 2015 without addresses, with PAN id compression. -/
def unaddressedFrame : Frame where
  fcf :=
    { frameType := beaconFrame, securityEnabled := false, framePending := false,
      ackRequired := false, panidCompression := true, sequenceNumberSuppression := false,
      ieListPresent := false, destAddrMode := noAddr, frameVersion := ieee802154v2015,
      srcAddrMode := noAddr }
  destAddr := linkaddrNull
  srcAddr := linkaddrNull
  seq := 7
  destPid := 0xabcd
  srcPid := 0xabcd
  payload := 0
  payloadLen := 0

/-- Its header of five bytes is read back as one of three. -/
theorem unaddressed_not_roundTrip :
    ¬ ((create unaddressedFrame).2.length = hdrlen unaddressedFrame ∧
      RoundTrip unaddressedFrame 0 (parse (Memory.write (fun _ => 0) 0 (create unaddressedFrame).2)
        0 (hdrlen unaddressedFrame + 0) unaddressedFrame)) :=
  fun h => absurd h.2.length_eq (by decide)

end RoundTrip

end MasterScheduler.Mote.Frame802154

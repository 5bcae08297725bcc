import MasterScheduler.Mote.CoapRoundTrip

/-!
# MasterScheduler.Mote.CoapBlock1 — uploads in blocks

`coap_block1_handler` copies the payload of a request to the place in a buffer
that the Block1 option says. Its bound is checked on a sum of 32 bits.

1. **Model**: the handler, on the requests that `coap_parse_message` makes of
   datagrams.
2. **Option**: what the number of a Block1 option means.
3. **Parser**: the payload of a request is the one of the datagram, up to
   `REST_MAX_CHUNK_SIZE` bytes of it.
4. **Transfer**: the buffer after the blocks of a body.
5. **Result**: `block1_correct_iff`.

`size_t` has 32 bits. The buffer and its length are given, so `target` and `len`
are not null.
-/

namespace MasterScheduler.Mote.CoapBlock1

open Lib Coap

/-! ## Model -/

/-- The buffer of a handler, its length, and the ranges that were written to it. -/
structure Buffer where
  target : Memory
  len : UInt32
  writes : List (ℕ × ℕ)

/-- `coap_get_payload`: the length. An offset of 0 is a pointer that is not set. -/
def coapGetPayload (pkt : CoapPacket Slice) : ℕ :=
  if pkt.payload.start = 0 then 0 else pkt.payload.len

/-- `coap_set_header_block1`. -/
def coapSetHeaderBlock1 (response : CoapPacket CString) (num : UInt32) (more : UInt8)
    (size : UInt16) : CoapPacket CString :=
  if size < 16 ∨ 2048 < size ∨ 0x0fffff < num then response
  else { response.setOption (CoapOption.block .block1).number with
    blocks := Function.update response.blocks .block1
      { response.blocks .block1 with num := num, more := more, size := size } }

/-- What a call of the handler does: its result, the status and the text it sets for an error. -/
structure Reply where
  result : ℤ
  error : Option (UInt8 × String)
  response : CoapPacket CString
  buffer : Buffer

/-- `coap_block1_handler`, for a packet in a message. -/
def coapBlock1Handler (pkt : CoapPacket Slice) (mem : Memory) (response : CoapPacket CString)
    (b : Buffer) (maxLen : UInt32) : Reply :=
  let payLen := coapGetPayload pkt
  let block := pkt.blocks .block1
  if payLen = 0 then ⟨-1, some (128, "NoPayload"), response, b⟩
  else if maxLen < block.offset + UInt32.ofNat payLen then
    ⟨-1, some (141, "Message to big"), response, b⟩
  else
    let b := {
      target := b.target.write block.offset.toNat (mem.read pkt.payload.start payLen)
      len := block.offset + UInt32.ofNat payLen
      writes := b.writes ++ [(block.offset.toNat, payLen)] }
    if pkt.options (CoapOption.block .block1).number then
      let response := coapSetHeaderBlock1 response block.num block.more block.size
      if block.more ≠ 0 then ⟨1, none, { response with code := 95 }, b⟩
      else ⟨0, none, response, b⟩
    else ⟨0, none, response, b⟩

/-- A datagram, with the response that is made for it. -/
structure Datagram where
  mem : Memory
  len : ℕ
  response : CoapPacket CString

variable (cfg : Config) (maxLen : UInt32)

/-- The request that the parser accepts. -/
def Datagram.request (d : Datagram) : Option Parser :=
  match coapParseMessage cfg d.mem d.len with
  | some p => if p.status = .noError then some p.parser else none
  | none => none

/-- A datagram arrives. A request is passed to the handler. -/
def receive (b : Buffer) (d : Datagram) : Option ℤ × Buffer :=
  match d.request cfg with
  | none => (none, b)
  | some p =>
      let reply := coapBlock1Handler p.pkt p.mem d.response b maxLen
      (some reply.result, reply.buffer)

/-- The results and the buffer after some datagrams. -/
def receiveAll : Buffer → List Datagram → List (Option ℤ) × Buffer
  | b, [] => ([], b)
  | b, d :: ds =>
      let first := receive cfg maxLen b d
      let rest := receiveAll first.2 ds
      (first.1 :: rest.1, rest.2)

/-! ## What it is for -/

/-- The size of a block whose option has this exponent. -/
def blockSize (szx : Fin 8) : ℕ := 16 * 2 ^ szx.val

/-- A block of a body. -/
def blockOf (body : List UInt8) (szx : Fin 8) (i : ℕ) : List UInt8 :=
  (body.drop (i * blockSize szx)).take (blockSize szx)

/-- Whether more blocks follow. -/
def moreAfter (body : List UInt8) (szx : Fin 8) (i : ℕ) : ℕ :=
  if (i + 1) * blockSize szx < body.length then 1 else 0

/-- The payload of a datagram, which reaches up to its end. -/
def Datagram.payload (d : Datagram) (p : Parser) : List UInt8 :=
  d.mem.read p.pkt.payload.start (d.len - p.pkt.payload.start)

/-- A datagram is a request with a block of a body: its payload is the block, and its Block1
option holds the number. -/
def Carries (body : List UInt8) (szx : Fin 8) (i : ℕ) (d : Datagram) : Prop :=
  ∃ p, d.request cfg = some p ∧ p.pkt.payload.start ≠ 0 ∧ d.payload p = blockOf body szx i ∧
    p.pkt.options (CoapOption.block .block1).number = true ∧
    ∃ num : UInt32, p.pkt.blocks .block1 = .decode num ∧
      num.toNat = 16 * i + 8 * moreAfter body szx i + szx.val

/-- The blocks of a body arrive in order, each of them once or several times in a row. -/
structure Transfer (body : List UInt8) (szx : Fin 8) (is : List ℕ) (ds : List Datagram) : Prop where
  nonempty : body ≠ []
  carries : List.Forall₂ (Carries cfg body szx) is ds
  first : is.head? = some 0
  inOrder : is.IsChain fun i j => j = i ∨ j = i + 1
  inside : ∀ i ∈ is, i * blockSize szx < body.length
  last : ∀ i, is.getLast? = some i → moreAfter body szx i = 0

/-- What has to hold for some datagrams and a buffer, whatever it contains. -/
structure Correct (ds : List Datagram) : Prop where
  /-- Every write is inside. -/
  inside : ∀ target len, ∀ w ∈ (receiveAll cfg maxLen ⟨target, len, []⟩ ds).2.writes,
    w.1 + w.2 ≤ maxLen.toNat
  /-- A block that is refused changes nothing. -/
  refused : ∀ d ∈ ds, ∀ b, (receive cfg maxLen b d).1 = some (-1) → (receive cfg maxLen b d).2 = b
  /-- The blocks of a body that fits are put together. -/
  assembled : ∀ body szx is, Transfer cfg body szx is ds → body.length ≤ maxLen.toNat →
    ∀ target len, ∃ b, receiveAll cfg maxLen ⟨target, len, []⟩ ds =
        (is.map fun i => some (moreAfter body szx i : ℤ), b) ∧
      b.len.toNat = body.length ∧ b.target.read 0 body.length = body

/-- The end of a payload in the buffer is not a number of more than 32 bits that looks like one
inside. -/
def NoWrap (d : Datagram) : Prop :=
  ∀ p, d.request cfg = some p → coapGetPayload p.pkt ≠ 0 →
    ¬ (2 ^ 32 ≤ (p.pkt.blocks .block1).offset.toNat + coapGetPayload p.pkt ∧
      (p.pkt.blocks .block1).offset.toNat + coapGetPayload p.pkt ≤ 2 ^ 32 + maxLen.toNat)

/-- The parser keeps the whole payload. -/
def Short (d : Datagram) : Prop :=
  ∀ p, d.request cfg = some p → p.pkt.payload.start ≠ 0 →
    (d.payload p).length ≤ cfg.restMaxChunkSize

/-! ## Option -/

theorem decode_offset (num : UInt32) :
    (Block.decode num).offset.toNat =
      (num.toNat / 16 * 16 * 2 ^ (num.toNat % 8)) % 2 ^ 32 := by
  have hclear : (num &&& 0xfffffff0).toNat = num.toNat / 16 * 16 :=
    and_complement (w := 32) (k := 4) num.toNat_lt (by decide)
  have hseven : (num &&& 7).toNat = num.toNat % 8 := Nat.and_two_pow_sub_one_eq_mod num.toNat 3
  unfold Block.decode
  dsimp only
  rw [UInt32.toNat_shiftLeft, hclear, hseven, Nat.mod_eq_of_lt (show num.toNat % 8 < 32 by omega),
    Nat.shiftLeft_eq]

theorem decode_more (num : UInt32) : (Block.decode num).more ≠ 0 ↔ num.toNat / 8 % 2 = 1 := by
  have hbit : (Block.decode num).more.toNat = ((num.toNat &&& 8) >>> 3) % 256 := rfl
  have hone : (8 : ℕ) >>> 3 = 1 := rfl
  rw [Nat.shiftRight_and_distrib, hone, Nat.and_one_is_mod, Nat.shiftRight_eq_div_pow] at hbit
  rw [ne_eq, ← UInt8.toNat_inj, hbit]
  change ¬ _ = 0 ↔ _
  omega

/-- The number of a block of a body, as the parser takes it apart. -/
theorem decode_block {num : UInt32} {szx : Fin 8} {i m : ℕ} (hm : m ≤ 1)
    (hnum : num.toNat = 16 * i + 8 * m + szx.val) (hlt : i * blockSize szx < 2 ^ 32) :
    (Block.decode num).offset.toNat = i * blockSize szx ∧
      ((Block.decode num).more ≠ 0 ↔ m = 1) := by
  have hszx := szx.isLt
  have hhigh : num.toNat / 16 * 16 = i * 16 := by omega
  have hlow : num.toNat % 8 = szx.val := by omega
  constructor
  · rw [decode_offset, hhigh, hlow, Nat.mul_assoc]
    exact Nat.mod_eq_of_lt hlt
  · rw [decode_more]
    omega

/-! ## Parser -/

/-- Where the payload of a request is: nowhere, or at the end of the datagram. -/
def PayloadFrom (m : Memory) (dataLen : ℕ) (p : Parser) : Prop :=
  p.pkt.payload = ⟨0, 0⟩ ∨
    p.pkt.payload.start ≠ 0 ∧
      p.pkt.payload.len = min (dataLen - p.pkt.payload.start) cfg.restMaxChunkSize ∧
      ∀ i, p.pkt.payload.start ≤ i → i < p.pkt.payload.start + p.pkt.payload.len → p.mem i = m i

section Parser

variable {cfg : Config} {m : Memory} {dataLen fuel : ℕ} {s : Parser} {r : Parsed}

theorem payloadFrom_parsePayload (h : Running m dataLen s) :
    PayloadFrom cfg m dataLen (s.parsePayload cfg dataLen) := by
  refine .inr ⟨Nat.succ_ne_zero _, rfl, ?_⟩
  intro i hi hlt
  exact (Memory.write_below hlt).trans (h.unread i (Nat.le_of_succ_le hi))

theorem payloadFrom_of_run (h : Running m dataLen s) (hrun : parseLoop cfg dataLen fuel s = some r)
    (hok : r.status = .noError) : PayloadFrom cfg m dataLen r.parser := by
  induction fuel generalizing s with
  | zero => cases hrun
  | succ fuel ih =>
    by_cases hlt : s.currentOption < dataLen
    case neg =>
      rw [parseLoop_end hlt] at hrun
      obtain rfl := Option.some.inj hrun
      exact .inl h.payload
    by_cases hmarker : Marker (s.mem s.currentOption)
    · rw [parseLoop_payload hlt hmarker] at hrun
      obtain rfl := Option.some.inj hrun
      exact payloadFrom_parsePayload h
    · have hnext := lt_readHeader s.mem s.currentOption
      rcases hread : readHeader s.mem s.currentOption with ⟨delta, length, q⟩
      rw [hread] at hnext
      rw [parseLoop_succ hlt] at hrun
      by_cases hrefused : dataLen < q + length ∨ Refused (s.optionNumber + delta)
      · obtain ⟨s', status, message, hround, hstatus, -⟩ := round_refused cfg hmarker hread hrefused
        rw [hround] at hrun
        obtain rfl := Option.some.inj hrun
        exact absurd hok hstatus
      · obtain ⟨hfits, hnumber⟩ := not_or.mp hrefused
        obtain ⟨s', hround, htaken⟩ :=
          round_taken cfg hmarker hread h.strings (Nat.not_lt.mp hfits) hnumber
        rw [hround] at hrun
        exact ih (h.taken htaken hnext (Nat.not_lt.mp hfits)) hrun

theorem payloadFrom_request {d : Datagram} {p : Parser} (h : d.request cfg = some p) :
    PayloadFrom cfg d.mem d.len p := by
  unfold Datagram.request at h
  cases hparse : coapParseMessage cfg d.mem d.len with
  | none =>
    rw [hparse] at h
    cases h
  | some r =>
    rw [hparse] at h
    dsimp only at h
    split at h
    · rename_i hok
      obtain rfl := Option.some.inj h
      unfold coapParseMessage at hparse
      dsimp only at hparse
      split at hparse
      · obtain rfl := Option.some.inj hparse
        cases hok
      · split at hparse
        · obtain rfl := Option.some.inj hparse
          cases hok
        · by_cases htoken : coapHeaderLen + (parseHeader d.mem).tokenLen.toNat ≤ d.len
          · exact payloadFrom_of_run (running_start htoken) hparse hok
          · -- the token ends behind the datagram, and so does the loop
            have hend : ¬ (Parser.start d.mem).currentOption < d.len := by
              change ¬ coapHeaderLen + (parseHeader d.mem).tokenLen.toNat < d.len
              omega
            rw [parseLoop_end hend] at hparse
            obtain rfl := Option.some.inj hparse
            exact .inl rfl
    · cases h

/-- What the handler gets of the payload of a datagram. -/
theorem request_payload {d : Datagram} {p : Parser} (h : d.request cfg = some p)
    (hstart : p.pkt.payload.start ≠ 0) :
    coapGetPayload p.pkt = min (d.payload p).length cfg.restMaxChunkSize ∧
      p.mem.read p.pkt.payload.start (coapGetPayload p.pkt) =
        (d.payload p).take (coapGetPayload p.pkt) := by
  have hlen : coapGetPayload p.pkt = p.pkt.payload.len := if_neg hstart
  rcases payloadFrom_request h with hnone | ⟨-, hmin, hmem⟩
  · rw [hnone] at hstart
    exact absurd rfl hstart
  · have hpayload : (d.payload p).length = d.len - p.pkt.payload.start := Memory.length_read
    refine ⟨by rw [hlen, hmin, hpayload], ?_⟩
    rw [hlen, Memory.read_congr hmem]
    have hslice := Memory.read_slice (m := d.mem) (p := p.pkt.payload.start)
      (n := d.len - p.pkt.payload.start) (a := 0) (b := p.pkt.payload.len) (by omega)
    rw [List.drop_zero, Nat.add_zero] at hslice
    exact hslice.symm

theorem coapGetPayload_le {d : Datagram} {p : Parser} (h : d.request cfg = some p) :
    coapGetPayload p.pkt ≤ cfg.restMaxChunkSize := by
  by_cases hstart : p.pkt.payload.start = 0
  · have hzero : coapGetPayload p.pkt = 0 := if_pos hstart
    omega
  · rw [(request_payload h hstart).1]
    exact Nat.min_le_right _ _

end Parser

/-! ## One request -/

section Receive

variable {cfg : Config} {maxLen : UInt32} {d : Datagram} {p : Parser} {b : Buffer}

/-- Where a request wants to write to. -/
def offset (p : Parser) : ℕ := (p.pkt.blocks .block1).offset.toNat

theorem toNat_end (h : d.request cfg = some p) :
    ((p.pkt.blocks .block1).offset + UInt32.ofNat (coapGetPayload p.pkt)).toNat =
      (offset p + coapGetPayload p.pkt) % 2 ^ 32 := by
  have hle := coapGetPayload_le h
  have hfits := cfg.fits
  rw [UInt32.toNat_add, UInt32.toNat_ofNat_of_lt' (by rw [UInt32.size]; omega)]
  rfl

/-- A request that is accepted. -/
theorem receive_accepted (h : d.request cfg = some p) (hpos : coapGetPayload p.pkt ≠ 0)
    (hle : (offset p + coapGetPayload p.pkt) % 2 ^ 32 ≤ maxLen.toNat) :
    receive cfg maxLen b d =
      (some (if p.pkt.options (CoapOption.block .block1).number ∧ (p.pkt.blocks .block1).more ≠ 0
        then 1 else 0),
        { target := b.target.write (offset p)
            (p.mem.read p.pkt.payload.start (coapGetPayload p.pkt))
          len := (p.pkt.blocks .block1).offset + UInt32.ofNat (coapGetPayload p.pkt)
          writes := b.writes ++ [(offset p, coapGetPayload p.pkt)] }) := by
  have hfits : ¬ maxLen < (p.pkt.blocks .block1).offset + UInt32.ofNat (coapGetPayload p.pkt) := by
    rw [UInt32.lt_iff_toNat_lt, toNat_end h]
    omega
  unfold receive coapBlock1Handler
  rw [h]
  dsimp only
  rw [if_neg hpos, if_neg hfits]
  by_cases hset : p.pkt.options (CoapOption.block .block1).number
  · by_cases hmore : (p.pkt.blocks .block1).more ≠ 0
    · simp only [if_pos hset, if_pos hmore, if_pos (And.intro hset hmore)]
      rfl
    · simp only [if_pos hset, if_neg hmore, if_neg (fun hc : _ ∧ _ => hmore hc.2)]
      rfl
  · simp only [if_neg hset, if_neg (fun hc : _ ∧ _ => hset hc.1)]
    rfl

/-- Every other datagram changes nothing. -/
theorem receive_refused (hno : ∀ p, d.request cfg = some p → coapGetPayload p.pkt ≠ 0 →
      maxLen.toNat < (offset p + coapGetPayload p.pkt) % 2 ^ 32) :
    (receive cfg maxLen b d).2 = b := by
  unfold receive
  cases hreq : d.request cfg with
  | none => rfl
  | some p =>
    unfold coapBlock1Handler
    dsimp only
    by_cases hpos : coapGetPayload p.pkt = 0
    · rw [if_pos hpos]
    · have hbig : maxLen < (p.pkt.blocks .block1).offset + UInt32.ofNat (coapGetPayload p.pkt) := by
        rw [UInt32.lt_iff_toNat_lt, toNat_end hreq]
        exact hno p hreq hpos
      rw [if_neg hpos, if_pos hbig]

/-- A datagram is accepted or changes nothing. -/
theorem receive_cases (cfg : Config) (maxLen : UInt32) (d : Datagram) (b : Buffer) :
    (∃ p, d.request cfg = some p ∧ coapGetPayload p.pkt ≠ 0 ∧
      (offset p + coapGetPayload p.pkt) % 2 ^ 32 ≤ maxLen.toNat) ∨
    (receive cfg maxLen b d).2 = b := by
  by_cases hno : ∀ p, d.request cfg = some p → coapGetPayload p.pkt ≠ 0 →
      maxLen.toNat < (offset p + coapGetPayload p.pkt) % 2 ^ 32
  · exact .inr (receive_refused hno)
  · left
    push Not at hno
    exact hno

/-- A result of -1 comes from a request that is not accepted. -/
theorem receive_unchanged (h : (receive cfg maxLen b d).1 = some (-1)) :
    (receive cfg maxLen b d).2 = b := by
  rcases receive_cases cfg maxLen d b with ⟨p, hp, hpos, hle⟩ | hsame
  · rw [receive_accepted hp hpos hle] at h
    have hres := Option.some.inj h
    split_ifs at hres
  · exact hsame

/-! ## Writes -/

variable (cfg maxLen) in
theorem writes_mono (ds : List Datagram) {w : ℕ × ℕ} (hw : w ∈ b.writes) :
    w ∈ (receiveAll cfg maxLen b ds).2.writes := by
  induction ds generalizing b with
  | nil => exact hw
  | cons d ds ih =>
    refine ih ?_
    rcases receive_cases cfg maxLen d b with ⟨p, hp, hpos, hle⟩ | hsame
    · rw [receive_accepted hp hpos hle]
      exact List.mem_append_left _ hw
    · rw [hsame]
      exact hw

theorem writes_inside {ds : List Datagram} (hnowrap : ∀ d ∈ ds, NoWrap cfg maxLen d)
    (hb : ∀ w ∈ b.writes, w.1 + w.2 ≤ maxLen.toNat) :
    ∀ w ∈ (receiveAll cfg maxLen b ds).2.writes, w.1 + w.2 ≤ maxLen.toNat := by
  induction ds generalizing b with
  | nil => exact hb
  | cons d ds ih =>
    refine ih (fun d' hd' => hnowrap d' (List.mem_cons_of_mem d hd')) ?_
    rcases receive_cases cfg maxLen d b with ⟨p, hp, hpos, hle⟩ | hsame
    · rw [receive_accepted hp hpos hle]
      intro w hw
      rcases List.mem_append.mp hw with hw | hw
      · exact hb w hw
      · rw [List.mem_singleton.mp hw]
        have hno := hnowrap d List.mem_cons_self p hp hpos
        have hlt := (p.pkt.blocks .block1).offset.toNat_lt
        have hchunk := coapGetPayload_le hp
        have hfits := cfg.fits
        change offset p < 2 ^ 32 at hlt
        change ¬ (2 ^ 32 ≤ offset p + _ ∧ offset p + _ ≤ _) at hno
        dsimp only
        omega
    · rw [hsame]
      exact hb

/-- A sum that wraps around makes the handler write behind the buffer. -/
theorem noWrap_of_inside {ds : List Datagram}
    (hinside : ∀ w ∈ (receiveAll cfg maxLen b ds).2.writes, w.1 + w.2 ≤ maxLen.toNat) :
    ∀ d ∈ ds, NoWrap cfg maxLen d := by
  induction ds generalizing b with
  | nil => exact fun d hd => absurd hd List.not_mem_nil
  | cons d ds ih =>
    intro d' hd'
    rcases List.mem_cons.mp hd' with rfl | hd'
    · rintro p hp hpos ⟨hlow, hhigh⟩
      change 2 ^ 32 ≤ offset p + _ at hlow
      change offset p + _ ≤ _ at hhigh
      have hlt := (p.pkt.blocks .block1).offset.toNat_lt
      have hmax := maxLen.toNat_lt
      have hchunk := coapGetPayload_le hp
      have hfits := cfg.fits
      change offset p < 2 ^ 32 at hlt
      have hle : (offset p + coapGetPayload p.pkt) % 2 ^ 32 ≤ maxLen.toNat := by omega
      have hw : (offset p, coapGetPayload p.pkt) ∈ (receive cfg maxLen b d').2.writes := by
        rw [receive_accepted hp hpos hle]
        exact List.mem_append_right _ List.mem_cons_self
      have hmem := writes_mono cfg maxLen ds hw
      have hbad := hinside _ hmem
      dsimp only at hbad
      omega
    · exact ih hinside d' hd'

/-- What no request writes to keeps its value. -/
theorem target_untouched {ds : List Datagram} {q : ℕ}
    (hq : ∀ d ∈ ds, ∀ p, d.request cfg = some p →
      q < offset p ∨ offset p + coapGetPayload p.pkt ≤ q) :
    (receiveAll cfg maxLen b ds).2.target q = b.target q := by
  induction ds generalizing b with
  | nil => rfl
  | cons d ds ih =>
    have hrest := ih (b := (receive cfg maxLen b d).2)
      fun d' hd' => hq d' (List.mem_cons_of_mem d hd')
    refine hrest.trans ?_
    rcases receive_cases cfg maxLen d b with ⟨p, hp, hpos, hle⟩ | hsame
    · rw [receive_accepted hp hpos hle]
      rcases hq d List.mem_cons_self p hp with hlt | hge
      · exact Memory.write_below hlt
      · refine Memory.write_above ?_
        rw [Memory.length_read]
        exact hge
    · rw [hsame]

end Receive

/-! ## Transfer -/

/-- The first bytes of a body are in the buffer. -/
def Filled (body : List UInt8) (n : ℕ) (b : Buffer) : Prop :=
  ∀ (q : ℕ) (hq : q < body.length), q < n → b.target q = body[q]

section Transfer

variable {cfg : Config} {maxLen : UInt32} {body : List UInt8} {szx : Fin 8} {i : ℕ} {d : Datagram}
  {b : Buffer}

theorem blockSize_pos (szx : Fin 8) : 0 < blockSize szx :=
  Nat.mul_pos (by decide) (Nat.two_pow_pos _)

theorem length_blockOf (body : List UInt8) (szx : Fin 8) (i : ℕ) :
    (blockOf body szx i).length = min (blockSize szx) (body.length - i * blockSize szx) := by
  rw [blockOf, List.length_take, List.length_drop]

theorem moreAfter_le (body : List UInt8) (szx : Fin 8) (i : ℕ) : moreAfter body szx i ≤ 1 := by
  unfold moreAfter
  split
  · exact le_rfl
  · exact Nat.zero_le 1

/-- The request of a block. -/
structure Block1 (cfg : Config) (body : List UInt8) (szx : Fin 8) (i : ℕ) (d : Datagram)
    (p : Parser) : Prop where
  request : d.request cfg = some p
  start : p.pkt.payload.start ≠ 0
  payload : d.payload p = blockOf body szx i
  offset : offset p = i * blockSize szx
  more : (p.pkt.options (CoapOption.block .block1).number ∧ (p.pkt.blocks .block1).more ≠ 0) ↔
    moreAfter body szx i = 1
  length : coapGetPayload p.pkt = min (blockOf body szx i).length cfg.restMaxChunkSize

theorem Carries.block1 (h : Carries cfg body szx i d) (hi : i * blockSize szx < 2 ^ 32) :
    ∃ p, Block1 cfg body szx i d p := by
  obtain ⟨p, hp, hstart, hpayload, hset, num, hblock, hnum⟩ := h
  obtain ⟨hoffset, hmore⟩ := decode_block (moreAfter_le body szx i) hnum hi
  rw [← hblock] at hoffset hmore
  refine ⟨p, hp, hstart, hpayload, hoffset, ?_, ?_⟩
  · rw [hmore]
    exact and_iff_right hset
  · rw [(request_payload hp hstart).1, hpayload]

/-- One block is added to what is there, or written once more. -/
theorem receive_block {j : ℕ} (h : Carries cfg body szx i d) (hshort : Short cfg d)
    (hi : i * blockSize szx < body.length) (hlen : body.length ≤ maxLen.toNat)
    (hj : j = i ∨ j = i + 1) (hb : Filled body (j * blockSize szx) b) :
    (receive cfg maxLen b d).1 = some (moreAfter body szx i : ℤ) ∧
      Filled body ((i + 1) * blockSize szx) (receive cfg maxLen b d).2 ∧
      (receive cfg maxLen b d).2.len.toNat = min ((i + 1) * blockSize szx) body.length := by
  have hmax := maxLen.toNat_lt
  obtain ⟨p, hp⟩ := h.block1 (by omega)
  have hsize := blockSize_pos szx
  have hblock := length_blockOf body szx i
  have hkept : coapGetPayload p.pkt = (blockOf body szx i).length := by
    have hle := hshort p hp.request hp.start
    rw [hp.payload] at hle
    rw [hp.length, Nat.min_eq_left hle]
  have hnext : (i + 1) * blockSize szx = i * blockSize szx + blockSize szx := Nat.succ_mul _ _
  -- A block ends with its size, or with the body.
  have hend : offset p + coapGetPayload p.pkt = min ((i + 1) * blockSize szx) body.length := by
    rw [hp.offset, hkept, hblock, hnext]
    omega
  -- The position does not wrap, as the body is shorter than the limit.
  have hmod : (offset p + coapGetPayload p.pkt) % 2 ^ 32 =
      min ((i + 1) * blockSize szx) body.length := by
    rw [hend]
    exact Nat.mod_eq_of_lt (by omega)
  have hread : p.mem.read p.pkt.payload.start (coapGetPayload p.pkt) = blockOf body szx i := by
    rw [(request_payload hp.request hp.start).2, hp.payload, hkept, List.take_length]
  rw [receive_accepted hp.request (by omega) (by omega)]
  refine ⟨?_, ?_, ?_⟩
  · have hle := moreAfter_le body szx i
    rw [Option.some.injEq, if_congr hp.more rfl rfl]
    split_ifs <;> omega
  · intro q hq hlt
    change (b.target.write (offset p) _) q = _
    rw [hread, hp.offset]
    by_cases hbelow : q < i * blockSize szx
    · rw [Memory.write_below hbelow]
      refine hb q hq ?_
      rcases hj with rfl | rfl
      · exact hbelow
      · omega
    · -- inside the block
      have hin : q - i * blockSize szx < blockSize szx := by omega
      have hget : (blockOf body szx i)[q - i * blockSize szx]? = some body[q] := by
        rw [blockOf, List.getElem?_take_of_lt hin, List.getElem?_drop,
          Nat.add_sub_cancel' (Nat.le_of_not_lt hbelow), List.getElem?_eq_getElem hq]
      rw [Memory.write, if_pos (Nat.le_of_not_lt hbelow), hget]
      rfl
  · change ((p.pkt.blocks .block1).offset + UInt32.ofNat (coapGetPayload p.pkt)).toNat = _
    rw [toNat_end hp.request, hmod]

/-- The blocks from some point of a transfer on. -/
theorem receiveAll_blocks {is : List ℕ} {ds : List Datagram} {j : ℕ}
    (hcarries : List.Forall₂ (Carries cfg body szx) is ds) (hshort : ∀ d ∈ ds, Short cfg d)
    (hinside : ∀ i ∈ is, i * blockSize szx < body.length) (hlen : body.length ≤ maxLen.toNat)
    (horder : is.IsChain fun i j => j = i ∨ j = i + 1)
    (hj : ∀ i, is.head? = some i → j = i ∨ j = i + 1)
    (hb : Filled body (j * blockSize szx) b) :
    (receiveAll cfg maxLen b ds).1 = (is.map fun i => some (moreAfter body szx i : ℤ)) ∧
      ∀ l, is.getLast? = some l →
        Filled body ((l + 1) * blockSize szx) (receiveAll cfg maxLen b ds).2 ∧
        (receiveAll cfg maxLen b ds).2.len.toNat = min ((l + 1) * blockSize szx) body.length := by
  -- On the datagrams; a repeated one is the block before.
  induction hcarries generalizing j b with
  | nil => exact ⟨rfl, fun l hl => by cases hl⟩
  | @cons i d is ds hd hrest ih =>
    obtain ⟨hres, hfilled, hend⟩ := receive_block hd (hshort d List.mem_cons_self)
      (hinside i List.mem_cons_self) hlen (hj i rfl) hb
    -- The next one is the following block, or this one again.
    have hnext : ∀ i', is.head? = some i' → i + 1 = i' ∨ i + 1 = i' + 1 := by
      intro i' hi'
      cases is with
      | nil => cases hi'
      | cons k ks =>
        obtain rfl := Option.some.inj hi'
        rcases (List.isChain_cons_cons.mp horder).1 with rfl | rfl
        · exact .inr rfl
        · exact .inl rfl
    obtain ⟨hresults, hlast⟩ := ih (fun d' hd' => hshort d' (List.mem_cons_of_mem d hd'))
      (fun i' hi' => hinside i' (List.mem_cons_of_mem i hi')) horder.tail hnext hfilled
    constructor
    · rw [receiveAll, List.map_cons, hres, hresults]
    · intro l hl
      rw [receiveAll]
      cases is with
      | nil =>
        cases hrest
        obtain rfl := Option.some.inj hl
        exact ⟨hfilled, hend⟩
      | cons k ks =>
        rw [List.getLast?_cons_cons] at hl
        exact hlast l hl

/-- A transfer of blocks that the parser keeps whole puts the body together. -/
theorem assembled_of_short {is : List ℕ} {ds : List Datagram} (h : Transfer cfg body szx is ds)
    (hlen : body.length ≤ maxLen.toNat) (hshort : ∀ d ∈ ds, Short cfg d) (b : Buffer) :
    ∃ b', receiveAll cfg maxLen b ds = (is.map fun i => some (moreAfter body szx i : ℤ), b') ∧
      b'.len.toNat = body.length ∧ b'.target.read 0 body.length = body := by
  have hfirst : ∀ i, is.head? = some i → 0 = i ∨ 0 = i + 1 := by
    intro i hi
    rw [h.first] at hi
    exact .inl (Option.some.inj hi)
  obtain ⟨hresults, hlast⟩ := receiveAll_blocks (b := b) h.carries hshort h.inside hlen h.inOrder
    hfirst (fun q _ hq => absurd hq (by omega))
  have hne : is ≠ [] := by
    rintro rfl
    cases h.first
  have hl := List.getLast?_eq_some_getLast hne
  obtain ⟨hfilled, hend⟩ := hlast _ hl
  have hmore := h.last _ hl
  have hall : body.length ≤ (is.getLast hne + 1) * blockSize szx := by
    by_contra hlt
    rw [moreAfter, if_pos (Nat.lt_of_not_le hlt)] at hmore
    cases hmore
  refine ⟨(receiveAll cfg maxLen b ds).2, ?_, ?_, ?_⟩
  · rw [← hresults]
  · rw [hend, Nat.min_eq_right hall]
  · apply List.ext_getElem Memory.length_read
    intro q hq hq'
    have hget := Memory.getElem?_read (m := (receiveAll cfg maxLen b ds).2.target) (p := 0) hq'
    rw [List.getElem?_eq_getElem hq, Option.some.injEq, Nat.zero_add] at hget
    rw [hget]
    exact hfilled q hq' (by omega)

/-- A block whose end the parser cuts off is missing in the buffer. -/
theorem short_of_assembled {is : List ℕ} {ds : List Datagram} (h : Transfer cfg body szx is ds)
    (hlen : body.length ≤ maxLen.toNat)
    (hall : ∀ target len, ((receiveAll cfg maxLen ⟨target, len, []⟩ ds).2.target.read 0
      body.length) = body) :
    ∀ d ∈ ds, Short cfg d := by
  intro d hd p hp hstart
  have hmax := maxLen.toNat_lt
  have hblockOf : ∀ d' ∈ ds, ∃ i' ∈ is, Carries cfg body szx i' d' := by
    intro d' hd'
    obtain ⟨n, hn, rfl⟩ := List.mem_iff_getElem.mp hd'
    have hn' : n < is.length := by
      rw [h.carries.length_eq]
      exact hn
    exact ⟨is[n], List.getElem_mem hn', List.forall₂_iff_get.mp h.carries |>.2 n hn' hn⟩
  obtain ⟨i, hi, hcarries⟩ := hblockOf d hd
  have hin := h.inside i hi
  obtain ⟨p', hp'⟩ := hcarries.block1 (by omega)
  obtain rfl := Option.some.inj (hp'.request.symm.trans hp)
  rw [hp'.payload]
  by_contra hlong
  have hlength := length_blockOf body szx i
  -- the first byte that is cut off
  have hq : i * blockSize szx + cfg.restMaxChunkSize < body.length := by omega
  have huntouched : ∀ d' ∈ ds, ∀ p₂, d'.request cfg = some p₂ →
      i * blockSize szx + cfg.restMaxChunkSize < offset p₂ ∨
        offset p₂ + coapGetPayload p₂.pkt ≤ i * blockSize szx + cfg.restMaxChunkSize := by
    intro d' hd' p₂ hp₂
    obtain ⟨i', hi', hcarries'⟩ := hblockOf d' hd'
    have hin' := h.inside i' hi'
    obtain ⟨p₁, hp₁⟩ := hcarries'.block1 (by omega)
    obtain rfl := Option.some.inj (hp₁.request.symm.trans hp₂)
    have hlength' := length_blockOf body szx i'
    have hkept := hp₁.length
    rw [hp₁.offset]
    rcases Nat.lt_trichotomy i' i with hlt | rfl | hlt
    · right
      have hnext : (i' + 1) * blockSize szx ≤ i * blockSize szx := Nat.mul_le_mul_right _ hlt
      rw [Nat.succ_mul] at hnext
      omega
    · right
      omega
    · left
      have hnext : (i + 1) * blockSize szx ≤ i' * blockSize szx := Nat.mul_le_mul_right _ hlt
      rw [Nat.succ_mul] at hnext
      omega
  have hread := hall (fun _ => body[i * blockSize szx + cfg.restMaxChunkSize] + 1) 0
  have hget := congrArg (·[i * blockSize szx + cfg.restMaxChunkSize]?) hread
  rw [Memory.getElem?_read hq, List.getElem?_eq_getElem hq, Nat.zero_add,
    target_untouched huntouched, Option.some.injEq] at hget
  have hsame : body[i * blockSize szx + cfg.restMaxChunkSize] + 1 =
      body[i * blockSize szx + cfg.restMaxChunkSize] + 0 := hget.trans (UInt8.add_zero _).symm
  have hone : (1 : UInt8) = 0 := (UInt8.add_right_inj _).mp hsame
  exact absurd hone (by decide)

end Transfer

/-! ## Result -/

/-- A request with 16 bytes for the last 16 places below `2 ^ 32`. -/
def wrappingRequest : Datagram where
  mem := fun i => [0x40, 0x02, 0x00, 0x01, 0xd4, 0x0e, 0xff, 0xff, 0xff, 0xf0, 0xff].getD i 0x61
  len := 27
  response := {
    version := 1
    type := .ack
    code := 0
    mid := 1
    tokenLen := 0
    token := fun _ => 0
    options := fun _ => false
    ints := fun _ => 0
    bytes := fun _ => ⟨0, fun _ => 0⟩
    blocks := fun _ => ⟨0, 0, 0, 0⟩
    strings := fun _ => ⟨fun _ => 0, 0⟩
    ifNoneMatch := 0
    payload := ⟨fun _ => 0, 0⟩ }

/-- The handler accepts it for a buffer of 200 bytes. -/
theorem wrappingRequest_written (target : Memory) (len : UInt32) :
    (receiveAll Config.default 200 ⟨target, len, []⟩ [wrappingRequest]).2.writes =
      [(4294967280, 16)] := by
  rfl

/-- The write of an accepted request is not inside. -/
theorem wrapping_request : ¬ Correct Config.default 200 [wrappingRequest] := by
  intro h
  have hinside := h.inside (fun _ => 0) 0 (4294967280, 16)
  rw [wrappingRequest_written] at hinside
  exact absurd (hinside List.mem_cons_self) (by decide)

/-- An upload is handled as it should exactly when no end of a payload wraps around, and no block
of a body that fits is longer than what the parser keeps. -/
theorem block1_correct_iff (cfg : Config) (maxLen : UInt32) (ds : List Datagram) :
    Correct cfg maxLen ds ↔
      (∀ d ∈ ds, NoWrap cfg maxLen d) ∧
        ∀ body szx is, Transfer cfg body szx is ds → body.length ≤ maxLen.toNat →
          ∀ d ∈ ds, Short cfg d := by
  constructor
  · intro h
    refine ⟨noWrap_of_inside (h.inside (fun _ => 0) 0), ?_⟩
    intro body szx is htransfer hlen
    refine short_of_assembled htransfer hlen ?_
    intro target len
    obtain ⟨b, hb, -, hread⟩ := h.assembled body szx is htransfer hlen target len
    rw [hb]
    exact hread
  · rintro ⟨hnowrap, hshort⟩
    refine ⟨?_, fun d _ b => receive_unchanged, ?_⟩
    · intro target len
      exact writes_inside hnowrap fun w hw => absurd hw List.not_mem_nil
    · intro body szx is htransfer hlen target len
      exact assembled_of_short htransfer hlen (hshort body szx is htransfer hlen) _

end MasterScheduler.Mote.CoapBlock1

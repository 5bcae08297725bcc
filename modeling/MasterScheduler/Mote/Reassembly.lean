import MasterScheduler.Lib.Blocks
import MasterScheduler.Lib.Transition
import MasterScheduler.Lib.Words

/-!
# MasterScheduler.Mote.Reassembly — reassembly of IPv6 fragments

`uip_reass` keeps one packet in the making. Its header and the payloads of its
fragments go to `uip_reassbuf`; a bitmap has a bit for every eight bytes of payload.

1. **Model**: `uip_reass`, with the accesses to its two arrays.
2. **Histories**: which fragment wrote a byte of the buffer.
3. **Invariant**: marked blocks are written.
4. **Result**: accesses are inside the arrays and payloads are complete, unless a
   fragment ends behind the buffer once the header is counted, or in a block
   without a byte in the bitmap, or comes with another length of headers.

The buffer of a packet starts at its IPv6 header. Sums of lengths of 16 bits are
taken in an `int` of 32 bits. The timer, and the error messages that are sent,
are left out.
-/

namespace MasterScheduler.Mote.Reassembly

open Lib

/-! ## Model -/

/-- `UIP_REASS_BUFSIZE`. Lengths of packets have 16 bits. -/
structure Config where
  size : ℕ
  size_lt : size < 2 ^ 16

/-- The variables of the reassembly. The flags are bits of `uip_reassflags`. -/
structure State where
  reassbuf : Memory
  reassbitmap : ℕ → BitVec 8
  reasslen : ℕ
  firstFrag : Bool
  lastFrag : Bool
  errorMsg : Bool
  on : Bool
  id : List UInt8

/-- `uip_buf` with a packet up to its fragment header: the length, the length of the extension
headers in front, and where the next header field in front is. -/
structure Packet where
  buf : Memory
  len : BitVec 16
  extLen : BitVec 8
  nextHdr : ℕ

namespace Packet

variable (p : Packet)

/-- Where `UIP_FRAG_BUF` is. -/
def frag : ℕ := 40 + p.extLen.toNat

/-- `srcipaddr`. -/
def src : List UInt8 := p.buf.read 8 16

/-- `destipaddr`. -/
def dst : List UInt8 := p.buf.read 24 16

/-- `UIP_FRAG_BUF->id`. -/
def id : List UInt8 := p.buf.read (p.frag + 4) 4

/-- `uip_ntohs(UIP_FRAG_BUF->offsetresmore)`. -/
def offsetresmore : ℕ := 256 * (p.buf (p.frag + 2)).toNat + (p.buf (p.frag + 3)).toNat

/-- The offset in bytes. -/
def offset : ℕ := p.offsetresmore / 8 * 8

/-- `IP_MF`. -/
def more : Bool := p.offsetresmore % 2 = 1

/-- The length of the payload. -/
def payloadLen : ℕ := (p.len - p.extLen.setWidth 16 - 40 - 8).toNat

end Packet

/-- An access to `uip_reassbuf`, for a header from its start on, for a payload, or to read, or to
a byte of `uip_reassbitmap`. -/
inductive Access
  | header (n : ℕ)
  | payload (i n : ℕ)
  | read (i n : ℕ)
  | bitmap (i : ℕ)
  deriving DecidableEq

/-- What `uip_reass` returns: 0, the length of an error message, or of the packet. -/
inductive Outcome
  | nothing
  | error
  | packet (len : ℕ)
  deriving DecidableEq

/-- The variables and `uip_buf` afterwards, the accesses on the way, and what is returned. -/
structure Result where
  state : State
  packet : Packet
  accesses : List Access
  outcome : Outcome

variable (C : Config)

/-- A packet is put in the making. -/
def start (s : State) (p : Packet) : State :=
  { s with
    reassbuf := s.reassbuf.write 0 (p.buf.read 0 (p.extLen.toNat + 40))
    on := true
    firstFrag := false
    lastFrag := false
    errorMsg := false
    id := p.id
    reassbitmap := fun i => if i < C.size / 64 then 0 else s.reassbitmap i }

/-- Whether a fragment belongs to the packet. -/
def belongs (s : State) (p : Packet) : Bool :=
  s.reassbuf.read 8 16 == p.src && s.reassbuf.read 24 16 == p.dst && p.id == s.id

/-- The first fragment: its next header goes to the header in front, and that to the buffer. -/
def putHeader (s : State) (p : Packet) : State × Packet :=
  let p := { p with buf := Function.update p.buf p.nextHdr (p.buf p.frag) }
  ({ s with
    firstFrag := true
    reassbuf := s.reassbuf.write 0 (p.buf.read 0 (p.extLen.toNat + 40)) }, p)

/-- The payload goes to the buffer, and the bitmap is updated. -/
def putPayload (s : State) (p : Packet) (offset len : ℕ) : State :=
  { s with
    reassbuf := s.reassbuf.write (40 + p.extLen.toNat + offset) (p.buf.read (p.frag + 8) len)
    reassbitmap := mark s.reassbitmap (offset / 64) (offset / 8 % 8) ((offset + len) / 64)
      ((offset + len) / 8 % 8) }

/-- The accesses on the way. -/
def putPayloadAccesses (p : Packet) (offset len : ℕ) : List Access :=
  .payload (40 + p.extLen.toNat + offset) len ::
    if offset / 64 = (offset + len) / 64 then [.bitmap (offset / 64)]
    else .bitmap (offset / 64) ::
      (List.range' (offset / 64 + 1) ((offset + len) / 64 - (offset / 64 + 1))).map .bitmap ++
        [.bitmap ((offset + len) / 64)]

/-- The accesses of the test whether all bits in the bitmap are set, up to the first byte that
fails. -/
def isFullAccesses (s : State) : List Access :=
  match (List.range (s.reasslen / 64)).find? (fun i => s.reassbitmap i != 0xff) with
  | some i => (List.range (i + 1)).map .bitmap
  | none => (List.range (s.reasslen / 64 + 1)).map .bitmap

/-- The end of `uip_reass`: a full packet goes to `uip_buf`. -/
def finish (s : State) (p : Packet) (accesses : List Access) : Result :=
  if s.lastFrag then
    let accesses := accesses ++ isFullAccesses s
    if isFull s.reassbitmap (s.reasslen / 64) (s.reasslen / 8 % 8) then
      let len := (s.reasslen + 40 + p.extLen.toNat) % 2 ^ 16
      let buf := (p.buf.write 0 (s.reassbuf.read 0 len)).write 4
        [UInt8.ofNat ((len - 40) / 256), UInt8.ofNat ((len - 40) % 256)]
      ⟨{ s with on := false, reasslen := len }, { p with buf }, accesses ++ [.read 0 len],
        .packet len⟩
    else ⟨s, p, accesses, .nothing⟩
  else ⟨s, p, accesses, .nothing⟩

/-- `uip_reass` for a fragment that belongs to the packet. -/
def addFragment (s : State) (p : Packet) (accesses : List Access) : Result :=
  let len := p.payloadLen
  let offset := p.offset
  let accesses := if offset = 0 then accesses ++ [.header (p.extLen.toNat + 40)] else accesses
  let r := if offset = 0 then putHeader s p else (s, p)
  let s := r.1
  let p := r.2
  if C.size < offset ∨ C.size < offset + len then
    ⟨{ s with on := false }, p, accesses, .nothing⟩
  else if p.more then
    if len % 8 ≠ 0 then ⟨{ s with on := false, errorMsg := true }, p, accesses, .error⟩
    else finish (putPayload s p offset len) p (accesses ++ putPayloadAccesses p offset len)
  else
    let s := { s with lastFrag := true, reasslen := (offset + len) % 2 ^ 16 }
    finish (putPayload s p offset len) p (accesses ++ putPayloadAccesses p offset len)

/-- `uip_reass`. -/
def uipReass (s : State) (p : Packet) : Result :=
  let accesses := if s.on then [] else
    .header (p.extLen.toNat + 40) :: (List.range (C.size / 64)).map .bitmap
  let s := if s.on then s else start C s p
  let accesses := accesses ++ [.read 8 16, .read 24 16]
  if belongs s p then addFragment C s p accesses else ⟨s, p, accesses, .nothing⟩

/-- `uip_reass_over`. -/
def uipReassOver (s : State) : State := { s with on := false }

/-! ## Histories -/

/-- Source, destination and identification. -/
abbrev Key := List UInt8 × List UInt8 × List UInt8

/-- The key of a fragment. -/
def Packet.key (p : Packet) : Key := (p.src, p.dst, p.id)

/-- The state, the length of the extension headers of the fragment that started the reassembly,
and for every byte of the buffer the fragment since then whose payload it is. -/
structure History where
  state : State
  extLen : BitVec 8
  writer : ℕ → Option Key

/-- The history at the start. -/
def History.initial : History where
  state := ⟨fun _ => 0, fun _ => 0, 0, false, false, false, false, []⟩
  extLen := 0
  writer := fun _ => none

/-- What an access says about the bytes of the buffer. -/
def record (key : Key) (w : ℕ → Option Key) : Access → ℕ → Option Key
  | .payload i n, x => if i ≤ x ∧ x < i + n then some key else w x
  | _, x => w x

/-- A fragment comes in. -/
def History.add (h : History) (p : Packet) : History where
  state := (uipReass C h.state p).state
  extLen := if h.state.on then h.extLen else p.extLen
  writer := (uipReass C h.state p).accesses.foldl (record p.key)
    (if h.state.on then h.writer else fun _ => none)

/-- Fragments, and timeouts. -/
inductive Event
  | fragment (p : Packet)
  | over

/-- An event. -/
def step (h : History) : Event → Option History
  | .fragment p => some (h.add C p)
  | .over => some { h with state := uipReassOver h.state }

/-- Extension headers have lengths that are multiples of eight, and the next header field in front
is the one of the IPv6 header or the first byte of such a header. -/
structure Packet.Proper (p : Packet) : Prop where
  extLen : p.extLen.toNat % 8 = 0
  nextHdr : p.nextHdr = 6 ∨ 40 ≤ p.nextHdr ∧ p.nextHdr % 8 = 0

/-- The access is inside the array. -/
def Access.Inside : Access → Prop
  | .header n => n ≤ C.size
  | .payload i n => n = 0 ∨ i + n ≤ C.size
  | .read i n => i + n ≤ C.size
  | .bitmap i => i < C.size / 64

/-- The headers have room in the buffer. A fragment that is put into the packet has room behind
them, its end has a byte in the bitmap, and it has headers of the same length as the one that
started the reassembly. -/
structure Fits (h : History) (p : Packet) : Prop where
  header : h.state.on = false ∨ belongs h.state p = true ∧ p.offset = 0 →
    40 + p.extLen.toNat ≤ C.size
  payload : h.state.on = false ∨ belongs h.state p = true → p.offset + p.payloadLen ≤ C.size →
    ¬ (p.more = true ∧ p.payloadLen % 8 ≠ 0) →
      (h.state.on = true → p.extLen = h.extLen) ∧
      (p.payloadLen = 0 ∨ 40 + p.extLen.toNat + p.offset + p.payloadLen ≤ C.size) ∧
      (p.offset + p.payloadLen) / 64 < C.size / 64

/-! ## Invariant -/

/-- The key of the packet in the making. -/
def State.key (s : State) : Key := (s.reassbuf.read 8 16, s.reassbuf.read 24 16, s.id)

/-- A byte of the buffer holds payload of the packet in the making. -/
def Holds (C : Config) (s : State) (w : ℕ → Option Key) (x : ℕ) : Prop :=
  w x = some s.key ∧ x < C.size

/-- The blocks that are marked hold payload, and so does the end of the last fragment. -/
structure Making (C : Config) (s : State) (ext : BitVec 8) (w : ℕ → Option Key) : Prop where
  room : 40 + ext.toNat ≤ C.size
  marked : ∀ b, b / 8 < C.size / 64 → isMarked s.reassbitmap b = true →
    ∀ x, 40 + ext.toNat + 8 * b ≤ x → x < 40 + ext.toNat + 8 * b + 8 → Holds C s w x
  last : s.lastFrag = true → s.reasslen / 64 < C.size / 64 ∧
    ∀ x, 40 + ext.toNat + s.reasslen / 8 * 8 ≤ x → x < 40 + ext.toNat + s.reasslen → Holds C s w x

section Invariant

variable {C : Config} {s s' : State} {p : Packet} {ext : BitVec 8} {acc : List Access}
  {w : ℕ → Option Key} {offset len : ℕ}

theorem belongs_iff : belongs s p = true ↔ s.key = p.key := by
  simp only [belongs, State.key, Packet.key, Bool.and_eq_true, beq_iff_eq, Prod.mk.injEq]
  exact ⟨fun h => ⟨h.1.1, h.1.2, h.2.symm⟩, fun h => ⟨⟨h.1, h.2.1⟩, h.2.2.symm⟩⟩

/-- A header in the buffer has the addresses of its packet. -/
theorem read_header {i n k : ℕ} (m m' : Memory) (h : i + n ≤ k) :
    (m.write 0 (m'.read 0 k)).read i n = m'.read i n := by
  refine Memory.read_congr fun x hx hx' => ?_
  rw [Memory.write, if_pos (Nat.zero_le x), Nat.sub_zero, Memory.getElem?_read (by omega),
    Nat.zero_add]
  rfl

theorem key_start : (start C s p).key = p.key := by
  simp only [State.key, start, Packet.key, Packet.src, Packet.dst]
  rw [read_header _ _ (by omega), read_header _ _ (by omega)]

theorem making_start (hroom : 40 + p.extLen.toNat ≤ C.size) :
    Making C (start C s p) p.extLen (fun _ => none) := by
  refine ⟨hroom, ?_, fun h => nomatch h⟩
  intro b hb hmark
  have hzero : (start C s p).reassbitmap (b / 8) = 0 := if_pos hb
  rw [isMarked, hzero] at hmark
  simp at hmark

/-- What the payload of a packet is in. -/
theorem Making.congr (h : Making C s ext w) (hkey : s'.key = s.key)
    (hbitmap : s'.reassbitmap = s.reassbitmap) (hlast : s'.lastFrag = s.lastFrag)
    (hlen : s'.reasslen = s.reasslen) : Making C s' ext w := by
  have hholds : ∀ {x}, Holds C s w x → Holds C s' w x := fun hx => ⟨hkey ▸ hx.1, hx.2⟩
  refine ⟨h.room, ?_, ?_⟩
  · rw [hbitmap]
    exact fun b hb hmark x hx hx' => hholds (h.marked b hb hmark x hx hx')
  · rw [hlast, hlen]
    exact fun hl => ⟨(h.last hl).1, fun x hx hx' => hholds ((h.last hl).2 x hx hx')⟩

/-- A payload is put behind the headers. -/
theorem Making.putPayload (h : Making C s ext w)
    (hsame : s'.reassbuf = s.reassbuf ∧ s'.reassbitmap = s.reassbitmap ∧ s'.id = s.id)
    (hlast : s'.lastFrag = true →
      s'.reasslen = offset + len ∨ s.lastFrag = true ∧ s'.reasslen = s.reasslen)
    (hoffset : offset % 8 = 0) (hroom : len = 0 ∨ 40 + ext.toNat + offset + len ≤ C.size)
    (hend : (offset + len) / 64 < C.size / 64) :
    Making C (putPayload s' p offset len) ext
      (fun x => if 40 + ext.toNat + offset ≤ x ∧ x < 40 + ext.toNat + offset + len then
        some s.key else w x) := by
  obtain ⟨hbuf, hbitmap, hid⟩ := hsame
  have hkey : (Reassembly.putPayload s' p offset len).key = s.key := by
    simp only [State.key, Reassembly.putPayload, hbuf, hid]
    rw [Memory.read_write_below (by omega), Memory.read_write_below (by omega)]
  -- what held payload before still does, and so does the new payload
  have hold : ∀ {x}, Holds C s w x → Holds C (Reassembly.putPayload s' p offset len)
      (fun x => if 40 + ext.toNat + offset ≤ x ∧ x < 40 + ext.toNat + offset + len then
        some s.key else w x) x := by
    intro x hx
    refine ⟨?_, hx.2⟩
    dsimp only
    rw [hkey]
    split
    · rfl
    · exact hx.1
  have hnew : ∀ {x}, 40 + ext.toNat + offset ≤ x → x < 40 + ext.toNat + offset + len →
      Holds C (Reassembly.putPayload s' p offset len)
        (fun x => if 40 + ext.toNat + offset ≤ x ∧ x < 40 + ext.toNat + offset + len then
          some s.key else w x) x := by
    intro x hx hx'
    refine ⟨?_, by omega⟩
    dsimp only
    rw [hkey, if_pos ⟨hx, hx'⟩]
  refine ⟨h.room, ?_, ?_⟩
  · intro b hb hmark x hx hx'
    have hmark' : isMarked (mark s.reassbitmap (offset / 8 / 8) (offset / 8 % 8)
        ((offset + len) / 8 / 8) ((offset + len) / 8 % 8)) b = true := by
      simp only [Reassembly.putPayload, hbitmap] at hmark
      rw [Nat.div_div_eq_div_mul, Nat.div_div_eq_div_mul]
      exact hmark
    rw [isMarked_mark (by omega), Bool.or_eq_true, decide_eq_true_eq] at hmark'
    rcases hmark' with hmark' | ⟨hle, hlt⟩
    · exact hold (h.marked b hb hmark' x hx hx')
    · exact hnew (by omega) (by omega)
  · intro hl
    rcases hlast hl with hlen | ⟨hl', hlen⟩
    · change s'.reasslen / 64 < C.size / 64 ∧ ∀ x, 40 + ext.toNat + s'.reasslen / 8 * 8 ≤ x →
        x < 40 + ext.toNat + s'.reasslen → _
      rw [hlen]
      exact ⟨hend, fun x hx hx' => hnew (by omega) (by omega)⟩
    · change s'.reasslen / 64 < C.size / 64 ∧ ∀ x, 40 + ext.toNat + s'.reasslen / 8 * 8 ≤ x →
        x < 40 + ext.toNat + s'.reasslen → _
      rw [hlen]
      exact ⟨(h.last hl').1, fun x hx hx' => hold ((h.last hl').2 x hx hx')⟩

/-- A full packet holds payload up to its end. -/
theorem Making.full (h : Making C s ext w) (hlast : s.lastFrag = true)
    (hfull : isFull s.reassbitmap (s.reasslen / 64) (s.reasslen / 8 % 8) = true) :
    40 + ext.toNat + s.reasslen ≤ C.size ∧
      ∀ x, 40 + ext.toNat ≤ x → x < 40 + ext.toNat + s.reasslen → w x = some s.key := by
  obtain ⟨hend, htail⟩ := h.last hlast
  have hroom := h.room
  have hall : ∀ x, 40 + ext.toNat ≤ x → x < 40 + ext.toNat + s.reasslen → Holds C s w x := by
    intro x hx hx'
    by_cases hblock : x < 40 + ext.toNat + s.reasslen / 8 * 8
    · have hb : (x - (40 + ext.toNat)) / 8 < s.reasslen / 8 := by omega
      have hfull' : isFull s.reassbitmap (s.reasslen / 8 / 8) (s.reasslen / 8 % 8) = true := by
        rw [Nat.div_div_eq_div_mul]
        exact hfull
      exact h.marked _ (by omega) (isMarked_of_full hfull' hb) x (by omega) (by omega)
    · exact htail x (by omega) hx'
  refine ⟨?_, fun x hx hx' => (hall x hx hx').1⟩
  by_cases hzero : s.reasslen = 0
  · omega
  · have hlt := (hall (40 + ext.toNat + s.reasslen - 1) (by omega) (by omega)).2
    omega

/-- The next header field is not in the addresses, and not in the offset of the fragment. -/
theorem putHeader_spec (hp : p.Proper) (hkey : s.key = p.key) :
    (putHeader s p).1.key = s.key ∧ (putHeader s p).2.more = p.more ∧
      (putHeader s p).2.extLen = p.extLen := by
  obtain ⟨hext, hnext⟩ := hp
  have haddr : ∀ {i n}, 8 ≤ i → i + n ≤ 40 →
      Memory.read (Function.update p.buf p.nextHdr (p.buf p.frag)) i n = p.buf.read i n := by
    intro i n hi hn
    refine Memory.read_congr fun x hx hx' => Function.update_of_ne ?_ _ _
    omega
  refine ⟨?_, ?_, rfl⟩
  · rw [hkey]
    simp only [State.key, putHeader, Packet.key, Packet.src, Packet.dst]
    rw [read_header _ _ (by omega), read_header _ _ (by omega), haddr (by omega) (by omega),
      haddr (by omega) (by omega)]
    have hid : s.id = p.id := congrArg (fun k => k.2.2) hkey
    rw [hid]
  · have hfrag : p.frag % 8 = 0 := by
      rw [Packet.frag]
      omega
    have hne : p.frag + 2 ≠ p.nextHdr ∧ p.frag + 3 ≠ p.nextHdr := by omega
    have hoffset : (putHeader s p).2.offsetresmore = p.offsetresmore := by
      simp only [putHeader, Packet.offsetresmore, Packet.frag] at hne ⊢
      rw [Function.update_of_ne hne.1, Function.update_of_ne hne.2]
    rw [Packet.more, Packet.more, hoffset]

/-- Accesses that write no payload. -/
def Quiet (acc : List Access) : Prop := ∀ a ∈ acc, ∀ i n, a ≠ .payload i n

theorem foldl_record_quiet {key : Key} (h : Quiet acc) : acc.foldl (record key) w = w := by
  induction acc generalizing w with
  | nil => rfl
  | cons a as ih =>
    have hrecord : record key w a = w := by
      cases a with
      | payload i n => exact absurd rfl (h _ List.mem_cons_self i n)
      | header n => rfl
      | read i n => rfl
      | bitmap i => rfl
    rw [List.foldl_cons, hrecord]
    exact ih fun a ha => h a (List.mem_cons_of_mem _ ha)

theorem quiet_bitmap (l : List ℕ) : Quiet (l.map Access.bitmap) := by
  intro a ha i n
  obtain ⟨x, _, rfl⟩ := List.mem_map.mp ha
  exact fun h => nomatch h

/-- A payload, and bytes of the bitmap from its start to its end. -/
theorem putPayloadAccesses_eq (p : Packet) (offset len : ℕ) :
    ∃ l : List ℕ, putPayloadAccesses p offset len =
      .payload (40 + p.extLen.toNat + offset) len :: l.map Access.bitmap ∧
        ∀ i ∈ l, i ≤ (offset + len) / 64 := by
  have hle : offset / 64 ≤ (offset + len) / 64 := Nat.div_le_div_right (by omega)
  unfold putPayloadAccesses
  split
  · exact ⟨[offset / 64], rfl, by simpa using hle⟩
  · refine ⟨offset / 64 :: List.range' (offset / 64 + 1)
      ((offset + len) / 64 - (offset / 64 + 1)) ++ [(offset + len) / 64], by simp, ?_⟩
    intro i hi
    simp only [List.mem_append, List.mem_cons, List.mem_range'_1, List.not_mem_nil,
      or_false] at hi
    omega

theorem isFullAccesses_eq (s : State) :
    ∃ l : List ℕ, isFullAccesses s = l.map Access.bitmap ∧ ∀ i ∈ l, i ≤ s.reasslen / 64 := by
  unfold isFullAccesses
  split
  · rename_i i hi
    have hlt := List.mem_range.mp (List.mem_of_find?_eq_some hi)
    refine ⟨List.range (i + 1), rfl, ?_⟩
    intro x hx
    rw [List.mem_range] at hx
    omega
  · refine ⟨List.range (s.reasslen / 64 + 1), rfl, ?_⟩
    intro x hx
    rw [List.mem_range] at hx
    omega

/-- What holds after a fragment: its accesses are inside, the packet in the making is in order,
and one that is complete has its payload from fragments with its key. -/
structure Done (C : Config) (ext : BitVec 8) (w : ℕ → Option Key) (p : Packet) (r : Result) :
    Prop where
  inside : ∀ a ∈ r.accesses, a.Inside C
  making : r.state.on = true → Making C r.state ext (r.accesses.foldl (record p.key) w)
  packet : ∀ n, r.outcome = .packet n → ∀ x, 40 + p.extLen.toNat ≤ x → x < n →
    (r.accesses.foldl (record p.key) w) x = some p.key

/-- The end of `uip_reass`. -/
theorem Making.finish {key : Key} {q : Packet} (h : Making C s ext (acc.foldl (record key) w))
    (hkey : s.key = p.key) (hpkey : p.key = key) (hext : p.extLen = ext ∧ q.extLen = ext)
    (hacc : ∀ a ∈ acc, a.Inside C) : Done C ext w p (finish s q acc) := by
  subst hpkey
  obtain ⟨rfl, hq⟩ := hext
  unfold Reassembly.finish
  -- The packet is complete when its last fragment is there and no bit of the map is missing.
  split
  · rename_i hlast
    have hend := (h.last hlast).1
    obtain ⟨l, hl, hle⟩ := isFullAccesses_eq s
    have hinside : ∀ a ∈ acc ++ isFullAccesses s, a.Inside C := by
      intro a ha
      rcases List.mem_append.mp ha with ha | ha
      · exact hacc a ha
      · rw [hl] at ha
        obtain ⟨i, hi, rfl⟩ := List.mem_map.mp ha
        exact (hle i hi).trans_lt hend
    have hsame : (acc ++ isFullAccesses s).foldl (record p.key) w = acc.foldl (record p.key) w := by
      rw [List.foldl_append, hl, foldl_record_quiet (quiet_bitmap l)]
    dsimp only
    split
    · rename_i hfull
      obtain ⟨hroom, hall⟩ := h.full hlast hfull
      have hsize := C.size_lt
      have hlen : (s.reasslen + 40 + q.extLen.toNat) % 2 ^ 16 = 40 + p.extLen.toNat + s.reasslen := by
        rw [hq, Nat.mod_eq_of_lt (by omega)]
        omega
      rw [hlen]
      refine ⟨?_, fun hon => absurd hon Bool.false_ne_true, ?_⟩
      · intro a ha
        rcases List.mem_append.mp ha with ha | ha
        · exact hinside a ha
        · rw [List.mem_singleton.mp ha]
          change 0 + _ ≤ _
          omega
      · rintro n hn x hx hxn
        rw [← Outcome.packet.inj hn] at hxn
        have hread : Quiet [Access.read 0 (40 + p.extLen.toNat + s.reasslen)] := by
          intro a ha i n
          rw [List.mem_singleton.mp ha]
          exact fun h => nomatch h
        rw [List.foldl_append, foldl_record_quiet hread, hsame]
        exact (hall x hx hxn).trans (congrArg some hkey)
    · refine ⟨hinside, ?_, fun n hn => nomatch hn⟩
      intro _
      rw [hsame]
      exact h
  · exact ⟨hacc, fun _ => h, fun n hn => nomatch hn⟩

/-- A fragment that is put into the packet. -/
theorem Making.put {q : Packet} (h : Making C s ext w) (hkey : s.key = p.key)
    (hext : p.extLen = ext ∧ q.extLen = ext) (hacc : ∀ a ∈ acc, a.Inside C) (hquiet : Quiet acc)
    (hsame : s'.reassbuf = s.reassbuf ∧ s'.reassbitmap = s.reassbitmap ∧ s'.id = s.id)
    (hlast : s'.lastFrag = true →
      s'.reasslen = offset + len ∨ s.lastFrag = true ∧ s'.reasslen = s.reasslen)
    (hoffset : offset % 8 = 0) (hroom : len = 0 ∨ 40 + ext.toNat + offset + len ≤ C.size)
    (hend : (offset + len) / 64 < C.size / 64) :
    Done C ext w p (Reassembly.finish (Reassembly.putPayload s' q offset len) q
      (acc ++ putPayloadAccesses q offset len)) := by
  -- One access writes the payload, those after it the bitmap.
  obtain ⟨l, hl, hle⟩ := putPayloadAccesses_eq q offset len
  have hput := h.putPayload (p := q) hsame hlast hoffset hroom hend
  have hwriter : (acc ++ putPayloadAccesses q offset len).foldl (record p.key) w =
      fun x => if 40 + ext.toNat + offset ≤ x ∧ x < 40 + ext.toNat + offset + len then
        some s.key else w x := by
    rw [List.foldl_append, foldl_record_quiet hquiet, hl, List.foldl_cons,
      foldl_record_quiet (quiet_bitmap l), hext.2, hkey]
    rfl
  have hkey' : (Reassembly.putPayload s' q offset len).key = p.key := by
    rw [← hkey]
    simp only [State.key, Reassembly.putPayload, hsame.1, hsame.2.2]
    rw [Memory.read_write_below (by omega), Memory.read_write_below (by omega)]
  refine Making.finish ?_ hkey' rfl hext ?_
  · rw [hwriter]
    exact hput
  · intro a ha
    rcases List.mem_append.mp ha with ha | ha
    · exact hacc a ha
    · rw [hl] at ha
      rcases List.mem_cons.mp ha with rfl | ha
      · rw [hext.2]
        rcases hroom with hzero | hroom
        · exact .inl hzero
        · exact .inr hroom
      · obtain ⟨i, hi, rfl⟩ := List.mem_map.mp ha
        exact (hle i hi).trans_lt hend

/-- A fragment that belongs to the packet. -/
theorem Making.addFragment (h : Making C s ext w) (hp : p.Proper) (hkey : s.key = p.key)
    (hacc : ∀ a ∈ acc, a.Inside C) (hquiet : Quiet acc)
    (hheader : p.offset = 0 → 40 + p.extLen.toNat ≤ C.size)
    (hpayload : p.offset + p.payloadLen ≤ C.size → ¬ (p.more = true ∧ p.payloadLen % 8 ≠ 0) →
      p.extLen = ext ∧ (p.payloadLen = 0 ∨ 40 + p.extLen.toNat + p.offset + p.payloadLen ≤ C.size) ∧
        (p.offset + p.payloadLen) / 64 < C.size / 64) :
    Done C ext w p (addFragment C s p acc) := by
  have hoffset : p.offset % 8 = 0 := Nat.mul_mod_left ..
  -- after the header of a first fragment, the packet is as before
  have hhead : ∀ r, r = (if p.offset = 0 then putHeader s p else (s, p)) →
      Making C r.1 ext w ∧ r.1.key = p.key ∧ r.2.more = p.more ∧ r.2.extLen = p.extLen := by
    rintro r rfl
    split
    · obtain ⟨hk, hm, he⟩ := putHeader_spec (s := s) hp hkey
      exact ⟨h.congr hk rfl rfl rfl, hk.trans hkey, hm, he⟩
    · exact ⟨h, hkey, rfl, rfl⟩
  have hacc' : ∀ l, l = (if p.offset = 0 then acc ++ [.header (p.extLen.toNat + 40)] else acc) →
      (∀ a ∈ l, a.Inside C) ∧ Quiet l := by
    rintro l rfl
    split
    · rename_i hzero
      refine ⟨?_, ?_⟩
      · intro a ha
        rcases List.mem_append.mp ha with ha | ha
        · exact hacc a ha
        · rw [List.mem_singleton.mp ha]
          have := hheader hzero
          change p.extLen.toNat + 40 ≤ C.size
          omega
      · intro a ha i n
        rcases List.mem_append.mp ha with ha | ha
        · exact hquiet a ha i n
        · rw [List.mem_singleton.mp ha]
          exact fun h => nomatch h
    · exact ⟨hacc, hquiet⟩
  unfold Reassembly.addFragment
  dsimp only
  obtain ⟨hmaking, hk, hmore, hexts⟩ := hhead _ rfl
  obtain ⟨hin, hq⟩ := hacc' _ rfl
  rw [hmore]
  generalize (if p.offset = 0 then putHeader s p else (s, p)) = r at *
  generalize (if p.offset = 0 then acc ++ [.header (p.extLen.toNat + 40)] else acc) = l at *
  split
  · exact ⟨hin, fun hon => absurd hon Bool.false_ne_true, fun n hn => nomatch hn⟩
  · rename_i hfit
    have hle : p.offset + p.payloadLen ≤ C.size := by omega
    have hsize := C.size_lt
    split
    · rename_i hm
      split
      · exact ⟨hin, fun hon => absurd hon Bool.false_ne_true, fun n hn => nomatch hn⟩
      · rename_i hlen
        obtain ⟨rfl, hroom, hend⟩ := hpayload hle fun hbad => hlen hbad.2
        exact hmaking.put hk ⟨rfl, hexts⟩ hin hq ⟨rfl, rfl, rfl⟩ (fun hl => .inr ⟨hl, rfl⟩) hoffset
          hroom hend
    · rename_i hm
      obtain ⟨rfl, hroom, hend⟩ := hpayload hle fun hbad => hm hbad.1
      refine hmaking.put hk ⟨rfl, hexts⟩ hin hq ⟨rfl, rfl, rfl⟩ (fun _ => .inl ?_) hoffset hroom hend
      exact Nat.mod_eq_of_lt (by omega)

/-- What holds between two events. -/
def Inv (C : Config) (h : History) : Prop :=
  h.state.on = true → Making C h.state h.extLen h.writer

/-- The fragment goes on with what is in the making, or starts anew. -/
theorem Inv.fragment {h : History} (hinv : Inv C h) (hp : p.Proper) (hfits : Fits C h p) :
    Done C (if h.state.on then h.extLen else p.extLen)
      (if h.state.on then h.writer else fun _ => none) p (uipReass C h.state p) := by
  have hread : ∀ l : List Access, (∀ a ∈ l, a.Inside C) ∧ Quiet l → 40 ≤ C.size →
      (∀ a ∈ l ++ [.read 8 16, .read 24 16], a.Inside C) ∧ Quiet (l ++ [.read 8 16, .read 24 16]) := by
    rintro l ⟨hin, hq⟩ hroom
    constructor
    · intro a ha
      simp only [List.mem_append, List.mem_cons, List.not_mem_nil, or_false] at ha
      rcases ha with ha | rfl | rfl
      · exact hin a ha
      · change 8 + 16 ≤ C.size
        omega
      · change 24 + 16 ≤ C.size
        omega
    · intro a ha i n
      simp only [List.mem_append, List.mem_cons, List.not_mem_nil, or_false] at ha
      rcases ha with ha | rfl | rfl
      · exact hq a ha i n
      · exact fun h => nomatch h
      · exact fun h => nomatch h
  unfold uipReass
  dsimp only
  -- The packet of the fragment is being reassembled, or this is its first one.
  cases hon : h.state.on with
  | true =>
    have hmaking := hinv hon
    simp only [if_true]
    obtain ⟨hin, hq⟩ := hread [] ⟨by simp, by simp [Quiet]⟩ (by have := hmaking.room; omega)
    split
    · rename_i hbelongs
      have hkey := belongs_iff.mp hbelongs
      refine hmaking.addFragment hp hkey hin hq ?_ ?_
      · exact fun hzero => hfits.header (.inr ⟨hbelongs, hzero⟩)
      · intro hle hgood
        obtain ⟨hext, hrest⟩ := hfits.payload (.inr hbelongs) hle hgood
        exact ⟨hext hon, hrest⟩
    · refine ⟨hin, fun _ => ?_, fun n hn => nomatch hn⟩
      rw [foldl_record_quiet hq]
      exact hmaking
  | false =>
    have hroom := hfits.header (.inl hon)
    simp only [Bool.false_eq_true, if_false]
    have hbitmap : (∀ a ∈ (List.range (C.size / 64)).map Access.bitmap, a.Inside C) := by
      intro a ha
      obtain ⟨i, hi, rfl⟩ := List.mem_map.mp ha
      exact List.mem_range.mp hi
    obtain ⟨hin, hq⟩ := hread
      (.header (p.extLen.toNat + 40) :: (List.range (C.size / 64)).map Access.bitmap) (by
        constructor
        · intro a ha
          rcases List.mem_cons.mp ha with rfl | ha
          · change p.extLen.toNat + 40 ≤ C.size
            omega
          · exact hbitmap a ha
        · intro a ha i n
          rcases List.mem_cons.mp ha with rfl | ha
          · exact fun h => nomatch h
          · exact quiet_bitmap _ a ha i n) (by omega)
    rw [if_pos (belongs_iff.mpr key_start)]
    refine (making_start hroom).addFragment hp key_start hin hq (fun _ => hroom) ?_
    intro hle hgood
    exact ⟨rfl, (hfits.payload (.inl hon) hle hgood).2⟩

end Invariant

/-! ## Result -/

variable {C : Config} {h : History}

/-- An event in a run. -/
def Event.Proper : Event → Prop
  | .fragment p => p.Proper
  | .over => True

/-- The fragment of an event fits. -/
def Event.Fits (C : Config) (h : History) : Event → Prop
  | .fragment p => Reassembly.Fits C h p
  | .over => True

/-- The accesses of the next fragment are inside the arrays, and every byte of the payload of a
reassembled packet comes from a fragment with the same key since the reassembly started. -/
structure Sound (C : Config) (h : History) (p : Packet) : Prop where
  inside : ∀ a ∈ (uipReass C h.state p).accesses, a.Inside C
  payload : ∀ n, (uipReass C h.state p).outcome = .packet n →
    ∀ x, 40 + p.extLen.toNat ≤ x → x < n → (h.add C p).writer x = some p.key

theorem inv_of_run (hrun : Run (step C) (fun h e => e.Proper ∧ e.Fits C h) .initial h) :
    Inv C h := by
  apply hrun.invariant (I := Inv C)
  · rintro h e h' hinv ⟨hproper, hfits⟩ hs
    rcases e with p | -
    · obtain rfl := Option.some.inj hs
      exact (hinv.fragment hproper hfits).making
    · obtain rfl := Option.some.inj hs
      exact fun hon => absurd hon Bool.false_ne_true
  · exact fun hon => absurd hon Bool.false_ne_true

/-- In every run in which every fragment fits, the next one that fits is handled soundly. -/
theorem reassembly_sound_of_run {p : Packet}
    (hrun : Run (step C) (fun h e => e.Proper ∧ e.Fits C h) .initial h) (hp : p.Proper)
    (hfits : Fits C h p) : Sound C h p := by
  have hdone := (inv_of_run hrun).fragment hp hfits
  exact ⟨hdone.inside, hdone.packet⟩

instance (p : Packet) : Decidable p.Proper :=
  decidable_of_iff (p.extLen.toNat % 8 = 0 ∧ (p.nextHdr = 6 ∨ 40 ≤ p.nextHdr ∧ p.nextHdr % 8 = 0))
    ⟨fun h => ⟨h.1, h.2⟩, fun h => ⟨h.1, h.2⟩⟩

instance (h : History) (p : Packet) : Decidable (Fits C h p) :=
  decidable_of_iff
    ((h.state.on = false ∨ belongs h.state p = true ∧ p.offset = 0 →
      40 + p.extLen.toNat ≤ C.size) ∧
    (h.state.on = false ∨ belongs h.state p = true → p.offset + p.payloadLen ≤ C.size →
      ¬ (p.more = true ∧ p.payloadLen % 8 ≠ 0) →
        (h.state.on = true → p.extLen = h.extLen) ∧
        (p.payloadLen = 0 ∨ 40 + p.extLen.toNat + p.offset + p.payloadLen ≤ C.size) ∧
        (p.offset + p.payloadLen) / 64 < C.size / 64))
    ⟨fun h => ⟨h.1, h.2⟩, fun h => ⟨h.1, h.2⟩⟩

instance (e : Event) : Decidable e.Proper :=
  match e with
  | .fragment p => inferInstanceAs (Decidable p.Proper)
  | .over => inferInstanceAs (Decidable True)

instance (h : History) (e : Event) : Decidable (e.Fits C h) :=
  match e with
  | .fragment p => inferInstanceAs (Decidable (Reassembly.Fits C h p))
  | .over => inferInstanceAs (Decidable True)

theorem defaultSize_lt : 1280 < 2 ^ 16 := by decide

/-- The buffer of the default configuration. -/
def defaultConfig : Config := ⟨1280, defaultSize_lt⟩

/-- A fragment with the two bytes of its offset and flags, and some bytes of payload. -/
def fragmentOf (hi lo : UInt8) (len : ℕ) : Packet where
  buf := fun i => if i = 42 then hi else if i = 43 then lo else 7
  len := BitVec.ofNat 16 (48 + len)
  extLen := 0
  nextHdr := 6

/-- A packet in two fragments, the last one first. -/
theorem reassembly_sound_of_run_last_first : ∃ h,
    (uipReass defaultConfig h.state (fragmentOf 0 1 8)).outcome = .packet 51 ∧
      Sound defaultConfig h (fragmentOf 0 1 8) := by
  obtain ⟨h, hrun, houtcome, hfits⟩ := exists_run_of_runEvents (step defaultConfig)
    (fun h e => e.Proper ∧ e.Fits defaultConfig h) History.initial
    [.fragment (fragmentOf 0 0 9), .over, .fragment (fragmentOf 0 8 3)]
    (fun h => (uipReass defaultConfig h.state (fragmentOf 0 1 8)).outcome = .packet 51 ∧
      Fits defaultConfig h (fragmentOf 0 1 8)) (by decide +kernel)
  exact ⟨h, houtcome, reassembly_sound_of_run hrun (by decide) hfits⟩

/-- Eight bytes at offset 1272 pass the check and are written behind the buffer. -/
theorem fragment_behind_buffer : ∃ h p,
    Run (step defaultConfig) (fun _ e => e.Proper) .initial h ∧ p.Proper ∧
      ¬ Sound defaultConfig h p := by
  refine ⟨.initial, fragmentOf 4 248 8, .refl _, by decide, ?_⟩
  intro hsound
  have hmem : Access.payload 1312 8 ∈
      (uipReass defaultConfig History.initial.state (fragmentOf 4 248 8)).accesses := by
    decide +kernel
  have hinside := hsound.inside _ hmem
  change 8 = 0 ∨ 1312 + 8 ≤ 1280 at hinside
  omega

end MasterScheduler.Mote.Reassembly

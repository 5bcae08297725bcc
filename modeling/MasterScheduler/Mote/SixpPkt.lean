import MasterScheduler.Mote.Framer

/-!
# MasterScheduler.Mote.SixpPkt — 6P packets

The accessors of `sixp-pkt.c` for the fields of a 6P message body, and the
packet around it. An accessor is told by the bytes it stores, or by the ranges
it reads, so that both can be compared with the length of the body.

- `meets_iff`: the calls that do what their name says.
-/

namespace MasterScheduler.Mote.SixpPkt

open Lib Memory Framer

/-! ## Types, codes and offsets -/

/-- `sixp_pkt_type_t`. -/
inductive PktType where
  | request
  | response
  | confirmation
  | reserved
deriving DecidableEq, Repr

/-- The value of a type in the header. -/
def PktType.value : PktType → ℕ
  | .request => 0
  | .response => 1
  | .confirmation => 2
  | .reserved => 3

/-- `SIXP_PKT_CMD_ADD`. -/
def cmdAdd : UInt8 := 1

/-- `SIXP_PKT_CMD_DELETE`. -/
def cmdDelete : UInt8 := 2

/-- `SIXP_PKT_CMD_RELOCATE`. -/
def cmdRelocate : UInt8 := 3

/-- `SIXP_PKT_CMD_COUNT`. -/
def cmdCount : UInt8 := 4

/-- `SIXP_PKT_CMD_LIST`. -/
def cmdList : UInt8 := 5

/-- `SIXP_PKT_CMD_CLEAR`. -/
def cmdClear : UInt8 := 6

/-- `SIXP_PKT_RC_SUCCESS`. -/
def rcSuccess : UInt8 := 0

/-- `SIXP_PKT_RC_EOL`. -/
def rcEol : UInt8 := 2

/-- The return codes that come with an empty body. -/
def rcErrors : List UInt8 := [1, 3, 4, 5, 6, 7, 8, 9]

/-- `sizeof(sixp_pkt_cell_t)`. -/
def sizeofCell : ℕ := 4

/-- `get_metadata_offset`. -/
def getMetadataOffset (type : PktType) (_code : UInt8) : Option ℕ :=
  if type = .request then some 0 else none

/-- `get_cell_options_offset`. -/
def getCellOptionsOffset (type : PktType) (code : UInt8) : Option ℕ :=
  if type = .request ∧ (code = cmdAdd ∨ code = cmdDelete ∨ code = cmdRelocate ∨ code = cmdCount ∨
      code = cmdList) then some 2
  else none

/-- `get_num_cells_offset`. -/
def getNumCellsOffset (type : PktType) (code : UInt8) : Option ℕ :=
  if type = .request ∧ (code = cmdAdd ∨ code = cmdDelete ∨ code = cmdRelocate) then some (2 + 1)
  else none

/-- `get_reserved_offset`. -/
def getReservedOffset (type : PktType) (code : UInt8) : Option ℕ :=
  if type = .request ∧ code = cmdList then some (2 + 1) else none

/-- `get_offset_offset`. -/
def getOffsetOffset (type : PktType) (code : UInt8) : Option ℕ :=
  if type = .request ∧ code = cmdList then some (2 + 1 + 1) else none

/-- `get_max_num_cells_offset`. -/
def getMaxNumCellsOffset (type : PktType) (code : UInt8) : Option ℕ :=
  if type = .request ∧ code = cmdList then some (2 + 1 + 1 + 2) else none

/-- `get_cell_list_offset`. -/
def getCellListOffset (type : PktType) (code : UInt8) : Option ℕ :=
  if type = .request ∧ (code = cmdAdd ∨ code = cmdDelete) then some (2 + 1 + 1)
  else if (type = .response ∨ type = .confirmation) ∧ (code = rcSuccess ∨ code = rcEol) then some 0
  else none

/-- `get_rel_cell_list_offset`. -/
def getRelCellListOffset (type : PktType) (code : UInt8) : Option ℕ :=
  if type = .request ∧ code = cmdRelocate then some (2 + 1 + 1) else none

/-- `get_total_num_cells_offset`. -/
def getTotalNumCellsOffset (type : PktType) (code : UInt8) : Option ℕ :=
  if type = .response ∧ code = rcSuccess then some 0 else none

/-! ## Accessors -/

/-- A message: the body is a place in memory, and `bodyLen` bytes of it are the body. -/
structure Message where
  type : PktType
  code : UInt8
  body : Memory
  bodyLen : UInt16

/-- The bytes a setter copies into the body. -/
structure Store where
  offset : ℕ
  bytes : List UInt8

/-- The value of a field. -/
inductive Value where
  | byte (b : UInt8)
  | word (w : UInt16)
  | cells (bytes : List UInt8)
deriving DecidableEq, Repr

/-- What a getter reads, or hands to its caller to read: where the field is, every range, and
the value. -/
structure Load where
  offset : ℕ
  len : ℕ
  reads : List (ℕ × ℕ)
  value : Value

/-- The body after a setter. -/
def Message.after (msg : Message) (s : Store) : Message :=
  { msg with body := msg.body.write s.offset s.bytes }

/-- The setters of fields of a fixed size. -/
def setChecked (offset : Option ℕ) (bytes : List UInt8) (msg : Message) : Option Store :=
  match offset with
  | none => none
  | some offset =>
      if msg.bodyLen.toNat < offset + bytes.length then none else some ⟨offset, bytes⟩

/-- The setters that do not look at the length of the body. -/
def setUnchecked (offset : Option ℕ) (bytes : List UInt8) (_msg : Message) : Option Store :=
  offset.map fun offset => ⟨offset, bytes⟩

/-- A byte of the body. -/
def loadByte (msg : Message) (offset : ℕ) : Load :=
  ⟨offset, 1, [(offset, 1)], .byte (msg.body offset)⟩

/-- Two bytes of the body. -/
def loadWord (msg : Message) (offset : ℕ) : Load :=
  ⟨offset, 2, [(offset, 2)],
    .word (UInt16.ofNat (word (msg.body offset) (msg.body (offset + 1))))⟩

/-- The getters of fields of a fixed size. -/
def getChecked (offset : Option ℕ) (size : ℕ) (load : Message → ℕ → Load) (msg : Message) :
    Option Load :=
  match offset with
  | none => none
  | some offset => if msg.bodyLen.toNat < offset + size then none else some (load msg offset)

/-- `sixp_pkt_set_metadata`. -/
def setMetadata (metadata : UInt16) (msg : Message) : Option Store :=
  setChecked (getMetadataOffset msg.type msg.code) (le16 metadata.toNat) msg

/-- `sixp_pkt_get_metadata`. The offset is added to the pointer of the result, not to the body;
it is zero. -/
def getMetadata (msg : Message) : Option Load :=
  getChecked (getMetadataOffset msg.type msg.code) 2 (fun msg _ => loadWord msg 0) msg

/-- `sixp_pkt_set_cell_options`. -/
def setCellOptions (cellOptions : UInt8) (msg : Message) : Option Store :=
  setChecked (getCellOptionsOffset msg.type msg.code) [cellOptions] msg

/-- `sixp_pkt_get_cell_options`. -/
def getCellOptions (msg : Message) : Option Load :=
  getChecked (getCellOptionsOffset msg.type msg.code) 1 loadByte msg

/-- `sixp_pkt_set_num_cells`. -/
def setNumCells (numCells : UInt8) (msg : Message) : Option Store :=
  setUnchecked (getNumCellsOffset msg.type msg.code) [numCells] msg

/-- `sixp_pkt_get_num_cells`. -/
def getNumCells (msg : Message) : Option Load :=
  getChecked (getNumCellsOffset msg.type msg.code) 1 loadByte msg

/-- `sixp_pkt_set_reserved`. -/
def setReserved (reserved : UInt8) (msg : Message) : Option Store :=
  setChecked (getReservedOffset msg.type msg.code) [reserved] msg

/-- `sixp_pkt_get_reserved`. The length of the body is not looked at. -/
def getReserved (msg : Message) : Option Load :=
  (getReservedOffset msg.type msg.code).map (loadByte msg)

/-- `sixp_pkt_set_offset`. -/
def setOffset (cellOffset : UInt16) (msg : Message) : Option Store :=
  setChecked (getOffsetOffset msg.type msg.code) (le16 cellOffset.toNat) msg

/-- `sixp_pkt_get_offset`. -/
def getOffset (msg : Message) : Option Load :=
  getChecked (getOffsetOffset msg.type msg.code) 2 loadWord msg

/-- `sixp_pkt_set_max_num_cells`. -/
def setMaxNumCells (maxNumCells : UInt16) (msg : Message) : Option Store :=
  setChecked (getMaxNumCellsOffset msg.type msg.code) (le16 maxNumCells.toNat) msg

/-- `sixp_pkt_get_max_num_cells`. -/
def getMaxNumCells (msg : Message) : Option Load :=
  getChecked (getMaxNumCellsOffset msg.type msg.code) 2 loadWord msg

/-- `sixp_pkt_set_total_num_cells`. -/
def setTotalNumCells (totalNumCells : UInt16) (msg : Message) : Option Store :=
  setUnchecked (getTotalNumCellsOffset msg.type msg.code) (le16 totalNumCells.toNat) msg

/-- `sixp_pkt_get_total_num_cells`. -/
def getTotalNumCells (msg : Message) : Option Load :=
  getChecked (getTotalNumCellsOffset msg.type msg.code) 2 (fun msg _ => loadWord msg 0) msg

/-- A list of cells from `offset` to the end of the body, or nothing. -/
def loadCells (msg : Message) (offset len : ℕ) (reads : List (ℕ × ℕ)) : Option Load :=
  if msg.bodyLen.toNat < offset + len then none
  else if (msg.bodyLen.toNat - offset) % sizeofCell ≠ 0 then none
  else some ⟨offset, len, (offset, len) :: reads, .cells (msg.body.read offset len)⟩

/-- `sixp_pkt_set_cell_list`. -/
def setCellList (cellList : List UInt8) (cellOffset : UInt16) (msg : Message) : Option Store :=
  match getCellListOffset msg.type msg.code with
  | none => none
  | some offset =>
      let offset := offset + cellOffset.toNat
      if msg.bodyLen.toNat < offset + cellList.length then none
      else if cellList.length % sizeofCell ≠ 0 then none
      else some ⟨offset, cellList⟩

/-- `sixp_pkt_get_cell_list`. -/
def getCellList (msg : Message) : Option Load :=
  match getCellListOffset msg.type msg.code with
  | none => none
  | some offset => loadCells msg offset (msg.bodyLen.toNat - offset) []

/-- The number of cells as `sixp_pkt_get_num_cells` gives it, and the range it reads. -/
def numCells? (msg : Message) : Option (ℕ × List (ℕ × ℕ)) :=
  match getNumCells msg with
  | some ⟨_, _, reads, .byte n⟩ => some (n.toNat, reads)
  | _ => none

/-- `sixp_pkt_set_rel_cell_list`. The offset of the cells is on both sides of the comparison with
the number of cells. -/
def setRelCellList (relCellList : List UInt8) (cellOffset : UInt16) (msg : Message) :
    Option Store :=
  match numCells? msg, getRelCellListOffset msg.type msg.code with
  | some (numCells, _), some offset =>
      let offset := offset + cellOffset.toNat
      if msg.bodyLen.toNat < offset + relCellList.length then none
      else if offset + relCellList.length > offset + numCells * sizeofCell then none
      else if relCellList.length % sizeofCell ≠ 0 then none
      else some ⟨offset, relCellList⟩
  | _, _ => none

/-- `sixp_pkt_get_rel_cell_list`. -/
def getRelCellList (msg : Message) : Option Load :=
  match numCells? msg, getRelCellListOffset msg.type msg.code with
  | some (numCells, reads), some offset => loadCells msg offset (numCells * sizeofCell) reads
  | _, _ => none

/-- `sixp_pkt_set_cand_cell_list`. -/
def setCandCellList (candCellList : List UInt8) (cellOffset : UInt16) (msg : Message) :
    Option Store :=
  match numCells? msg, getRelCellListOffset msg.type msg.code with
  | some (numCells, _), some offset =>
      let offset := offset + (cellOffset.toNat + numCells * sizeofCell)
      if msg.bodyLen.toNat < offset + candCellList.length then none
      else if candCellList.length % sizeofCell ≠ 0 then none
      else some ⟨offset, candCellList⟩
  | _, _ => none

/-- `sixp_pkt_get_cand_cell_list`. -/
def getCandCellList (msg : Message) : Option Load :=
  match numCells? msg, getRelCellListOffset msg.type msg.code with
  | some (numCells, reads), some offset =>
      let offset := offset + numCells * sizeofCell
      loadCells msg offset (msg.bodyLen.toNat - offset) reads
  | _, _ => none

/-! ## Packets -/

/-- `sixp_pkt_t`. -/
structure Pkt where
  type : PktType
  code : UInt8
  sfid : UInt8
  seqno : UInt8
  gen : UInt8
  body : List UInt8
deriving DecidableEq, Repr

/-- The header of a packet; the version is zero. -/
def Pkt.header (pkt : Pkt) : List UInt8 :=
  [UInt8.ofNat pkt.type.value <<< 4, pkt.code, pkt.sfid, pkt.gen <<< 4 ||| pkt.seqno]

/-- `sixp_pkt_create`: the packet in the packet buffer. The header is not counted when the length
of the body is checked. -/
def create (pkt : Pkt) (pb : Packetbuf) : Option Packetbuf :=
  let pb := clear pb
  if packetbufSize < totlen pb + pkt.body.length then none
  else
    match hdralloc pb 4 with
    | none => none
    | some pb =>
        some (setDatalen { pb with mem := (pb.mem.write 0 pkt.header).write (dataptr pb) pkt.body }
          pkt.body.length)

/-- The bodies `sixp_pkt_parse` accepts, by type, code and length. -/
def lengthOk (type : PktType) (code : UInt8) (len : ℕ) : Bool :=
  match type with
  | .request =>
      if code = cmdAdd ∨ code = cmdDelete ∨ code = cmdRelocate then 2 + 1 + 1 ≤ len ∧ len % 4 = 0
      else if code = cmdCount then len = 2 + 1
      else if code = cmdList then len = 2 + 1 + 1 + 2 + 2
      else if code = cmdClear then len = 2
      else false
  | .response | .confirmation =>
      if code = rcSuccess then len = 0 ∨ len = 2 ∨ len % 4 = 0
      else if code = rcEol then len % 4 = 0
      else if code ∈ rcErrors then len = 0
      else false
  | .reserved => false

/-- The type in the first byte. -/
def parseType (b : UInt8) : PktType :=
  match b.toNat / 16 % 4 with
  | 0 => .request
  | 1 => .response
  | 2 => .confirmation
  | _ => .reserved

/-- `sixp_pkt_parse`. -/
def parse : List UInt8 → Option Pkt
  | b₀ :: code :: sfid :: b₃ :: body =>
      if b₀ &&& 0x0f ≠ 0 then none
      else if lengthOk (parseType b₀) code body.length then
        some ⟨parseType b₀, code, sfid, b₃ &&& 0x0f, b₃ >>> 4, body⟩
      else none
  | _ => none

/-- `sixp_trans_mode_t`. -/
inductive TransMode where
  | twoStep
  | threeStep
deriving DecidableEq, Repr

/-- The message a packet carries. -/
def Pkt.message (pkt : Pkt) : Message where
  type := pkt.type
  code := pkt.code
  body := fun i => pkt.body.getD i 0
  bodyLen := UInt16.ofNat pkt.body.length

/-- `determine_trans_mode`. -/
def determineTransMode (req : Pkt) : TransMode :=
  if req.type = .request ∧ (req.code = cmdAdd ∨ req.code = cmdDelete) ∧
      (getCellList req.message).map Load.len = some 0 then .threeStep
  else .twoStep

section Packet

/-- The header is parsed back, and the body by its length. -/
theorem parse_header (pkt : Pkt) (hseqno : pkt.seqno < 16) (hgen : pkt.gen < 16) :
    parse (pkt.header ++ pkt.body) =
      if lengthOk pkt.type pkt.code pkt.body.length then some pkt else none := by
  rcases pkt with ⟨type, code, sfid, seqno, gen, body⟩
  have hversion : (UInt8.ofNat type.value <<< 4) &&& 0x0f = 0 := by
    cases type <;> decide
  have htype : parseType (UInt8.ofNat type.value <<< 4) = type := by
    cases type <;> decide
  have hnibbles : ∀ a b : Fin 16, (UInt8.ofNat a.val <<< 4 ||| UInt8.ofNat b.val) &&& 0x0f =
      UInt8.ofNat b.val ∧ (UInt8.ofNat a.val <<< 4 ||| UInt8.ofNat b.val) >>> 4 =
        UInt8.ofNat a.val := by
    decide
  have hpair := hnibbles ⟨gen.toNat, hgen⟩ ⟨seqno.toNat, hseqno⟩
  simp only [UInt8.ofNat_toNat] at hpair
  simp only [Pkt.header, List.cons_append, List.nil_append, parse, hversion, htype, hpair.1, hpair.2]
  simp

/-- What `sixp_pkt_create` leaves in the packet buffer. -/
theorem create_contents {pkt : Pkt} {pb pb' : Packetbuf} (h : create pkt pb = some pb') :
    contents pb' = pkt.header ++ pkt.body ∧ pb'.bufptr = 0 ∧ pb'.hdrlen = 4 ∧
      SameAttrs (clear pb) pb' := by
  rw [create] at h
  split at h
  · cases h
  split at h
  · cases h
  case h_2 pb₁ halloc =>
    cases h
    rcases hdralloc_eq_some halloc with ⟨_, _, hbufptr, _, hhdrlen⟩
    have hdata : dataptr pb₁ = 0 + pkt.header.length := by
      simp only [dataptr, packetbufHdrlen, hbufptr, hhdrlen]
      rfl
    have htot : totlen (setDatalen { pb₁ with
        mem := (pb₁.mem.write 0 pkt.header).write (dataptr pb₁) pkt.body } pkt.body.length) =
        (pkt.header ++ pkt.body).length := by
      simp only [totlen, setDatalen, datalen, packetbufHdrlen, hbufptr, hhdrlen, List.length_append]
      rfl
    refine ⟨?_, hbufptr, hhdrlen, (sameAttrs_hdralloc halloc).trans rfl⟩
    rw [contents, htot, hdata, write_append]
    exact read_write_self pb₁.mem 0 _

/-- It succeeds where the body fits the buffer. -/
theorem create_isSome {pkt : Pkt} (pb : Packetbuf) (h : pkt.body.length ≤ packetbufSize) :
    ∃ pb', create pkt pb = some pb' := by
  have hbody : ¬ packetbufSize < totlen (clear pb) + pkt.body.length := by
    change ¬ packetbufSize < 0 + pkt.body.length
    omega
  have hhdr : ¬ packetbufSize < 4 + totlen (clear pb) := by
    change ¬ 96 < 4 + 0
    omega
  rw [create, if_neg hbody, hdralloc, if_neg hhdr]
  exact ⟨_, rfl⟩

/-- The packet that is sent. -/
theorem create_copyto {pkt : Pkt} {pb pb' : Packetbuf} (h : create pkt pb = some pb') :
    copyto pb' = if 4 + pkt.body.length ≤ packetbufSize then pkt.header ++ pkt.body else [] := by
  rcases create_contents h with ⟨hcontents, hbufptr, hhdrlen, _⟩
  have htot : totlen pb' = 4 + pkt.body.length := by
    rw [← length_contents, hcontents, List.length_append]
    rfl
  split
  case isTrue hfit => rw [copyto_eq_contents hbufptr (htot ▸ hfit), hcontents]
  case isFalse hfit =>
    have hover : pb'.hdrlen + pb'.buflen > packetbufSize := by
      simp only [totlen, packetbufHdrlen, datalen, hbufptr] at htot
      omega
    rw [copyto, if_pos hover]

end Packet

/-! ## What a call has to do -/

/-- The fields of a body. -/
inductive Field where
  | metadata
  | cellOptions
  | numCells
  | reserved
  | offset
  | maxNumCells
  | cellList
  | relCellList
  | candCellList
  | totalNumCells
deriving DecidableEq, Repr

/-- The getter of a field. -/
def Message.get (msg : Message) : Field → Option Load
  | .metadata => getMetadata msg
  | .cellOptions => getCellOptions msg
  | .numCells => getNumCells msg
  | .reserved => getReserved msg
  | .offset => getOffset msg
  | .maxNumCells => getMaxNumCells msg
  | .cellList => getCellList msg
  | .relCellList => getRelCellList msg
  | .candCellList => getCandCellList msg
  | .totalNumCells => getTotalNumCells msg

/-- The arguments of a setter. -/
inductive SetCall where
  | metadata (v : UInt16)
  | cellOptions (v : UInt8)
  | numCells (v : UInt8)
  | reserved (v : UInt8)
  | offset (v : UInt16)
  | maxNumCells (v : UInt16)
  | cellList (cells : List UInt8) (cellOffset : UInt16)
  | relCellList (cells : List UInt8) (cellOffset : UInt16)
  | candCellList (cells : List UInt8) (cellOffset : UInt16)
  | totalNumCells (v : UInt16)

def SetCall.field : SetCall → Field
  | .metadata _ => .metadata
  | .cellOptions _ => .cellOptions
  | .numCells _ => .numCells
  | .reserved _ => .reserved
  | .offset _ => .offset
  | .maxNumCells _ => .maxNumCells
  | .cellList .. => .cellList
  | .relCellList .. => .relCellList
  | .candCellList .. => .candCellList
  | .totalNumCells _ => .totalNumCells

/-- A setter on a message. -/
def SetCall.run : SetCall → Message → Option Store
  | .metadata v => setMetadata v
  | .cellOptions v => setCellOptions v
  | .numCells v => setNumCells v
  | .reserved v => setReserved v
  | .offset v => setOffset v
  | .maxNumCells v => setMaxNumCells v
  | .cellList cells cellOffset => setCellList cells cellOffset
  | .relCellList cells cellOffset => setRelCellList cells cellOffset
  | .candCellList cells cellOffset => setCandCellList cells cellOffset
  | .totalNumCells v => setTotalNumCells v

/-- The value set is the value read. Of a list of cells only those from `cellOffset` on were set. -/
def SetCall.Agrees : SetCall → Value → Prop
  | .metadata v, value | .offset v, value | .maxNumCells v, value | .totalNumCells v, value =>
      value = .word v
  | .cellOptions v, value | .numCells v, value | .reserved v, value => value = .byte v
  | .cellList cells cellOffset, value | .relCellList cells cellOffset, value
  | .candCellList cells cellOffset, value =>
      ∃ bytes, value = .cells bytes ∧ (bytes.drop cellOffset.toNat).take cells.length = cells

/-- The body of a response is a list of cells or their total number, by the command it answers:
these two are never fields of one packet. -/
def Alternative (f g : Field) : Prop :=
  f = .cellList ∧ g = .totalNumCells ∨ f = .totalNumCells ∧ g = .cellList

/-- What a setter that returns 0 has to do: it stores inside of the body, its getter then returns
the value, and the bytes of every other field are what they were. -/
def SetCall.Meets (call : SetCall) (msg : Message) : Prop :=
  ∀ s, call.run msg = some s →
    s.offset + s.bytes.length ≤ msg.bodyLen.toNat ∧
      (∃ l, (msg.after s).get call.field = some l ∧ call.Agrees l.value) ∧
      ∀ g l, g ≠ call.field → ¬ Alternative g call.field → (msg.after s).get g = some l →
        (msg.after s).body.read l.offset l.len = msg.body.read l.offset l.len

/-- What a getter that returns 0 has to do: it reads inside of the body. -/
def GetMeets (f : Field) (msg : Message) : Prop :=
  ∀ l, msg.get f = some l → ∀ r ∈ l.reads, r.1 + r.2 ≤ msg.bodyLen.toNat

/-- What creating and parsing a packet have to do together. The bytes created are those the
packet buffer gives away; of an overfull buffer it gives none. -/
def CodecMeets (pkt : Pkt) (pb : Packetbuf) : Prop :=
  ∀ pb', create pkt pb = some pb' → ∃ pkt', parse (copyto pb') = some pkt' ∧ pkt' = pkt ∧
    determineTransMode pkt' = determineTransMode pkt

/-- The setters that need more than they check: the two without a check of the length, and the
lists, whose getters look at the rest of the body too. -/
def SetCall.Sound : SetCall → Message → Prop
  | .numCells _, msg => getNumCellsOffset msg.type msg.code ≠ none → 4 ≤ msg.bodyLen.toNat
  | .totalNumCells _, msg => getTotalNumCellsOffset msg.type msg.code ≠ none → 2 ≤ msg.bodyLen.toNat
  | .cellList cells cellOffset, msg =>
      ∀ offset, getCellListOffset msg.type msg.code = some offset → cells.length % 4 = 0 →
        offset + cellOffset.toNat + cells.length ≤ msg.bodyLen.toNat → msg.bodyLen.toNat % 4 = 0
  | .relCellList cells cellOffset, msg =>
      getRelCellListOffset msg.type msg.code ≠ none → cells.length % 4 = 0 →
        cells.length ≤ 4 * (msg.body 3).toNat →
        4 + cellOffset.toNat + cells.length ≤ msg.bodyLen.toNat →
        msg.bodyLen.toNat % 4 = 0 ∧ 4 + 4 * (msg.body 3).toNat ≤ msg.bodyLen.toNat ∧
          (cells = [] ∨ cellOffset.toNat + cells.length ≤ 4 * (msg.body 3).toNat)
  | .candCellList cells cellOffset, msg =>
      getRelCellListOffset msg.type msg.code ≠ none → cells.length % 4 = 0 →
        4 + 4 * (msg.body 3).toNat + cellOffset.toNat + cells.length ≤ msg.bodyLen.toNat →
        msg.bodyLen.toNat % 4 = 0
  | _, _ => True

/-- The getter that needs more than it checks. -/
def GetSound (f : Field) (msg : Message) : Prop :=
  f = .reserved → getReservedOffset msg.type msg.code ≠ none → 4 ≤ msg.bodyLen.toNat

/-- The packets that fit with their header and have a body of a length their type and code
allow. -/
def CodecSound (pkt : Pkt) : Prop :=
  pkt.body.length ≤ packetbufSize →
    4 + pkt.body.length ≤ packetbufSize ∧ lengthOk pkt.type pkt.code pkt.body.length = true

/-- The calls of the module. Sequence number and generation have four bits. -/
inductive Call where
  | set (call : SetCall) (msg : Message)
  | get (f : Field) (msg : Message)
  | codec (pkt : Pkt) (hseqno : pkt.seqno < 16) (hgen : pkt.gen < 16) (pb : Packetbuf)

def Call.Meets : Call → Prop
  | .set call msg => call.Meets msg
  | .get f msg => GetMeets f msg
  | .codec pkt _ _ pb => CodecMeets pkt pb

def Call.Sound : Call → Prop
  | .set call msg => call.Sound msg
  | .get f msg => GetSound f msg
  | .codec pkt _ _ _ => CodecSound pkt

/-! ## Where the fields are -/

section Places

variable {msg : Message} {f g : Field} {l : Load} {type : PktType} {code : UInt8} {o : ℕ}

/-- The place of a field in a message that has it. -/
def Message.place (msg : Message) : Field → Option (ℕ × ℕ)
  | .metadata => (getMetadataOffset msg.type msg.code).map fun o => (o, 2)
  | .cellOptions => (getCellOptionsOffset msg.type msg.code).map fun o => (o, 1)
  | .numCells => (getNumCellsOffset msg.type msg.code).map fun o => (o, 1)
  | .reserved => (getReservedOffset msg.type msg.code).map fun o => (o, 1)
  | .offset => (getOffsetOffset msg.type msg.code).map fun o => (o, 2)
  | .maxNumCells => (getMaxNumCellsOffset msg.type msg.code).map fun o => (o, 2)
  | .cellList => (getCellListOffset msg.type msg.code).map fun o => (o, msg.bodyLen.toNat - o)
  | .relCellList =>
      (getRelCellListOffset msg.type msg.code).map fun o => (o, (msg.body 3).toNat * sizeofCell)
  | .candCellList =>
      (getRelCellListOffset msg.type msg.code).map fun o =>
        (o + (msg.body 3).toNat * sizeofCell,
          msg.bodyLen.toNat - (o + (msg.body 3).toNat * sizeofCell))
  | .totalNumCells => (getTotalNumCellsOffset msg.type msg.code).map fun o => (o, 2)

/-- Which messages have the field, and where. -/
theorem getMetadataOffset_eq (h : getMetadataOffset type code = some o) :
    type = .request ∧ o = 0 := by
  simpa [getMetadataOffset, eq_comm] using h

/-- Cell options are at byte 2 of a request. -/
theorem getCellOptionsOffset_eq (h : getCellOptionsOffset type code = some o) :
    type = .request ∧ o = 2 := by
  unfold getCellOptionsOffset at h
  split at h
  case isTrue hc =>
    cases h
    exact ⟨hc.1, rfl⟩
  case isFalse => cases h

/-- The number of cells is at byte 3 of three requests. -/
theorem getNumCellsOffset_eq (h : getNumCellsOffset type code = some o) :
    type = .request ∧ (code = cmdAdd ∨ code = cmdDelete ∨ code = cmdRelocate) ∧ o = 3 := by
  unfold getNumCellsOffset at h
  split at h
  case isTrue hc =>
    cases h
    exact ⟨hc.1, hc.2, rfl⟩
  case isFalse => cases h

/-- The reserved byte is in a LIST request. -/
theorem getReservedOffset_eq (h : getReservedOffset type code = some o) :
    type = .request ∧ code = cmdList ∧ o = 3 := by
  simpa [getReservedOffset, and_assoc, eq_comm] using h

/-- The offset is in a LIST request. -/
theorem getOffsetOffset_eq (h : getOffsetOffset type code = some o) :
    type = .request ∧ code = cmdList ∧ o = 4 := by
  simpa [getOffsetOffset, and_assoc, eq_comm] using h

/-- The maximum is in a LIST request. -/
theorem getMaxNumCellsOffset_eq (h : getMaxNumCellsOffset type code = some o) :
    type = .request ∧ code = cmdList ∧ o = 6 := by
  simpa [getMaxNumCellsOffset, and_assoc, eq_comm] using h

/-- A cell list is in ADD and DELETE requests, and in responses. -/
theorem getCellListOffset_eq (h : getCellListOffset type code = some o) :
    type = .request ∧ (code = cmdAdd ∨ code = cmdDelete) ∧ o = 4 ∨
      (type = .response ∨ type = .confirmation) ∧ o = 0 := by
  unfold getCellListOffset at h
  split at h
  case isTrue hc =>
    cases h
    exact .inl ⟨hc.1, hc.2, rfl⟩
  case isFalse =>
    split at h
    case isTrue hc =>
      cases h
      exact .inr ⟨hc.1, rfl⟩
    case isFalse => cases h

/-- The list to relocate is in a RELOCATE request. -/
theorem getRelCellListOffset_eq (h : getRelCellListOffset type code = some o) :
    type = .request ∧ code = cmdRelocate ∧ o = 4 := by
  simpa [getRelCellListOffset, and_assoc, eq_comm] using h

/-- The total is in a response. -/
theorem getTotalNumCellsOffset_eq (h : getTotalNumCellsOffset type code = some o) :
    type = .response ∧ code = rcSuccess ∧ o = 0 := by
  simpa [getTotalNumCellsOffset, and_assoc, eq_comm] using h

/-- A getter of a fixed size finds its field where the offset says. -/
theorem getChecked_eq_some {offset : Option ℕ} {size : ℕ} {load : Message → ℕ → Load}
    (h : getChecked offset size load msg = some l) :
    ∃ o, offset = some o ∧ o + size ≤ msg.bodyLen.toNat ∧ l = load msg o := by
  unfold getChecked at h
  split at h
  · cases h
  case h_2 o =>
    split at h
    · cases h
    case isFalse hlen =>
      cases h
      exact ⟨o, rfl, not_lt.mp hlen, rfl⟩

/-- A list of cells is read inside the body. -/
theorem loadCells_eq_some {offset len : ℕ} {reads : List (ℕ × ℕ)}
    (h : loadCells msg offset len reads = some l) :
    offset + len ≤ msg.bodyLen.toNat ∧
      l = ⟨offset, len, (offset, len) :: reads, .cells (msg.body.read offset len)⟩ := by
  unfold loadCells at h
  split at h
  · cases h
  case isFalse hlen =>
    split at h
    · cases h
    · cases h
      exact ⟨not_lt.mp hlen, rfl⟩

/-- Only whole cells are read. -/
theorem loadCells_cells {offset len : ℕ} {reads : List (ℕ × ℕ)}
    (h : loadCells msg offset len reads = some l) :
    (msg.bodyLen.toNat - offset) % sizeofCell = 0 := by
  unfold loadCells at h
  split at h
  · cases h
  · split at h
    · cases h
    case isFalse hcell => exact not_not.mp hcell

/-- A list inside the body, of whole cells, is read. -/
theorem loadCells_of_le {offset len : ℕ} (reads : List (ℕ × ℕ))
    (hlen : offset + len ≤ msg.bodyLen.toNat) (hcell : (msg.bodyLen.toNat - offset) % sizeofCell = 0) :
    loadCells msg offset len reads =
      some ⟨offset, len, (offset, len) :: reads, .cells (msg.body.read offset len)⟩ := by
  rw [loadCells, if_neg (not_lt.mpr hlen), if_neg (not_not.mpr hcell)]

/-- The number of cells that a RELOCATE request announces is its byte 3. -/
theorem numCells?_eq_some {n : ℕ} {reads : List (ℕ × ℕ)} (h : numCells? msg = some (n, reads)) :
    n = (msg.body 3).toNat ∧ reads = [(3, 1)] ∧ 4 ≤ msg.bodyLen.toNat := by
  unfold numCells? at h
  split at h
  case h_1 l b hget =>
    cases h
    rcases getChecked_eq_some hget with ⟨o, ho, hlen, hl⟩
    rcases getNumCellsOffset_eq ho with ⟨_, _, rfl⟩
    cases hl
    exact ⟨rfl, rfl, hlen⟩
  case h_2 => cases h

/-- It is read from a body with four bytes. -/
theorem numCells?_of_le (hoffset : getRelCellListOffset msg.type msg.code ≠ none)
    (hlen : 4 ≤ msg.bodyLen.toNat) : numCells? msg = some ((msg.body 3).toNat, [(3, 1)]) := by
  rcases Option.ne_none_iff_exists'.mp hoffset with ⟨o, ho⟩
  rcases getRelCellListOffset_eq ho with ⟨htype, hcode, _⟩
  rw [numCells?, getNumCells, getNumCellsOffset, if_pos ⟨htype, .inr (.inr hcode)⟩, getChecked,
    if_neg (not_lt.mpr hlen)]
  rfl

/-- The getter of a field of a relocation, behind the number of cells. -/
theorem relocation_eq_some {k : ℕ → List (ℕ × ℕ) → ℕ → Option Load}
    (h : (match numCells? msg, getRelCellListOffset msg.type msg.code with
      | some (n, reads), some o => k n reads o
      | _, _ => none) = some l) :
    getRelCellListOffset msg.type msg.code = some 4 ∧ 4 ≤ msg.bodyLen.toNat ∧
      k (msg.body 3).toNat [(3, 1)] 4 = some l := by
  split at h
  case h_1 n reads o hn ho =>
    rcases numCells?_eq_some hn with ⟨rfl, rfl, hlen⟩
    rcases getRelCellListOffset_eq ho with ⟨_, _, rfl⟩
    exact ⟨ho, hlen, h⟩
  case h_2 => cases h

/-- A getter finds its field at the place of the field. -/
theorem place_of_get (h : msg.get f = some l) : msg.place f = some (l.offset, l.len) := by
  -- One case for each field of a message.
  cases f with
  | metadata =>
    change getChecked _ 2 (fun msg _ => loadWord msg 0) msg = some l at h
    rcases getChecked_eq_some h with ⟨o, ho, _, rfl⟩
    rw [Message.place, ho, (getMetadataOffset_eq ho).2]
    rfl
  | cellOptions | numCells | offset | maxNumCells =>
    rcases getChecked_eq_some h with ⟨o, ho, _, rfl⟩
    rw [Message.place, ho]
    rfl
  | reserved =>
    rcases Option.map_eq_some_iff.mp h with ⟨o, ho, rfl⟩
    rw [Message.place, ho]
    rfl
  | cellList =>
    change getCellList msg = some l at h
    rw [getCellList] at h
    split at h
    · cases h
    case h_2 o ho =>
      rcases loadCells_eq_some h with ⟨_, rfl⟩
      rw [Message.place, ho]
      rfl
  | relCellList =>
    rcases relocation_eq_some h with ⟨ho, _, hl⟩
    rcases loadCells_eq_some hl with ⟨_, rfl⟩
    rw [Message.place, ho]
    rfl
  | candCellList =>
    rcases relocation_eq_some h with ⟨ho, _, hl⟩
    rcases loadCells_eq_some hl with ⟨_, rfl⟩
    rw [Message.place, ho]
    rfl
  | totalNumCells =>
    change getChecked _ 2 (fun msg _ => loadWord msg 0) msg = some l at h
    rcases getChecked_eq_some h with ⟨o, ho, _, rfl⟩
    rw [Message.place, ho, (getTotalNumCellsOffset_eq ho).2.2]
    rfl

/-- The type, the code and the range of every place. -/
theorem place_eq {a n : ℕ} (h : msg.place f = some (a, n)) :
    match f with
    | .metadata => msg.type = .request ∧ a = 0 ∧ n = 2
    | .cellOptions => msg.type = .request ∧ a = 2 ∧ n = 1
    | .numCells => msg.type = .request ∧ msg.code ≠ cmdList ∧ a = 3 ∧ n = 1
    | .reserved => msg.type = .request ∧ msg.code = cmdList ∧ a = 3 ∧ n = 1
    | .offset => msg.type = .request ∧ msg.code = cmdList ∧ a = 4 ∧ n = 2
    | .maxNumCells => msg.type = .request ∧ msg.code = cmdList ∧ a = 6 ∧ n = 2
    | .cellList => msg.type = .request ∧ msg.code ≠ cmdList ∧ msg.code ≠ cmdRelocate ∧ a = 4 ∨
        msg.type ≠ .request
    | .relCellList => msg.type = .request ∧ msg.code = cmdRelocate ∧ a = 4 ∧
        n = (msg.body 3).toNat * sizeofCell
    | .candCellList => msg.type = .request ∧ msg.code = cmdRelocate ∧
        a = 4 + (msg.body 3).toNat * sizeofCell
    | .totalNumCells => msg.type = .response := by
  -- One case for each field of a message.
  cases f with
  | metadata =>
    rcases Option.map_eq_some_iff.mp h with ⟨o, ho, heq⟩
    rcases getMetadataOffset_eq ho with ⟨htype, rfl⟩
    cases heq
    exact ⟨htype, rfl, rfl⟩
  | cellOptions =>
    rcases Option.map_eq_some_iff.mp h with ⟨o, ho, heq⟩
    rcases getCellOptionsOffset_eq ho with ⟨htype, rfl⟩
    cases heq
    exact ⟨htype, rfl, rfl⟩
  | numCells =>
    rcases Option.map_eq_some_iff.mp h with ⟨o, ho, heq⟩
    rcases getNumCellsOffset_eq ho with ⟨htype, hcode, rfl⟩
    cases heq
    refine ⟨htype, ?_, rfl, rfl⟩
    rcases hcode with hcode | hcode | hcode <;> rw [hcode] <;> decide
  | reserved =>
    rcases Option.map_eq_some_iff.mp h with ⟨o, ho, heq⟩
    rcases getReservedOffset_eq ho with ⟨htype, hcode, rfl⟩
    cases heq
    exact ⟨htype, hcode, rfl, rfl⟩
  | offset =>
    rcases Option.map_eq_some_iff.mp h with ⟨o, ho, heq⟩
    rcases getOffsetOffset_eq ho with ⟨htype, hcode, rfl⟩
    cases heq
    exact ⟨htype, hcode, rfl, rfl⟩
  | maxNumCells =>
    rcases Option.map_eq_some_iff.mp h with ⟨o, ho, heq⟩
    rcases getMaxNumCellsOffset_eq ho with ⟨htype, hcode, rfl⟩
    cases heq
    exact ⟨htype, hcode, rfl, rfl⟩
  | cellList =>
    rcases Option.map_eq_some_iff.mp h with ⟨o, ho, heq⟩
    rcases getCellListOffset_eq ho with ⟨htype, hcode, rfl⟩ | ⟨htype, _⟩
    · cases heq
      refine .inl ⟨htype, ?_, ?_, rfl⟩
      · rcases hcode with hcode | hcode <;> rw [hcode] <;> decide
      · rcases hcode with hcode | hcode <;> rw [hcode] <;> decide
    · right
      rcases htype with htype | htype <;> rw [htype] <;> decide
  | relCellList =>
    rcases Option.map_eq_some_iff.mp h with ⟨o, ho, heq⟩
    rcases getRelCellListOffset_eq ho with ⟨htype, hcode, rfl⟩
    cases heq
    exact ⟨htype, hcode, rfl, rfl⟩
  | candCellList =>
    rcases Option.map_eq_some_iff.mp h with ⟨o, ho, heq⟩
    rcases getRelCellListOffset_eq ho with ⟨htype, hcode, rfl⟩
    cases heq
    exact ⟨htype, hcode, rfl⟩
  | totalNumCells =>
    rcases Option.map_eq_some_iff.mp h with ⟨o, ho, _⟩
    exact (getTotalNumCellsOffset_eq ho).1

/-- Two fields of one packet do not overlap. -/
theorem place_disjoint {a b n k : ℕ} (hf : msg.place f = some (a, n)) (hg : msg.place g = some (b, k))
    (hne : f ≠ g) (halt : ¬ Alternative f g) : a + n ≤ b ∨ b + k ≤ a := by
  have hf' := place_eq hf
  have hg' := place_eq hg
  have hcodes : cmdRelocate ≠ cmdList := by decide
  cases f <;> cases g <;> first
    | exact absurd rfl hne
    | exact absurd (.inl ⟨rfl, rfl⟩) halt
    | exact absurd (.inr ⟨rfl, rfl⟩) halt
    | (dsimp only at hf' hg'; omega)
    | (dsimp only at hf' hg'; simp_all)

end Places

/-! ## The calls -/

section Calls

variable {msg : Message} {s : Store} {offset : Option ℕ} {bytes : List UInt8}

/-- A store inside of its own field leaves the others alone. -/
theorem frame_of_within {f : Field} {a n : ℕ} (hplace : (msg.after s).place f = some (a, n))
    (hin : s.bytes = [] ∨ a ≤ s.offset ∧ s.offset + s.bytes.length ≤ a + n) (g : Field) (l : Load)
    (hne : g ≠ f) (halt : ¬ Alternative g f) (hget : (msg.after s).get g = some l) :
    (msg.after s).body.read l.offset l.len = msg.body.read l.offset l.len := by
  rcases hin with hnil | ⟨hlow, hhigh⟩
  · apply read_congr
    intro i _ _
    simp only [Message.after, hnil, write]
    split <;> rfl
  rcases place_disjoint (place_of_get hget) hplace hne halt with h | h
  · exact read_write_below (by omega)
  · exact read_write_above (by omega)

/-- A setter that checks the length writes inside the body. -/
theorem setChecked_eq_some (h : setChecked offset bytes msg = some s) :
    ∃ o, offset = some o ∧ o + bytes.length ≤ msg.bodyLen.toNat ∧ s = ⟨o, bytes⟩ := by
  unfold setChecked at h
  split at h
  · cases h
  case h_2 o =>
    split at h
    · cases h
    case isFalse hlen =>
      cases h
      exact ⟨o, rfl, not_lt.mp hlen, rfl⟩

/-- A getter that checks the length reads a field inside the body. -/
theorem getChecked_of_le {o size : ℕ} {load : Message → ℕ → Load}
    (hlen : o + size ≤ msg.bodyLen.toNat) :
    getChecked (some o) size load msg = some (load msg o) := by
  rw [getChecked, if_neg (not_lt.mpr hlen)]

/-- A byte that was written is read back. -/
theorem loadByte_write (o : ℕ) (b : UInt8) :
    (loadByte (msg.after ⟨o, [b]⟩) o).value = .byte b := by
  simp [loadByte, Message.after, write]

/-- So are two bytes. -/
theorem loadWord_write (o : ℕ) (v : UInt16) :
    (loadWord (msg.after ⟨o, le16 v.toNat⟩) o).value = .word v := by
  have h := read_write_self msg.body o (le16 v.toNat)
  rw [length_le16, read_two] at h
  change [_, _] = [_, _] at h
  simp only [List.cons.injEq, and_true] at h
  simp only [loadWord, Message.after, h.1, h.2]
  rw [word_le16 v.toNat_lt, UInt16.ofNat_toNat]

/-- A setter that checks the room for its field and the getter of the same field. -/
theorem meets_of_checked {call : SetCall} (o : ℕ) {load : Message → ℕ → Load}
    (hlen : o + bytes.length ≤ msg.bodyLen.toNat)
    (hget : (msg.after ⟨o, bytes⟩).get call.field =
      getChecked (some o) bytes.length load (msg.after ⟨o, bytes⟩))
    (hvalue : call.Agrees (load (msg.after ⟨o, bytes⟩) o).value)
    (hplace : (msg.after ⟨o, bytes⟩).place call.field = some (o, bytes.length)) :
    o + bytes.length ≤ msg.bodyLen.toNat ∧
      (∃ l, (msg.after ⟨o, bytes⟩).get call.field = some l ∧ call.Agrees l.value) ∧
      ∀ g l, g ≠ call.field → ¬ Alternative g call.field → (msg.after ⟨o, bytes⟩).get g = some l →
        (msg.after ⟨o, bytes⟩).body.read l.offset l.len = msg.body.read l.offset l.len := by
  refine ⟨hlen, ⟨_, ?_, hvalue⟩, frame_of_within hplace (.inr ⟨le_refl _, le_refl _⟩)⟩
  rw [hget]
  exact getChecked_of_le hlen

/-- The setters that check the body. -/
theorem metadata_meets (v : UInt16) : (SetCall.metadata v).Meets msg := by
  intro s hs
  rcases setChecked_eq_some hs with ⟨o, ho, hlen, rfl⟩
  rcases getMetadataOffset_eq ho with ⟨_, rfl⟩
  refine @meets_of_checked msg (le16 v.toNat) (.metadata v) 0 (fun msg _ => loadWord msg 0) hlen ?_
    (loadWord_write 0 v) ?_
  · change getMetadata _ = _
    rw [getMetadata]
    exact congrArg (getChecked · 2 _ _) ho
  · exact congrArg (Option.map fun o => (o, 2)) ho

theorem cellOptions_meets (v : UInt8) : (SetCall.cellOptions v).Meets msg := by
  intro s hs
  rcases setChecked_eq_some hs with ⟨o, ho, hlen, rfl⟩
  refine @meets_of_checked msg [v] (.cellOptions v) o loadByte hlen ?_ (loadByte_write o v) ?_
  · exact congrArg (getChecked · 1 loadByte _) ho
  · exact congrArg (Option.map fun o => (o, 1)) ho

theorem offset_meets (v : UInt16) : (SetCall.offset v).Meets msg := by
  intro s hs
  rcases setChecked_eq_some hs with ⟨o, ho, hlen, rfl⟩
  refine @meets_of_checked msg (le16 v.toNat) (.offset v) o loadWord hlen ?_ (loadWord_write o v) ?_
  · exact congrArg (getChecked · 2 loadWord _) ho
  · exact congrArg (Option.map fun o => (o, 2)) ho

theorem maxNumCells_meets (v : UInt16) : (SetCall.maxNumCells v).Meets msg := by
  intro s hs
  rcases setChecked_eq_some hs with ⟨o, ho, hlen, rfl⟩
  refine @meets_of_checked msg (le16 v.toNat) (.maxNumCells v) o loadWord hlen ?_
    (loadWord_write o v) ?_
  · exact congrArg (getChecked · 2 loadWord _) ho
  · exact congrArg (Option.map fun o => (o, 2)) ho

theorem reserved_meets (v : UInt8) : (SetCall.reserved v).Meets msg := by
  intro s hs
  rcases setChecked_eq_some hs with ⟨o, ho, hlen, rfl⟩
  refine ⟨hlen, ⟨loadByte (msg.after ⟨o, [v]⟩) o, ?_, loadByte_write o v⟩, ?_⟩
  · exact congrArg (Option.map (loadByte _)) ho
  · apply frame_of_within
    · exact congrArg (Option.map fun o => (o, 1)) ho
    · exact .inr ⟨le_refl _, le_refl _⟩

/-- `sixp_pkt_set_num_cells` checks no length: it is right where the field is in the body. -/
theorem numCells_meets_iff (v : UInt8) :
    (SetCall.numCells v).Meets msg ↔ (SetCall.numCells v).Sound msg := by
  constructor
  · intro h hoffset
    rcases Option.ne_none_iff_exists'.mp hoffset with ⟨o, ho⟩
    have hlen := (h ⟨o, [v]⟩ (congrArg (Option.map _) ho)).1
    rcases getNumCellsOffset_eq ho with ⟨_, _, rfl⟩
    exact hlen
  · intro h s hs
    rcases Option.map_eq_some_iff.mp hs with ⟨o, ho, rfl⟩
    have hlen := h (by rw [ho]; exact Option.some_ne_none o)
    have ho3 : o = 3 := (getNumCellsOffset_eq ho).2.2
    refine @meets_of_checked msg [v] (.numCells v) o loadByte (by rw [ho3]; exact hlen) ?_
      (loadByte_write o v) ?_
    · exact congrArg (getChecked · 1 loadByte _) ho
    · exact congrArg (Option.map fun o => (o, 1)) ho

/-- Neither does that of the total. -/
theorem totalNumCells_meets_iff (v : UInt16) :
    (SetCall.totalNumCells v).Meets msg ↔ (SetCall.totalNumCells v).Sound msg := by
  constructor
  · intro h hoffset
    rcases Option.ne_none_iff_exists'.mp hoffset with ⟨o, ho⟩
    have hlen := (h ⟨o, le16 v.toNat⟩ (congrArg (Option.map _) ho)).1
    rcases getTotalNumCellsOffset_eq ho with ⟨_, _, rfl⟩
    exact hlen
  · intro h s hs
    rcases Option.map_eq_some_iff.mp hs with ⟨o, ho, rfl⟩
    have hlen := h (by rw [ho]; exact Option.some_ne_none o)
    rcases getTotalNumCellsOffset_eq ho with ⟨_, _, rfl⟩
    refine @meets_of_checked msg (le16 v.toNat) (.totalNumCells v) 0 (fun msg _ => loadWord msg 0)
      hlen ?_ (loadWord_write 0 v) ?_
    · change getTotalNumCells _ = _
      rw [getTotalNumCells]
      exact congrArg (getChecked · 2 _ _) ho
    · exact congrArg (Option.map fun o => (o, 2)) ho

/-- The two checks of a setter of cells. -/
theorem store_eq_some_iff {o : ℕ} {cells : List UInt8} :
    (if msg.bodyLen.toNat < o + cells.length then none
      else if cells.length % sizeofCell ≠ 0 then none else some (⟨o, cells⟩ : Store)) = some s ↔
    cells.length % 4 = 0 ∧ o + cells.length ≤ msg.bodyLen.toNat ∧ s = ⟨o, cells⟩ := by
  change (if _ then none else if cells.length % 4 ≠ 0 then none else _) = _ ↔ _
  split
  case isTrue h =>
    simp only [reduceCtorEq, false_iff]
    omega
  case isFalse h =>
    by_cases hcell : cells.length % 4 = 0
    · simp only [hcell, ne_eq, not_true, if_false, Option.some.injEq, true_and, eq_comm]
      exact ⟨fun hs => ⟨not_lt.mp h, hs⟩, fun hs => hs.2⟩
    · simp [hcell]

/-- The setter of a list of cells and the getter of the same list. -/
theorem meets_of_cells {call : SetCall} {o a n : ℕ} {reads : List (ℕ × ℕ)} {cells : List UInt8}
    (hget : (msg.after ⟨o + a, cells⟩).get call.field =
      loadCells (msg.after ⟨o + a, cells⟩) o n reads)
    (hagrees : ∀ bytes, (bytes.drop a).take cells.length = cells → call.Agrees (.cells bytes))
    (hplace : (msg.after ⟨o + a, cells⟩).place call.field = some (o, n))
    (hcell : (msg.bodyLen.toNat - o) % sizeofCell = 0) (hn : o + n ≤ msg.bodyLen.toNat)
    (hlen : o + a + cells.length ≤ msg.bodyLen.toNat) (hin : cells = [] ∨ a + cells.length ≤ n) :
    o + a + cells.length ≤ msg.bodyLen.toNat ∧
      (∃ l, (msg.after ⟨o + a, cells⟩).get call.field = some l ∧ call.Agrees l.value) ∧
      ∀ g l, g ≠ call.field → ¬ Alternative g call.field →
        (msg.after ⟨o + a, cells⟩).get g = some l →
        (msg.after ⟨o + a, cells⟩).body.read l.offset l.len = msg.body.read l.offset l.len := by
  have hload := @loadCells_of_le (msg.after ⟨o + a, cells⟩) o n reads hn hcell
  refine ⟨hlen, ⟨_, hget.trans hload, hagrees _ ?_⟩, frame_of_within hplace ?_⟩
  · rcases hin with rfl | hin
    · simp
    · rw [read_slice hin]
      exact read_write_self msg.body (o + a) cells
  · rcases hin with rfl | hin
    · exact .inl rfl
    · right
      dsimp only
      omega

/-- When a cell list is written, and where. -/
theorem setCellList_eq_some_iff {cells : List UInt8} {a : UInt16} :
    setCellList cells a msg = some s ↔
      ∃ o, getCellListOffset msg.type msg.code = some o ∧ cells.length % 4 = 0 ∧
        o + a.toNat + cells.length ≤ msg.bodyLen.toNat ∧ s = ⟨o + a.toNat, cells⟩ := by
  unfold setCellList
  cases getCellListOffset msg.type msg.code with
  | none => simp
  | some o =>
    simp only [Option.some.injEq, exists_eq_left']
    exact store_eq_some_iff

/-- The list is read back from its start. -/
theorem getCellList_after {o : ℕ} (ho : getCellListOffset msg.type msg.code = some o) :
    (msg.after s).get .cellList = loadCells (msg.after s) o (msg.bodyLen.toNat - o) [] := by
  change getCellList (msg.after s) = _
  have ho' : getCellListOffset (msg.after s).type (msg.after s).code = some o := ho
  rw [getCellList, ho']
  rfl

/-- A cell list is read back as it was written when it begins at its field. -/
theorem cellList_meets_iff (cells : List UInt8) (a : UInt16) :
    (SetCall.cellList cells a).Meets msg ↔ (SetCall.cellList cells a).Sound msg := by
  constructor
  · intro h o ho hcell hlen
    rcases (h _ (setCellList_eq_some_iff.mpr ⟨o, ho, hcell, hlen, rfl⟩)).2.1 with ⟨l, hl, _⟩
    -- the list is read to the end of the body, which then has a whole number of cells
    have hrest := loadCells_cells ((getCellList_after ho).symm.trans hl)
    change (msg.bodyLen.toNat - o) % 4 = 0 at hrest
    rcases getCellListOffset_eq ho with ⟨_, _, rfl⟩ | ⟨_, rfl⟩ <;> omega
  · intro h s hs
    rcases setCellList_eq_some_iff.mp hs with ⟨o, ho, hcell, hlen, rfl⟩
    have hbody := h o ho hcell hlen
    have hrest : (msg.bodyLen.toNat - o) % 4 = 0 := by
      rcases getCellListOffset_eq ho with ⟨_, _, rfl⟩ | ⟨_, rfl⟩ <;> omega
    have hin : a.toNat + cells.length ≤ msg.bodyLen.toNat - o := by omega
    exact meets_of_cells (getCellList_after ho) (fun bytes h => ⟨bytes, rfl, h⟩)
      (congrArg (Option.map _) ho) hrest (by omega) hlen (.inr hin)

/-- A setter of a relocation, behind the number of cells. -/
theorem relocation_iff {k : ℕ → ℕ → Option Store} :
    (match numCells? msg, getRelCellListOffset msg.type msg.code with
      | some (n, _), some o => k n o
      | _, _ => none) = some s ↔
    getRelCellListOffset msg.type msg.code = some 4 ∧ 4 ≤ msg.bodyLen.toNat ∧
      k (msg.body 3).toNat 4 = some s := by
  constructor
  · intro h
    split at h
    case h_1 n reads o hn ho =>
      rcases numCells?_eq_some hn with ⟨rfl, rfl, hlen⟩
      rcases getRelCellListOffset_eq ho with ⟨_, _, rfl⟩
      exact ⟨ho, hlen, h⟩
    case h_2 => cases h
  · rintro ⟨ho, hlen, hk⟩
    rw [numCells?_of_le (by rw [ho]; exact Option.some_ne_none 4) hlen, ho]
    exact hk

/-- When the list to relocate is written, and where. -/
theorem setRelCellList_eq_some_iff {cells : List UInt8} {a : UInt16} :
    setRelCellList cells a msg = some s ↔
      getRelCellListOffset msg.type msg.code = some 4 ∧ cells.length % 4 = 0 ∧
        cells.length ≤ 4 * (msg.body 3).toNat ∧
        4 + a.toNat + cells.length ≤ msg.bodyLen.toNat ∧ s = ⟨4 + a.toNat, cells⟩ := by
  unfold setRelCellList
  rw [relocation_iff]
  dsimp only
  by_cases hn : cells.length ≤ 4 * (msg.body 3).toNat
  · have hle : ¬ 4 + a.toNat + cells.length > 4 + a.toNat + (msg.body 3).toNat * sizeofCell := by
      change ¬ 4 + a.toNat + cells.length > 4 + a.toNat + (msg.body 3).toNat * 4
      omega
    rw [if_neg hle, store_eq_some_iff]
    constructor
    · rintro ⟨ho, _, hcell, hlen, hs⟩
      exact ⟨ho, hcell, hn, hlen, hs⟩
    · rintro ⟨ho, hcell, _, hlen, hs⟩
      exact ⟨ho, by omega, hcell, hlen, hs⟩
  · have hgt : 4 + a.toNat + cells.length > 4 + a.toNat + (msg.body 3).toNat * sizeofCell := by
      change 4 + a.toNat + cells.length > 4 + a.toNat + (msg.body 3).toNat * 4
      omega
    simp [hgt, hn]

/-- When the list of candidates is written, and where. -/
theorem setCandCellList_eq_some_iff {cells : List UInt8} {a : UInt16} :
    setCandCellList cells a msg = some s ↔
      getRelCellListOffset msg.type msg.code = some 4 ∧ cells.length % 4 = 0 ∧
        4 + 4 * (msg.body 3).toNat + a.toNat + cells.length ≤ msg.bodyLen.toNat ∧
        s = ⟨4 + 4 * (msg.body 3).toNat + a.toNat, cells⟩ := by
  unfold setCandCellList
  rw [relocation_iff]
  dsimp only
  rw [store_eq_some_iff]
  have hsum : 4 + (a.toNat + (msg.body 3).toNat * sizeofCell) =
      4 + 4 * (msg.body 3).toNat + a.toNat := by
    change 4 + (a.toNat + (msg.body 3).toNat * 4) = _
    omega
  rw [hsum]
  constructor
  · rintro ⟨ho, _, h⟩
    exact ⟨ho, h⟩
  · rintro ⟨ho, hcell, hlen, hs⟩
    exact ⟨ho, by omega, hcell, hlen, hs⟩

/-- A store behind the number of cells does not change it. -/
theorem after_body_three {p : ℕ} {cells : List UInt8} (h : 4 ≤ p) :
    (msg.after ⟨p, cells⟩).body 3 = msg.body 3 := by
  have hlt : 3 < p := h
  exact write_below hlt

/-- Writing behind the number of cells leaves it. -/
theorem numCells?_after {a : ℕ} {cells : List UInt8} (hlen : 4 ≤ msg.bodyLen.toNat)
    (ho : getRelCellListOffset msg.type msg.code = some 4) :
    numCells? (msg.after ⟨4 + a, cells⟩) = some ((msg.body 3).toNat, [(3, 1)]) := by
  have ho' : getRelCellListOffset (msg.after ⟨4 + a, cells⟩).type
      (msg.after ⟨4 + a, cells⟩).code ≠ none := by
    change getRelCellListOffset msg.type msg.code ≠ none
    rw [ho]
    exact Option.some_ne_none 4
  rw [numCells?_of_le ho' hlen, after_body_three (Nat.le_add_right 4 a)]

/-- The list to relocate is read from its start. -/
theorem getRelCellList_after {a : ℕ} {cells : List UInt8} (hlen : 4 ≤ msg.bodyLen.toNat)
    (ho : getRelCellListOffset msg.type msg.code = some 4) :
    (msg.after ⟨4 + a, cells⟩).get .relCellList =
      loadCells (msg.after ⟨4 + a, cells⟩) 4 ((msg.body 3).toNat * sizeofCell) [(3, 1)] := by
  have ho' : getRelCellListOffset (msg.after ⟨4 + a, cells⟩).type
      (msg.after ⟨4 + a, cells⟩).code = some 4 := ho
  change getRelCellList (msg.after ⟨4 + a, cells⟩) = _
  rw [getRelCellList, numCells?_after hlen ho, ho']

/-- The candidates are read behind the list to relocate. -/
theorem getCandCellList_after {a : ℕ} {cells : List UInt8} (hlen : 4 ≤ msg.bodyLen.toNat)
    (ho : getRelCellListOffset msg.type msg.code = some 4) :
    (msg.after ⟨4 + a, cells⟩).get .candCellList =
      loadCells (msg.after ⟨4 + a, cells⟩) (4 + (msg.body 3).toNat * sizeofCell)
        (msg.bodyLen.toNat - (4 + (msg.body 3).toNat * sizeofCell)) [(3, 1)] := by
  have ho' : getRelCellListOffset (msg.after ⟨4 + a, cells⟩).type
      (msg.after ⟨4 + a, cells⟩).code = some 4 := ho
  change getCandCellList (msg.after ⟨4 + a, cells⟩) = _
  rw [getCandCellList, numCells?_after hlen ho, ho']
  rfl

/-- The setter of the list to relocate is right under its condition. -/
theorem relCellList_meets_iff (cells : List UInt8) (a : UInt16) :
    (SetCall.relCellList cells a).Meets msg ↔ (SetCall.relCellList cells a).Sound msg := by
  constructor
  · intro h hoffset hcell hn hlen
    rcases Option.ne_none_iff_exists'.mp hoffset with ⟨o, ho⟩
    rcases getRelCellListOffset_eq ho with ⟨_, _, rfl⟩
    have hs := setRelCellList_eq_some_iff.mpr ⟨ho, hcell, hn, hlen, rfl⟩
    rcases (h _ hs).2.1 with ⟨l, hl, bytes, hbytes, hagrees⟩
    have hl' := (getRelCellList_after (by omega) ho).symm.trans hl
    have hrest := loadCells_cells hl'
    rcases loadCells_eq_some hl' with ⟨hroom, rfl⟩
    change (msg.bodyLen.toNat - 4) % 4 = 0 at hrest
    change 4 + (msg.body 3).toNat * 4 ≤ msg.bodyLen.toNat at hroom
    refine ⟨by omega, by omega, ?_⟩
    -- the list read has as many bytes as the number of cells says
    cases hbytes
    have hlength := congrArg List.length hagrees
    rw [List.length_take, List.length_drop, length_read] at hlength
    change min cells.length ((msg.body 3).toNat * 4 - a.toNat) = cells.length at hlength
    rcases Nat.eq_zero_or_pos cells.length with hzero | hpos
    · exact .inl (List.length_eq_zero_iff.mp hzero)
    · right
      omega
  · intro h s hs
    rcases setRelCellList_eq_some_iff.mp hs with ⟨ho, hcell, hn, hlen, rfl⟩
    rcases h (by rw [ho]; exact Option.some_ne_none 4) hcell hn hlen with ⟨hbody, hroom, hin⟩
    have hplace : (msg.after ⟨4 + a.toNat, cells⟩).place .relCellList =
        some (4, (msg.body 3).toNat * sizeofCell) := by
      rw [Message.place, after_body_three (Nat.le_add_right 4 a.toNat)]
      exact congrArg (Option.map _) ho
    have hrest : (msg.bodyLen.toNat - 4) % 4 = 0 := by omega
    have hin' : cells = [] ∨ a.toNat + cells.length ≤ (msg.body 3).toNat * 4 := by
      rw [Nat.mul_comm]
      exact hin
    have hroom' : 4 + (msg.body 3).toNat * 4 ≤ msg.bodyLen.toNat := by omega
    exact meets_of_cells (getRelCellList_after (by omega) ho) (fun bytes h => ⟨bytes, rfl, h⟩)
      hplace hrest hroom' hlen hin'

/-- So is that of the candidates. -/
theorem candCellList_meets_iff (cells : List UInt8) (a : UInt16) :
    (SetCall.candCellList cells a).Meets msg ↔ (SetCall.candCellList cells a).Sound msg := by
  have hcells : (msg.body 3).toNat * sizeofCell = 4 * (msg.body 3).toNat := Nat.mul_comm _ _
  constructor
  · intro h hoffset hcell hlen
    rcases Option.ne_none_iff_exists'.mp hoffset with ⟨o, ho⟩
    rcases getRelCellListOffset_eq ho with ⟨_, _, rfl⟩
    have hs := setCandCellList_eq_some_iff.mpr ⟨ho, hcell, hlen, rfl⟩
    rcases (h _ hs).2.1 with ⟨l, hl, _⟩
    rw [Nat.add_assoc 4] at hl
    have hrest := loadCells_cells ((getCandCellList_after (by omega) ho).symm.trans hl)
    change (msg.bodyLen.toNat - (4 + (msg.body 3).toNat * 4)) % 4 = 0 at hrest
    omega
  · intro h s hs
    rcases setCandCellList_eq_some_iff.mp hs with ⟨ho, hcell, hlen, rfl⟩
    have hbody := h (by rw [ho]; exact Option.some_ne_none 4) hcell hlen
    have hget := @getCandCellList_after msg (4 * (msg.body 3).toNat + a.toNat) cells (by omega) ho
    rw [← Nat.add_assoc, hcells] at hget
    have hplace : (msg.after ⟨4 + 4 * (msg.body 3).toNat + a.toNat, cells⟩).place .candCellList =
        some (4 + 4 * (msg.body 3).toNat, msg.bodyLen.toNat - (4 + 4 * (msg.body 3).toNat)) := by
      rw [Message.place, after_body_three (by omega), hcells]
      exact congrArg (Option.map _) ho
    have hrest : (msg.bodyLen.toNat - (4 + 4 * (msg.body 3).toNat)) % 4 = 0 := by omega
    have hin : a.toNat + cells.length ≤ msg.bodyLen.toNat - (4 + 4 * (msg.body 3).toNat) := by
      omega
    exact meets_of_cells hget (fun bytes h => ⟨bytes, rfl, h⟩) hplace hrest (by omega) hlen
      (.inr hin)

/-- Every setter is right exactly under its condition. -/
theorem setCall_meets_iff (call : SetCall) : call.Meets msg ↔ call.Sound msg := by
  cases call with
  | metadata v => exact iff_of_true (metadata_meets v) trivial
  | cellOptions v => exact iff_of_true (cellOptions_meets v) trivial
  | numCells v => exact numCells_meets_iff v
  | reserved v => exact iff_of_true (reserved_meets v) trivial
  | offset v => exact iff_of_true (offset_meets v) trivial
  | maxNumCells v => exact iff_of_true (maxNumCells_meets v) trivial
  | cellList cells a => exact cellList_meets_iff cells a
  | relCellList cells a => exact relCellList_meets_iff cells a
  | candCellList cells a => exact candCellList_meets_iff cells a
  | totalNumCells v => exact totalNumCells_meets_iff v

/-- A getter with a check reads inside the body only. -/
theorem getMeets_of_checked {f : Field} {size : ℕ} {load : Message → ℕ → Load}
    (hget : msg.get f = getChecked offset size load msg)
    (hreads : ∀ o, offset = some o → (load msg o).reads = [(o, size)]) : GetMeets f msg := by
  intro l hl r hr
  rcases getChecked_eq_some (hget.symm.trans hl) with ⟨o, ho, hlen, rfl⟩
  rw [hreads o ho, List.mem_singleton] at hr
  rw [hr]
  exact hlen

/-- Every getter is right exactly under its condition. -/
theorem getMeets_iff (f : Field) : GetMeets f msg ↔ GetSound f msg := by
  have hcells {o n : ℕ} {reads : List (ℕ × ℕ)} {l : Load} (hl : loadCells msg o n reads = some l)
      (hreads : ∀ r ∈ reads, r.1 + r.2 ≤ msg.bodyLen.toNat) :
      ∀ r ∈ l.reads, r.1 + r.2 ≤ msg.bodyLen.toNat := by
    rcases loadCells_eq_some hl with ⟨hlen, rfl⟩
    intro r hr
    rcases List.mem_cons.mp hr with rfl | hr
    · exact hlen
    · exact hreads r hr
  have hchecked {p : Prop} (h : GetMeets f msg) (hf : f ≠ .reserved) :
      GetMeets f msg ↔ (f = .reserved → p) := iff_of_true h fun heq => absurd heq hf
  cases f with
  | metadata =>
    have hget : msg.get .metadata = getChecked (getMetadataOffset msg.type msg.code) 2
        (fun msg _ => loadWord msg 0) msg := rfl
    refine hchecked (getMeets_of_checked hget fun o ho => ?_) (by decide)
    rw [(getMetadataOffset_eq ho).2]
    rfl
  | cellOptions => exact hchecked (getMeets_of_checked rfl fun _ _ => rfl) (by decide)
  | numCells => exact hchecked (getMeets_of_checked rfl fun _ _ => rfl) (by decide)
  | offset => exact hchecked (getMeets_of_checked rfl fun _ _ => rfl) (by decide)
  | maxNumCells => exact hchecked (getMeets_of_checked rfl fun _ _ => rfl) (by decide)
  | totalNumCells =>
    have hget : msg.get .totalNumCells = getChecked (getTotalNumCellsOffset msg.type msg.code) 2
        (fun msg _ => loadWord msg 0) msg := rfl
    refine hchecked (getMeets_of_checked hget fun o ho => ?_) (by decide)
    rw [(getTotalNumCellsOffset_eq ho).2.2]
    rfl
  | reserved =>
    -- the one getter that does not look at the length
    constructor
    · intro h _ hoffset
      rcases Option.ne_none_iff_exists'.mp hoffset with ⟨o, ho⟩
      have hread := h (loadByte msg o) (congrArg (Option.map _) ho) (o, 1) (.head _)
      rcases getReservedOffset_eq ho with ⟨_, _, rfl⟩
      exact hread
    · intro h l hl r hr
      rcases Option.map_eq_some_iff.mp hl with ⟨o, ho, rfl⟩
      have hlen := h rfl (by rw [ho]; exact Option.some_ne_none o)
      rcases getReservedOffset_eq ho with ⟨_, _, rfl⟩
      rw [List.mem_singleton.mp hr]
      exact hlen
  | cellList =>
    refine hchecked (fun l hl => ?_) (by decide)
    change getCellList msg = some l at hl
    rw [getCellList] at hl
    split at hl
    · cases hl
    · exact hcells hl (by simp)
  | relCellList =>
    refine hchecked (fun l hl => ?_) (by decide)
    rcases relocation_eq_some hl with ⟨_, hlen, hl⟩
    exact hcells hl fun r hr => List.mem_singleton.mp hr ▸ hlen
  | candCellList =>
    refine hchecked (fun l hl => ?_) (by decide)
    rcases relocation_eq_some hl with ⟨_, hlen, hl⟩
    exact hcells hl fun r hr => List.mem_singleton.mp hr ▸ hlen

/-- Coding and decoding agree exactly for the packets that fit. -/
theorem codecMeets_iff (pkt : Pkt) (hseqno : pkt.seqno < 16) (hgen : pkt.gen < 16)
    (pb : Packetbuf) : CodecMeets pkt pb ↔ CodecSound pkt := by
  constructor
  · intro h hbody
    rcases create_isSome pb hbody with ⟨pb', hpb'⟩
    rcases h pb' hpb' with ⟨pkt', hparse, _⟩
    rw [create_copyto hpb'] at hparse
    split at hparse
    case isTrue hfit =>
      rw [parse_header pkt hseqno hgen] at hparse
      split at hparse
      case isTrue hok => exact ⟨hfit, hok⟩
      case isFalse => cases hparse
    case isFalse => cases hparse
  · intro h pb' hpb'
    have hbody : pkt.body.length ≤ packetbufSize := by
      by_contra hlong
      have hcheck : packetbufSize < totlen (clear pb) + pkt.body.length := by
        change packetbufSize < 0 + pkt.body.length
        omega
      rw [create, if_pos hcheck] at hpb'
      cases hpb'
    rcases h hbody with ⟨hfit, hok⟩
    refine ⟨pkt, ?_, rfl, rfl⟩
    rw [create_copyto hpb', if_pos hfit, parse_header pkt hseqno hgen, if_pos hok]

end Calls

/-- A call does what it has to exactly when it is sound: a setter or getter without a check of the
length is given a body that has the field, a list of cells is put into a body of whole cells and
into its own part of it, and a packet has a body of a length its type and code allow. -/
theorem meets_iff (call : Call) : call.Meets ↔ call.Sound := by
  cases call with
  | set call msg => exact setCall_meets_iff call
  | get f msg => exact getMeets_iff f
  | codec pkt hseqno hgen pb => exact codecMeets_iff pkt hseqno hgen pb

/-- The body of an ADD request of three bytes: the number of cells is stored behind it. -/
def shortAdd : Message where
  type := .request
  code := cmdAdd
  body := fun _ => 0
  bodyLen := 3

/-- The setter writes behind a body of one byte. -/
theorem setNumCells_behind_body : ¬ (Call.set (.numCells 1) shortAdd).Meets := by
  intro h
  exact absurd (h ⟨3, [1]⟩ rfl).1 (by decide)

end MasterScheduler.Mote.SixpPkt

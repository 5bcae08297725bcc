import MasterScheduler.Lib.Words
import MasterScheduler.Mote.CoapSafety

/-!
# MasterScheduler.Mote.CoapRoundTrip — what is serialized is parsed

1. **Bytes**: deltas, lengths, integers and blocks survive their encoding.
2. **Options**: the serializer writes a sequence of numbers and values, in which a
   path or a query is a value for each segment.
3. **Reader**: what such a sequence says, without memory; the parser follows it
   while it merges strings in place.
4. **Result**: the parsed packet is the serialized one.
-/

namespace MasterScheduler.Mote.Coap

open Lib

/-! ## Bytes -/

section

variable {m : Memory} {p value delta length : ℕ}

theorem read_succ (m : Memory) (p n : ℕ) : m.read p (n + 1) = m p :: m.read (p + 1) n := by
  rw [Memory.read, List.range'_succ]
  rfl

/-- The two nibbles of the first byte of an option. -/
theorem nibbles : ∀ a b : Fin 15,
    (UInt8.ofNat a <<< 4 ||| UInt8.ofNat b) >>> 4 = UInt8.ofNat a ∧
    (UInt8.ofNat a <<< 4 ||| UInt8.ofNat b) &&& 0x0f = UInt8.ofNat b ∧
    (UInt8.ofNat a <<< 4 ||| UInt8.ofNat b) &&& 0xf0 ≠ 0xf0 := by
  decide +kernel

/-- A nibble is below 15. -/
theorem coapOptionNibble_mem (value : ℕ) : ∃ k : Fin 15, coapOptionNibble value = UInt8.ofNat k := by
  unfold coapOptionNibble
  split
  · rename_i h
    exact ⟨⟨value, by omega⟩, rfl⟩
  · split
    · exact ⟨13, rfl⟩
    · exact ⟨14, rfl⟩

/-- A delta or a length is read as it was written. -/
theorem readExtension_extension (h : value < 65805)
    (hm : m.read p (extension value).length = extension value) :
    readExtension m p (coapOptionNibble value).toNat = (value, p + (extension value).length) := by
  unfold extension at hm ⊢
  unfold coapOptionNibble
  by_cases hlarge : 268 < value
  · rw [if_pos hlarge] at hm ⊢
    rw [if_neg (by omega), if_neg (by omega)]
    obtain ⟨hfirst, hsecond⟩ : m p = UInt8.ofNat ((value - 269) / 256) ∧
        m (p + 1) = UInt8.ofNat (value - 269) := by
      simpa [Memory.read_two] using hm
    have hnibble : (14 : UInt8).toNat = 14 := rfl
    rw [readExtension, hnibble, if_neg (by decide), if_pos rfl, hfirst, hsecond,
      UInt8.toNat_ofNat', UInt8.toNat_ofNat']
    simp only [List.length_cons, List.length_nil, Prod.mk.injEq, and_true]
    omega
  · rw [if_neg hlarge] at hm ⊢
    by_cases hmiddle : 12 < value
    · rw [if_pos hmiddle] at hm ⊢
      rw [if_neg (by omega), if_pos (by omega)]
      have hfirst : m p = UInt8.ofNat (value - 13) := List.head_eq_of_cons_eq hm
      have hnibble : (13 : UInt8).toNat = 13 := rfl
      rw [readExtension, hnibble, if_pos rfl, hfirst, UInt8.toNat_ofNat']
      simp only [List.length_singleton, Prod.mk.injEq, and_true]
      omega
    · have hnibble : (UInt8.ofNat value).toNat = value := by
        rw [UInt8.toNat_ofNat']
        omega
      rw [if_neg hmiddle, if_pos (by omega), readExtension, hnibble, if_neg (by omega),
        if_neg (by omega)]
      rfl

/-- The header of an option is read as it was written, and is no payload marker. -/
theorem readHeader_coapSetOptionHeader (hdelta : delta < 65805) (hlength : length < 65805)
    (hm : m.read p (coapSetOptionHeader delta length).length = coapSetOptionHeader delta length) :
    readHeader m p = (delta, length, p + (coapSetOptionHeader delta length).length) ∧
      ¬ Marker (m p) := by
  obtain ⟨a, ha⟩ := coapOptionNibble_mem delta
  obtain ⟨b, hb⟩ := coapOptionNibble_mem length
  obtain ⟨hhigh, hlow, hmarker⟩ := nibbles a b
  rw [← ha, ← hb] at hhigh hlow hmarker
  unfold coapSetOptionHeader at hm ⊢
  rw [List.length_cons, read_succ] at hm
  obtain ⟨hfirst, hrest⟩ := List.cons.inj hm
  rw [List.length_append, Memory.read_append] at hrest
  obtain ⟨hext, hext'⟩ := List.append_inj hrest Memory.length_read
  have hread := readExtension_extension hdelta hext
  have hread' := readExtension_extension hlength hext'
  constructor
  · rw [readHeader, hfirst, hhigh, hlow, hread]
    dsimp only
    rw [hread']
    simp only [List.length_cons, List.length_append, Prod.mk.injEq, true_and]
    omega
  · rw [Marker, hfirst]
    exact hmarker

/-- One byte more of a number. -/
theorem toNat_shift_or (var : UInt32) (b : UInt8) :
    (var <<< 8 ||| b.toUInt32).toNat = (var.toNat * 256 + b.toNat) % 4294967296 := by
  have hb := b.toNat_lt
  have hvar := var.toNat_lt
  have hshift : (var <<< 8).toNat = (var.toNat % 16777216) <<< 8 := by
    rw [UInt32.toNat_shiftLeft]
    change var.toNat <<< 8 % 4294967296 = _
    rw [Nat.shiftLeft_eq, Nat.shiftLeft_eq]
    omega
  rw [UInt32.toNat_or, hshift, UInt8.toNat_toUInt32, ← Nat.shiftLeft_add_eq_or_of_lt hb,
    Nat.shiftLeft_eq]
  omega

/-- A mask of the upper bits tells whether a value needs more than `k` bits. -/
theorem mask_ne_zero (mask value : UInt32) (k : ℕ) (hk : k ≤ 32)
    (hmask : mask.toNat = 2 ^ 32 - 1 - (2 ^ k - 1)) :
    mask &&& value ≠ 0 ↔ 2 ^ k ≤ value.toNat := by
  have hpos : 0 < 2 ^ k := Nat.two_pow_pos k
  have hand : (mask &&& value).toNat = value.toNat / 2 ^ k * 2 ^ k := by
    rw [UInt32.toNat_and, hmask, Nat.and_comm, and_complement value.toNat_lt hk]
  rw [ne_eq, ← UInt32.toNat_inj, hand]
  change ¬ _ = 0 ↔ _
  rw [Nat.mul_eq_zero, Nat.div_eq_zero_iff]
  omega

/-- A number is read as it was written. -/
theorem coapParseIntOption_intBytes (value : UInt32) :
    coapParseIntOption (intBytes value) = value := by
  have hlt := value.toNat_lt
  have h₃ := mask_ne_zero 0xff000000 value 24 (by decide) rfl
  have h₂ := mask_ne_zero 0xffff0000 value 16 (by decide) rfl
  have h₁ := mask_ne_zero 0xffffff00 value 8 (by decide) rfl
  have h₀ := mask_ne_zero 0xffffffff value 0 (by decide) rfl
  have hzero : (0 : UInt32).toNat = 0 := rfl
  have hbyte : ∀ k : UInt32, k.toNat < 32 →
      (value >>> k).toUInt8.toNat = value.toNat / 2 ^ k.toNat % 256 := by
    intro k hk
    rw [UInt32.toNat_toUInt8, UInt32.toNat_shiftRight, Nat.shiftRight_eq_div_pow,
      Nat.mod_eq_of_lt hk]
  have hbyte₃ := hbyte 24 (by decide)
  have hbyte₂ := hbyte 16 (by decide)
  have hbyte₁ := hbyte 8 (by decide)
  have hbyte₀ : value.toUInt8.toNat = value.toNat % 256 := UInt32.toNat_toUInt8 value
  change _ = value.toNat / 2 ^ 24 % 256 at hbyte₃
  change _ = value.toNat / 2 ^ 16 % 256 at hbyte₂
  change _ = value.toNat / 2 ^ 8 % 256 at hbyte₁
  apply UInt32.toNat_inj.mp
  unfold coapParseIntOption intBytes
  simp only [h₃, h₂, h₁, h₀]
  split_ifs <;> simp only [List.append_nil, List.nil_append, List.cons_append, List.foldl_cons,
    List.foldl_nil, toNat_shift_or, hzero, hbyte₃, hbyte₂, hbyte₁, hbyte₀] <;> omega

/-- A number of blocks behind four bits. -/
theorem toNat_block {num low : UInt32} (hnum : num.toNat < 1048576) (hlow : low.toNat < 16) :
    (num <<< 4 ||| low).toNat = num.toNat * 16 + low.toNat := by
  have hshift : (num <<< 4).toNat = num.toNat <<< 4 := by
    rw [UInt32.toNat_shiftLeft]
    change num.toNat <<< 4 % 4294967296 = _
    rw [Nat.shiftLeft_eq]
    omega
  rw [UInt32.toNat_or, hshift, ← Nat.shiftLeft_add_eq_or_of_lt (show low.toNat < 2 ^ 4 from hlow),
    Nat.shiftLeft_eq]

/-- The size of a block that a message can announce. -/
def BlockSize (size : UInt16) : Prop := ∃ k : Fin 8, size = 16 <<< UInt16.ofNat k

/-- The exponent of a block size. -/
theorem coapLog2_size : ∀ k : Fin 8,
    (0xf : UInt32) &&& coapLog2 ((16 <<< UInt16.ofNat k) / 16) = UInt32.ofNat k := by
  decide

/-- The bits of a block behind its number. -/
def Block.low (b : Block) (k : Fin 8) : UInt32 := (if b.more ≠ 0 then 8 else 0) ||| UInt32.ofNat k

/-- The lower half byte of a block option. -/
theorem toNat_low (b : Block) (k : Fin 8) :
    (b.low k).toNat = (if b.more ≠ 0 then 8 else 0) + k.val := by
  unfold Block.low
  split
  · revert k
    decide
  · revert k
    decide

/-- The block option as number, flag and exponent. -/
theorem encode_eq {b : Block} {k : Fin 8} (hsize : b.size = 16 <<< UInt16.ofNat k) :
    b.encode = b.num <<< 4 ||| b.low k := by
  have hlog := coapLog2_size k
  unfold Block.encode Block.low
  dsimp only
  rw [hsize, hlog]
  split
  · rw [UInt32.or_assoc]
  · rw [UInt32.zero_or]

/-- What arrives of a block: `more` is a flag. -/
def Block.flagged (b : Block) : Block := { b with more := if b.more ≠ 0 then 1 else 0 }

/-- A block is read as it was written. -/
theorem decode_encode {b : Block} (hsize : BlockSize b.size) (hnum : b.num.toNat < 1048576)
    (hoffset : b.offset.toNat = b.num.toNat * b.size.toNat) : Block.decode b.encode = b.flagged := by
  obtain ⟨k, hk⟩ := hsize
  have hlow := toNat_low b k
  have hlow' : (b.low k).toNat < 16 := by
    rw [hlow]
    have hk' := k.isLt
    split <;> omega
  have hblock := toNat_block hnum hlow'
  rw [encode_eq hk]
  -- The number, the flag and the exponent of the size lie in separate bits.
  generalize b.num <<< 4 ||| b.low k = x at hblock
  have hk' := k.isLt
  have hseven : x &&& 7 = UInt32.ofNat k := by
    apply UInt32.toNat_inj.mp
    have hmod : (x &&& 7).toNat = x.toNat % 8 := Nat.and_two_pow_sub_one_eq_mod x.toNat 3
    rw [hmod, hblock, hlow, UInt32.toNat_ofNat']
    split <;> omega
  have hmore : ((x &&& 8) >>> 3).toUInt8 = if b.more ≠ 0 then 1 else 0 := by
    apply UInt8.toNat_inj.mp
    have hbit : ((x &&& 8) >>> 3).toUInt8.toNat = ((x.toNat &&& 8) >>> 3) % 256 := rfl
    have hone : (8 : ℕ) >>> 3 = 1 := rfl
    rw [hbit, Nat.shiftRight_and_distrib, hone, Nat.and_one_is_mod, Nat.shiftRight_eq_div_pow,
      hblock, hlow]
    split
    · change _ = 1
      omega
    · change _ = 0
      omega
  have hnum' : x >>> 4 = b.num := by
    apply UInt32.toNat_inj.mp
    have hshift : (x >>> 4).toNat = x.toNat >>> 4 := rfl
    rw [hshift, Nat.shiftRight_eq_div_pow, hblock]
    omega
  have hclear : (x &&& 0xfffffff0).toNat = b.num.toNat * 16 := by
    have hand : (x &&& 0xfffffff0).toNat = x.toNat / 2 ^ 4 * 2 ^ 4 :=
      and_complement (w := 32) (k := 4) x.toNat_lt (by decide)
    rw [hand, hblock]
    omega
  have hsize' : ∀ k : Fin 8, (16 <<< UInt16.ofNat k : UInt16).toNat = 16 * 2 ^ k.val ∧
      (UInt32.ofNat k).toUInt16 = UInt16.ofNat k ∧ (UInt32.ofNat k).toNat = k.val := by decide
  obtain ⟨hsizeNat, hnarrow, hkNat⟩ := hsize' k
  have hoffset' : (x &&& 0xfffffff0) <<< (x &&& 7) = b.offset := by
    apply UInt32.toNat_inj.mp
    have hpow : 2 ^ k.val ≤ 2 ^ 7 := Nat.pow_le_pow_right (by decide) (by omega)
    have hbound : b.num.toNat * 16 * 2 ^ k.val ≤ 1048575 * 16 * 2 ^ 7 :=
      Nat.mul_le_mul (by omega) hpow
    rw [hseven, UInt32.toNat_shiftLeft, hclear, hkNat, Nat.mod_eq_of_lt (show k.val < 32 by omega),
      Nat.shiftLeft_eq, Nat.mod_eq_of_lt (by omega), hoffset, hk, hsizeNat, Nat.mul_assoc]
  have hsize : (16 : UInt16) <<< (x &&& 7).toUInt16 = b.size := by
    rw [hseven, hnarrow, hk]
  rw [Block.decode, Block.flagged, hnum', hmore, hsize, hoffset']

end

/-! ## Options -/

/-- Numbers and values, the numbers as differences. -/
def encodeOptions : ℕ → List (ℕ × List UInt8) → List UInt8
  | _, [] => []
  | currentNumber, (number, value) :: rest =>
    coapSetOptionHeader (number - currentNumber) value.length ++ value ++ encodeOptions number rest

/-- The segments that `coap_serialize_array_option` finds. -/
def segments (array : Memory) (length : ℕ) (splitChar : UInt8) : ℕ → ℕ → ℕ → List (List UInt8)
  | 0, _, _ => []
  | fuel + 1, j, partStart =>
    if j ≤ length + 1 then
      if array j = splitChar ∨ j = length then
        array.read partStart (j - partStart) ::
          segments array length splitChar fuel (j + 1 + 1) (j + 1)
      else segments array length splitChar fuel (j + 1) partStart
    else []

/-- How the parser puts a segment behind others. -/
def joined (separator : UInt8) (acc value : List UInt8) : List UInt8 :=
  if acc = [] then value else acc ++ separator :: value

/-- Neither the first segment of a string nor its last one is empty. -/
def Trimmed (separator : UInt8) (array : Memory) (length : ℕ) : Prop :=
  ∀ i < length, array i = separator → 0 < i ∧ i + 1 < length

section

variable {array : Memory} {length number fuel j partStart currentNumber : ℕ} {splitChar : UInt8}

/-- The loop that splits a string makes one option a segment. -/
theorem splitLoop_eq : splitLoop array length splitChar number fuel j partStart currentNumber =
    encodeOptions currentNumber
      ((segments array length splitChar fuel j partStart).map (number, ·)) := by
  induction fuel generalizing j partStart currentNumber with
  | zero => rfl
  | succ fuel ih =>
    unfold splitLoop segments
    split
    · split
      · rw [ih, List.map_cons, encodeOptions, Memory.length_read]
      · exact ih
    · rfl

/-- What is in front of a segment: nothing, or what was joined before and a separator. -/
structure Front (array : Memory) (length : ℕ) (splitChar : UInt8) (j partStart : ℕ)
    (acc : List UInt8) : Prop where
  le : partStart ≤ j
  le_length : j ≤ length
  before : (partStart = 0 ∧ acc = []) ∨ (partStart < j ∧ acc ≠ [] ∧
    acc ++ [splitChar] = array.read 0 partStart)

/-- The segments, joined again, are the string. -/
theorem joined_segments (h : Trimmed splitChar array length) {acc : List UInt8}
    (hfront : Front array length splitChar j partStart acc) (hfuel : length - j < fuel) :
    segments array length splitChar fuel j partStart ≠ [] ∧
      (segments array length splitChar fuel j partStart).foldl (joined splitChar) acc =
        array.read 0 length := by
  -- On the fuel, which is more than the rest of the array.
  induction fuel generalizing j partStart acc with
  | zero => omega
  | succ fuel ih =>
    have hle := hfront.le
    have hlen := hfront.le_length
    -- The segments so far and the open one make up the array up to here.
    have hjoin : joined splitChar acc (array.read partStart (j - partStart)) = array.read 0 j := by
      have hsplit : array.read 0 j = array.read 0 partStart ++ array.read partStart (j - partStart) := by
        have hsum : j = partStart + (j - partStart) := by omega
        conv_lhs => rw [hsum, Memory.read_append, Nat.zero_add]
      rcases hfront.before with ⟨rfl, rfl⟩ | ⟨-, hne, hacc⟩
      · rw [joined, if_pos rfl, Nat.sub_zero]
      · rw [joined, if_neg hne, hsplit, ← hacc, List.append_assoc]
        rfl
    unfold segments
    rw [if_pos (by omega)]
    by_cases hend : j = length
    · rw [if_pos (.inr hend), List.foldl_cons, hjoin, hend]
      refine ⟨by simp, ?_⟩
      have hrest : segments array length splitChar fuel (length + 1 + 1) (length + 1) = [] := by
        cases fuel with
        | zero => rfl
        | succ fuel =>
          rw [segments, if_neg (by omega)]
      rw [hrest]
      rfl
    · by_cases hsep : array j = splitChar
      · obtain ⟨hpos, hnext⟩ := h j (by omega) hsep
        rw [if_pos (.inl hsep), List.foldl_cons, hjoin]
        refine ⟨by simp, (ih ⟨by omega, by omega, .inr ⟨by omega, ?_, ?_⟩⟩ (by omega)).2⟩
        · intro hnil
          have hzero := congrArg List.length hnil
          rw [Memory.length_read] at hzero
          simp only [List.length_nil] at hzero
          omega
        · rw [Memory.read_append, Nat.zero_add, ← hsep]
          rfl
      · rw [if_neg (by simp [hsep, hend])]
        refine ih ⟨by omega, by omega, ?_⟩ (by omega)
        rcases hfront.before with hzero | ⟨hlt, hrest⟩
        · exact .inl hzero
        · exact .inr ⟨by omega, hrest⟩

/-- The values of an option. -/
def values (pkt : CoapPacket CString) : CoapOption → List (List UInt8)
  | .int i => [intBytes (pkt.ints i)]
  | .ifNoneMatch => [intBytes 0]
  | .block b => [intBytes (pkt.blocks b).encode]
  | .bytes b => [(pkt.bytes b).array.read 0 (pkt.bytes b).len.toNat]
  | .string s =>
    if s.splitter ≠ 0 then
      segments (pkt.strings s).bytes (pkt.strings s).len s.splitter ((pkt.strings s).len + 3) 0 0
    else [(pkt.strings s).bytes.read 0 (pkt.strings s).len]

/-- The numbers and values of the options that are set. -/
def optionValues (pkt : CoapPacket CString) (os : List CoapOption) : List (ℕ × List UInt8) :=
  os.flatMap fun o => if pkt.options o.number then (values pkt o).map (o.number, ·) else []

/-- One option is serialized as its values. -/
theorem serializeOption_eq (pkt : CoapPacket CString) (o : CoapOption) (currentNumber : ℕ) :
    serializeOption pkt o currentNumber =
      encodeOptions currentNumber ((values pkt o).map (o.number, ·)) := by
  cases o with
  | string s =>
    rw [serializeOption, coapSerializeArrayOption, values]
    split
    · exact splitLoop_eq
    · simp [encodeOptions]
  | _ => simp [serializeOption, values, encodeOptions, coapSerializeIntOption,
      coapSerializeArrayOption]

/-- The deltas of a list of options go on from the last number. -/
theorem encodeOptions_append {vs : List (List UInt8)} (hne : vs ≠ [])
    (rest : List (ℕ × List UInt8)) :
    encodeOptions currentNumber (vs.map (number, ·) ++ rest) =
      encodeOptions currentNumber (vs.map (number, ·)) ++ encodeOptions number rest := by
  induction vs generalizing currentNumber with
  | nil => exact absurd rfl hne
  | cons v vs ih =>
    cases vs with
    | nil => simp [encodeOptions]
    | cons v' vs =>
      have hrest := @ih number (by simp)
      simp only [List.map_cons, List.cons_append, encodeOptions] at hrest ⊢
      rw [hrest]
      simp only [List.append_assoc]

/-- All options are serialized as the list of their values. -/
theorem serializeOptions_eq (pkt : CoapPacket CString) {os : List CoapOption}
    (hne : ∀ o ∈ os, pkt.options o.number = true → values pkt o ≠ []) :
    serializeOptions pkt os currentNumber = encodeOptions currentNumber (optionValues pkt os) := by
  induction os generalizing currentNumber with
  | nil => rfl
  | cons o os ih =>
    have hrest := fun c => @ih c fun o' ho' => hne o' (List.mem_cons_of_mem _ ho')
    rw [serializeOptions, optionValues, List.flatMap_cons]
    cases hset : pkt.options o.number with
    | false => exact hrest _
    | true =>
      rw [if_pos rfl, if_pos rfl, encodeOptions_append (hne o List.mem_cons_self hset),
        serializeOption_eq, hrest]
      rfl

end

/-! ## Reader -/

/-- The packet with its strings as they stand in the message. -/
def Parser.view (s : Parser) : CoapPacket (List UInt8) where
  version := s.pkt.version
  type := s.pkt.type
  code := s.pkt.code
  mid := s.pkt.mid
  tokenLen := s.pkt.tokenLen
  token := s.pkt.token
  options := s.pkt.options
  ints := s.pkt.ints
  bytes := s.pkt.bytes
  blocks := s.pkt.blocks
  strings := fun o => s.mem.read (s.pkt.strings o).start (s.pkt.strings o).len
  ifNoneMatch := s.pkt.ifNoneMatch
  payload := s.mem.read s.pkt.payload.start s.pkt.payload.len

/-- What the value of an option says, without memory. -/
def absorbValue (v : CoapPacket (List UInt8)) (o : CoapOption) (value : List UInt8) :
    CoapPacket (List UInt8) :=
  match o with
  | .int i =>
      { v with ints := Function.update v.ints i (i.truncate (coapParseIntOption value)) }
  | .block b => { v with blocks := Function.update v.blocks b (.decode (coapParseIntOption value)) }
  | .bytes b =>
      { v with
        bytes := Function.update v.bytes b
          ⟨UInt8.ofNat (min 8 value.length), (v.bytes b).array.write 0 (value.take 8)⟩ }
  | .ifNoneMatch => { v with ifNoneMatch := 1 }
  | .string .uriHost => { v with strings := Function.update v.strings .uriHost value }
  | .string o =>
      { v with strings := Function.update v.strings o (joined o.separator (v.strings o) value) }

/-- What an option says. -/
def absorb (v : CoapPacket (List UInt8)) (x : ℕ × List UInt8) : CoapPacket (List UInt8) :=
  match ofNumber x.1 with
  | some o => absorbValue (v.setOption x.1) o x.2
  | none => v.setOption x.1

/-- Where strings lie at an option number: before a position; those with larger numbers are
empty, and one with this number lies behind all others. -/
structure Laid (pkt : CoapPacket Slice) (number p : ℕ) : Prop where
  endBy : EndBy pkt p
  later : ∀ o, number < (CoapOption.string o).number → (pkt.strings o).len = 0
  newest : ∀ o o', (CoapOption.string o).number = number → o' ≠ o → 0 < (pkt.strings o).len →
    (pkt.strings o').start + (pkt.strings o').len ≤ (pkt.strings o).start
  payload : pkt.payload = ⟨0, 0⟩

section

variable {s s' : Parser} {o : StringOption} {number number' p len : ℕ} {separator : UInt8}

/-- An option that was laid out stays so for higher numbers. -/
theorem Laid.mono {pkt : CoapPacket Slice} (h : Laid pkt number p) (hle : number ≤ number') :
    Laid pkt number' p := by
  refine ⟨h.endBy, fun o ho => h.later o (lt_of_le_of_lt hle ho), ?_, h.payload⟩
  intro o o' ho hne hpos
  rcases Nat.lt_or_eq_of_le hle with hlt | heq
  · have hzero := h.later o (ho ▸ hlt)
    omega
  · exact h.newest o o' (ho.trans heq.symm) hne hpos

/-- The numbers tell the options apart. -/
theorem string_number_inj {o o' : StringOption}
    (h : (CoapOption.string o).number = (CoapOption.string o').number) : o = o' := by
  cases o <;> cases o' <;> first | rfl | cases h

/-- A string that starts behind all others. -/
theorem Laid.update {pkt : CoapPacket Slice} {slice : Slice} {q : ℕ} (h : Laid pkt number p)
    (ho : (CoapOption.string o).number = number) (hpq : p ≤ q)
    (hbehind : ∀ o' ≠ o, (pkt.strings o').start + (pkt.strings o').len ≤ slice.start)
    (hend : slice.start + slice.len ≤ q) :
    Laid { pkt with strings := Function.update pkt.strings o slice } number q := by
  refine ⟨h.endBy.update hpq hend, ?_, ?_, h.payload⟩
  · intro o' ho'
    have hne : o' ≠ o := by
      rintro rfl
      omega
    dsimp only
    rw [Function.update_of_ne hne]
    exact h.later o' ho'
  · intro o₁ o' ho₁ hne _
    obtain rfl := string_number_inj (ho₁.trans ho.symm)
    dsimp only
    rw [Function.update_self, Function.update_of_ne hne]
    exact hbehind o' hne

/-- What the parser shows after one string was written. -/
theorem view_update {mem : Memory} {strings : StringOption → Slice} {slice : Slice}
    (hframe : ∀ o' ≠ o, mem.read (s.pkt.strings o').start (s.pkt.strings o').len =
      s.mem.read (s.pkt.strings o').start (s.pkt.strings o').len)
    (hpayload : s.pkt.payload = ⟨0, 0⟩)
    (hstrings : strings = Function.update s.pkt.strings o slice) (trace : List Access) :
    Parser.view { s with mem := mem, pkt := { s.pkt with strings := strings }, trace := trace } =
      { s.view with
        strings := Function.update s.view.strings o (mem.read slice.start slice.len) } := by
  have hfun : (fun o' => mem.read (strings o').start (strings o').len) =
      Function.update s.view.strings o (mem.read slice.start slice.len) := by
    funext o'
    by_cases ho : o' = o
    · rw [ho, hstrings, Function.update_self, Function.update_self]
    · rw [hstrings, Function.update_of_ne ho, Function.update_of_ne ho]
      exact hframe o' ho
  simp only [Parser.view, hpayload, hfun]
  rfl

/-- A separator and then a part of the memory behind it, put behind a string. -/
theorem read_merged (m : Memory) (start k option : ℕ) (hoption : start + k < option) :
    ((m.write (start + k) [separator]).move (start + k + 1) option len).read start (k + 1 + len) =
      m.read start k ++ separator :: m.read option len := by
  have hvalue : (m.write (start + k) [separator]).read option len = m.read option len :=
    Memory.read_write_above (Nat.succ_le_of_lt hoption)
  have hself := Memory.read_write_self (m.write (start + k) [separator]) (start + k + 1)
    (m.read option len)
  rw [Memory.length_read] at hself
  have hsep : (m.write (start + k) [separator]).read (start + k) 1 = [separator] :=
    Memory.read_write_self m (start + k) [separator]
  rw [Memory.move, hvalue, Memory.read_append, Memory.read_append, ← Nat.add_assoc, hself,
    Memory.read_write_below (by omega), Memory.read_write_below (by omega),
    Memory.read_write_below (by omega), hsep, List.append_assoc]
  rfl

/-- Merging in place joins the strings. -/
theorem mergeMultiOption_view (h : Laid s.pkt number p) (hp : p < s.currentOption)
    (ho : (CoapOption.string o).number = number) :
    Laid (s.mergeMultiOption o len separator).pkt number (s.currentOption + len) ∧
      (s.mergeMultiOption o len separator).view =
        { s.view with
          strings := Function.update s.view.strings o
            (joined separator (s.view.strings o) (s.mem.read s.currentOption len)) } := by
  have hend := h.endBy o
  unfold Parser.mergeMultiOption
  dsimp only
  split
  · rename_i hpos
    have hbehind := fun o' hne => h.newest o o' ho hne hpos
    refine ⟨h.update ho (by omega) hbehind (by dsimp only; omega), ?_⟩
    have hne : s.view.strings o ≠ [] := by
      intro hnil
      have hlen := congrArg List.length hnil
      simp only [Parser.view, Memory.length_read, List.length_nil] at hlen
      omega
    rw [view_update ?_ h.payload rfl, joined, if_neg hne]
    · dsimp only
      rw [read_merged _ _ _ _ (by omega)]
      rfl
    · intro o' hne
      have hle := hbehind o' hne
      rw [Memory.move, Memory.read_write_below (by omega), Memory.read_write_below (by omega)]
  · rename_i hzero
    refine ⟨h.update ho (by omega) (fun o' _ => (h.endBy o').trans hp.le) le_rfl, ?_⟩
    have hempty : s.view.strings o = [] := by
      have hlen : (s.pkt.strings o).len = 0 := by omega
      simp only [Parser.view, hlen]
      rfl
    rw [hempty, joined, if_pos rfl]
    exact view_update (fun _ _ => rfl) h.payload rfl s.trace

variable (s len) in
/-- The value of an option that is known. -/
theorem parseKnown_view {o : CoapOption} (h : Laid s.pkt number p) (hp : p < s.currentOption)
    (ho : o.number = number) (huri : o ≠ .string .proxyUri) (hscheme : o ≠ .string .proxyScheme) :
    ∃ s', s.parseKnown o len = (s', .next) ∧ Laid s'.pkt number (s.currentOption + len) ∧
      s'.view = absorbValue s.view o (s.mem.read s.currentOption len) := by
  have hmono : EndBy s.pkt (s.currentOption + len) := fun o => (h.endBy o).trans (by omega)
  cases o with
  | bytes b =>
    refine ⟨_, rfl, ⟨hmono, h.later, h.newest, h.payload⟩, ?_⟩
    have htake : (s.mem.read s.currentOption len).take 8 =
        s.mem.read s.currentOption (min 8 len) := by
      rcases Nat.le_total 8 len with hle | hle
      · have hslice := Memory.read_slice (m := s.mem) (p := s.currentOption) (n := len) (a := 0)
          (b := 8) (by omega)
        rw [List.drop_zero, Nat.add_zero] at hslice
        rw [hslice, Nat.min_eq_left hle]
      · rw [List.take_of_length_le (by simpa using hle), Nat.min_eq_right hle]
    rw [absorbValue, htake, Memory.length_read]
    rfl
  | string o =>
    cases o with
    | uriHost =>
      refine ⟨_, rfl, h.update ho (by omega) (fun o' _ => (h.endBy o').trans hp.le) le_rfl, ?_⟩
      exact view_update (fun _ _ => rfl) h.payload rfl s.trace
    | proxyUri => exact absurd rfl huri
    | proxyScheme => exact absurd rfl hscheme
    | _ => exact ⟨_, rfl, mergeMultiOption_view h hp ho⟩
  | _ => exact ⟨_, rfl, ⟨hmono, h.later, h.newest, h.payload⟩, rfl⟩

/-- A known number is that of its option. -/
theorem ofNumber_number {o : CoapOption} (h : ofNumber number = some o) : o.number = number := by
  have hfound := List.find?_some h
  simpa using hfound

/-- An option that is taken says what its number and value say. -/
theorem round_view (cfg : Config) (dataLen : ℕ) {delta length q : ℕ}
    (h : Laid s.pkt s.optionNumber s.currentOption)
    (hmarker : ¬ Marker (s.mem s.currentOption))
    (hheader : readHeader s.mem s.currentOption = (delta, length, q)) (hfits : q + length ≤ dataLen)
    (hnumber : ¬ Refused (s.optionNumber + delta)) :
    ∃ s', s.round cfg dataLen = (s', .next) ∧ s'.currentOption = q + length ∧
      s'.optionNumber = s.optionNumber + delta ∧ (∀ i ≥ q + length, s'.mem i = s.mem i) ∧
      Laid s'.pkt s'.optionNumber s'.currentOption ∧
      s'.view = absorb s.view (s.optionNumber + delta, s.mem.read q length) := by
  have hlt : s.currentOption < q := by
    have hlt := lt_readHeader s.mem s.currentOption
    rwa [hheader] at hlt
  have hlaid : Laid (s.header delta q).pkt (s.optionNumber + delta) s.currentOption := by
    have hmono := h.mono (Nat.le_add_right s.optionNumber delta)
    exact ⟨hmono.endBy, hmono.later, hmono.newest, hmono.payload⟩
  -- The value of the option is read from where its header ends.
  obtain ⟨s₁, hvalue, hkept⟩ := parseValue_value length (s.header delta q) hlt h.endBy hnumber
  have hview : Laid s₁.pkt (s.optionNumber + delta) (q + length) ∧
      s₁.view = absorb s.view (s.optionNumber + delta, s.mem.read q length) := by
    have hswitch : (s.header delta q).optionNumber = s.optionNumber + delta := rfl
    rw [Parser.parseValue, hswitch] at hvalue
    rw [absorb]
    cases ho : ofNumber (s.optionNumber + delta) with
    | none =>
      have hmono : EndBy s.pkt (q + length) := fun o => (h.endBy o).trans (by omega)
      rw [ho] at hvalue
      dsimp only at hvalue
      split at hvalue
      · cases hvalue
      · obtain rfl := (Prod.mk.inj hvalue).1
        exact ⟨⟨hmono, hlaid.later, hlaid.newest, hlaid.payload⟩, rfl⟩
    | some o =>
      obtain ⟨s₂, hknown, hlaid₂, hview₂⟩ := parseKnown_view (s.header delta q) length
        hlaid hlt (ofNumber_number ho)
        (by
          rintro rfl
          exact hnumber (by simp [Refused, ho]))
        (by
          rintro rfl
          exact hnumber (by simp [Refused, ho]))
      rw [ho] at hvalue
      dsimp only at hvalue
      rw [hknown] at hvalue
      obtain rfl := (Prod.mk.inj hvalue).1
      exact ⟨hlaid₂, hview₂⟩
  rw [round_eq hmarker hheader (Nat.not_lt.mpr hfits) fun h => hnumber (.inl h), hvalue]
  refine ⟨_, rfl, rfl, hkept.optionNumber, hkept.unread, ?_, hview.2⟩
  rw [show _ = s.optionNumber + delta from hkept.optionNumber]
  exact hview.1

/-- The numbers do not decrease. -/
def Ascending : ℕ → List (ℕ × List UInt8) → Prop
  | _, [] => True
  | currentNumber, (number, _) :: rest => currentNumber ≤ number ∧ Ascending number rest

/-- A run over a sequence of options says what the sequence says. -/
theorem parseLoop_options (cfg : Config) (dataLen fuel : ℕ) {xs : List (ℕ × List UInt8)}
    (h : Laid s.pkt s.optionNumber s.currentOption) (hasc : Ascending s.optionNumber xs)
    (hnumber : ∀ x ∈ xs, ¬ Refused x.1)
    (hm : s.mem.read s.currentOption (encodeOptions s.optionNumber xs).length =
      encodeOptions s.optionNumber xs)
    (hshort : (encodeOptions s.optionNumber xs).length < 65805)
    (hfits : s.currentOption + (encodeOptions s.optionNumber xs).length ≤ dataLen)
    (hfuel : dataLen < s.currentOption + fuel) :
    ∃ s' fuel', parseLoop cfg dataLen fuel s = parseLoop cfg dataLen fuel' s' ∧
      dataLen < s'.currentOption + fuel' ∧
      s'.currentOption = s.currentOption + (encodeOptions s.optionNumber xs).length ∧
      (∀ i ≥ s'.currentOption, s'.mem i = s.mem i) ∧
      Laid s'.pkt s'.optionNumber s'.currentOption ∧ s'.view = xs.foldl absorb s.view := by
  -- On the options, whose numbers ascend; the differences add up to the number.
  induction xs generalizing s fuel with
  | nil => exact ⟨s, fuel, rfl, hfuel, rfl, fun _ _ => rfl, h, rfl⟩
  | cons x xs ih =>
    obtain ⟨number, value⟩ := x
    obtain ⟨hle, hasc'⟩ := hasc
    have hx := hnumber _ List.mem_cons_self
    have hsmall : number ≤ coapOptionSize1 := Nat.not_lt.mp fun hlarge => hx (.inl hlarge)
    unfold coapOptionSize1 at hsmall
    rw [encodeOptions, List.append_assoc] at hm hshort hfits
    simp only [List.length_append] at hshort hfits
    obtain ⟨hheader, hrest⟩ := Memory.read_append_inj hm
    obtain ⟨hvalue, hrest'⟩ := Memory.read_append_inj hrest
    obtain ⟨hread, hmarker⟩ := readHeader_coapSetOptionHeader (by omega) (by omega) hheader
    have hsum : s.optionNumber + (number - s.optionNumber) = number := by omega
    have hpos : 0 < (coapSetOptionHeader (number - s.optionNumber) value.length).length :=
      Nat.succ_pos _
    obtain ⟨s₁, hround, hcur, hnum, hunread, hlaid, hview⟩ := round_view cfg
      dataLen h hmarker hread (by omega) (by rwa [hsum])
    rw [hsum] at hnum hview
    rw [hvalue] at hview
    obtain ⟨fuel, rfl⟩ : ∃ k, fuel = k + 1 := ⟨fuel - 1, by omega⟩
    have hmem : s₁.mem.read s₁.currentOption (encodeOptions s₁.optionNumber xs).length =
        encodeOptions s₁.optionNumber xs := by
      rw [hnum, ← hrest', hcur, Memory.length_read]
      apply Memory.read_congr
      intro i hi _
      exact hunread i hi
    obtain ⟨s', fuel', hloop, hfuel', hcur', hunread', hlaid', hview'⟩ := @ih s₁ fuel
      hlaid (by rwa [hnum]) (fun y hy => hnumber y (List.mem_cons_of_mem _ hy)) hmem
      (by rw [hnum]; omega) (by rw [hnum, hcur]; omega) (by rw [hcur]; omega)
    refine ⟨s', fuel', ?_, hfuel', ?_, ?_, hlaid', ?_⟩
    · rw [parseLoop_succ (by omega), hround]
      exact hloop
    · rw [hcur', hcur, hnum, encodeOptions, List.length_append, List.length_append]
      omega
    · intro i hi
      rw [hunread' i hi, hunread i (by omega)]
    · rw [hview', hview, List.foldl_cons]

end

/-! ## Result -/

/-- The packets that are meant for the serializer, without proxy options. -/
structure Valid (cfg : Config) (pkt : CoapPacket CString) : Prop where
  code : pkt.code ≠ 0
  tokenLen : pkt.tokenLen ≤ 8
  options : ∀ n, pkt.options n = true →
    ∃ o : CoapOption, o.number = n ∧ o ≠ .string .proxyUri ∧ o ≠ .string .proxyScheme
  ints : ∀ i, (pkt.ints i).toNat < 2 ^ i.bits
  bytes : ∀ b, pkt.options (CoapOption.bytes b).number = true → (pkt.bytes b).len ≤ 8
  blocks : ∀ b, pkt.options (CoapOption.block b).number = true →
    BlockSize (pkt.blocks b).size ∧ (pkt.blocks b).num.toNat < 1048576 ∧
    (pkt.blocks b).offset.toNat = (pkt.blocks b).num.toNat * (pkt.blocks b).size.toNat
  strings : ∀ s, pkt.options (CoapOption.string s).number = true → s.splitter ≠ 0 →
    Trimmed s.splitter (pkt.strings s).bytes (pkt.strings s).len
  ifNoneMatch : pkt.options CoapOption.ifNoneMatch.number = true → pkt.ifNoneMatch = 1
  payload : pkt.payload.len ≤ cfg.restMaxChunkSize

/-- A packet has the value of an option, in which `more` is a flag. -/
def Says (pkt : CoapPacket CString) (v : CoapPacket (List UInt8)) : CoapOption → Prop
  | .int i => v.ints i = pkt.ints i
  | .block b => v.blocks b = (pkt.blocks b).flagged
  | .bytes b => (v.bytes b).len = (pkt.bytes b).len ∧
      ∀ i < (pkt.bytes b).len.toNat, (v.bytes b).array i = (pkt.bytes b).array i
  | .ifNoneMatch => v.ifNoneMatch = pkt.ifNoneMatch
  | .string s => v.strings s = (pkt.strings s).bytes.read 0 (pkt.strings s).len

/-- The parsed packet is the serialized one. -/
structure Same (pkt : CoapPacket CString) (v : CoapPacket (List UInt8)) : Prop where
  type : v.type = pkt.type
  code : v.code = pkt.code
  mid : v.mid = pkt.mid
  tokenLen : v.tokenLen = pkt.tokenLen
  token : ∀ i < pkt.tokenLen.toNat, v.token i = pkt.token i
  options : ∀ n, v.options n = pkt.options n
  values : ∀ o, pkt.options o.number = true → Says pkt v o
  payload : v.payload = pkt.payload.bytes.read 0 pkt.payload.len

section

variable {cfg : Config} {pkt : CoapPacket CString} {v : CoapPacket (List UInt8)} {o o' : CoapOption}
  {value : List UInt8} {x : ℕ × List UInt8} {xs : List (ℕ × List UInt8)}

theorem ofNumber_of (o : CoapOption) : ofNumber o.number = some o := by
  cases o with
  | int i => cases i <;> rfl
  | bytes b => cases b <;> rfl
  | block b => cases b <;> rfl
  | string s => cases s <;> rfl
  | ifNoneMatch => rfl

theorem mem_coapOptions (o : CoapOption) : o ∈ coapOptions :=
  List.mem_of_find?_eq_some (ofNumber_of o)

/-- What an option says leaves the values of the others. -/
theorem says_absorbValue (hne : o ≠ o') :
    Says pkt (absorbValue v o' value) o ↔ Says pkt v o := by
  cases o' with
  | int i =>
    cases o with
    | int i' =>
      have hi : i' ≠ i := fun h => hne (h ▸ rfl)
      simp only [Says, absorbValue, Function.update_of_ne hi]
    | _ => rfl
  | block b =>
    cases o with
    | block b' =>
      have hb : b' ≠ b := fun h => hne (h ▸ rfl)
      simp only [Says, absorbValue, Function.update_of_ne hb]
    | _ => rfl
  | bytes b =>
    cases o with
    | bytes b' =>
      have hb : b' ≠ b := fun h => hne (h ▸ rfl)
      simp only [Says, absorbValue, Function.update_of_ne hb]
    | _ => rfl
  | ifNoneMatch =>
    cases o with
    | ifNoneMatch => exact absurd rfl hne
    | _ => rfl
  | string s =>
    cases o with
    | string s' =>
      have hs : s' ≠ s := fun h => hne (h ▸ rfl)
      cases s <;> simp only [Says, absorbValue, Function.update_of_ne hs]
    | _ => cases s <;> rfl

/-- A value is taken up by the option with its number. -/
theorem absorb_number (v : CoapPacket (List UInt8)) (o : CoapOption) (value : List UInt8) :
    absorb v (o.number, value) = absorbValue (v.setOption o.number) o value := by
  rw [absorb]
  dsimp only
  rw [ofNumber_of]

/-- An option is not changed by the values of another. -/
theorem strings_absorbValue {s : StringOption} (hne : .string s ≠ o') :
    (absorbValue v o' value).strings s = v.strings s := by
  cases o' with
  | string s' =>
    have hs : s ≠ s' := fun h => hne (h ▸ rfl)
    cases s' <;> simp only [absorbValue, Function.update_of_ne hs]
  | _ => rfl

/-- The values of an option, one after another. -/
def absorbAll (v : CoapPacket (List UInt8)) (o : CoapOption) (vs : List (List UInt8)) :
    CoapPacket (List UInt8) :=
  (vs.map (o.number, ·)).foldl absorb v

theorem absorbAll_cons (v : CoapPacket (List UInt8)) (o : CoapOption) (value : List UInt8)
    (vs : List (List UInt8)) : absorbAll v o (value :: vs) =
      absorbAll (absorbValue (v.setOption o.number) o value) o vs := by
  rw [absorbAll, List.map_cons, List.foldl_cons, absorb_number]
  rfl

/-- Nor is what it says. -/
theorem says_absorbAll (hne : o ≠ o') (vs : List (List UInt8)) :
    Says pkt (absorbAll v o' vs) o ↔ Says pkt v o := by
  induction vs generalizing v with
  | nil => rfl
  | cons value vs ih =>
    rw [absorbAll_cons, ih, says_absorbValue hne]
    cases o <;> rfl

theorem strings_absorbAll {s : StringOption} (hne : .string s ≠ o') (vs : List (List UInt8)) :
    (absorbAll v o' vs).strings s = v.strings s := by
  induction vs generalizing v with
  | nil => rfl
  | cons value vs ih =>
    rw [absorbAll_cons, ih, strings_absorbValue hne]
    rfl

/-- The segments of a path or a query are joined. -/
theorem absorbAll_segments {s : StringOption} (hs : s.splitter ≠ 0) (vs : List (List UInt8)) :
    (absorbAll v (.string s) vs).strings s = vs.foldl (joined s.splitter) (v.strings s) := by
  induction vs generalizing v with
  | nil => rfl
  | cons value vs ih =>
    have hvalue : (absorbValue (v.setOption (CoapOption.string s).number) (.string s) value).strings
        s = joined s.splitter (v.strings s) value := by
      cases s with
      | uriHost => exact absurd rfl hs
      | proxyUri => exact absurd rfl hs
      | proxyScheme => exact absurd rfl hs
      | _ =>
        simp only [absorbValue, Function.update_self]
        rfl
    rw [absorbAll_cons, ih, hvalue, List.foldl_cons]

/-- The segments of a string, joined again, are the string. -/
theorem segments_joined (hv : Valid cfg pkt) {s : StringOption}
    (hset : pkt.options (CoapOption.string s).number = true) (hs : s.splitter ≠ 0) :
    segments (pkt.strings s).bytes (pkt.strings s).len s.splitter ((pkt.strings s).len + 3) 0 0 ≠ [] ∧
      (segments (pkt.strings s).bytes (pkt.strings s).len s.splitter ((pkt.strings s).len + 3) 0
        0).foldl (joined s.splitter) [] = (pkt.strings s).bytes.read 0 (pkt.strings s).len :=
  joined_segments (hv.strings s hset hs) ⟨le_rfl, Nat.zero_le _, .inl ⟨rfl, rfl⟩⟩ (by omega)

/-- A valid packet has no proxy options. -/
theorem Valid.not_proxy (hv : Valid cfg pkt) (hset : pkt.options o.number = true) :
    o ≠ .string .proxyUri ∧ o ≠ .string .proxyScheme := by
  obtain ⟨o', hnumber, huri, hscheme⟩ := hv.options _ hset
  have hsame : some o' = some o := by rw [← ofNumber_of, hnumber, ofNumber_of]
  obtain rfl := Option.some.inj hsame
  exact ⟨huri, hscheme⟩

/-- An option that is set has a value. -/
theorem values_ne_nil (hv : Valid cfg pkt) (hset : pkt.options o.number = true) :
    values pkt o ≠ [] := by
  cases o with
  | string s =>
    rw [values]
    split
    · rename_i hs
      exact (segments_joined hv hset hs).1
    · simp
  | _ => simp [values]

/-- A value that fits is not cut. -/
theorem truncate_of_lt {i : IntOption} {value : UInt32} (h : value.toNat < 2 ^ i.bits) :
    i.truncate value = value := by
  rw [IntOption.truncate, Nat.mod_eq_of_lt h, UInt32.ofNat_toNat]

/-- The values of an option say what the packet says. -/
theorem says_values (hv : Valid cfg pkt) (hset : pkt.options o.number = true)
    (hempty : ∀ s, o = .string s → v.strings s = []) :
    Says pkt (absorbAll v o (values pkt o)) o := by
  -- One case for each kind of option.
  cases o with
  | int i =>
    rw [values, absorbAll_cons]
    simp only [absorbAll, List.map_nil, List.foldl_nil, Says, absorbValue, Function.update_self]
    rw [coapParseIntOption_intBytes, truncate_of_lt (hv.ints i)]
  | block b =>
    obtain ⟨hsize, hnum, hoffset⟩ := hv.blocks b hset
    rw [values, absorbAll_cons]
    simp only [absorbAll, List.map_nil, List.foldl_nil, Says, absorbValue, Function.update_self]
    rw [coapParseIntOption_intBytes, decode_encode hsize hnum hoffset]
  | bytes b =>
    have hlen : (pkt.bytes b).len.toNat ≤ 8 := hv.bytes b hset
    rw [values, absorbAll_cons]
    simp only [absorbAll, List.map_nil, List.foldl_nil, Says, absorbValue, Function.update_self,
      Memory.length_read]
    rw [Nat.min_eq_right hlen, List.take_of_length_le (by simpa using hlen)]
    refine ⟨UInt8.ofNat_toNat, ?_⟩
    intro i hi
    rw [Memory.write, if_pos (Nat.zero_le _), Nat.sub_zero, Memory.getElem?_read hi, Nat.zero_add]
    rfl
  | ifNoneMatch => exact (hv.ifNoneMatch hset).symm
  | string s =>
    obtain ⟨huri, hscheme⟩ := hv.not_proxy hset
    by_cases hs : s.splitter = 0
    · rw [values, if_neg (not_not.mpr hs), absorbAll_cons]
      cases s with
      | uriHost =>
        simp only [absorbAll, List.map_nil, List.foldl_nil, Says, absorbValue,
          Function.update_self]
      | proxyUri => exact absurd rfl huri
      | proxyScheme => exact absurd rfl hscheme
      | _ => cases hs
    · rw [values, if_pos hs, Says, absorbAll_segments hs, hempty s rfl]
      exact (segments_joined hv hset hs).2

/-- The options are taken up one by one. -/
theorem foldl_optionValues (v : CoapPacket (List UInt8)) (o : CoapOption) (os : List CoapOption) :
    (optionValues pkt (o :: os)).foldl absorb v = (optionValues pkt os).foldl absorb
      (if pkt.options o.number then absorbAll v o (values pkt o) else v) := by
  rw [optionValues, List.flatMap_cons, List.foldl_append]
  split <;> rfl

/-- An option says what it said when it is not among the others. -/
theorem says_of_not_mem {os : List CoapOption} (ho : o ∉ os) :
    Says pkt ((optionValues pkt os).foldl absorb v) o ↔ Says pkt v o := by
  induction os generalizing v with
  | nil => rfl
  | cons o' os ih =>
    have hne : o ≠ o' := fun h => ho (h ▸ List.mem_cons_self)
    have hos : o ∉ os := fun h => ho (List.mem_cons_of_mem _ h)
    rw [foldl_optionValues, ih hos]
    split
    · exact says_absorbAll hne _
    · rfl

/-- What all values of a packet say. -/
theorem says_optionValues (hv : Valid cfg pkt) {os : List CoapOption} (hnodup : os.Nodup)
    (hempty : ∀ s, .string s ∈ os → v.strings s = []) (ho : o ∈ os)
    (hset : pkt.options o.number = true) :
    Says pkt ((optionValues pkt os).foldl absorb v) o := by
  induction os generalizing v with
  | nil => cases ho
  | cons o' os ih =>
    obtain ⟨hnot, hnodup⟩ := List.nodup_cons.mp hnodup
    rw [foldl_optionValues]
    rcases List.mem_cons.mp ho with rfl | hmem
    · rw [if_pos hset, says_of_not_mem hnot]
      exact says_values hv hset fun s hs => hempty s (hs ▸ List.mem_cons_self)
    · apply ih hnodup _ hmem
      intro s hs
      have hold := hempty s (List.mem_cons_of_mem _ hs)
      have hne : CoapOption.string s ≠ o' := by
        rintro rfl
        exact hnot hs
      split
      · rw [strings_absorbAll hne]
        exact hold
      · exact hold

/-- The fields of a packet that no option changes. -/
structure SameHeader (v w : CoapPacket (List UInt8)) : Prop where
  type : v.type = w.type
  code : v.code = w.code
  mid : v.mid = w.mid
  tokenLen : v.tokenLen = w.tokenLen
  token : v.token = w.token

/-- Options leave the header as it is. -/
theorem sameHeader_absorb (v : CoapPacket (List UInt8)) (x : ℕ × List UInt8) :
    SameHeader (absorb v x) v := by
  unfold absorb
  split
  · rename_i o _
    cases o with
    | string s => cases s <;> exact ⟨rfl, rfl, rfl, rfl, rfl⟩
    | _ => exact ⟨rfl, rfl, rfl, rfl, rfl⟩
  · exact ⟨rfl, rfl, rfl, rfl, rfl⟩

theorem sameHeader_foldl (v : CoapPacket (List UInt8)) (xs : List (ℕ × List UInt8)) :
    SameHeader (xs.foldl absorb v) v := by
  induction xs generalizing v with
  | nil => exact ⟨rfl, rfl, rfl, rfl, rfl⟩
  | cons x xs ih =>
    have hx := sameHeader_absorb v x
    have hxs := ih (absorb v x)
    exact ⟨hxs.type.trans hx.type, hxs.code.trans hx.code, hxs.mid.trans hx.mid,
      hxs.tokenLen.trans hx.tokenLen, hxs.token.trans hx.token⟩

/-- A value sets the flag of its option. -/
theorem options_absorb (v : CoapPacket (List UInt8)) (x : ℕ × List UInt8) (n : ℕ) :
    (absorb v x).options n = if n = x.1 then true else v.options n := by
  unfold absorb
  split
  · rename_i o _
    cases o with
    | string s => cases s <;> rfl
    | _ => rfl
  · rfl

/-- The flags behind a list of values. -/
theorem options_foldl (v : CoapPacket (List UInt8)) (xs : List (ℕ × List UInt8)) (n : ℕ) :
    (xs.foldl absorb v).options n = true ↔ v.options n = true ∨ ∃ x ∈ xs, x.1 = n := by
  induction xs generalizing v with
  | nil => simp
  | cons x xs ih =>
    rw [List.foldl_cons, ih, options_absorb, List.exists_mem_cons_iff]
    split
    · rename_i h
      simp [h]
    · rename_i h
      simp [Ne.symm h]

/-- A value belongs to an option that is set. -/
theorem mem_optionValues {os : List CoapOption} (h : x ∈ optionValues pkt os) :
    ∃ o ∈ os, pkt.options o.number = true ∧ x.1 = o.number := by
  obtain ⟨o, ho, hx⟩ := List.mem_flatMap.mp h
  split at hx
  · rename_i hset
    obtain ⟨value, -, rfl⟩ := List.mem_map.mp hx
    exact ⟨o, ho, hset, rfl⟩
  · cases hx

/-- An option that is set has a value in the list. -/
theorem number_mem_optionValues (hv : Valid cfg pkt) (hset : pkt.options o.number = true) :
    ∃ x ∈ optionValues pkt coapOptions, x.1 = o.number := by
  obtain ⟨value, hvalue⟩ := List.exists_mem_of_ne_nil _ (values_ne_nil hv hset)
  refine ⟨(o.number, value), ?_, rfl⟩
  rw [optionValues, List.mem_flatMap]
  refine ⟨o, mem_coapOptions o, ?_⟩
  rw [if_pos hset]
  exact List.mem_map_of_mem hvalue

theorem number_le (o : CoapOption) : o.number ≤ coapOptionSize1 := by
  have hall : ∀ o ∈ coapOptions, o.number ≤ coapOptionSize1 := by decide
  exact hall o (mem_coapOptions o)

/-- No value of a valid packet is refused. -/
theorem not_refused_of_mem (hv : Valid cfg pkt) (h : x ∈ optionValues pkt coapOptions) :
    ¬ Refused x.1 := by
  obtain ⟨o, -, hset, hx⟩ := mem_optionValues h
  obtain ⟨huri, hscheme⟩ := hv.not_proxy hset
  rw [hx]
  rintro (hlarge | huri' | hscheme' | ⟨hnone, -⟩)
  · exact absurd (number_le o) (Nat.not_le.mpr hlarge)
  · rw [ofNumber_of] at huri'
    exact huri (Option.some.inj huri')
  · rw [ofNumber_of] at hscheme'
    exact hscheme (Option.some.inj hscheme')
  · rw [ofNumber_of] at hnone
    cases hnone

theorem Ascending.mono {n n' : ℕ} (h : Ascending n' xs) (hle : n ≤ n') : Ascending n xs := by
  cases xs with
  | nil => trivial
  | cons x xs => exact ⟨hle.trans h.1, h.2⟩

/-- The values of one option, and those of higher numbers behind them. -/
theorem ascending_append {n n' : ℕ} (hle : n ≤ n') (h : Ascending n' xs) (vs : List (List UInt8)) :
    Ascending n (vs.map (n', ·) ++ xs) := by
  induction vs generalizing n with
  | nil => exact h.mono hle
  | cons value vs ih => exact ⟨hle, ih le_rfl⟩

/-- The options are serialized in the order of their numbers. -/
theorem ascending_optionValues {os : List CoapOption} {n : ℕ}
    (hos : os.Pairwise fun o o' => o.number ≤ o'.number) (hn : ∀ o ∈ os, n ≤ o.number) :
    Ascending n (optionValues pkt os) := by
  induction os generalizing n with
  | nil => trivial
  | cons o os ih =>
    obtain ⟨hfirst, hrest⟩ := List.pairwise_cons.mp hos
    rw [optionValues, List.flatMap_cons]
    have htail := ih hrest hfirst
    have hle := hn o List.mem_cons_self
    split
    · exact ascending_append hle htail _
    · exact htail.mono hle

/-- The four bytes of a header. -/
def headerBytes (pkt : CoapPacket CString) : List UInt8 :=
  [serializeFirst pkt, pkt.code, (pkt.mid >>> 8).toUInt8, pkt.mid.toUInt8]

/-- What the serializer writes. -/
theorem serialize_eq (hv : Valid cfg pkt) {bs : List UInt8}
    (h : coapSerializeMessage cfg pkt = .ok bs) :
    bs = headerBytes pkt ++ (pkt.token.read 0 pkt.tokenLen.toNat ++
        (encodeOptions 0 (optionValues pkt coapOptions) ++
          ((if pkt.payload.len ≠ 0 then [0xff] else []) ++
            pkt.payload.bytes.read 0 pkt.payload.len))) ∧
      4 + pkt.tokenLen.toNat + (encodeOptions 0 (optionValues pkt coapOptions)).length ≤
        cfg.maxHeaderSize := by
  rw [coapSerializeMessage, if_neg hv.code,
    serializeOptions_eq pkt fun o _ hset => values_ne_nil hv hset] at h
  dsimp only at h
  split at h
  · rename_i hshort
    have hlen : (headerBytes pkt).length = 4 := rfl
    refine ⟨?_, ?_⟩
    · rw [← Except.ok.inj h]
      simp only [headerBytes, List.append_assoc]
    · simp only [List.length_append, Memory.length_read] at hshort
      exact hshort
  · cases h

/-- Version, type and token length are parsed back from the first byte. -/
theorem first_byte : ∀ (t : MessageType) (k : Fin 9),
    (0xc0 : UInt8) &&& ((0xc0 : UInt8) &&& (1 : UInt8) <<< 6 ||| (0x30 : UInt8) &&& t.toByte <<< 4 |||
      (0x0f : UInt8) &&& UInt8.ofNat k) = 0x40 ∧
    MessageType.ofByte (((0x30 : UInt8) &&& ((0xc0 : UInt8) &&& (1 : UInt8) <<< 6 |||
      (0x30 : UInt8) &&& t.toByte <<< 4 ||| (0x0f : UInt8) &&& UInt8.ofNat k)) >>> 4) = t ∧
    (0x0f : UInt8) &&& ((0xc0 : UInt8) &&& (1 : UInt8) <<< 6 ||| (0x30 : UInt8) &&& t.toByte <<< 4 |||
      (0x0f : UInt8) &&& UInt8.ofNat k) = UInt8.ofNat k := by
  intro t
  cases t <;> decide

/-- The message identifier is parsed back from its two bytes. -/
theorem mid_bytes (mid : UInt16) :
    (mid >>> 8).toUInt8.toUInt16 <<< 8 ||| mid.toUInt8.toUInt16 = mid := by
  have hmid := mid.toNat_lt
  have hhigh : (mid >>> 8).toUInt8.toNat = mid.toNat / 256 := by
    have hshift : (mid >>> 8).toUInt8.toNat = mid.toNat >>> 8 % 256 := rfl
    rw [hshift, Nat.shiftRight_eq_div_pow]
    omega
  have hlow : mid.toUInt8.toNat = mid.toNat % 256 := UInt16.toNat_toUInt8 mid
  have hshift : ((mid >>> 8).toUInt8.toUInt16 <<< 8).toNat = (mid.toNat / 256) <<< 8 := by
    have hleft : ((mid >>> 8).toUInt8.toUInt16 <<< 8).toNat =
        (mid >>> 8).toUInt8.toNat <<< 8 % 65536 := rfl
    rw [hleft, hhigh, Nat.shiftLeft_eq]
    omega
  apply UInt16.toNat_inj.mp
  rw [UInt16.toNat_or, hshift, UInt8.toNat_toUInt16, hlow,
    ← Nat.shiftLeft_add_eq_or_of_lt (Nat.mod_lt _ (by decide)), Nat.shiftLeft_eq]
  omega

/-- The header is read as it was written. -/
theorem parseHeader_eq (hv : Valid cfg pkt) {m : Memory} (hm : m.read 0 4 = headerBytes pkt) :
    (parseHeader m).version = 1 ∧ (parseHeader m).type = pkt.type ∧
      (parseHeader m).tokenLen = pkt.tokenLen ∧ (parseHeader m).code = pkt.code ∧
      (parseHeader m).mid = pkt.mid := by
  have hbytes : [m 0, m 1, m 2, m 3] = headerBytes pkt := hm
  simp only [headerBytes, List.cons.injEq, and_true] at hbytes
  obtain ⟨hfirst, hcode, hhigh, hlow⟩ := hbytes
  have htoken : pkt.tokenLen.toNat ≤ 8 := hv.tokenLen
  obtain ⟨hversion, htype, hlen⟩ := first_byte pkt.type ⟨pkt.tokenLen.toNat, by omega⟩
  rw [UInt8.ofNat_toNat] at hversion htype hlen
  refine ⟨?_, ?_, ?_, hcode, ?_⟩
  · simp only [parseHeader, hfirst, serializeFirst, hversion]
    decide
  · simp only [parseHeader, hfirst, serializeFirst, htype]
  · simp only [parseHeader, hfirst, serializeFirst, hlen]
  · simp only [parseHeader, hhigh, hlow, mid_bytes]

/-- The parser in front of the options, where no string was found. -/
theorem start_view (hv : Valid cfg pkt) {m : Memory} (hm : m.read 0 4 = headerBytes pkt)
    (htoken : m.read 4 pkt.tokenLen.toNat = pkt.token.read 0 pkt.tokenLen.toNat) :
    (Parser.start m).currentOption = 4 + pkt.tokenLen.toNat ∧
      Laid (Parser.start m).pkt 0 (4 + pkt.tokenLen.toNat) ∧
      (Parser.start m).view.type = pkt.type ∧ (Parser.start m).view.code = pkt.code ∧
      (Parser.start m).view.mid = pkt.mid ∧ (Parser.start m).view.tokenLen = pkt.tokenLen ∧
      ∀ i < pkt.tokenLen.toNat, (Parser.start m).view.token i = pkt.token i := by
  obtain ⟨-, htype, hlen, hcode, hmid⟩ := parseHeader_eq hv hm
  refine ⟨?_, ⟨fun _ => Nat.zero_le _, fun _ _ => rfl, ?_, rfl⟩, htype, hcode, hmid, hlen, ?_⟩
  · rw [← hlen]
    rfl
  · intro o o' _ _ hpos
    exact absurd hpos (Nat.lt_irrefl 0)
  · intro i hi
    have hcopy : (Parser.start m).view.token =
        Memory.write (fun _ => 0) 0 (m.read 4 (parseHeader m).tokenLen.toNat) := rfl
    rw [hcopy, hlen, htoken, Memory.write, if_pos (Nat.zero_le _), Nat.sub_zero,
      Memory.getElem?_read hi, Nat.zero_add]
    rfl

/-- The packet that the options of a packet make of an empty one. -/
theorem same_foldl (hv : Valid cfg pkt) (htype : v.type = pkt.type) (hcode : v.code = pkt.code)
    (hmid : v.mid = pkt.mid) (hlen : v.tokenLen = pkt.tokenLen)
    (htoken : ∀ i < pkt.tokenLen.toNat, v.token i = pkt.token i)
    (hoptions : ∀ n, v.options n = false) (hstrings : ∀ s, v.strings s = []) :
    Same pkt { (optionValues pkt coapOptions).foldl absorb v with
      payload := pkt.payload.bytes.read 0 pkt.payload.len } := by
  have hheader := sameHeader_foldl v (optionValues pkt coapOptions)
  refine ⟨hheader.type.trans htype, hheader.code.trans hcode, hheader.mid.trans hmid,
    hheader.tokenLen.trans hlen, ?_, ?_, ?_, rfl⟩
  · intro i hi
    exact (congrFun hheader.token i).trans (htoken i hi)
  · intro n
    apply Bool.eq_iff_iff.mpr
    refine (options_foldl v _ n).trans ?_
    constructor
    · rintro (hset | ⟨x, hx, rfl⟩)
      · rw [hoptions] at hset
        cases hset
      · obtain ⟨o, -, hset, hnumber⟩ := mem_optionValues hx
        rwa [hnumber]
    · intro hset
      obtain ⟨o, rfl, -⟩ := hv.options n hset
      exact .inr (number_mem_optionValues hv hset)
  · intro o hset
    have hsays := says_optionValues (v := v) hv (show coapOptions.Nodup by decide)
      (fun s _ => hstrings s) (mem_coapOptions o) hset
    cases o <;> exact hsays

/-- The zero behind a payload leaves the strings. -/
theorem parsePayload_view {s : Parser} {dataLen : ℕ} {payload : List UInt8}
    (h : EndBy s.pkt s.currentOption) (hlen : dataLen = s.currentOption + 1 + payload.length)
    (hm : s.mem.read (s.currentOption + 1) payload.length = payload)
    (hshort : payload.length ≤ cfg.restMaxChunkSize) :
    (s.parsePayload cfg dataLen).view = { s.view with payload := payload } := by
  have hmin : min (dataLen - (s.currentOption + 1)) cfg.restMaxChunkSize = payload.length := by
    omega
  have hstrings : ∀ o, (s.mem.write (s.currentOption + 1 + payload.length) [0]).read
      (s.pkt.strings o).start (s.pkt.strings o).len =
        s.mem.read (s.pkt.strings o).start (s.pkt.strings o).len := by
    intro o
    have hend := h o
    exact Memory.read_write_below (by omega)
  have hpayload : (s.mem.write (s.currentOption + 1 + payload.length) [0]).read
      (s.currentOption + 1) payload.length = payload := by
    rw [Memory.read_write_below le_rfl, hm]
  simp only [Parser.parsePayload, Parser.view, hmin, hstrings, hpayload]

/-- The payload behind its marker. -/
def payloadBytes (payload : List UInt8) : List UInt8 :=
  (if payload.length ≠ 0 then [0xff] else []) ++ payload

variable (cfg) in
/-- Behind the options, the payload ends the message. -/
theorem parseLoop_rest {s : Parser} {dataLen fuel : ℕ} (payload : List UInt8)
    (h : Laid s.pkt s.optionNumber s.currentOption) (hfuel : dataLen < s.currentOption + fuel)
    (hlen : dataLen = s.currentOption + (payloadBytes payload).length)
    (hm : s.mem.read s.currentOption (payloadBytes payload).length = payloadBytes payload)
    (hshort : payload.length ≤ cfg.restMaxChunkSize) :
    ∃ r, parseLoop cfg dataLen fuel s = some r ∧ r.status = .noError ∧
      r.parser.view = { s.view with payload := payload } := by
  obtain ⟨fuel, rfl⟩ : ∃ k, fuel = k + 1 := ⟨fuel - 1, by omega⟩
  unfold payloadBytes at hlen hm
  by_cases hempty : payload.length = 0
  · obtain rfl := List.eq_nil_of_length_eq_zero hempty
    refine ⟨_, parseLoop_end ?_, rfl, ?_⟩
    · rw [hlen]
      exact Nat.lt_irrefl _
    · simp only [Parser.view, h.payload]
      rfl
  · rw [if_pos hempty, List.singleton_append, List.length_cons] at hlen hm
    rw [read_succ] at hm
    obtain ⟨hfirst, hrest⟩ := List.cons.inj hm
    have hmarker : Marker (s.mem s.currentOption) := by
      rw [hfirst, Marker]
      decide
    refine ⟨_, parseLoop_payload (by omega) hmarker, rfl, ?_⟩
    exact parsePayload_view h.endBy (by omega) hrest hshort

/-- Every packet that is serialized is parsed as it was, with `more` as a flag. -/
theorem parse_serialize (hv : Valid cfg pkt) {bs : List UInt8}
    (h : coapSerializeMessage cfg pkt = .ok bs) {m : Memory} (hm : m.read 0 bs.length = bs) :
    bs.length < 65536 ∧ ∃ r, coapParseMessage cfg m bs.length = some r ∧ r.status = .noError ∧
      Same pkt r.parser.view := by
  -- What was serialised is the header, the token, the options and the payload.
  obtain ⟨hbs, hmax⟩ := serialize_eq hv h
  have hfits := cfg.fits
  have hpayload := hv.payload
  have hmarked : (if pkt.payload.len ≠ 0 then [0xff] else []) ++
      pkt.payload.bytes.read 0 pkt.payload.len =
        payloadBytes (pkt.payload.bytes.read 0 pkt.payload.len) := by
    rw [payloadBytes, Memory.length_read]
  have hmarkedLen : (payloadBytes (pkt.payload.bytes.read 0 pkt.payload.len)).length ≤
      1 + pkt.payload.len := by
    rw [payloadBytes, List.length_append, Memory.length_read]
    split <;> simp
  rw [hmarked] at hbs
  -- The options are read back by their loop, the payload by what follows it.
  generalize hxs : optionValues pkt coapOptions = xs at hbs hmax
  generalize hrest : payloadBytes (pkt.payload.bytes.read 0 pkt.payload.len) = rest at hbs hmarkedLen
  have hlen : bs.length = 4 + pkt.tokenLen.toNat + (encodeOptions 0 xs).length + rest.length := by
    rw [hbs]
    simp only [List.length_append, Memory.length_read]
    have hfour : (headerBytes pkt).length = 4 := rfl
    omega
  refine ⟨by omega, ?_⟩
  rw [hbs] at hm
  obtain ⟨hheader, htail⟩ := Memory.read_append_inj hm
  obtain ⟨htoken, htail'⟩ := Memory.read_append_inj htail
  obtain ⟨hoptions, hmarker⟩ := Memory.read_append_inj htail'
  have hfour : (headerBytes pkt).length = 4 := rfl
  rw [Memory.length_read, hfour, Nat.zero_add] at htoken hoptions hmarker
  obtain ⟨hversion, -, htokenLen, -, -⟩ := parseHeader_eq hv hheader
  obtain ⟨hcur, hlaid, htype, hcode, hmid, htkl, htok⟩ := start_view hv hheader htoken
  have hparse : coapParseMessage cfg m bs.length =
      parseLoop cfg bs.length (bs.length + 1) (.start m) := by
    rw [coapParseMessage]
    exact (if_neg (not_not.mpr hversion)).trans
      (if_neg (UInt8.not_lt.mpr (htokenLen ▸ hv.tokenLen)))
  obtain ⟨s, fuel, hloop, hfuel, hcur', hunread, hlaid', hview⟩ := parseLoop_options cfg
    bs.length (bs.length + 1) (s := Parser.start m) (hcur ▸ hlaid)
    (hxs ▸ ascending_optionValues (by decide) fun _ _ => Nat.zero_le _)
    (fun x hx => not_refused_of_mem hv (hxs ▸ hx)) (by rw [hcur]; exact hoptions)
    (by change (encodeOptions 0 xs).length < _; omega)
    (by rw [hcur, hlen]; exact Nat.le_add_right _ _) (by omega)
  have hend : s.currentOption = 4 + pkt.tokenLen.toNat + (encodeOptions 0 xs).length := by
    rw [hcur', hcur]
    rfl
  have hmem : s.mem.read s.currentOption rest.length = rest := by
    rw [← hend] at hmarker
    refine Eq.trans (Memory.read_congr ?_) hmarker
    intro i hi _
    exact hunread i hi
  obtain ⟨r, hrun, hstatus, hr⟩ := parseLoop_rest cfg
    (pkt.payload.bytes.read 0 pkt.payload.len) hlaid' hfuel
    (by rw [hrest, hend, hlen]) (by rw [hrest]; exact hmem)
    (by rw [Memory.length_read]; exact hpayload)
  refine ⟨r, by rw [hparse, hloop, hrun], hstatus, ?_⟩
  rw [hr, hview, ← hxs]
  exact same_foldl hv htype hcode hmid htkl htok (fun _ => rfl) fun _ => rfl

/-- A request with a path of two segments and a block. -/
def getPacket (more : UInt8) : CoapPacket CString where
  version := 1
  type := .non
  code := 1
  mid := 0x1234
  tokenLen := 2
  token := fun i => UInt8.ofNat (i + 65)
  options := fun n => n == 11 || n == 27
  ints := fun _ => 0
  bytes := fun _ => ⟨0, fun _ => 0⟩
  blocks := fun _ => ⟨5, more, 64, 320⟩
  strings := fun _ => ⟨fun i => if i = 1 then 0x2f else 0x61, 3⟩
  ifNoneMatch := 0
  payload := ⟨fun _ => 0x68, 2⟩

/-- The bytes of the request. -/
def getBytes : List UInt8 :=
  [0x52, 0x01, 0x12, 0x34, 65, 66, 0xb1, 0x61, 0x01, 0x61, 0xd1, 0x03, 0x5a, 0xff, 0x68, 0x68]

/-- The packet of the example is valid. -/
theorem valid_getPacket (more : UInt8) : Valid Config.default (getPacket more) where
  code := show (1 : UInt8) ≠ 0 by decide
  tokenLen := show (2 : UInt8) ≤ 8 by decide
  options := by
    intro n hn
    rcases Bool.or_eq_true_iff.mp hn with h | h
    · exact ⟨.string .uriPath, (beq_iff_eq.mp h).symm, by decide, by decide⟩
    · exact ⟨.block .block1, (beq_iff_eq.mp h).symm, by decide, by decide⟩
  ints := fun i => Nat.two_pow_pos _
  bytes := fun b _ => show (0 : UInt8) ≤ 8 by decide
  blocks := fun b _ => ⟨⟨2, show (64 : UInt16) = 16 <<< UInt16.ofNat 2 by decide⟩, show 5 < 1048576 by decide, show 320 = 5 * 64 by decide⟩
  strings := by
    intro s hset hs i hi hsep
    cases s with
    | uriPath =>
      have hmiddle : i = 1 := by
        by_contra hne
        change (if i = 1 then (0x2f : UInt8) else 0x61) = 0x2f at hsep
        rw [if_neg hne] at hsep
        exact absurd hsep (by decide)
      change i < 3 at hi
      change 0 < i ∧ i + 1 < 3
      omega
    | _ => cases hset
  ifNoneMatch := nofun
  payload := show 2 ≤ 64 by decide

theorem parse_getPacket : ∃ r, coapParseMessage Config.default (fun i => getBytes.getD i 0)
    getBytes.length = some r ∧ r.status = .noError ∧ Same (getPacket 1) r.parser.view :=
  (parse_serialize (valid_getPacket 1) (show _ = Except.ok getBytes from rfl) (by decide)).2

/-- A flag of 2 arrives as 1. -/
theorem more_of_getPacket : Valid Config.default (getPacket 2) ∧
    coapSerializeMessage Config.default (getPacket 2) = .ok getBytes ∧
    ((coapParseMessage Config.default (fun i => getBytes.getD i 0) getBytes.length).map
      fun r => (r.parser.pkt.blocks .block1).more) ≠ some ((getPacket 2).blocks .block1).more :=
  ⟨valid_getPacket 2, rfl, by decide⟩

end

end MasterScheduler.Mote.Coap

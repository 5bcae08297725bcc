import MasterScheduler.Mote.ExtHeader
import MasterScheduler.Mote.RplNs
import Mathlib.Algebra.Order.Ring.Nat

/-!
# MasterScheduler.Mote.SourceRoute — packets from the root down the tree

The root of the network writes the path to a destination into a source routing header
(`insert_srh_header` of `rpl-ext-header.c`), as its graph has it. Every node on the path exchanges
the destination address for the next address in the header, until none is left.

1. **Model**: the header that the root inserts, and what a node does with the packet.
2. **Path**: the nodes between the root and a node, and how the loops follow them.
3. **Header**: what is in the packet when it leaves the root.
4. **Forwarding**: what a node on the path changes.
5. **Result**: `source_route_sound`. The packet follows the tree.

The packet has no extension headers before, and `uip_ext_len` is zero.
-/

namespace MasterScheduler.Mote.SourceRoute

open Lib Traced RplNs ExtHeader

/-! ## Model -/

/-- Some bytes of a number, the high one first. -/
def beBytes : ℕ → ℕ → List UInt8
  | 0, _ => []
  | w + 1, n => beBytes w (n / 256) ++ [UInt8.ofNat n]

/-- The root: its graph, `rpl_is_addr_in_our_dag`, and the room in `uip_buf` from the IPv6 header
on. -/
structure Root where
  config : RplNs.Config
  graph : RplNs.State
  inOurDag : List UInt8 → Bool
  bufSize : ℕ
  bufSize_lt : bufSize < 2 ^ 16

/-- The two halves of an address. -/
def ipaddr (addr : List UInt8) : Ipaddr :=
  ⟨BitVec.ofNat 64 (bigEndian (addr.take 8)), BitVec.ofNat 64 (bigEndian (addr.drop 8))⟩

/-- `count_matching_bytes`. -/
def countMatchingBytes : List UInt8 → List UInt8 → ℕ
  | a :: as, b :: bs => if a ≠ b then 0 else countMatchingBytes as bs + 1
  | _, _ => 0

namespace Root

variable (R : Root)

/-- `rpl_ns_get_node_global_addr`. -/
def globalAddr (l : ℕ) : List UInt8 :=
  beBytes 8 R.config.dagId.net.toNat ++ beBytes 8 (R.graph.node l).linkIdentifier.toNat

/-- The loop over the path, with `path_len` and `cmpri`. -/
def measurePath (rootNode : ℕ) (dest : List UInt8) : ℕ → Option ℕ → ℕ × ℕ → Option (ℕ × ℕ)
  | 0, _, _ => none
  | n + 1, node, (pathLen, cmpri) =>
    match node with
    | none => some (pathLen, cmpri)
    | some l =>
      if l = rootNode then some (pathLen, cmpri)
      else measurePath rootNode dest n (R.graph.parent l)
        ((pathLen + 1) % 256, min cmpri (countMatchingBytes (R.globalAddr l) dest))

/-- The loop that writes the addresses, with `hop_ptr`, and `node_addr` from the last round. -/
def writeHops (rootNode cmpri : ℕ) :
    ℕ → Option ℕ → ℕ → Memory → List UInt8 → Option (Memory × Option ℕ × List UInt8)
  | 0, _, _, _, _ => none
  | n + 1, node, hopPtr, buf, nodeAddr =>
    match node with
    | none => some (buf, none, nodeAddr)
    | some l =>
      if R.graph.parent l = some rootNode then some (buf, some l, nodeAddr)
      else
        writeHops rootNode cmpri n (R.graph.parent l) (hopPtr - (16 - cmpri))
          (buf.write (hopPtr - (16 - cmpri)) ((R.globalAddr l).drop cmpri)) (R.globalAddr l)

/-- The length of the extension header without padding, and the padding. -/
def headerLen (pathLen cmpri : ℕ) : ℕ × ℕ :=
  let extLen := (8 + ((pathLen : ℤ) - 1) * (16 - cmpri) + (16 - cmpri)).toNat % 256
  (extLen, if extLen % 8 = 0 then 0 else 8 - extLen % 8)

/-- The packet with room for the header, and the header in front of its addresses. -/
def openHeader (p : ExtHeader.Packet) (extLen padding pathLen cmpri : ℕ) : Memory :=
  let buf := Memory.move p.buf (40 + extLen) 40 (p.len - 40)
  let buf := buf.write 40 (List.replicate extLen 0)
  let buf := Function.update buf 40 (buf 6)
  let buf := Function.update buf 6 protoRouting
  let buf := Function.update buf 41 (UInt8.ofInt (((extLen : ℤ) - 8) / 8))
  let buf := Function.update buf 42 rhTypeSrh
  let buf := Function.update buf 43 (UInt8.ofNat pathLen)
  let buf := Function.update buf 44 (UInt8.ofNat (cmpri * 16 + cmpri))
  Function.update buf 45 (UInt8.ofNat (padding * 16))

/-- The length field of the IPv6 header is made larger. -/
def addLength (buf : Memory) (extLen : ℕ) : Memory :=
  let tempLen := buf 5
  let buf := Function.update buf 5 (buf 5 + UInt8.ofNat extLen)
  if buf 5 < tempLen then Function.update buf 4 (buf 4 + 1) else buf

/-- `insert_srh_header`, with the bound on the rounds of its loops: the packet, `uip_ext_len` and
what is returned. -/
def insertSrhHeader (p : ExtHeader.Packet) (n : ℕ) : Option (ExtHeader.Packet × ℕ × Bool) :=
  let dest := p.buf.read 24 16
  if R.inOurDag dest = false then some (p, 0, true)
  else
    match getNode R.config R.graph (some (ipaddr dest)) with
    | none => some (p, 0, true)
    | some destNode =>
      match getNode R.config R.graph (some R.config.dagId) with
      | none => some (p, 0, false)
      | some rootNode =>
        if isAddrReachable R.config R.graph (ipaddr dest) = false then some (p, 0, false)
        else do
          let (pathLen, cmpri) ← R.measurePath rootNode dest n (R.graph.parent destNode) (0, 15)
          let (len, padding) := headerLen pathLen cmpri
          let extLen := (len + padding) % 256
          if R.bufSize < p.len + extLen then some (p, 0, false)
          else do
            let buf := openHeader p extLen padding pathLen cmpri
            let (buf, node, nodeAddr) ←
              R.writeHops rootNode cmpri n (some destNode) (40 + extLen - padding) buf dest
            let nodeAddr := match node with
              | some l => R.globalAddr l
              | none => nodeAddr
            let buf := addLength (buf.write 24 nodeAddr) extLen
            some (⟨buf, (p.len + extLen) % 2 ^ 16, Nat.mod_lt _ (by decide)⟩, extLen, true)

end Root

/-- A packet on its way, and the destination addresses that it has had. -/
structure Trip where
  packet : ExtHeader.Packet
  visited : List (List UInt8)

/-- What `uip_process` does at the node that the packet is addressed to, with the bound on the
rounds of the loops, if the routing header has segments left. -/
def Trip.step (linkMtu : ℕ) (t : Trip) (n : ℕ) : Option Trip :=
  if t.packet.buf 43 = 0 then none
  else do
    let (p, updated) ← (srhUpdate t.packet n).value
    if updated = false then none
    else if linkMtu < p.len ∨ p.buf 7 ≤ 1 then none
    else
      some ⟨{ p with buf := Function.update p.buf 7 (p.buf 7 - 1) },
        t.visited ++ [p.buf.read 24 16]⟩

/-! ## Path -/

section Numbers

theorem length_beBytes (w n : ℕ) : (beBytes w n).length = w := by
  induction w generalizing n with
  | zero => rfl
  | succ w ih => rw [beBytes, List.length_append, ih, List.length_singleton]

/-- A byte is appended to a number. -/
theorem bigEndian_concat (bs : List UInt8) (b : UInt8) :
    bigEndian (bs ++ [b]) = 256 * bigEndian bs + b.toNat := by
  rw [bigEndian, List.foldl_append]
  rfl

theorem bigEndian_lt (bs : List UInt8) : bigEndian bs < 256 ^ bs.length := by
  induction bs using List.reverseRecOn with
  | nil => exact Nat.one_pos
  | append_singleton bs b ih =>
    have hb := b.toNat_lt
    rw [bigEndian_concat, List.length_append, List.length_singleton, pow_succ]
    omega

/-- A number is written as the bytes it was read from. -/
theorem beBytes_bigEndian (bs : List UInt8) : beBytes bs.length (bigEndian bs) = bs := by
  induction bs using List.reverseRecOn with
  | nil => rfl
  | append_singleton bs b ih =>
    have hb := b.toNat_lt
    have hdiv : (256 * bigEndian bs + b.toNat) / 256 = bigEndian bs := by omega
    have hlow : UInt8.ofNat (256 * bigEndian bs + b.toNat) = b := by
      apply UInt8.toNat_inj.mp
      rw [UInt8.toNat_ofNat']
      omega
    rw [List.length_append, List.length_singleton, beBytes, bigEndian_concat, hdiv, ih, hlow]

/-- And read as it was written. -/
theorem bigEndian_beBytes {w n : ℕ} (h : n < 256 ^ w) : bigEndian (beBytes w n) = n := by
  induction w generalizing n with
  | zero => exact (Nat.lt_one_iff.mp h).symm
  | succ w ih =>
    rw [pow_succ] at h
    rw [beBytes, bigEndian_concat, ih (Nat.div_lt_of_lt_mul (by omega)), UInt8.toNat_ofNat']
    omega

/-- Bytes that agree are counted. -/
theorem take_countMatchingBytes {as bs : List UInt8} {k : ℕ} (h : k ≤ countMatchingBytes as bs) :
    as.take k = bs.take k := by
  induction as generalizing bs k with
  | nil =>
    obtain rfl : k = 0 := Nat.le_zero.mp h
    rfl
  | cons a as ih =>
    cases bs with
    | nil =>
      obtain rfl : k = 0 := Nat.le_zero.mp h
      rfl
    | cons b bs =>
      rw [countMatchingBytes] at h
      split at h
      · obtain rfl : k = 0 := Nat.le_zero.mp h
        rfl
      · next heq =>
        cases k with
        | zero => rfl
        | succ k =>
          rw [List.take_succ_cons, List.take_succ_cons, not_not.mp heq,
            ih (Nat.le_of_succ_le_succ h)]

/-- A common prefix matches. -/
theorem le_countMatchingBytes_append (cs as bs : List UInt8) :
    cs.length ≤ countMatchingBytes (cs ++ as) (cs ++ bs) := by
  induction cs with
  | nil => exact Nat.zero_le _
  | cons c cs ih =>
    rw [List.cons_append, List.cons_append, countMatchingBytes, if_neg (not_not.mpr rfl)]
    exact Nat.succ_le_succ ih

end Numbers

section Addresses

variable {R : Root} {l x r : ℕ} {dest : List UInt8}

theorem length_globalAddr (l : ℕ) : (R.globalAddr l).length = 16 := by
  rw [Root.globalAddr, List.length_append, length_beBytes, length_beBytes]

/-- The node of an address has this address. -/
theorem globalAddr_getNode (hpool : Pool R.config R.graph) (hdest : dest.length = 16)
    (h : getNode R.config R.graph (some (ipaddr dest)) = some l) : R.globalAddr l = dest := by
  obtain ⟨-, hnet, hid⟩ := (getNode_eq_some hpool).mp h
  have hhalf : ∀ bs : List UInt8, bs.length = 8 →
      beBytes 8 (BitVec.ofNat 64 (bigEndian bs)).toNat = bs := by
    intro bs hbs
    have hlt := bigEndian_lt bs
    rw [hbs] at hlt
    rw [BitVec.toNat_ofNat, Nat.mod_eq_of_lt (hlt.trans_eq (by decide))]
    have hround := beBytes_bigEndian bs
    rwa [hbs] at hround
  rw [Root.globalAddr, ← hnet, ← hid, ipaddr, hhalf _ (by rw [List.length_take]; omega),
    hhalf _ (by rw [List.length_drop]; omega), List.take_append_drop]

/-- Two nodes have different addresses. -/
theorem globalAddr_inj (hpool : Pool R.config R.graph) (hl : l ∈ R.graph.nodelist)
    (hx : x ∈ R.graph.nodelist) (h : R.globalAddr l = R.globalAddr x) : l = x := by
  refine hpool.identifiers l hl x hx (BitVec.eq_of_toNat_eq ?_)
  have hbytes := (List.append_inj h rfl).2
  have hround : ∀ v : BitVec 64, bigEndian (beBytes 8 v.toNat) = v.toNat :=
    fun v => bigEndian_beBytes (v.isLt.trans_eq (by decide))
  rw [← hround, hbytes, hround]

/-- All nodes have the same network. -/
theorem le_countMatchingBytes (l x : ℕ) :
    8 ≤ countMatchingBytes (R.globalAddr l) (R.globalAddr x) := by
  have hle := le_countMatchingBytes_append (beBytes 8 R.config.dagId.net.toNat)
    (beBytes 8 (R.graph.node l).linkIdentifier.toNat)
    (beBytes 8 (R.graph.node x).linkIdentifier.toNat)
  rwa [length_beBytes] at hle

end Addresses

section Loops

variable {R : Root} {x r c n hopPtr : ℕ} {above : List ℕ} {dest nodeAddr : List UInt8}
  {buf : Memory}

/-- `cmpri` behind the loop over the path. -/
def compression (R : Root) (dest : List UInt8) (c : ℕ) (above : List ℕ) : ℕ :=
  above.foldl (fun c l => min c (countMatchingBytes (R.globalAddr l) dest)) c

/-- The compression is at most the bytes that all nodes share with the destination. -/
theorem compression_le {c : ℕ} {above : List ℕ} : compression R dest c above ≤ c ∧
    ∀ l ∈ above, compression R dest c above ≤ countMatchingBytes (R.globalAddr l) dest := by
  induction above generalizing c with
  | nil => exact ⟨le_rfl, fun l hl => absurd hl List.not_mem_nil⟩
  | cons y ys ih =>
    obtain ⟨hle, hall⟩ := ih (c := min c (countMatchingBytes (R.globalAddr y) dest))
    refine ⟨hle.trans (Nat.min_le_left _ _), fun l hl => ?_⟩
    rcases List.mem_cons.mp hl with rfl | hl
    · exact hle.trans (Nat.min_le_right _ _)
    · exact hall l hl

/-- It is as large as that allows. -/
theorem le_compression {k c : ℕ} {above : List ℕ} (hc : k ≤ c)
    (hall : ∀ l ∈ above, k ≤ countMatchingBytes (R.globalAddr l) dest) :
    k ≤ compression R dest c above := by
  induction above generalizing c with
  | nil => exact hc
  | cons y ys ih =>
    exact ih (Nat.le_min.mpr ⟨hc, hall y List.mem_cons_self⟩)
      fun l hl => hall l (List.mem_cons_of_mem y hl)

/-- The loop over the path counts its nodes and finds the compression. -/
theorem measurePath_eq (h : Ascent R.graph.parent r x above) (hn : above.length < n) {k : ℕ}
    (hk : k + above.length < 256) :
    R.measurePath r dest n (R.graph.parent x) (k, c) =
      some (k + above.length, compression R dest c above) := by
  induction above generalizing x n k c with
  | nil =>
    obtain ⟨n, rfl⟩ := Nat.exists_eq_succ_of_ne_zero (Nat.ne_of_gt hn)
    rw [h, Root.measurePath, if_pos rfl]
    rfl
  | cons y ys ih =>
    obtain ⟨n, rfl⟩ := Nat.exists_eq_succ_of_ne_zero (Nat.ne_of_gt (Nat.zero_lt_of_lt hn))
    rw [List.length_cons] at hn hk
    rw [h.1, Root.measurePath]
    rw [if_neg h.2.1, Nat.mod_eq_of_lt (by omega), ih h.2.2 (by omega) (by omega),
      List.length_cons]
    congr 2
    omega

variable (hopPtr nodeAddr buf) in
/-- The addresses of all nodes on the way but the last one are written, from the end on. -/
theorem writeHops_eq (h : Ascent R.graph.parent r x above) (hn : above.length < n)
    (hroom : above.length * (16 - c) ≤ hopPtr) :
    ∃ buf' nodeAddr', R.writeHops r c n (some x) hopPtr buf nodeAddr =
        some (buf', some (above.getLastD x), nodeAddr') ∧
      (∀ i, i < hopPtr - above.length * (16 - c) ∨ hopPtr ≤ i → buf' i = buf i) ∧
      ∀ k < above.length, buf'.read (hopPtr - (k + 1) * (16 - c)) (16 - c) =
        (R.globalAddr ((x :: above).getD k x)).drop c := by
  induction above generalizing x n hopPtr buf nodeAddr with
  | nil =>
    obtain ⟨n, rfl⟩ := Nat.exists_eq_succ_of_ne_zero (Nat.ne_of_gt hn)
    refine ⟨buf, nodeAddr, ?_, fun i _ => rfl, fun k hk => absurd hk (Nat.not_lt_zero k)⟩
    rw [Root.writeHops]
    exact if_pos h
  | cons y ys ih =>
    obtain ⟨n, rfl⟩ := Nat.exists_eq_succ_of_ne_zero (Nat.ne_of_gt (Nat.zero_lt_of_lt hn))
    have hne : R.graph.parent x ≠ some r := fun hr => h.2.1 (Option.some.inj (h.1.symm.trans hr))
    have hlen : ((R.globalAddr x).drop c).length = 16 - c := by
      rw [List.length_drop, length_globalAddr]
    rw [List.length_cons, Nat.add_mul, Nat.one_mul] at hroom
    obtain ⟨buf', nodeAddr', hwrite, hother, hread⟩ := ih (hopPtr - (16 - c))
      (R.globalAddr x) (buf.write (hopPtr - (16 - c)) ((R.globalAddr x).drop c)) h.2.2
      (Nat.lt_of_succ_lt_succ hn) (by omega)
    refine ⟨buf', nodeAddr', ?_, fun i hi => ?_, fun k hk => ?_⟩
    · rw [Root.writeHops, if_neg hne, h.1, hwrite, List.getLastD_cons]
    · rw [List.length_cons, Nat.add_mul, Nat.one_mul] at hi
      rw [hother i (by omega)]
      rcases hi with hi | hi
      · exact Memory.write_below (by omega)
      · exact Memory.write_above (by omega)
    · cases k with
      | zero =>
        -- what the rounds behind write is in front of it
        have hkept : ∀ i, hopPtr - (16 - c) ≤ i → i < hopPtr - (16 - c) + (16 - c) →
            buf' i = (buf.write (hopPtr - (16 - c)) ((R.globalAddr x).drop c)) i :=
          fun i hi _ => hother i (.inr hi)
        rw [Nat.zero_add, Nat.one_mul, Memory.read_congr hkept, List.getD_cons_zero]
        have hself := Memory.read_write_self buf (hopPtr - (16 - c)) ((R.globalAddr x).drop c)
        rwa [hlen] at hself
      | succ k =>
        have hstep : hopPtr - (k + 1 + 1) * (16 - c) = hopPtr - (16 - c) - (k + 1) * (16 - c) := by
          rw [Nat.add_mul (k + 1), Nat.one_mul]
          omega
        have hk' : k < ys.length := Nat.lt_of_succ_lt_succ hk
        rw [hstep, hread k hk', List.getD_cons_succ, List.getD_eq_getElem _ _ (by simp; omega),
          List.getD_eq_getElem _ _ (by simp; omega)]

end Loops

/-! ## Header -/

/-- The nodes that a packet to some address passes. -/
structure Route (R : Root) (p : ExtHeader.Packet) where
  rootNode : ℕ
  destNode : ℕ
  above : List ℕ
  getRoot : getNode R.config R.graph (some R.config.dagId) = some rootNode
  getDest : getNode R.config R.graph (some (ipaddr (p.buf.read 24 16))) = some destNode
  ascent : Ascent R.graph.parent rootNode destNode above

namespace Route

variable {R : Root} {p : ExtHeader.Packet} (ρ : Route R p) {i k : ℕ}

/-- The nodes in the order in which the packet comes to them. -/
def hops : List ℕ := (ρ.destNode :: ρ.above).reverse

/-- The address of one of them. -/
def addr (i : ℕ) : List UInt8 := R.globalAddr (ρ.hops.getD i ρ.destNode)

/-- `cmpri`. -/
def cmpr : ℕ := compression R (p.buf.read 24 16) 15 ρ.above

/-- The bytes of an address in the header. -/
def size : ℕ := 16 - ρ.cmpr

/-- The length of the header without padding. -/
def unpadded : ℕ := 8 + ρ.above.length * ρ.size

/-- `padding`. -/
def padding : ℕ := if ρ.unpadded % 8 = 0 then 0 else 8 - ρ.unpadded % 8

/-- `ext_len`. -/
def extLen : ℕ := ρ.unpadded + ρ.padding

/-- Addresses have 16 bytes. -/
theorem length_addr (i : ℕ) : (ρ.addr i).length = 16 := length_globalAddr _

theorem cmpr_le : ρ.cmpr ≤ 15 := compression_le.1

theorem size_pos : 0 < ρ.size := Nat.sub_pos_of_lt (Nat.lt_succ_of_le ρ.cmpr_le)

theorem cmpr_add_size : ρ.cmpr + ρ.size = 16 :=
  Nat.add_sub_cancel' (ρ.cmpr_le.trans (Nat.le_succ 15))

/-- The header is padded to a multiple of 8. -/
theorem padding_spec : ρ.padding < 8 ∧ ρ.extLen % 8 = 0 := by
  rw [extLen, padding]
  split <;> omega

/-- The length of the header fits its byte. -/
theorem extLen_spec (h : ρ.unpadded ≤ 248) : 8 ≤ ρ.extLen ∧ ρ.extLen ≤ 248 := by
  obtain ⟨hlt, hmod⟩ := ρ.padding_spec
  have hle : 8 ≤ ρ.unpadded := Nat.le_add_right 8 _
  have hext : ρ.extLen = ρ.unpadded + ρ.padding := rfl
  omega

/-- A slot of the header ends in front of the padding. -/
theorem slot_le (hi : i < ρ.above.length) :
    48 + i * ρ.size + ρ.size + ρ.padding ≤ 40 + ρ.extLen := by
  have hmul : (i + 1) * ρ.size ≤ ρ.above.length * ρ.size := Nat.mul_le_mul_right _ hi
  rw [Nat.add_mul, Nat.one_mul] at hmul
  rw [extLen, unpadded]
  omega

/-- Two slots do not overlap. -/
theorem slot_apart (hne : i ≠ k) :
    48 + i * ρ.size + ρ.size ≤ 48 + k * ρ.size ∨ 48 + k * ρ.size + ρ.size ≤ 48 + i * ρ.size := by
  rcases Nat.lt_or_gt_of_ne hne with hlt | hlt
  · have hmul : (i + 1) * ρ.size ≤ k * ρ.size := Nat.mul_le_mul_right _ hlt
    rw [Nat.add_mul, Nat.one_mul] at hmul
    omega
  · have hmul : (k + 1) * ρ.size ≤ i * ρ.size := Nat.mul_le_mul_right _ hlt
    rw [Nat.add_mul, Nat.one_mul] at hmul
    omega

/-- The code computes this length. -/
theorem headerLen_eq (h : ρ.unpadded ≤ 248) :
    Root.headerLen ρ.above.length ρ.cmpr = (ρ.unpadded, ρ.padding) := by
  have hsize := ρ.cmpr_add_size
  have hcast : (16 : ℤ) - (ρ.cmpr : ℤ) = (ρ.size : ℤ) := by omega
  have hlen : (8 + ((ρ.above.length : ℤ) - 1) * (16 - ρ.cmpr) + (16 - ρ.cmpr)).toNat =
      ρ.unpadded := by
    rw [hcast, unpadded, Int.sub_mul, Int.one_mul]
    omega
  rw [Root.headerLen, hlen, Nat.mod_eq_of_lt (by omega)]
  rfl

/-- The nodes of the path and the destination. -/
theorem length_hops : ρ.hops.length = ρ.above.length + 1 := by
  rw [hops, List.length_reverse, List.length_cons]

/-- The first node is the child of the root. -/
theorem addr_zero : ρ.addr 0 = R.globalAddr (ρ.above.getLastD ρ.destNode) := by
  rw [addr, hops, List.getD_eq_getElem?_getD, ← List.head?_eq_getElem?, List.head?_reverse,
    List.getLast?_cons, Option.getD_some, List.getLastD_eq_getLast?]

/-- The nodes behind it, counted from the destination. -/
theorem addr_succ (hi : i < ρ.above.length) :
    ρ.addr (i + 1) =
      R.globalAddr ((ρ.destNode :: ρ.above).getD (ρ.above.length - 1 - i) ρ.destNode) := by
  have hlen : (ρ.destNode :: ρ.above).length = ρ.above.length + 1 := List.length_cons
  rw [addr, hops, List.getD_eq_getElem _ _ (by rw [List.length_reverse]; omega),
    List.getElem_reverse, List.getD_eq_getElem _ _ (by omega)]
  congr 2
  omega

/-- The last node is the destination. -/
theorem addr_length : ρ.addr ρ.above.length = R.globalAddr ρ.destNode := by
  rw [addr, hops, List.getD_eq_getElem _ _ (by rw [List.length_reverse]; simp),
    List.getElem_reverse]
  congr 1
  simp

variable (hpool : Pool R.config R.graph)

include hpool

/-- The destination of the packet is the node at the end. -/
theorem globalAddr_destNode : R.globalAddr ρ.destNode = p.buf.read 24 16 :=
  globalAddr_getNode hpool Memory.length_read ρ.getDest

/-- The addresses have the bytes that are left out in common. -/
theorem take_addr (i : ℕ) : (ρ.addr i).take ρ.cmpr = (p.buf.read 24 16).take ρ.cmpr := by
  have hall : ∀ l ∈ ρ.destNode :: ρ.above,
      (R.globalAddr l).take ρ.cmpr = (p.buf.read 24 16).take ρ.cmpr := by
    intro l hl
    rcases List.mem_cons.mp hl with rfl | hl
    · rw [ρ.globalAddr_destNode hpool]
    · exact take_countMatchingBytes (compression_le.2 l hl)
  by_cases hi : i < ρ.hops.length
  · rw [addr, List.getD_eq_getElem _ _ hi]
    exact hall _ (List.mem_reverse.mp (List.getElem_mem hi))
  · rw [addr, List.getD_eq_default _ _ (Nat.le_of_not_lt hi)]
    exact hall _ List.mem_cons_self

/-- The prefix of the network is always elided. -/
theorem eight_le_cmpr : 8 ≤ ρ.cmpr := by
  refine le_compression (by decide) fun l _ => ?_
  rw [← ρ.globalAddr_destNode hpool]
  exact le_countMatchingBytes l ρ.destNode

/-- The header of a path of at most 31 nodes fits. -/
theorem unpadded_le (h : ρ.above.length ≤ 30) : ρ.unpadded ≤ 248 := by
  have hcmpr := ρ.eight_le_cmpr hpool
  have hsize := ρ.cmpr_add_size
  have hmul : ρ.above.length * ρ.size ≤ 30 * 8 := Nat.mul_le_mul h (by omega)
  rw [unpadded]
  omega

end Route

/-- There is a path to every node that can be reached, but the root. -/
theorem exists_route {R : Root} {p : ExtHeader.Packet} (hinv : RplNs.Inv R.config R.graph)
    (hreach : isAddrReachable R.config R.graph (ipaddr (p.buf.read 24 16)) = true)
    (hroot : ipaddr (p.buf.read 24 16) ≠ R.config.dagId) : Nonempty (Route R p) := by
  obtain ⟨r, l, hr, hl, hleads⟩ := (isAddrReachable_iff hinv).mp hreach
  have hne : l ≠ r := by
    rintro rfl
    obtain ⟨-, -, hid⟩ := (getNode_eq_some hinv.toPool).mp hr
    obtain ⟨-, hnet, hid'⟩ := (getNode_eq_some hinv.toPool).mp hl
    apply hroot
    generalize ipaddr (p.buf.read 24 16) = addr at hnet hid'
    obtain ⟨net, identifier⟩ := addr
    dsimp only at hnet hid'
    rw [hnet, hid', ← hid]
  obtain ⟨above, habove⟩ := hleads.ascent hne
  exact ⟨⟨r, l, above, hr, hl, habove⟩⟩

/-- What the root asks of a packet and its path. -/
structure Sendable {R : Root} {p : ExtHeader.Packet} (ρ : Route R p) : Prop where
  inOurDag : R.inOurDag (p.buf.read 24 16) = true
  forty_le : 40 ≤ p.len
  length : bigEndian (p.buf.read 4 2) + 40 = p.len
  plain : p.buf 6 ≠ protoHbho ∧ p.buf 6 ≠ protoRouting ∧ p.buf 6 ≠ protoDesto
  /-- The length of the header fits its eight bits. -/
  short : ρ.unpadded ≤ 248
  room : p.len + ρ.extLen ≤ R.bufSize

/-- The packet with the source routing header, when it has left some nodes behind. -/
structure Carries {R : Root} {p : ExtHeader.Packet} (ρ : Route R p) (j : ℕ)
    (q : ExtHeader.Packet) : Prop where
  len : q.len = p.len + ρ.extLen
  proto : q.buf 6 = protoRouting
  next : q.buf 40 = p.buf 6
  size : q.buf 41 = UInt8.ofNat ((ρ.extLen - 8) / 8)
  type : q.buf 42 = rhTypeSrh
  left : q.buf 43 = UInt8.ofNat (ρ.above.length - j)
  cmpr : q.buf 44 = UInt8.ofNat (ρ.cmpr * 16 + ρ.cmpr)
  pad : q.buf 45 = UInt8.ofNat (ρ.padding * 16)
  dest : q.buf.read 24 16 = ρ.addr j
  slots : ∀ i < ρ.above.length, q.buf.read (48 + i * ρ.size) ρ.size =
    (ρ.addr (if i < j then i else i + 1)).drop ρ.cmpr
  length : bigEndian (q.buf.read 4 2) + 40 = q.len
  hopLimit : (q.buf 7).toNat + j = (p.buf 7).toNat
  head : ∀ i < 24, i < 4 ∨ 7 < i → q.buf i = p.buf i
  payload : ∀ i, 40 ≤ i → i < p.len → q.buf (i + ρ.extLen) = p.buf i

section Insert

variable {R : Root} {p : ExtHeader.Packet} {ρ : Route R p} {buf : Memory}
  {extLen padding m c i : ℕ}

/-- The bytes in front of the addresses of the header. -/
structure Opened (p : ExtHeader.Packet) (extLen padding m c : ℕ) (buf : Memory) : Prop where
  proto : buf 6 = protoRouting
  next : buf 40 = p.buf 6
  size : buf 41 = UInt8.ofNat ((extLen - 8) / 8)
  type : buf 42 = rhTypeSrh
  left : buf 43 = UInt8.ofNat m
  cmpr : buf 44 = UInt8.ofNat (c * 16 + c)
  pad : buf 45 = UInt8.ofNat (padding * 16)
  head : ∀ i < 40, i ≠ 6 → buf i = p.buf i
  payload : ∀ i, 40 ≤ i → i < p.len → buf (i + extLen) = p.buf i

/-- Room is made for the header, and the first fields are written. -/
theorem opened_openHeader (h8 : 8 ≤ extLen) :
    Opened p extLen padding m c (Root.openHeader p extLen padding m c) := by
  have hsize : UInt8.ofInt (((extLen : ℤ) - 8) / 8) = UInt8.ofNat ((extLen - 8) / 8) := by
    have hcast : ((extLen : ℤ) - 8) / 8 = (((extLen - 8) / 8 : ℕ) : ℤ) := by omega
    apply UInt8.toNat_inj.mp
    rw [hcast, UInt8.ofInt, UInt8.toNat_ofNat', UInt8.toNat_ofNat']
    omega
  have hother : ∀ i, i ≠ 6 → i < 40 ∨ 45 < i → Root.openHeader p extLen padding m c i =
      ((Memory.move p.buf (40 + extLen) 40 (p.len - 40)).write 40 (List.replicate extLen 0)) i := by
    intro i hi hi'
    have hne : ∀ k, 40 ≤ k → k ≤ 45 → i ≠ k := by omega
    rw [Root.openHeader]
    simp only [Function.update_of_ne (hne 40 (by omega) (by omega)),
      Function.update_of_ne (hne 41 (by omega) (by omega)),
      Function.update_of_ne (hne 42 (by omega) (by omega)),
      Function.update_of_ne (hne 43 (by omega) (by omega)),
      Function.update_of_ne (hne 44 (by omega) (by omega)),
      Function.update_of_ne (hne 45 (by omega) (by omega)), Function.update_of_ne hi]
  have hbelow : ∀ i < 40,
      ((Memory.move p.buf (40 + extLen) 40 (p.len - 40)).write 40 (List.replicate extLen 0)) i =
        p.buf i := by
    intro i hi
    rw [Memory.write_below hi, Memory.move_of_apart (by omega)]
  refine ⟨rfl, ?_, hsize, rfl, rfl, rfl, rfl, fun i hi hne => ?_, fun i hi hlt => ?_⟩
  · exact hbelow 6 (by decide)
  · rw [hother i hne (.inl hi), hbelow i hi]
  · rw [hother _ (by omega) (by omega), Memory.write_above (by rw [List.length_replicate]; omega)]
    have hmove := @Memory.move_apply p.buf (40 + extLen) 40 (p.len - 40) (i - 40) (by omega)
    rwa [show 40 + extLen + (i - 40) = i + extLen by omega,
      show 40 + (i - 40) = i by omega] at hmove

variable (buf) in
/-- The length field, with its carry. -/
theorem addLength_spec (hlt : extLen < 256)
    (hroom : bigEndian (buf.read 4 2) + extLen < 65536) :
    bigEndian ((Root.addLength buf extLen).read 4 2) = bigEndian (buf.read 4 2) + extLen ∧
      ∀ i, i ≠ 4 → i ≠ 5 → Root.addLength buf extLen i = buf i := by
  have hword : ∀ m : Memory, bigEndian (m.read 4 2) = 256 * (m 4).toNat + (m 5).toNat := by
    intro m
    rw [Memory.read_two, bigEndian, List.foldl_cons, List.foldl_cons, List.foldl_nil,
      Nat.mul_zero, Nat.zero_add]
  have hlow : (buf 5 + UInt8.ofNat extLen).toNat = ((buf 5).toNat + extLen) % 256 := by
    rw [UInt8.toNat_add, UInt8.toNat_ofNat', Nat.mod_eq_of_lt hlt]
  have h5 := (buf 5).toNat_lt
  have h4 := (buf 4).toNat_lt
  rw [hword] at hroom
  rw [hword, hword, Root.addLength, Function.update_self]
  by_cases hcarry : buf 5 + UInt8.ofNat extLen < buf 5
  · rw [if_pos hcarry]
    rw [UInt8.lt_iff_toNat_lt, hlow] at hcarry
    refine ⟨?_, fun i hi hi' => ?_⟩
    · rw [Function.update_self, Function.update_of_ne (by decide),
        Function.update_of_ne (by decide), Function.update_self, UInt8.toNat_add, hlow]
      have hone : (1 : UInt8).toNat = 1 := rfl
      omega
    · rw [Function.update_of_ne hi, Function.update_of_ne hi']
  · rw [if_neg hcarry]
    rw [UInt8.lt_iff_toNat_lt, hlow] at hcarry
    refine ⟨?_, fun i _ hi' => Function.update_of_ne hi' ..⟩
    rw [Function.update_of_ne (by decide), Function.update_self, hlow]
    omega

/-- The header with its addresses, and the address of the first node. -/
theorem carries_of_opened (hp : Sendable ρ) {buf₁ buf₂ : Memory} {q : ExtHeader.Packet}
    (hopened : Opened p ρ.extLen ρ.padding ρ.above.length ρ.cmpr buf₁)
    (hother : ∀ i, i < 48 ∨ 48 + ρ.above.length * ρ.size ≤ i → buf₂ i = buf₁ i)
    (hslots : ∀ k < ρ.above.length,
      buf₂.read (48 + ρ.above.length * ρ.size - (k + 1) * ρ.size) ρ.size =
        (R.globalAddr ((ρ.destNode :: ρ.above).getD k ρ.destNode)).drop ρ.cmpr)
    (hlen : q.len = p.len + ρ.extLen)
    (hq : q.buf = Root.addLength (buf₂.write 24 (ρ.addr 0)) ρ.extLen) : Carries ρ 0 q := by
  obtain ⟨h8, h248⟩ := ρ.extLen_spec hp.short
  have hunpadded : ρ.unpadded = 8 + ρ.above.length * ρ.size := rfl
  have hext : ρ.extLen = ρ.unpadded + ρ.padding := rfl
  have hroom := hp.room
  have hbuf := R.bufSize_lt
  have hlength := hp.length
  have haddr := ρ.length_addr 0
  -- Last of all the destination is written, and nothing else with it.
  have hwrite : ∀ i, i < 24 ∨ 40 ≤ i → buf₂.write 24 (ρ.addr 0) i = buf₂ i := by
    rintro i (hi | hi)
    · exact Memory.write_below hi
    · exact Memory.write_above (by omega)
  have hfield : (buf₂.write 24 (ρ.addr 0)).read 4 2 = p.buf.read 4 2 := by
    apply Memory.read_congr
    intro i hi hi'
    rw [hwrite i (by omega), hother i (by omega), hopened.head i (by omega) (by omega)]
  obtain ⟨hsum, hkept⟩ := addLength_spec (buf₂.write 24 (ρ.addr 0))
    (Nat.lt_succ_of_le (h248.trans (by decide))) (by rw [hfield]; omega)
  have hsame : ∀ i, i ≠ 4 → i ≠ 5 → i < 24 ∨ 40 ≤ i → q.buf i = buf₂ i := by
    intro i h4 h5 hi
    rw [hq, hkept i h4 h5, hwrite i hi]
  have hheader : ∀ i, i ≠ 4 → i ≠ 5 → i < 24 ∨ 40 ≤ i ∧ i < 48 → q.buf i = buf₁ i := by
    intro i h4 h5 hi
    rw [hsame i h4 h5 (by omega), hother i (by omega)]
  refine ⟨hlen, ?_, ?_, ?_, ?_, ?_, ?_, ?_, ?_, fun i hi => ?_, ?_, ?_, fun i hi hi' => ?_,
    fun i hi hlt => ?_⟩
  · rw [hheader 6 (by decide) (by decide) (by decide), hopened.proto]
  · rw [hheader 40 (by decide) (by decide) (by decide), hopened.next]
  · rw [hheader 41 (by decide) (by decide) (by decide), hopened.size]
  · rw [hheader 42 (by decide) (by decide) (by decide), hopened.type]
  · rw [hheader 43 (by decide) (by decide) (by decide), hopened.left, Nat.sub_zero]
  · rw [hheader 44 (by decide) (by decide) (by decide), hopened.cmpr]
  · rw [hheader 45 (by decide) (by decide) (by decide), hopened.pad]
  · have hself := Memory.read_write_self buf₂ 24 (ρ.addr 0)
    rw [haddr] at hself
    rw [← hself, hq]
    exact Memory.read_congr fun i hi _ => hkept i (by omega) (by omega)
  · have hslot := ρ.slot_le hi
    have hmul : (ρ.above.length - 1 - i + 1) * ρ.size + i * ρ.size = ρ.above.length * ρ.size := by
      rw [← Nat.add_mul]
      congr 1
      omega
    have hread := hslots (ρ.above.length - 1 - i) (by omega)
    rw [show 48 + ρ.above.length * ρ.size - (ρ.above.length - 1 - i + 1) * ρ.size =
      48 + i * ρ.size by omega] at hread
    rw [if_neg (Nat.not_lt_zero i), ρ.addr_succ hi, ← hread]
    exact Memory.read_congr fun i hi _ => hsame i (by omega) (by omega) (by omega)
  · rw [hq, hsum, hfield]
    omega
  · rw [hheader 7 (by decide) (by decide) (by decide), hopened.head 7 (by decide) (by decide),
      Nat.add_zero]
  · rw [hheader i (by omega) (by omega) (by omega), hopened.head i (by omega) (by omega)]
  · rw [hsame _ (by omega) (by omega) (by omega), hother _ (by omega), hopened.payload i hi hlt]

/-- The packet that leaves the root. -/
theorem insertSrhHeader_carries (hinv : RplNs.Inv R.config R.graph) (hp : Sendable ρ) :
    ∃ n q, R.insertSrhHeader p n = some (q, ρ.extLen, true) ∧ Carries ρ 0 q := by
  obtain ⟨h8, h248⟩ := ρ.extLen_spec hp.short
  have hsizePos := ρ.size_pos
  have hmul : ρ.above.length ≤ ρ.above.length * ρ.size := Nat.le_mul_of_pos_right _ hsizePos
  have hunpadded : ρ.unpadded = 8 + ρ.above.length * ρ.size := rfl
  have hext : ρ.extLen = ρ.unpadded + ρ.padding := rfl
  have hshort := hp.short
  have hroom := hp.room
  have hbuf := R.bufSize_lt
  have hforty := hp.forty_le
  have hlength := hp.length
  have hopened : Opened p ρ.extLen ρ.padding ρ.above.length ρ.cmpr
    (Root.openHeader p ρ.extLen ρ.padding ρ.above.length ρ.cmpr) := opened_openHeader h8
  obtain ⟨buf₂, nodeAddr, hwrite, hother, hslots⟩ := writeHops_eq (R := R) (c := ρ.cmpr)
    (48 + ρ.above.length * ρ.size) (p.buf.read 24 16)
    (Root.openHeader p ρ.extLen ρ.padding ρ.above.length ρ.cmpr) ρ.ascent
    (Nat.lt_succ_self ρ.above.length) (Nat.le_add_left _ _)
  have hreach : isAddrReachable R.config R.graph (ipaddr (p.buf.read 24 16)) = true :=
    (isAddrReachable_iff hinv).mpr ⟨_, _, ρ.getRoot, ρ.getDest, ρ.ascent.leads⟩
  have hmeasure : R.measurePath ρ.rootNode (p.buf.read 24 16) (ρ.above.length + 1)
      (R.graph.parent ρ.destNode) (0, 15) = some (ρ.above.length, ρ.cmpr) := by
    rw [measurePath_eq ρ.ascent (Nat.lt_succ_self _) (by omega), Nat.zero_add]
    rfl
  -- The length fits the eight bits of `ext_len`.
  have hmod : (ρ.unpadded + ρ.padding) % 256 = ρ.extLen := Nat.mod_eq_of_lt (by omega)
  have hhop : 40 + ρ.extLen - ρ.padding = 48 + ρ.above.length * ρ.size := by omega
  -- The run of the function: our DAG, destination and root known, path measured, hops written.
  have hins : R.insertSrhHeader p (ρ.above.length + 1) = some
      (⟨Root.addLength (buf₂.write 24 (R.globalAddr (ρ.above.getLastD ρ.destNode))) ρ.extLen,
        (p.len + ρ.extLen) % 2 ^ 16, Nat.mod_lt _ (by decide)⟩, ρ.extLen, true) := by
    rw [Root.insertSrhHeader]
    dsimp only
    rw [if_neg (by rw [hp.inOurDag]; decide), ρ.getDest]
    dsimp only
    rw [ρ.getRoot]
    dsimp only
    rw [if_neg (by rw [hreach]; decide), hmeasure]
    simp only [Option.bind_eq_bind, Option.bind_some]
    rw [ρ.headerLen_eq hp.short]
    simp only [hmod]
    rw [if_neg (by omega), hhop, hwrite]
    rfl
  refine ⟨_, _, hins, carries_of_opened hp hopened (fun i hi => hother i ?_) hslots ?_ ?_⟩
  · have hsub : 48 + ρ.above.length * ρ.size - ρ.above.length * (16 - ρ.cmpr) = 48 :=
      Nat.add_sub_cancel ..
    rwa [hsub]
  · exact Nat.mod_eq_of_lt (by omega)
  · rw [ρ.addr_zero]

end Insert

/-! ## Forwarding -/

section Forward

variable {R : Root} {p q : ExtHeader.Packet} {ρ : Route R p} {j n : ℕ}

/-- The number of segments fits its byte. -/
theorem length_lt (hp : Sendable ρ) : ρ.above.length < 256 := by
  have hshort := hp.short
  have hmul : ρ.above.length ≤ ρ.above.length * ρ.size := Nat.le_mul_of_pos_right _ ρ.size_pos
  have hunpadded : ρ.unpadded = 8 + ρ.above.length * ρ.size := rfl
  omega

namespace Carries

/-- The header says its length. -/
theorem hdrLen_eq (h : Carries ρ j q) (hp : Sendable ρ) : hdrLen (q.buf 41) = ρ.extLen := by
  obtain ⟨h8, h248⟩ := ρ.extLen_spec hp.short
  have hmod := ρ.padding_spec.2
  rw [h.size, hdrLen, UInt8.toNat_ofNat']
  omega

/-- What the fields of the header say. -/
theorem fields (h : Carries ρ j q) (hp : Sendable ρ) (hj : j < ρ.above.length) :
    q.buf 43 ≠ 0 ∧ nextCmpr (q.buf 43) (q.buf 44) = ρ.cmpr ∧
      nextAddress (q.buf 43) (q.buf 41) (q.buf 44) (q.buf 45) = 8 + j * ρ.size := by
  have hlt := length_lt hp
  have hc := ρ.cmpr_le
  have hsize := ρ.cmpr_add_size
  have hpad := ρ.padding_spec.1
  obtain ⟨h8, h248⟩ := ρ.extLen_spec hp.short
  -- The fields are those the root has written.
  have hleft : (q.buf 43).toNat = ρ.above.length - j := by
    rw [h.left, UInt8.toNat_ofNat']
    omega
  have hcmpr : (q.buf 44).toNat = ρ.cmpr * 16 + ρ.cmpr := by
    rw [h.cmpr, UInt8.toNat_ofNat']
    omega
  have hpadding : (q.buf 45).toNat = ρ.padding * 16 := by
    rw [h.pad, UInt8.toNat_ofNat']
    omega
  have hhigh : (q.buf 44).toNat / 16 = ρ.cmpr := by omega
  have hlow : (q.buf 44).toNat % 16 = ρ.cmpr := by omega
  have hpath : pathLen (q.buf 41) (q.buf 44) (q.buf 45) = ρ.above.length := by
    have hext : ρ.extLen = 8 + ρ.above.length * ρ.size + ρ.padding := rfl
    have hnum : ((ρ.extLen : ℕ) : ℤ) - ((ρ.padding : ℕ) : ℤ) - 4 - 4 - (16 - ((ρ.cmpr : ℕ) : ℤ)) =
        ((ρ.above.length : ℤ) - 1) * (ρ.size : ℤ) := by
      rw [Int.sub_mul, Int.one_mul]
      omega
    have hden : (16 : ℤ) - ((ρ.cmpr : ℕ) : ℤ) = (ρ.size : ℤ) := by omega
    have hpos : (ρ.size : ℤ) ≠ 0 := by
      have hsizePos := ρ.size_pos
      omega
    rw [pathLen, h.hdrLen_eq hp, Nat.mod_eq_of_lt (by omega), hhigh, hlow, hpadding,
      Nat.mul_div_cancel _ (by decide)]
    rw [hnum, hden, Int.mul_tdiv_cancel _ hpos]
    omega
  refine ⟨fun hzero => ?_, ?_, ?_⟩
  · rw [hzero] at hleft
    have h0 : (0 : UInt8).toNat = 0 := rfl
    omega
  · rw [nextCmpr, hhigh, hlow, ite_self]
  · have hindex : (ρ.above.length + 256 - (ρ.above.length - j)) % 256 = j := by omega
    have hwidth : 16 - ρ.cmpr = ρ.size := rfl
    rw [nextAddress, hpath, hleft, hhigh, hindex, hwidth]

/-- The header is found. -/
theorem found (h : Carries ρ j q) (hp : Sendable ρ) (n : ℕ) :
    Traced.Ends Access.Inside (findRouting q (n + 1) 0 6) (0, some 6) ∧
      Traced.Ends Access.Inside (isSourceRouting q 0 (some 6)) true := by
  have hlen := h.len
  obtain ⟨h8, -⟩ := ρ.extLen_spec hp.short
  have hforty := hp.forty_le
  constructor
  · rw [findRouting, ends_get_bind, if_pos h.proto, ends_pure]
    exact ⟨by omega, rfl⟩
  · rw [isSourceRouting, ends_get_bind, if_pos h.proto, ends_get_bind, ends_pure]
    refine ⟨by omega, by omega, ?_⟩
    rw [h.type]
    rfl

end Carries

/-- The destination address and the address in a slot in each other's place, and one segment
less. -/
def visited (ρ : Route R p) (j : ℕ) (q : ExtHeader.Packet) : ExtHeader.Packet where
  buf := ((q.buf.write (24 + ρ.cmpr) (q.buf.read (48 + j * ρ.size) ρ.size)).write
    (48 + j * ρ.size) ((q.buf.read 24 16).drop ρ.cmpr)).write 43 [q.buf 43 - 1]
  len := q.len
  len_lt := q.len_lt

/-- The bytes of the packet that stay. -/
theorem visited_kept {i : ℕ} (hi : i ≠ 43) (hi' : i < 24 ∨ 40 ≤ i)
    (hslot : i < 48 + j * ρ.size ∨ 48 + j * ρ.size + ρ.size ≤ i) :
    (visited ρ j q).buf i = q.buf i := by
  have hwidth := ρ.cmpr_add_size
  have hdrop : ((q.buf.read 24 16).drop ρ.cmpr).length = ρ.size := by
    rw [List.length_drop, Memory.length_read]
    omega
  have hleft : ∀ m : Memory, m.write 43 [q.buf 43 - 1] i = m i := by
    intro m
    rcases Nat.lt_or_gt_of_ne hi with hlt | hlt
    · exact Memory.write_below hlt
    · exact Memory.write_above hlt
  rw [visited]
  dsimp only
  rw [hleft]
  rcases hslot with hlt | hlt
  · rw [Memory.write_below hlt]
    rcases hi' with hlt' | hlt'
    · exact Memory.write_below (by omega)
    · exact Memory.write_above (by rw [Memory.length_read]; omega)
  · rw [Memory.write_above (by omega)]
    exact Memory.write_above (by rw [Memory.length_read]; omega)

namespace Carries

/-- One hop: the next address is taken out of the header. -/
theorem ends_srhUpdate (h : Carries ρ j q) (hp : Sendable ρ) (hj : j < ρ.above.length) (n : ℕ) :
    Traced.Ends Access.Inside (srhUpdate q (n + 1)) (visited ρ j q, true) := by
  obtain ⟨hfind, htype⟩ := h.found hp n
  obtain ⟨hleft, hcmpr, haddr⟩ := h.fields hp hj
  have hlen := h.len
  have hforty := hp.forty_le
  have hslot := ρ.slot_le hj
  have hwidth := ρ.cmpr_add_size
  have hdrop : ((q.buf.read 24 16).drop ρ.cmpr).length = ρ.size := by
    rw [List.length_drop, Memory.length_read]
    omega
  refine ends_bind.mpr ⟨_, hfind, ends_bind.mpr ⟨_, htype, ?_⟩⟩
  rw [if_pos rfl, visitNext, ends_get_bind, ends_get_bind, ends_get_bind, ends_get_bind,
    if_neg hleft]
  refine ⟨by omega, by omega, by omega, by omega, ?_⟩
  dsimp only
  rw [haddr, hcmpr, ends_read_bind, ends_read_bind]
  have hposition : 40 + 0 + (8 + j * ρ.size) = 48 + j * ρ.size := by omega
  have hsame : 16 - ρ.cmpr = ρ.size := rfl
  rw [hposition, hsame]
  refine ⟨.inr (by omega), .inr (by omega), ?_⟩
  rw [ends_write_bind, Memory.length_read, ends_write_bind, hdrop, ends_get_bind]
  dsimp only
  refine ⟨.inr (by omega), .inr (by omega), by omega, ?_⟩
  have hkept : ((q.buf.write (24 + ρ.cmpr) (q.buf.read (48 + j * ρ.size) ρ.size)).write
      (48 + j * ρ.size) ((q.buf.read 24 16).drop ρ.cmpr)) 43 = q.buf 43 := by
    rw [Memory.write_below (by omega), Memory.write_above (by rw [Memory.length_read]; omega)]
  rw [hkept, ends_write_bind, List.length_singleton]
  dsimp only
  exact ⟨.inr (by omega), ends_pure.mpr rfl⟩

/-- The packet is addressed to the next node. -/
theorem visited_dest (h : Carries ρ j q) (hpool : Pool R.config R.graph)
    (hj : j < ρ.above.length) : (visited ρ j q).buf.read 24 16 = ρ.addr (j + 1) := by
  have hwidth := ρ.cmpr_add_size
  have hhead : (visited ρ j q).buf.read 24 ρ.cmpr = (ρ.addr j).take ρ.cmpr := by
    have hslice : (q.buf.read 24 16).take ρ.cmpr = q.buf.read 24 ρ.cmpr :=
      Memory.read_slice (m := q.buf) (p := 24) (n := 16) (a := 0) (b := ρ.cmpr) (by omega)
    rw [← h.dest, hslice]
    apply Memory.read_congr
    intro i hi hlt
    rw [visited]
    dsimp only
    rw [Memory.write_below (by omega), Memory.write_below (by omega), Memory.write_below (by omega)]
  have hnext : (visited ρ j q).buf.read (24 + ρ.cmpr) ρ.size = (ρ.addr (j + 1)).drop ρ.cmpr := by
    have hslot := h.slots j hj
    rw [if_neg (lt_irrefl j)] at hslot
    have hself := Memory.read_write_self q.buf (24 + ρ.cmpr) (q.buf.read (48 + j * ρ.size) ρ.size)
    rw [Memory.length_read] at hself
    rw [← hslot, ← hself]
    apply Memory.read_congr
    intro i hi hlt
    rw [visited]
    dsimp only
    rw [Memory.write_below (by omega), Memory.write_below (by omega)]
  rw [← hwidth, Memory.read_append, hhead, hnext, ρ.take_addr hpool, ← ρ.take_addr hpool (j + 1),
    List.take_append_drop]

end Carries

/-- The packet as the node sends it on. -/
def forwarded (ρ : Route R p) (j : ℕ) (q : ExtHeader.Packet) : ExtHeader.Packet :=
  { visited ρ j q with
    buf := Function.update (visited ρ j q).buf 7 ((visited ρ j q).buf 7 - 1) }

/-- A hop changes the hop limit, the segments left, the destination and one slot. -/
theorem forwarded_kept {i : ℕ} (h7 : i ≠ 7) (h43 : i ≠ 43) (hi : i < 24 ∨ 40 ≤ i)
    (hslot : i < 48 + j * ρ.size ∨ 48 + j * ρ.size + ρ.size ≤ i) :
    (forwarded ρ j q).buf i = q.buf i := by
  rw [forwarded]
  dsimp only
  rw [Function.update_of_ne h7, visited_kept h43 hi hslot]

namespace Carries

/-- The packet has left one more node behind. -/
theorem forward (h : Carries ρ j q) (hp : Sendable ρ) (hpool : Pool R.config R.graph)
    (hj : j < ρ.above.length) (hhop : 1 < (q.buf 7).toNat) :
    Carries ρ (j + 1) (forwarded ρ j q) := by
  have hslot := ρ.slot_le hj
  have hwidth := ρ.cmpr_add_size
  have hone : (1 : UInt8).toNat = 1 := rfl
  have hdrop : ((q.buf.read 24 16).drop ρ.cmpr).length = ρ.size := by
    rw [List.length_drop, Memory.length_read]
    omega
  have hhead : ∀ i < 24, i ≠ 7 → (forwarded ρ j q).buf i = q.buf i :=
    fun i hi h7 => forwarded_kept h7 (by omega) (.inl hi) (.inl (by omega))
  have hheader : ∀ i, 40 ≤ i → i < 48 → i ≠ 43 → (forwarded ρ j q).buf i = q.buf i :=
    fun i hi hi' h43 => forwarded_kept (by omega) h43 (.inr hi) (.inl (by omega))
  -- Address and segment counter change, all else is forwarded as it came.
  refine ⟨h.len, ?_, ?_, ?_, ?_, ?_, ?_, ?_, ?_, fun i hi => ?_, ?_, ?_, fun i hi hi' => ?_,
    fun i hi hlt => ?_⟩
  · rw [hhead 6 (by decide) (by decide), h.proto]
  · rw [hheader 40 (by decide) (by decide) (by decide), h.next]
  · rw [hheader 41 (by decide) (by decide) (by decide), h.size]
  · rw [hheader 42 (by decide) (by decide) (by decide), h.type]
  · have hleft : (forwarded ρ j q).buf 43 = q.buf 43 - 1 := rfl
    have hlt := length_lt hp
    apply UInt8.toNat_inj.mp
    rw [hleft, h.left, UInt8.toNat_sub, UInt8.toNat_ofNat', UInt8.toNat_ofNat']
    omega
  · rw [hheader 44 (by decide) (by decide) (by decide), h.cmpr]
  · rw [hheader 45 (by decide) (by decide) (by decide), h.pad]
  · rw [← h.visited_dest hpool hj]
    apply Memory.read_congr
    intro i hi hi'
    exact Function.update_of_ne (by omega) ..
  · by_cases heq : i = j
    · -- the address that was the destination is in the slot
      subst heq
      have hself := Memory.read_write_self
        (q.buf.write (24 + ρ.cmpr) (q.buf.read (48 + i * ρ.size) ρ.size)) (48 + i * ρ.size)
        ((q.buf.read 24 16).drop ρ.cmpr)
      rw [hdrop] at hself
      rw [if_pos (Nat.lt_succ_self i), ← h.dest, ← hself]
      apply Memory.read_congr
      intro k hk hk'
      rw [forwarded, visited]
      dsimp only
      rw [Function.update_of_ne (by omega),
        Memory.write_above (by rw [List.length_singleton]; omega)]
    · have hapart := ρ.slot_apart heq
      have hsame : (if i < j + 1 then i else i + 1) = if i < j then i else i + 1 := by
        split <;> split <;> omega
      rw [hsame, ← h.slots i hi]
      apply Memory.read_congr
      intro k hk hk'
      exact forwarded_kept (by omega) (by omega) (.inr (by omega)) (by omega)
  · have hfield : (forwarded ρ j q).buf.read 4 2 = q.buf.read 4 2 :=
      Memory.read_congr fun i hi hi' => hhead i (by omega) (by omega)
    rw [hfield]
    exact h.length
  · have hlimit := h.hopLimit
    have hbyte := (q.buf 7).toNat_lt
    have h7 : (forwarded ρ j q).buf 7 = q.buf 7 - 1 := by
      rw [forwarded]
      dsimp only
      rw [Function.update_self, visited_kept (by decide) (by decide) (.inl (by omega))]
    rw [h7, UInt8.toNat_sub, hone]
    omega
  · rw [hhead i hi (by omega), h.head i hi hi']
  · rw [forwarded_kept (by omega) (by omega) (.inr (by omega)) (.inr (by omega)),
      h.payload i hi hlt]

/-- What the next node does with the packet. -/
theorem trip_step {linkMtu : ℕ} (h : Carries ρ j q) (hp : Sendable ρ)
    (hpool : Pool R.config R.graph) (hj : j < ρ.above.length) (hmtu : p.len + ρ.extLen ≤ linkMtu)
    (hhop : 1 < (q.buf 7).toNat) (vs : List (List UInt8)) (n : ℕ) :
    Trip.step linkMtu ⟨q, vs⟩ (n + 1) = some ⟨forwarded ρ j q, vs ++ [ρ.addr (j + 1)]⟩ := by
  have hvalue : (srhUpdate q (n + 1)).value = some (visited ρ j q, true) :=
    value_eq_some.mpr ((h.ends_srhUpdate hp hj n).mono fun _ _ => trivial)
  have hlimit : ¬(visited ρ j q).buf 7 ≤ 1 := by
    have hone : (1 : UInt8).toNat = 1 := rfl
    rw [visited_kept (by decide) (by decide) (.inl (by omega)), UInt8.le_iff_toNat_le]
    omega
  have hshort : ¬linkMtu < (visited ρ j q).len := Nat.not_lt.mpr (h.len.trans_le hmtu)
  rw [Trip.step]
  dsimp only
  rw [if_neg (h.fields hp hj).1, hvalue]
  simp only [Option.bind_eq_bind, Option.bind_some]
  rw [if_neg (by decide), if_neg (not_or.mpr ⟨hshort, hlimit⟩), h.visited_dest hpool hj]
  rfl

end Carries

end Forward

/-! ## Result -/

section Runs

variable {R : Root} {p : ExtHeader.Packet} {ρ : Route R p} {linkMtu : ℕ} {t t' : Trip} {n : ℕ}

/-- A packet that has come to some node of its path. -/
def Trip.Inv (ρ : Route R p) (t : Trip) : Prop :=
  ∃ j ≤ ρ.above.length, Carries ρ j t.packet ∧ t.visited = (List.range (j + 1)).map ρ.addr

/-- A hop keeps the invariant. -/
theorem Trip.Inv.step (h : t.Inv ρ) (hp : Sendable ρ) (hpool : Pool R.config R.graph)
    (hmtu : p.len + ρ.extLen ≤ linkMtu) (hhop : ρ.above.length < (p.buf 7).toNat)
    (hstep : t.step linkMtu n = some t') : t'.Inv ρ := by
  obtain ⟨j, hj, hcarries, hvisited⟩ := h
  obtain ⟨q, vs⟩ := t
  have hlimit := hcarries.hopLimit
  dsimp only at hcarries hvisited hlimit
  rcases Nat.lt_or_eq_of_le hj with hlt | rfl
  · cases n with
    | zero =>
      rw [Trip.step, if_neg (hcarries.fields hp hlt).1] at hstep
      cases hstep
    | succ n =>
      rw [hcarries.trip_step hp hpool hlt hmtu (by omega)] at hstep
      cases hstep
      refine ⟨j + 1, hlt, hcarries.forward hp hpool hlt (by omega), ?_⟩
      rw [hvisited, List.range_succ (n := j + 1), List.map_append]
      rfl
  · have hleft : q.buf 43 = 0 := by
      rw [hcarries.left, Nat.sub_self]
      rfl
    rw [Trip.step, if_pos hleft] at hstep
    cases hstep

/-- What a packet from the root does. -/
structure Sound (ρ : Route R p) (linkMtu : ℕ) (t : Trip) : Prop where
  /-- It follows the tree from the root down, and passes no node twice. -/
  path : t.visited <+: ρ.hops.map R.globalAddr
  once : t.visited.Nodup
  /-- It goes on until it has come to its destination. -/
  arrives : (∀ n, t.step linkMtu n = none) →
    t.visited = ρ.hops.map R.globalAddr ∧ t.packet.buf.read 24 16 = p.buf.read 24 16
  /-- What it carries stays as it was. -/
  next : t.packet.buf 40 = p.buf 6
  payload : ∀ i, 40 ≤ i → i < p.len → t.packet.buf (i + ρ.extLen) = p.buf i

/-- The addresses of the path. -/
theorem Route.map_hops (ρ : Route R p) :
    ρ.hops.map R.globalAddr = (List.range (ρ.above.length + 1)).map ρ.addr := by
  refine List.ext_getElem ?_ fun i hi hi' => ?_
  · rw [List.length_map, List.length_map, List.length_range, ρ.length_hops]
  · rw [List.length_map] at hi
    rw [List.getElem_map, List.getElem_map, List.getElem_range, Route.addr,
      List.getD_eq_getElem _ _ hi]

/-- No node of the path comes twice. -/
theorem Route.nodup_hops (ρ : Route R p) (hinv : RplNs.Inv R.config R.graph) :
    (ρ.hops.map R.globalAddr).Nodup := by
  have hdest : ρ.destNode ∈ R.graph.nodelist := ((getNode_eq_some hinv.toPool).mp ρ.getDest).1
  have hmem : ∀ l ∈ ρ.destNode :: ρ.above, l ∈ R.graph.nodelist :=
    ρ.ascent.forall_mem (fun a b ha hab => hinv.parents a ha b hab) hdest
  rw [Route.hops, List.map_reverse, List.nodup_reverse]
  exact ρ.ascent.nodup.map_on fun a ha b hb =>
    globalAddr_inj hinv.toPool (hmem a ha) (hmem b hb)

/-- What the invariant says of a trip. -/
theorem Trip.Inv.sound (h : t.Inv ρ) (hp : Sendable ρ) (hinv : RplNs.Inv R.config R.graph)
    (hmtu : p.len + ρ.extLen ≤ linkMtu) (hhop : ρ.above.length < (p.buf 7).toNat) :
    Sound ρ linkMtu t := by
  obtain ⟨j, hj, hcarries, hvisited⟩ := h
  have hpath : t.visited <+: ρ.hops.map R.globalAddr := by
    obtain ⟨k, hk⟩ := Nat.exists_eq_add_of_le hj
    have hrange : List.range (j + k + 1) =
        List.range (j + 1) ++ (List.range k).map (j + 1 + ·) := by
      rw [Nat.add_right_comm, List.range_add]
    rw [hvisited, ρ.map_hops, hk, hrange, List.map_append]
    exact List.prefix_append _ _
  refine ⟨hpath, (ρ.nodup_hops hinv).sublist hpath.sublist, fun hstop => ?_, hcarries.next,
    hcarries.payload⟩
  rcases Nat.lt_or_eq_of_le hj with hlt | rfl
  · have hlimit := hcarries.hopLimit
    have hstep := hcarries.trip_step hp hinv.toPool hlt hmtu (by omega) t.visited 0
    exact absurd (hstep.symm.trans (hstop 1)) (Option.some_ne_none _)
  · refine ⟨hvisited.trans ρ.map_hops.symm, ?_⟩
    rw [hcarries.dest, ρ.addr_length, ρ.globalAddr_destNode hinv.toPool]

/-- The packet that leaves the root follows its path. -/
theorem follows_path (hinv : RplNs.Inv R.config R.graph) (hp : Sendable ρ)
    (hmtu : p.len + ρ.extLen ≤ linkMtu) (hhop : ρ.above.length < (p.buf 7).toNat) :
    ∃ n q, R.insertSrhHeader p n = some (q, ρ.extLen, true) ∧
      ∀ t, Run (Trip.step linkMtu) (fun _ _ => True) ⟨q, [q.buf.read 24 16]⟩ t →
        Sound ρ linkMtu t := by
  obtain ⟨n, q, hins, hcarries⟩ := insertSrhHeader_carries hinv hp
  refine ⟨n, q, hins, fun t hrun => ?_⟩
  have hstart : Trip.Inv ρ ⟨q, [q.buf.read 24 16]⟩ := by
    refine ⟨0, Nat.zero_le _, hcarries, ?_⟩
    rw [hcarries.dest]
    rfl
  have ht : t.Inv ρ := hrun.invariant (I := Trip.Inv ρ)
    (fun _ _ _ h _ hs => h.step hp hinv.toPool hmtu hhop hs) hstart
  exact ht.sound hp hinv hmtu hhop

/-- **Source routing**: in every state of the graph there is a path to every node that can be
reached, its header fits if the path is short enough, and a packet with the header that the root
inserts follows it. -/
theorem source_route_sound (hgraph : Run (RplNs.step R.config)
      (fun s c => RplNs.Proper R.config c ∧ RplNs.Safe R.config s c) .initial R.graph) :
    (isAddrReachable R.config R.graph (ipaddr (p.buf.read 24 16)) = true →
      ipaddr (p.buf.read 24 16) ≠ R.config.dagId → Nonempty (Route R p)) ∧
    (∀ ρ : Route R p, ρ.above.length ≤ 30 → ρ.unpadded ≤ 248) ∧
    ∀ ρ : Route R p, Sendable ρ → p.len + ρ.extLen ≤ linkMtu →
      ρ.above.length < (p.buf 7).toNat →
        ∃ n q, R.insertSrhHeader p n = some (q, ρ.extLen, true) ∧
          ∀ t, Run (Trip.step linkMtu) (fun _ _ => True) ⟨q, [q.buf.read 24 16]⟩ t →
            Sound ρ linkMtu t := by
  have hinv : RplNs.Inv R.config R.graph :=
    hgraph.invariant (fun _ _ _ h hok hs => h.step hok.1 hok.2 hs) RplNs.inv_initial
  exact ⟨exists_route hinv, fun ρ => ρ.unpadded_le hinv.toPool,
    fun ρ hp hmtu hhop => follows_path hinv hp hmtu hhop⟩

end Runs

/-- Two motes in a line below the root. -/
def lineCalls : List RplNs.Call :=
  [.updateNode ⟨1, 2⟩ (some ⟨1, 1⟩) 100, .updateNode ⟨1, 3⟩ (some ⟨1, 2⟩) 100]

theorem bufSize_line : 1280 < 2 ^ 16 := by decide

def lineRoot : Root where
  config := threeNodes
  graph := lineCalls.foldl (fun s c => s.call threeNodes c) .initial
  inOurDag _ := true
  bufSize := 1280
  bufSize_lt := bufSize_line

theorem length_line : 48 < 2 ^ 16 := by decide

/-- A packet of 48 bytes to the lower one. -/
def linePacket : ExtHeader.Packet where
  buf := Memory.write (fun i => UInt8.ofNat i) 4 ([0, 8, 17, 64] ++ List.replicate 23 0 ++
    [1] ++ List.replicate 7 0 ++ [3])
  len := 48
  len_lt := length_line

def lineRoute : Route lineRoot linePacket where
  rootNode := 0
  destNode := 2
  above := [1]
  getRoot := by decide +kernel
  getDest := by decide +kernel
  ascent := ⟨rfl, by decide, rfl⟩

/-- The packet of the example can be sent. -/
theorem sendable_line : Sendable lineRoute where
  inOurDag := rfl
  forty_le := by decide
  length := by decide +kernel
  plain := by decide +kernel
  short := by decide +kernel
  room := by decide +kernel

theorem source_route_sound_line : Nonempty (Route lineRoot linePacket) ∧
    ∃ n q, lineRoot.insertSrhHeader linePacket n = some (q, lineRoute.extLen, true) ∧
      ∀ t, Run (Trip.step 1280) (fun _ _ => True) ⟨q, [q.buf.read 24 16]⟩ t →
        Sound lineRoute 1280 t := by
  have hcalls : runEvents (RplNs.step threeNodes)
      (fun s c => RplNs.Proper threeNodes c ∧ RplNs.Safe threeNodes s c) .initial lineCalls =
        some lineRoot.graph := rfl
  obtain ⟨hroute, -, hsound⟩ :=
    @source_route_sound lineRoot linePacket 1280 (run_of_runEvents hcalls)
  exact ⟨hroute (by decide +kernel) (by decide +kernel),
    hsound lineRoute sendable_line (by decide +kernel) (by decide +kernel)⟩

end MasterScheduler.Mote.SourceRoute

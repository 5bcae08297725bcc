import Mathlib.Data.List.TakeWhile
import MasterScheduler.Mote.Accounting

/-!
# MasterScheduler.Mote.Window — the time window of a packet

A packet of a flow may be sent from its `earliest_tx_slot` up to the slot of its
time to live. Both are kept as the low 16 bits of slot numbers and compared
with the ASN. Three places look at them:

1. **Selection**: a slot takes the first packet of the flow that is not expired,
   and what is expired before it is discarded.
2. **Too early**: that packet waits for its earliest slot.
3. **Retry**: after a failed transmission a packet stays while there is time left.
   The slots that are left go through 8 bits here.
-/

namespace MasterScheduler.Mote.Queue

open Lib

/-! ## Slot numbers -/

/-- `attr` holds the low 16 bits of a slot that is within half their range of the ASN. -/
structure Near (asn : ℕ) (attr : ℕ) (slot : ℤ) : Prop where
  low : (attr : ℤ) = slot % 2 ^ 16
  after : slot - asn < 2 ^ 15
  before : (asn : ℤ) - slot < 2 ^ 15

section

variable {asn attr : ℕ} {slot : ℤ}

/-- Within that range the comparison is the one of the slots themselves. -/
theorem tschSlotnumLt_near {k : ℤ} (h : Near asn attr slot) (hk : 0 ≤ k) (hk' : k ≤ 1) :
    tschSlotnumLt (asn - k) attr = true ↔ asn - k < slot := by
  have hlow := h.low
  have hafter := h.after
  have hbefore := h.before
  unfold tschSlotnumLt tschSlotnumDiff16
  rw [decide_eq_true_eq, Int.bmod_def]
  split_ifs <;> omega

end

/-! ## Selection -/

section

variable (u : Nbr → Bool) (asn : ℕ) (s : State) (link : Link)

/-- The code sends a packet for the neighbor of the link itself. -/
def Overridden : Prop :=
  ∃ p, getPacketForNbr s (fun n _ => u n) link.addr = some p ∧ (s.packet p).sendNbr = true

/-- `get_packet_and_neighbor_for_link` comes to the queue of the flow: the link is one for data,
there is no beacon to send, and nothing for the neighbor of the link itself. `u` tells for which
neighbors the backoff has expired. -/
structure Examines : Prop where
  unlocked : s.locked = false
  tx : link.tx = true
  data : link.linkType ≠ .advertisingOnly
  noBeacon : link.linkType ≠ .normal → getPacketForNbr s (fun n _ => u n) .eb = none
  noOverride : ¬ Overridden u s link
  backoff : u (.flow link.slotframeHandle) = true

/-- A packet whose slot is over, as the code sees it. -/
def State.isExpired (p : PacketId) : Bool :=
  !tschSlotnumLt ((asn : ℤ) - 1) (s.packet p).transmissionTtl

/-- What a queue holds without the packets at its front that are expired. -/
def State.fresh (n : Nbr) : List PacketId := (s.queue n).toList.dropWhile (s.isExpired asn)

/-- The expired packets at the front of a queue. -/
def State.stale (n : Nbr) : List PacketId := (s.queue n).toList.takeWhile (s.isExpired asn)

end

section

variable {u : Nbr → Bool} {asn : ℕ} {s : State} {link : Link} {n : Nbr}

theorem touch_fixed (s : State) (p : PacketId) :
    (s.touch p).queue = s.queue ∧ (s.touch p).packet = s.packet ∧
      (s.touch p).locked = s.locked ∧ (s.touch p).live = s.live := by
  unfold State.touch
  split_ifs <;> exact ⟨rfl, rfl, rfl, rfl⟩

/-- What dropping the expired packets of a queue does. -/
structure Dropped (s t : State) (n : Nbr) (stale fresh : List PacketId) : Prop where
  queue : (t.queue n).toList = fresh
  others : ∀ n', n' ≠ n → t.queue n' = s.queue n'
  packet : t.packet = s.packet
  live : t.live = s.live.filter (· ∉ stale)

/-- One round of the loop frees the first packet. -/
theorem Dropped.cons {t : State} {p : PacketId} {stale fresh : List PacketId}
    (hp : (s.queue n).toList.head? = some p) (hl : s.locked = false)
    (h : Dropped (freePacket (removePacketFromQueue s n).2 p) t n stale fresh) :
    Dropped s t n (p :: stale) fresh := by
  rw [removePacketFromQueue_eq hl hp] at h
  have hfixed := touch_fixed (popped s n p) p
  constructor
  · exact h.queue
  · intro n' hn'
    rw [h.others n' hn']
    show ((popped s n p).touch p).queue n' = _
    rw [hfixed.1, queue_popped_of_ne hn']
  · rw [h.packet]
    exact hfixed.2.1
  · have hlive : (freePacket (popped s n p) p).live = s.live.filter (· ≠ p) := by
      show ((popped s n p).touch p).live.filter _ = _
      rw [hfixed.2.2.2]
      rfl
    rw [h.live, hlive, List.filter_filter]
    congr 1
    funext q
    simp [not_or, Bool.and_comm]

/-- The loop over the expired packets. -/
theorem dropExpired_eq (asn : ℕ) {l : List PacketId} (hl : (s.queue n).toList = l)
    (hlocked : s.locked = false) (hu : u n = true) :
    (dropExpired (fun n _ => u n) asn n l s).1 = (s.fresh asn n).head? ∧
      Dropped s (dropExpired (fun n _ => u n) asn n l s).2 n (s.stale asn n) (s.fresh asn n) := by
  unfold State.fresh State.stale
  rw [hl]
  induction l generalizing s with
  | nil =>
    refine ⟨rfl, hl, fun _ _ => rfl, rfl, ?_⟩
    simp [dropExpired]
  | cons p rest ih =>
    have hp : (s.queue n).toList.head? = some p := by
      rw [hl]
      rfl
    have hfixed := touch_fixed s p
    unfold dropExpired
    rw [if_pos hu]
    dsimp only
    by_cases hex : s.isExpired asn p = true
    · -- it is expired, and the loop goes on with the rest
      have hlt : ¬ tschSlotnumLt ((asn : ℤ) - 1) ((s.touch p).packet p).transmissionTtl = true := by
        rw [hfixed.2.1]
        simpa [State.isExpired] using hex
      rw [if_neg hlt, List.dropWhile_cons_of_pos hex, List.takeWhile_cons_of_pos hex]
      have hp' : ((s.touch p).queue n).toList.head? = some p := by
        rw [hfixed.1]
        exact hp
      have hlocked' : (s.touch p).locked = false := by
        rw [hfixed.2.2.1]
        exact hlocked
      have hpop := removePacketFromQueue_eq hlocked' hp'
      have htail := toList_popped hp'
      rw [hfixed.1, hl] at htail
      have hnext := touch_fixed (popped (s.touch p) n p) p
      -- the state after the round
      set next := freePacket (removePacketFromQueue (s.touch p) n).2 p with hdef
      have hqueue : next.queue = (popped (s.touch p) n p).queue := by
        rw [hdef, hpop]
        exact hnext.1
      have hpacket : next.packet = s.packet := by
        rw [hdef, hpop]
        exact hnext.2.1.trans hfixed.2.1
      have hlock : next.locked = false := by
        rw [hdef, hpop]
        exact hnext.2.2.1.trans hlocked'
      have hsame : next.isExpired asn = s.isExpired asn := by
        funext q
        unfold State.isExpired
        rw [hpacket]
      have hrest : (next.queue n).toList = rest := by
        rw [hqueue]
        exact (List.cons.inj htail).2.symm
      rcases ih hrest hlock with ⟨hfirst, hdropped⟩
      rw [hsame] at hfirst hdropped
      refine ⟨hfirst, ?_⟩
      have hcons := hdropped.cons hp' hlocked'
      constructor
      · exact hcons.queue
      · intro n' hn'
        rw [hcons.others n' hn', hfixed.1]
      · rw [hcons.packet, hfixed.2.1]
      · rw [hcons.live, hfixed.2.2.2]
    · -- the loop stops here
      have hlt : tschSlotnumLt ((asn : ℤ) - 1) ((s.touch p).packet p).transmissionTtl = true := by
        rw [hfixed.2.1]
        simpa [State.isExpired] using hex
      rw [if_pos hlt, List.dropWhile_cons_of_neg hex, List.takeWhile_cons_of_neg hex]
      refine ⟨rfl, ?_, ?_, hfixed.2.1, ?_⟩
      · rw [hfixed.1]
        exact hl
      · intro n' _
        rw [hfixed.1]
      · rw [hfixed.2.2.2]
        simp

/-- The queues and packets are as before. -/
structure Untouched (s t : State) : Prop where
  queue : t.queue = s.queue
  packet : t.packet = s.packet
  live : t.live = s.live

theorem Untouched.dropped {t : State} (h : Untouched s t) {stale fresh : List PacketId}
    {r : State} (hr : Dropped t r n stale fresh) : Dropped s r n stale fresh := by
  constructor
  · exact hr.queue
  · intro n' hn'
    rw [hr.others n' hn', h.queue]
  · rw [hr.packet, h.packet]
  · rw [hr.live, h.live]

/-- Looking at the packet for the neighbor of the link. -/
theorem untouched_look (o : Option PacketId) :
    Untouched s (o.elim s s.touch) ∧ (o.elim s s.touch).locked = s.locked := by
  cases o with
  | none => exact ⟨⟨rfl, rfl, rfl⟩, rfl⟩
  | some p =>
    rcases touch_fixed s p with ⟨hqueue, hpacket, hlocked, hlive⟩
    exact ⟨⟨hqueue, hpacket, hlive⟩, hlocked⟩

/-- A packet for the neighbor of the link goes before those of the flow. -/
theorem getDataPacketForLink_override (asn : ℕ) (h : Overridden u s link) :
    ∃ p, (getDataPacketForLink (fun n _ => u n) asn s link).1 = some (p, link.addr) ∧
      (s.queue link.addr).peekGet = some p ∧ (s.packet p).sendNbr = true ∧
      Untouched s (getDataPacketForLink (fun n _ => u n) asn s link).2 := by
  rcases h with ⟨p, hp, hsend⟩
  rcases touch_fixed s p with ⟨hqueue, hpacket, _, hlive⟩
  have hhead := (head?_of_getPacketForNbr hp).2
  rw [← RingBuffer.peekGet_eq] at hhead
  have hfound : getDataPacketForLink (fun n _ => u n) asn s link =
      (some (p, link.addr), s.touch p) := by
    unfold getDataPacketForLink
    dsimp only
    rw [hp, Option.elim_some, hpacket, Option.filter_some, if_pos hsend]
  rw [hfound]
  exact ⟨p, rfl, hhead, hsend, hqueue, hpacket, hlive⟩

/-- Otherwise it is the flow's turn. -/
theorem getDataPacketForLink_flow (h : ¬ Overridden u s link) :
    getDataPacketForLink (fun n _ => u n) asn s link =
      let t := (getPacketForNbr s (fun n _ => u n) link.addr).elim s s.touch
      if t.locked then (none, t)
      else
        let (p, r) := dropExpired (fun n _ => u n) asn (.flow link.slotframeHandle)
          (t.queue (.flow link.slotframeHandle)).toList t
        ((p.filter fun p => !tschSlotnumLt asn (r.packet p).earliestTxSlot).map
          (·, .flow link.slotframeHandle), r) := by
  have hnone : (getPacketForNbr s (fun n _ => u n) link.addr).filter
      (fun p => (((getPacketForNbr s (fun n _ => u n) link.addr).elim s s.touch).packet p).sendNbr)
        = none := by
    rw [(untouched_look _).1.packet, Option.filter_eq_none_iff]
    intro p hp hsend
    exact h ⟨p, hp, hsend⟩
  unfold getDataPacketForLink
  dsimp only
  rw [hnone]

/-- The first packet of the flow that is not expired, unless it is too early for it. -/
theorem getDataPacketForLink_examined (asn : ℕ) (h : ¬ Overridden u s link) (hlocked : s.locked = false)
    (hu : u (.flow link.slotframeHandle) = true) :
    (getDataPacketForLink (fun n _ => u n) asn s link).1 =
        ((s.fresh asn (.flow link.slotframeHandle)).head?.filter fun p =>
          !tschSlotnumLt asn (s.packet p).earliestTxSlot).map (·, .flow link.slotframeHandle) ∧
      Dropped s (getDataPacketForLink (fun n _ => u n) asn s link).2 (.flow link.slotframeHandle)
        (s.stale asn (.flow link.slotframeHandle)) (s.fresh asn (.flow link.slotframeHandle)) := by
  rcases untouched_look (s := s) (getPacketForNbr s (fun n _ => u n) link.addr) with ⟨hsame, hlock⟩
  rw [getDataPacketForLink_flow h]
  dsimp only
  rw [hlock, if_neg (Bool.eq_false_iff.1 hlocked)]
  generalize (getPacketForNbr s (fun n _ => u n) link.addr).elim s s.touch = t at hsame hlock
  rcases dropExpired_eq asn (n := .flow link.slotframeHandle) rfl
    (hlock.trans hlocked) hu with ⟨hfirst, hdropped⟩
  have hexpired : t.isExpired asn = s.isExpired asn := by
    funext q
    unfold State.isExpired
    rw [hsame.packet]
  have hfresh : t.fresh asn (.flow link.slotframeHandle) =
      s.fresh asn (.flow link.slotframeHandle) := by
    unfold State.fresh
    rw [hexpired, hsame.queue]
  have hstale : t.stale asn (.flow link.slotframeHandle) =
      s.stale asn (.flow link.slotframeHandle) := by
    unfold State.stale
    rw [hexpired, hsame.queue]
  rw [hfresh] at hfirst hdropped
  rw [hstale] at hdropped
  refine ⟨?_, hsame.dropped hdropped⟩
  rw [hfirst, hdropped.packet, hsame.packet]

/-- While the queues are locked, or the backoff of the flow has not expired, nothing happens. -/
theorem getDataPacketForLink_blocked (asn : ℕ) (h : ¬ Overridden u s link)
    (hblocked : s.locked = true ∨ u (.flow link.slotframeHandle) = false) :
    (getDataPacketForLink (fun n _ => u n) asn s link).1 = none ∧
      Untouched s (getDataPacketForLink (fun n _ => u n) asn s link).2 := by
  rcases untouched_look (s := s) (getPacketForNbr s (fun n _ => u n) link.addr) with ⟨hsame, hlock⟩
  rw [getDataPacketForLink_flow h]
  dsimp only
  rw [hlock]
  split_ifs with hl
  · exact ⟨rfl, hsame⟩
  · have hu : u (.flow link.slotframeHandle) = false := by
      rcases hblocked with hlocked | hu
      · exact absurd hlocked hl
      · exact hu
    generalize (getPacketForNbr s (fun n _ => u n) link.addr).elim s s.touch = t at hsame
    have hstop : dropExpired (fun n _ => u n) asn (.flow link.slotframeHandle)
        (t.queue (.flow link.slotframeHandle)).toList t = (none, t) := by
      cases (t.queue (.flow link.slotframeHandle)).toList with
      | nil => rfl
      | cons p rest =>
        unfold dropExpired
        rw [if_neg (Bool.eq_false_iff.1 hu)]
    rw [hstop]
    exact ⟨rfl, hsame⟩

/-- What a slot may send: a beacon, a packet for the neighbor of the link itself, or a packet of
the flow in its window. -/
inductive Sendable (s : State) (asn : ℕ) (link : Link) (ttl earliest : PacketId → ℤ) :
    PacketId → Nbr → Prop
  | beacon (p : PacketId) (htype : link.linkType ≠ .normal)
      (hhead : (s.queue .eb).peekGet = some p) : Sendable s asn link ttl earliest p .eb
  | nbr (p : PacketId) (hhead : (s.queue link.addr).peekGet = some p)
      (hsend : (s.packet p).sendNbr = true) : Sendable s asn link ttl earliest p link.addr
  | flow (p : PacketId) (hmem : p ∈ (s.queue (.flow link.slotframeHandle)).toList)
      (hearliest : earliest p ≤ asn) (httl : asn ≤ ttl p) :
      Sendable s asn link ttl earliest p (.flow link.slotframeHandle)

/-- The packet of a slot and what is discarded, by the slots the packets stand for. -/
structure WindowKept (u : Nbr → Bool) (asn : ℕ) (s : State) (link : Link)
    (ttl earliest : PacketId → ℤ) (found : Option (PacketId × Nbr)) (t : State) : Prop where
  sendable : ∀ p n, found = some (p, n) → Sendable s asn link ttl earliest p n
  examined : Examines u s link → Dropped s t (.flow link.slotframeHandle)
    ((s.queue (.flow link.slotframeHandle)).toList.takeWhile (ttl · < asn))
    ((s.queue (.flow link.slotframeHandle)).toList.dropWhile (ttl · < asn))
  otherwise : ¬ Examines u s link → Untouched s t

/-- No packet is lost that is not expired, and none of another queue. -/
theorem WindowKept.expired {ttl earliest : PacketId → ℤ} {found : Option (PacketId × Nbr)}
    {t : State} (h : WindowKept u asn s link ttl earliest found t) {p : PacketId} {n : Nbr}
    (hp : p ∈ (s.queue n).toList) (hgone : p ∉ (t.queue n).toList) :
    n = .flow link.slotframeHandle ∧ ttl p < asn := by
  by_cases hex : Examines u s link
  · have hd := h.examined hex
    by_cases hn : n = .flow link.slotframeHandle
    · refine ⟨hn, ?_⟩
      subst hn
      rw [hd.queue] at hgone
      rw [← List.takeWhile_append_dropWhile (p := fun q => decide (ttl q < asn))
        (l := (s.queue (.flow link.slotframeHandle)).toList), List.mem_append] at hp
      rcases hp with hp | hp
      · simpa using List.mem_takeWhile_imp hp
      · exact absurd hp hgone
    · rw [hd.others n hn] at hgone
      exact absurd hp hgone
  · rw [(h.otherwise hex).queue] at hgone
    exact absurd hp hgone

/-- Nor is one freed. -/
theorem WindowKept.freed {ttl earliest : PacketId → ℤ} {found : Option (PacketId × Nbr)}
    {t : State} (h : WindowKept u asn s link ttl earliest found t) {p : PacketId}
    (hp : p ∈ s.live) (hgone : p ∉ t.live) : ttl p < asn := by
  by_cases hex : Examines u s link
  · rw [(h.examined hex).live, List.mem_filter] at hgone
    have hmem : p ∈ (s.queue (.flow link.slotframeHandle)).toList.takeWhile (ttl · < asn) := by
      by_contra hnot
      exact hgone ⟨hp, by simpa using hnot⟩
    simpa using List.mem_takeWhile_imp hmem
  · rw [(h.otherwise hex).live] at hgone
    exact absurd hp hgone

section

variable {ttl earliest : PacketId → ℤ}

/-- The slots the packets of a queue stand for. -/
def Stands (s : State) (asn : ℕ) (n : Nbr) (ttl earliest : PacketId → ℤ) : Prop :=
  ∀ p ∈ (s.queue n).toList, Near asn (s.packet p).transmissionTtl (ttl p) ∧
    Near asn (s.packet p).earliestTxSlot (earliest p)

theorem Stands.isExpired (h : Stands s asn n ttl earliest) {p : PacketId}
    (hp : p ∈ (s.queue n).toList) : s.isExpired asn p = decide (ttl p < asn) := by
  have hlt := tschSlotnumLt_near (h p hp).1 (show (0 : ℤ) ≤ 1 by norm_num) le_rfl
  unfold State.isExpired
  by_cases hexp : ttl p < asn
  · have hfalse : tschSlotnumLt ((asn : ℤ) - 1) (s.packet p).transmissionTtl = false := by
      rw [← Bool.not_eq_true, hlt]
      omega
    rw [hfalse, decide_eq_true hexp]
    rfl
  · have htrue : tschSlotnumLt ((asn : ℤ) - 1) (s.packet p).transmissionTtl = true := by
      rw [hlt]
      omega
    rw [htrue, decide_eq_false hexp]
    rfl

theorem takeWhile_congr_mem {α : Type*} {f g : α → Bool} {l : List α} (h : ∀ a ∈ l, f a = g a) :
    l.takeWhile f = l.takeWhile g ∧ l.dropWhile f = l.dropWhile g := by
  induction l with
  | nil => exact ⟨rfl, rfl⟩
  | cons a l ih =>
    rcases ih (fun b hb => h b (List.mem_cons_of_mem _ hb)) with ⟨htake, hdrop⟩
    rw [List.takeWhile_cons, List.takeWhile_cons, List.dropWhile_cons, List.dropWhile_cons,
      h a List.mem_cons_self, htake, hdrop]
    exact ⟨rfl, rfl⟩

end

end

/-- Two packets of flow 1 at slot 1000: the first is expired, the second in its window. -/
def twoQueued : State :=
  let s := addPacket smallSizes (initState smallSizes) (.flow 1) ⟨0, 5, none, 990, 980, false⟩ true
  addPacket smallSizes s (.flow 1) ⟨0, 5, none, 1010, 995, false⟩ true

/-- The packet that was sent is still the first of its queue, and the queue is as it was. -/
def Stays (s : State) (n : Nbr) (p : PacketId) (asn : ℕ) (status : TxStatus) : Prop :=
  ((packetSent s n p asn status).2.2.queue n).toList = (s.queue n).toList

instance (s : State) (n : Nbr) (p : PacketId) (asn : ℕ) (status : TxStatus) :
    Decidable (Stays s n p asn status) :=
  inferInstanceAs (Decidable (_ = _))

/-- The slots that are left, cut to 8 bits, and the transmissions so far fit into a byte together
and some are left. -/
def Countable (transmissions : ℕ) (left : ℤ) : Prop :=
  0 < left % 256 ∧ transmissions + left % 256 ≤ 255

instance (transmissions : ℕ) (left : ℤ) : Decidable (Countable transmissions left) :=
  inferInstanceAs (Decidable (_ ∧ _))

section

variable {s : State} {n : Nbr} {p : PacketId} {asn : ℕ} {status : TxStatus} {slot : ℤ}

/-- A locked queue is left alone; otherwise its first packet goes. -/
theorem toList_removePacketFromQueue (hhead : (s.queue n).toList.head? = some p) :
    ((removePacketFromQueue s n).2.queue n).toList = (s.queue n).toList ↔ s.locked = true := by
  by_cases hl : s.locked = true
  · have hsame : removePacketFromQueue s n = (none, s) := by
      unfold removePacketFromQueue
      rw [if_pos hl]
    simp [hsame, hl]
  · rw [removePacketFromQueue_eq (Bool.eq_false_iff.2 hl) hhead]
    constructor
    · -- the tail of a list is shorter than the list
      intro heq
      have hcons := toList_popped hhead
      have hlen := congrArg List.length hcons
      dsimp only at heq
      rw [heq, List.length_cons] at hlen
      omega
    · intro h
      exact absurd h hl

/-- The new limit is above the count exactly if there is time and it fits. -/
theorem count_lt_limit {attr t : ℕ} (h : Near asn attr slot) (ht : 1 ≤ t) (ht' : t ≤ 255) :
    t < ((((attr : ℤ) - asn) % 256).toNat + t) % 256 ↔ Countable t (slot - asn) := by
  have hlow := h.low
  -- the low 8 bits of the attribute are those of the slot
  have hbyte : ((attr : ℤ) - asn) % 256 = (slot - asn) % 256 := by omega
  have hnonneg : 0 ≤ (slot - asn) % 256 := by omega
  have hbound : (slot - asn) % 256 < 256 := by omega
  rw [hbyte]
  unfold Countable
  constructor
  · intro hgt
    by_cases hfit : t + (slot - asn) % 256 ≤ 255
    · have hmod : ((((slot - asn) % 256).toNat + t) % 256) = ((slot - asn) % 256).toNat + t :=
        Nat.mod_eq_of_lt (by omega)
      rw [hmod] at hgt
      exact ⟨by omega, hfit⟩
    · -- the sum wraps to something below the count
      have hmod : ((((slot - asn) % 256).toNat + t) % 256) =
          ((slot - asn) % 256).toNat + t - 256 := by
        rw [Nat.mod_eq_sub_mod (by omega), Nat.mod_eq_of_lt (by omega)]
      rw [hmod] at hgt
      omega
  · rintro ⟨hpos, hfit⟩
    rw [Nat.mod_eq_of_lt (by omega)]
    omega

/-- When a packet stays after a failure. -/
theorem stays_iff (hstatus : status ≠ .ok) (hhead : (s.queue n).peekGet = some p)
    (ht : 1 ≤ (s.packet p).transmissions) (ht' : (s.packet p).transmissions ≤ 255)
    (hslot : Near asn (s.packet p).transmissionTtl slot) :
    Stays s n p asn status ↔
      s.locked = true ∨ asn < slot ∧ Countable (s.packet p).transmissions (slot - asn) := by
  have hhead' : (s.queue n).toList.head? = some p := by
    rw [← RingBuffer.peekGet_eq]
    exact hhead
  rcases touch_fixed s p with ⟨hqueue, hpacket, hlocked, _⟩
  have hlt : tschSlotnumLt asn (s.packet p).transmissionTtl = true ↔ asn < slot := by
    simpa using tschSlotnumLt_near (k := 0) hslot le_rfl (by norm_num)
  unfold Stays packetSent
  rw [if_neg hstatus]
  dsimp only
  rw [hpacket]
  by_cases htime : asn < slot
  · rw [if_pos (hlt.2 htime)]
    by_cases hcount : Countable (s.packet p).transmissions (slot - asn)
    · -- time is left, and the limit says so
      rw [if_neg (Nat.not_le.2 ((count_lt_limit hslot ht ht').2 hcount))]
      simp [hqueue, htime, hcount]
    · -- time is left, but the limit was cut
      rw [if_pos (Nat.not_lt.1 (fun h => hcount ((count_lt_limit hslot ht ht').1 h)))]
      dsimp only
      rw [← hqueue, toList_removePacketFromQueue (by dsimp only; rw [hqueue]; exact hhead')]
      simp [hlocked, hcount]
  · -- no time is left
    rw [if_neg (fun h => htime (hlt.1 h)), if_pos le_rfl]
    dsimp only
    rw [← hqueue, toList_removePacketFromQueue (by dsimp only; rw [hqueue]; exact hhead')]
    simp [hlocked, htime]

/-- A packet stays as long as there is time left exactly if the slots that are left
can be counted. -/
theorem retry_iff (hstatus : status ≠ .ok) (hhead : (s.queue n).peekGet = some p)
    (ht : 1 ≤ (s.packet p).transmissions) (ht' : (s.packet p).transmissions ≤ 255)
    (hslot : Near asn (s.packet p).transmissionTtl slot) :
    (Stays s n p asn status ↔ asn < slot) ↔
      (s.locked = true → asn < slot) ∧
        (asn < slot → s.locked = true ∨ Countable (s.packet p).transmissions (slot - asn)) := by
  rw [stays_iff hstatus hhead ht ht' hslot]
  tauto

end

/-- A packet of flow 1 that was sent once. -/
def sentOnce (ttl : ℕ) : State :=
  let s := addPacket smallSizes (initState smallSizes) (.flow 1) ⟨0, 5, none, ttl, 0, false⟩ true
  { s with packet := Function.update s.packet 0 { s.packet 0 with transmissions := 1 } }

theorem retry_iff_five :
    (Stays (sentOnce 1005) (.flow 1) 0 1000 .noAck ↔ (1000 : ℕ) < (1005 : ℤ)) ↔
      ((sentOnce 1005).locked = true → (1000 : ℕ) < (1005 : ℤ)) ∧
        ((1000 : ℕ) < (1005 : ℤ) → (sentOnce 1005).locked = true ∨
          Countable ((sentOnce 1005).packet 0).transmissions (1005 - (1000 : ℕ))) :=
  retry_iff (by decide) (by decide) (by decide) (by decide) ⟨by decide, by decide, by decide⟩

/-- 256 slots are left, and the packet is dropped. -/
theorem dropped_in_time :
    ¬ (Stays (sentOnce 1256) (.flow 1) 0 1000 .noAck ↔ (1000 : ℤ) < 1256) := by
  decide

end MasterScheduler.Mote.Queue

import MasterScheduler.Lib.Custody
import MasterScheduler.Mote.Queue

/-!
# MasterScheduler.Mote.Accounting — every packet is in one place

A packet of the TSCH queues should be in one queue, in the ring of dequeued
packets or in the hands of a process, and be freed once. A slot takes the first
packet of a queue for the one it sent, which is so as long as nobody else takes
packets from that queue during the slot.

- `Inv`: the packet of a slot is the first of its queue.
- `accounted_of_run`: runs in which every packet is accounted for.
- `freed_while_sending`: a run in which a packet is freed under a slot.
-/

namespace MasterScheduler.Mote.Queue

open Lib

/-- Where packets are. -/
inductive Place where
  | queue (n : Nbr)
  | dequeued
  | held
deriving DecidableEq, Repr

/-- The packets that only a process holds. -/
def held : List Frame → List PacketId
  | [] => []
  | .removed p :: frames => p :: held frames
  | .pending _ :: frames => held frames

def State.contents (s : State) : Place → List PacketId
  | .queue n => (s.queue n).toList
  | .dequeued => s.dequeued.toList
  | .held => held s.frames

/-- Every packet is accounted for. -/
structure Accounted (s : State) : Prop where
  /-- An allocated packet is in one place. -/
  place : ∀ p ∈ s.live, ∃! place, p ∈ s.contents place
  once : ∀ place, (s.contents place).Nodup
  live : ∀ place, ∀ p ∈ s.contents place, p ∈ s.live
  /-- Nothing was freed twice or used after it was freed. -/
  safe : s.fault = false
  /-- Queues are first in, first out. -/
  order : ∀ n, s.taken n ++ (s.queue n).toList = s.added n
  /-- A slot takes the packet out that it sent. -/
  sent : ∀ x ∈ s.dequeues, x.2 = some x.1

/-- A slot that is sending from a queue. -/
def State.Sending (s : State) (n : Nbr) : Prop :=
  ∃ slot, s.slot = some slot ∧ slot.neighbor = n ∧ slot.dequeuedIndex ≠ none

/-! ## The invariant -/

structure Inv (s : State) : Prop where
  custody : Exclusive s.contents
  live : ∀ p, p ∈ s.live ↔ ∃ place, p ∈ s.contents place
  fresh : ∀ p ∈ s.live, p < s.nextPacket
  safe : s.fault = false
  order : ∀ n, s.taken n ++ (s.queue n).toList = s.added n
  sent : ∀ x ∈ s.dequeues, x.2 = some x.1
  unlocked : s.slot ≠ none → s.locked = false
  /-- The packet of a slot is the first of its queue, and its place in the ring is free. -/
  slot : ∀ slot i, s.slot = some slot → slot.dequeuedIndex = some i →
    (s.queue slot.neighbor).toList.head? = some slot.packet ∧ s.dequeued.peekPut = some i
  single : s.frames.countP Frame.isPending ≤ 1
  /-- The packet in a sent callback is the first of the ring. -/
  pending : ∀ p, .pending p ∈ s.frames → s.dequeued.toList.head? = some p

/-- The invariant says that every packet is accounted for. -/
theorem Inv.accounted {s : State} (h : Inv s) : Accounted s where
  place p hp := by
    rcases (h.live p).1 hp with ⟨place, hplace⟩
    exact ⟨place, hplace, fun place' hplace' => h.custody.place hplace' hplace⟩
  once := h.custody.nodup
  live place p hp := (h.live p).2 ⟨place, hp⟩
  safe := h.safe
  order := h.order
  sent := h.sent

/-- What is somewhere is live. -/
theorem Inv.mem_live {s : State} (h : Inv s) (place : Place) {p : PacketId}
    (hp : p ∈ s.contents place) : p ∈ s.live :=
  (h.live p).2 ⟨place, hp⟩

theorem touch_of_live {s : State} {p : PacketId} (h : p ∈ s.live) : s.touch p = s := by
  unfold State.touch
  rw [if_pos h]

/-- Freeing a packet leaves the others live. -/
theorem mem_freed {live : List PacketId} {p : PacketId} (q : PacketId) :
    q ∈ live.filter (· ≠ p) ↔ q ≠ p ∧ q ∈ live := by
  rw [List.mem_filter, decide_eq_true_iff, and_comm]

/-- What a packet carries does not matter. -/
theorem Inv.setPacket {s : State} (h : Inv s) (packet : PacketId → Packet) :
    Inv { s with packet := packet } :=
  ⟨h.custody, h.live, h.fresh, h.safe, h.order, h.sent, h.unlocked, h.slot, h.single, h.pending⟩

theorem mem_of_head? {l : List PacketId} {p : PacketId} (h : l.head? = some p) : p ∈ l :=
  List.mem_of_mem_head? h

/-! ## Taking the first packet of a queue -/

/-- A state without the first packet of a queue. -/
def popped (s : State) (n : Nbr) (p : PacketId) : State :=
  { s with queue := Function.update s.queue n (s.queue n).get
           taken := Function.update s.taken n (s.taken n ++ [p]) }

/-- Taking the head of a queue. -/
theorem removePacketFromQueue_eq {s : State} {n : Nbr} {p : PacketId} (hl : s.locked = false)
    (hp : (s.queue n).toList.head? = some p) :
    removePacketFromQueue s n = (some p, popped s n p) := by
  unfold removePacketFromQueue
  rw [if_neg (Bool.eq_false_iff.1 hl), RingBuffer.peekGet_eq, hp]
  rfl

/-- What `tsch_queue_remove_packet_from_queue` does. -/
theorem removePacketFromQueue_cases (s : State) (n : Nbr) :
    removePacketFromQueue s n = (none, s) ∨
      ∃ p, s.locked = false ∧ (s.queue n).toList.head? = some p ∧
        removePacketFromQueue s n = (some p, popped s n p) := by
  by_cases hl : s.locked = true
  · left
    unfold removePacketFromQueue
    rw [if_pos hl]
  · rw [Bool.not_eq_true] at hl
    cases hp : (s.queue n).toList.head? with
    | none =>
      left
      unfold removePacketFromQueue
      rw [if_neg (Bool.eq_false_iff.1 hl), RingBuffer.peekGet_eq, hp]
    | some p => exact .inr ⟨p, hl, rfl, removePacketFromQueue_eq hl hp⟩

section

variable {s : State} {n : Nbr} {p : PacketId}

/-- The queue without its head. -/
theorem toList_popped (hp : (s.queue n).toList.head? = some p) :
    (s.queue n).toList = p :: ((popped s n p).queue n).toList := by
  unfold popped
  dsimp only
  rw [Function.update_self]
  exact RingBuffer.toList_pop ((RingBuffer.peekGet_eq _).trans hp)

/-- The other queues. -/
theorem queue_popped_of_ne {n' : Nbr} (h : n' ≠ n) :
    (popped s n p).queue n' = s.queue n' := by
  unfold popped
  exact Function.update_of_ne h _ _

/-- The other places. -/
theorem contents_popped :
    (popped s n p).contents =
      Function.update s.contents (.queue n) ((popped s n p).queue n).toList := by
  funext place
  cases place with
  | queue n' =>
    by_cases h : n' = n
    · subst h
      rw [Function.update_self]
      rfl
    · rw [Function.update_of_ne (by simpa using h)]
      show ((popped s n p).queue n').toList = _
      rw [queue_popped_of_ne h]
      rfl
  | dequeued => rfl
  | held => rfl

/-- Packets leave a queue in the order in which they came. -/
theorem order_popped (h : Inv s) (hp : (s.queue n).toList.head? = some p) (n' : Nbr) :
    (popped s n p).taken n' ++ ((popped s n p).queue n').toList = (popped s n p).added n' := by
  show _ = s.added n'
  rw [← h.order n']
  by_cases hn : n' = n
  · subst hn
    rw [toList_popped hp]
    show Function.update s.taken n' (s.taken n' ++ [p]) n' ++ _ = _
    rw [Function.update_self, List.append_assoc]
    rfl
  · rw [queue_popped_of_ne hn]
    show Function.update s.taken n (s.taken n ++ [p]) n' ++ _ = _
    rw [Function.update_of_ne hn]

/-- No packet is lost or made by taking one. -/
theorem perm_popped (hp : (s.queue n).toList.head? = some p) :
    (s.contents (.queue n)).Perm (p :: ((popped s n p).queue n).toList) := by
  show (s.queue n).toList.Perm _
  rw [toList_popped hp]

/-- A slot does not care about other queues. -/
theorem slot_popped (h : Inv s) (hsend : ¬ s.Sending n) (p : PacketId) (slot : Slot) (i : ℕ)
    (hslot : s.slot = some slot) (hi : slot.dequeuedIndex = some i) :
    ((popped s n p).queue slot.neighbor).toList.head? = some slot.packet ∧
      s.dequeued.peekPut = some i := by
  have hne : slot.neighbor ≠ n := by
    intro heq
    exact hsend ⟨slot, hslot, heq, by rw [hi]; simp⟩
  rw [queue_popped_of_ne hne]
  exact h.slot slot i hslot hi

/-- The packet is held by a process. -/
theorem Inv.hold (h : Inv s) (hp : (s.queue n).toList.head? = some p) (hsend : ¬ s.Sending n) :
    Inv { popped s n p with frames := .removed p :: s.frames } := by
  have hcontents : State.contents { popped s n p with frames := .removed p :: s.frames } =
      Function.update (Function.update s.contents (.queue n) ((popped s n p).queue n).toList)
        .held (p :: held s.frames) := by
    rw [← contents_popped]
    funext place
    cases place <;> rfl
  have hmove : (p :: held s.frames).Perm (p :: s.contents .held) := .refl _
  refine ⟨?_, fun q => ?_, h.fresh, h.safe, order_popped h hp, h.sent, h.unlocked,
    slot_popped h hsend p, ?_, fun q hq => ?_⟩
  · rw [hcontents]
    exact h.custody.move (by simp) (perm_popped hp) hmove
  · rw [hcontents, exists_mem_move h.custody (by simp) (perm_popped hp) hmove]
    exact h.live q
  · rw [List.countP_cons_of_neg Bool.false_ne_true]
    exact h.single
  · rcases List.mem_cons.1 hq with hq | hq
    · cases hq
    · exact h.pending q hq

/-- The packet is freed at once. -/
theorem Inv.free (h : Inv s) (hp : (s.queue n).toList.head? = some p) (hsend : ¬ s.Sending n) :
    Inv (freePacket (popped s n p) p) := by
  have hlive : p ∈ (popped s n p).live := h.mem_live (.queue n) (mem_of_head? hp)
  have hcontents : (freePacket (popped s n p) p).contents =
      Function.update s.contents (.queue n) ((popped s n p).queue n).toList := by
    rw [← contents_popped]
    unfold freePacket
    rw [touch_of_live hlive]
    funext place
    cases place <;> rfl
  have hcustody : Exclusive (freePacket (popped s n p) p).contents := by
    rw [hcontents]
    exact (h.custody.remove (perm_popped hp)).1
  have hmem : ∀ q, (∃ place, q ∈ (freePacket (popped s n p) p).contents place) ↔
      q ≠ p ∧ q ∈ s.live := by
    intro q
    rw [hcontents, exists_mem_remove h.custody (perm_popped hp), h.live q]
  unfold freePacket at hcustody hmem ⊢
  rw [touch_of_live hlive] at hcustody hmem ⊢
  exact ⟨hcustody, fun q => (mem_freed q).trans (hmem q).symm,
    fun q hq => h.fresh q ((mem_freed q).1 hq).2, h.safe, order_popped h hp, h.sent, h.unlocked,
    slot_popped h hsend p, h.single, h.pending⟩

/-- The packet goes to the ring of dequeued packets. -/
theorem Inv.dequeue (h : Inv s) (hp : (s.queue n).toList.head? = some p) {i : ℕ}
    (hi : s.dequeued.peekPut = some i) (packet : PacketId → Packet) :
    Inv { popped s n p with
      slot := none
      packet := packet
      dequeued := (s.dequeued.write i p).put
      dequeues := s.dequeues ++ [(p, some p)] } := by
  have hpush := RingBuffer.toList_push hi p
  have hcontents : State.contents { popped s n p with
        slot := none
        packet := packet
        dequeued := (s.dequeued.write i p).put
        dequeues := s.dequeues ++ [(p, some p)] } =
      Function.update (Function.update s.contents (.queue n) ((popped s n p).queue n).toList)
        .dequeued (s.dequeued.toList ++ [p]) := by
    rw [← contents_popped]
    funext place
    cases place with
    | queue n' => rfl
    | dequeued => exact hpush
    | held => rfl
  -- The packet moves from the front of its queue to the end of the dequeued ones.
  have hmove : (s.dequeued.toList ++ [p]).Perm (p :: s.contents .dequeued) :=
    List.perm_append_singleton p s.dequeued.toList
  refine ⟨?_, fun q => ?_, h.fresh, h.safe, order_popped h hp, fun x hx => ?_, fun hnone => ?_,
    fun slot i hslot => ?_, h.single, fun q hq => ?_⟩
  · rw [hcontents]
    exact h.custody.move (by simp) (perm_popped hp) hmove
  · rw [hcontents, exists_mem_move h.custody (by simp) (perm_popped hp) hmove]
    exact h.live q
  · rcases List.mem_append.1 hx with hx | hx
    · exact h.sent x hx
    · rw [List.mem_singleton.1 hx]
  · exact absurd rfl hnone
  · cases hslot
  · show (s.dequeued.write i p).put.toList.head? = some q
    rw [hpush, List.head?_append, h.pending q hq]
    rfl

/-- The slot is over. -/
theorem Inv.noSlot (h : Inv s) : Inv { s with slot := none } := by
  refine ⟨h.custody, h.live, h.fresh, h.safe, h.order, h.sent, fun hnone => absurd rfl hnone,
    fun slot i hslot => ?_, h.single, h.pending⟩
  cases hslot

/-- The process frees the packet it took from a queue. -/
theorem Inv.free_removed (h : Inv s) {frames : List Frame} (hf : s.frames = .removed p :: frames) :
    Inv { freePacket s p with frames := frames } := by
  have hheld : s.contents .held = p :: held frames := by
    show held s.frames = _
    rw [hf]
    rfl
  have hlive : p ∈ s.live := h.mem_live .held (hheld ▸ List.mem_cons_self)
  unfold freePacket
  rw [touch_of_live hlive]
  have hcontents : State.contents { s with
        live := s.live.filter (· ≠ p), frames := frames } =
      Function.update s.contents .held (held frames) := by
    funext place
    cases place <;> rfl
  have hperm : (s.contents .held).Perm (p :: held frames) := hheld ▸ .refl _
  refine ⟨?_, fun q => ?_, fun q hq => h.fresh q ((mem_freed q).1 hq).2, h.safe, h.order, h.sent,
    h.unlocked, h.slot, ?_, fun q hq => h.pending q ?_⟩
  · rw [hcontents]
    exact (h.custody.remove hperm).1
  · rw [hcontents, exists_mem_remove h.custody hperm]
    rw [← h.live q]
    exact mem_freed q
  · have hsingle := h.single
    rw [hf, List.countP_cons_of_neg Bool.false_ne_true] at hsingle
    exact hsingle
  · rw [hf]
    exact List.mem_cons_of_mem _ hq

/-- The process frees the packet whose sent callback has run. -/
theorem Inv.free_pending (h : Inv s) {frames : List Frame} (hf : s.frames = .pending p :: frames) :
    Inv { freePacket s p with
      frames := frames, dequeued := (freePacket s p).dequeued.get } := by
  have hhead : s.dequeued.toList.head? = some p := h.pending p (hf ▸ List.mem_cons_self)
  have hpop : s.dequeued.toList = p :: s.dequeued.get.toList :=
    RingBuffer.toList_pop ((RingBuffer.peekGet_eq _).trans hhead)
  have hlive : p ∈ s.live := h.mem_live .dequeued (mem_of_head? hhead)
  unfold freePacket
  rw [touch_of_live hlive]
  have hcontents : State.contents { s with
        live := s.live.filter (· ≠ p), frames := frames, dequeued := s.dequeued.get } =
      Function.update s.contents .dequeued s.dequeued.get.toList := by
    funext place
    cases place with
    | queue n => rfl
    | dequeued => rfl
    | held =>
      show held frames = held s.frames
      rw [hf]
      rfl
  have hperm : (s.contents .dequeued).Perm (p :: s.dequeued.get.toList) := by
    show s.dequeued.toList.Perm _
    rw [hpop]
  -- there is no other sent callback
  have hsingle : frames.countP Frame.isPending = 0 := by
    have := h.single
    rw [hf, List.countP_cons_of_pos rfl] at this
    omega
  refine ⟨?_, fun q => ?_, fun q hq => h.fresh q ((mem_freed q).1 hq).2, h.safe, h.order, h.sent,
    h.unlocked, fun slot i hslot hi => ⟨(h.slot slot i hslot hi).1, ?_⟩, ?_, fun q hq => ?_⟩
  · rw [hcontents]
    exact (h.custody.remove hperm).1
  · rw [hcontents, exists_mem_remove h.custody hperm]
    rw [← h.live q]
    exact mem_freed q
  · exact RingBuffer.peekPut_get (h.slot slot i hslot hi).2
  · show frames.countP Frame.isPending ≤ 1
    omega
  · exact absurd rfl (List.countP_eq_zero.1 hsingle _ hq)

/-- A new packet at the end of a queue. -/
theorem Inv.enqueue (h : Inv s) {i : ℕ} (hput : (s.queue n).peekPut = some i)
    (packet : PacketId → Packet) :
    Inv { s with
      live := s.nextPacket :: s.live
      nextPacket := s.nextPacket + 1
      packet := packet
      queue := Function.update s.queue n ((s.queue n).write i s.nextPacket).put
      added := Function.update s.added n (s.added n ++ [s.nextPacket]) } := by
  have hpush := RingBuffer.toList_push hput s.nextPacket
  -- The queue of the packet grows by it, the other queues stay.
  have hqueue : ∀ n', (Function.update s.queue n ((s.queue n).write i s.nextPacket).put n').toList =
      if n' = n then (s.queue n).toList ++ [s.nextPacket] else (s.queue n').toList := by
    intro n'
    split_ifs with hn
    · rw [hn, Function.update_self, hpush]
    · rw [Function.update_of_ne hn]
  have hcontents : State.contents { s with
        live := s.nextPacket :: s.live
        nextPacket := s.nextPacket + 1
        packet := packet
        queue := Function.update s.queue n ((s.queue n).write i s.nextPacket).put
        added := Function.update s.added n (s.added n ++ [s.nextPacket]) } =
      Function.update s.contents (.queue n) ((s.queue n).toList ++ [s.nextPacket]) := by
    funext place
    cases place with
    | queue n' =>
      refine (hqueue n').trans ?_
      split_ifs with hn
      · rw [hn, Function.update_self]
      · rw [Function.update_of_ne (by simpa using hn)]
        rfl
    | dequeued => rfl
    | held => rfl
  -- Its number was never given out, so it is nowhere else.
  have hnew : ∀ place, s.nextPacket ∉ s.contents place := by
    intro place hmem
    exact Nat.lt_irrefl _ (h.fresh _ (h.mem_live _ hmem))
  have hinsert : ((s.queue n).toList ++ [s.nextPacket]).Perm
      (s.nextPacket :: s.contents (.queue n)) :=
    List.perm_append_singleton s.nextPacket (s.queue n).toList
  refine ⟨?_, fun q => ?_, fun q hq => ?_, h.safe, fun n' => ?_, h.sent, h.unlocked,
    fun slot j hslot hj => ⟨?_, (h.slot slot j hslot hj).2⟩, h.single, h.pending⟩
  · rw [hcontents]
    exact h.custody.insert hnew hinsert
  · rw [hcontents, exists_mem_insert hinsert, ← h.live q]
    exact List.mem_cons
  · rcases List.mem_cons.1 hq with rfl | hq
    · exact Nat.lt_succ_self _
    · exact Nat.lt_succ_of_lt (h.fresh q hq)
  · dsimp only
    rw [hqueue n']
    split_ifs with hn
    · rw [hn, Function.update_self, ← List.append_assoc, h.order n]
    · rw [Function.update_of_ne hn, h.order n']
  · -- the first packet stays the first
    dsimp only
    rw [hqueue slot.neighbor]
    split_ifs with hn
    · rw [← hn, List.head?_append, (h.slot slot j hslot hj).1]
      rfl
    · exact (h.slot slot j hslot hj).1

/-- A packet that is added. -/
theorem Inv.addPacket (h : Inv s) (z : Sizes) (n : Nbr) (content : Packet) (queuebuf : Bool) :
    Inv (addPacket z s n content queuebuf) := by
  unfold Queue.addPacket
  by_cases hl : s.locked = true
  · rw [if_pos hl]
    exact h
  · rw [if_neg hl]
    cases hput : (s.queue n).peekPut with
    | none => exact h
    | some i =>
      dsimp only
      split_ifs
      · exact h.enqueue hput _
      · exact h

/-- A packet whose callback is about to be called. -/
theorem Inv.processPending (h : Inv s) (hp : s.dequeued.peekGet = some p)
    (hnone : s.frames.any Frame.isPending = false) :
    Inv { s.touch p with frames := .pending p :: (s.touch p).frames } := by
  rw [RingBuffer.peekGet_eq] at hp
  rw [touch_of_live (h.mem_live .dequeued (mem_of_head? hp))]
  have hzero : s.frames.countP Frame.isPending = 0 := by
    rw [List.countP_eq_zero]
    exact List.any_eq_false.1 hnone
  have hcontents : State.contents { s with frames := .pending p :: s.frames } = s.contents := by
    funext place
    cases place <;> rfl
  refine ⟨hcontents ▸ h.custody, hcontents ▸ h.live, h.fresh, h.safe, h.order, h.sent,
    h.unlocked, h.slot, ?_, fun q hq => ?_⟩
  · show (Frame.pending p :: s.frames).countP Frame.isPending ≤ 1
    rw [List.countP_cons_of_pos rfl, hzero]
  · rcases List.mem_cons.1 hq with hq | hq
    · cases hq
      exact hp
    · exact h.pending q hq

/-! ## What the search for a packet leaves alone -/

/-- No packet is allocated, and none is changed. -/
def SameContent (s t : State) : Prop := t.nextPacket = s.nextPacket ∧ t.packet = s.packet

/-- The packets are where they were. -/
theorem SameContent.trans {a b c : State} (hab : SameContent a b) (hbc : SameContent b c) :
    SameContent a c :=
  ⟨hbc.1.trans hab.1, hbc.2.trans hab.2⟩

theorem sameContent_touch (s : State) (p : PacketId) : SameContent s (s.touch p) := by
  unfold State.touch
  split_ifs <;> exact ⟨rfl, rfl⟩

theorem sameContent_freePacket (s : State) (p : PacketId) : SameContent s (freePacket s p) :=
  sameContent_touch s p

theorem sameContent_removePacketFromQueue (s : State) (n : Nbr) :
    SameContent s (removePacketFromQueue s n).2 := by
  rcases removePacketFromQueue_cases s n with hr | ⟨p, _, _, hr⟩ <;>
    (rw [hr]; exact ⟨rfl, rfl⟩)

section

variable (usable : Nbr → PacketId → Bool) (asn : ℕ)

/-- Expired packets are taken to be freed. -/
theorem sameContent_dropExpired (n : Nbr) (l : List PacketId) (s : State) :
    SameContent s (dropExpired usable asn n l s).2 := by
  induction l generalizing s with
  | nil => exact ⟨rfl, rfl⟩
  | cons p rest ih =>
    unfold dropExpired
    dsimp only
    split_ifs
    · exact sameContent_touch s p
    · -- the packet is freed and the next one looked at
      exact (((sameContent_touch s p).trans (sameContent_removePacketFromQueue _ n)).trans
        (sameContent_freePacket _ p)).trans (ih _)
    · exact ⟨rfl, rfl⟩

/-- The search for a packet changes flags only. -/
theorem sameContent_getDataPacketForLink (s : State) (link : Link) :
    SameContent s (getDataPacketForLink usable asn s link).2 := by
  have htouch : ∀ q : Option PacketId, SameContent s (q.elim s s.touch) := by
    intro q
    cases q with
    | none => exact ⟨rfl, rfl⟩
    | some q => exact sameContent_touch s q
  unfold getDataPacketForLink
  dsimp only
  split
  · exact htouch _
  · split_ifs
    · exact htouch _
    · exact (htouch _).trans (sameContent_dropExpired usable asn _ _ _)

/-- Also over all neighbors. -/
theorem sameContent_getPacketAndNeighborForLink (s : State) (link : Link) :
    SameContent s (getPacketAndNeighborForLink usable asn s link).2 := by
  unfold getPacketAndNeighborForLink
  by_cases htx : link.tx = true
  · rw [if_pos htx]
    split
    · exact ⟨rfl, rfl⟩
    · by_cases honly : link.linkType = .advertisingOnly
      · rw [if_pos honly]
        exact ⟨rfl, rfl⟩
      · rw [if_neg honly]
        exact sameContent_getDataPacketForLink usable asn s link
  · rw [if_neg htx]
    exact ⟨rfl, rfl⟩

/-- And the start of a slot. -/
theorem sameContent_startSlot (s : State) (link : Link) (backup : Option Link) :
    SameContent s (startSlot usable asn s link backup) := by
  have hfirst := sameContent_getPacketAndNeighborForLink usable asn s link
  have hpacket : SameContent s (packetOfSlot usable asn s link backup).2 := by
    unfold packetOfSlot
    dsimp only
    split
    · split_ifs
      · exact hfirst
      · exact hfirst.trans (sameContent_getPacketAndNeighborForLink usable asn _ _)
    · exact hfirst
  unfold startSlot
  dsimp only
  split
  · exact hpacket
  · split_ifs
    · exact hpacket
    · exact hpacket.trans (sameContent_touch _ _)

end

/-! ## Slots -/

/-- A packet that is found is at the head of its queue. -/
theorem head?_of_getPacketForNbr {usable : Nbr → PacketId → Bool}
    (h : getPacketForNbr s usable n = some p) :
    s.locked = false ∧ (s.queue n).toList.head? = some p := by
  unfold getPacketForNbr at h
  split_ifs at h with hl
  rcases Option.filter_eq_some_iff.1 h with ⟨hp, _⟩
  exact ⟨Bool.eq_false_iff.2 hl, (RingBuffer.peekGet_eq _).symm.trans hp⟩

/-- What is known of the packet that was picked, before the slot goes on. -/
structure Picked (found : Option (PacketId × Nbr)) (s : State) : Prop where
  inv : Inv s
  noSlot : s.slot = none
  found : ∀ p n, found = some (p, n) → s.locked = false ∧ (s.queue n).toList.head? = some p

/-- No packet is picked. -/
theorem Picked.nothing (h : Inv s) (hslot : s.slot = none) : Picked none s :=
  ⟨h, hslot, fun _ _ hnone => nomatch hnone⟩

theorem not_sending (hslot : s.slot = none) : ¬ s.Sending n := by
  rintro ⟨slot, hs, _⟩
  rw [hslot] at hs
  cases hs

/-- Expired packets are freed, one after the other. -/
theorem picked_dropExpired {usable : Nbr → PacketId → Bool} {asn : ℕ} {l : List PacketId}
    (h : Inv s) (hslot : s.slot = none) (hlocked : s.locked = false)
    (hl : (s.queue n).toList = l) :
    Picked ((dropExpired usable asn n l s).1.map (·, n)) (dropExpired usable asn n l s).2 := by
  induction l generalizing s with
  | nil => exact .nothing h hslot
  | cons p rest ih =>
    have hp : (s.queue n).toList.head? = some p := by
      rw [hl]
      rfl
    unfold dropExpired
    rw [touch_of_live (h.mem_live (.queue n) (mem_of_head? hp))]
    dsimp only
    rw [removePacketFromQueue_eq hlocked hp]
    split_ifs
    · refine ⟨h, hslot, fun q n' hq => ?_⟩
      cases hq
      exact ⟨hlocked, hp⟩
    · have hlive : p ∈ (popped s n p).live := h.mem_live (.queue n) (mem_of_head? hp)
      have hrest : ((freePacket (popped s n p) p).queue n).toList = rest := by
        have htail := toList_popped hp
        rw [hl] at htail
        unfold freePacket
        rw [touch_of_live hlive]
        exact (List.cons.inj htail).2.symm
      refine ih (h.free hp (not_sending hslot)) ?_ ?_ hrest
      · unfold freePacket
        rw [touch_of_live hlive]
        exact hslot
      · unfold freePacket
        rw [touch_of_live hlive]
        exact hlocked
    · exact .nothing h hslot

/-- It may be too early to send the packet. -/
theorem Picked.filter {found : Option PacketId} (h : Picked (found.map (·, n)) s)
    (f : PacketId → Bool) : Picked ((found.filter f).map (·, n)) s := by
  refine ⟨h.inv, h.noSlot, fun p n' hp => h.found p n' ?_⟩
  rcases Option.map_eq_some_iff.1 hp with ⟨q, hq, hqp⟩
  exact Option.map_eq_some_iff.2 ⟨q, (Option.filter_eq_some_iff.1 hq).1, hqp⟩

/-- A packet that is found is picked. -/
theorem Picked.of_getPacketForNbr {usable : Nbr → PacketId → Bool} (h : Inv s)
    (hslot : s.slot = none) (hp : getPacketForNbr s usable n = some p) :
    Picked (some (p, n)) s := by
  refine ⟨h, hslot, fun q n' hq => ?_⟩
  cases hq
  exact head?_of_getPacketForNbr hp

/-- The data packet for a link. -/
theorem picked_getDataPacketForLink (usable : Nbr → PacketId → Bool) (asn : ℕ) (h : Inv s)
    (hslot : s.slot = none) (link : Link) :
    Picked (getDataPacketForLink usable asn s link).1
      (getDataPacketForLink usable asn s link).2 := by
  -- looking at the packet of the link does no harm
  have htouch : (getPacketForNbr s usable link.addr).elim s s.touch = s := by
    cases hp : getPacketForNbr s usable link.addr with
    | none => rfl
    | some p =>
      exact touch_of_live (h.mem_live (.queue link.addr)
        (mem_of_head? (head?_of_getPacketForNbr hp).2))
  unfold getDataPacketForLink
  dsimp only
  rw [htouch]
  split
  · rename_i p hp
    exact .of_getPacketForNbr h hslot (Option.filter_eq_some_iff.1 hp).1
  · split_ifs with hl
    · exact .nothing h hslot
    · exact (picked_dropExpired h hslot (Bool.eq_false_iff.2 hl) rfl).filter _

/-- The packet for a link, also a beacon. -/
theorem picked_getPacketAndNeighborForLink (usable : Nbr → PacketId → Bool) (asn : ℕ)
    (h : Inv s) (hslot : s.slot = none) (link : Link) :
    Picked (getPacketAndNeighborForLink usable asn s link).1
      (getPacketAndNeighborForLink usable asn s link).2 := by
  unfold getPacketAndNeighborForLink
  by_cases htx : link.tx = true
  · rw [if_pos htx]
    split
    · rename_i p hp
      split_ifs at hp
      exact .of_getPacketForNbr h hslot hp
    · split_ifs
      · exact .nothing h hslot
      · exact picked_getDataPacketForLink usable asn h hslot link
  · rw [if_neg htx]
    exact .nothing h hslot

/-- The packet for the link or its backup. -/
theorem picked_packetOfSlot (usable : Nbr → PacketId → Bool) (asn : ℕ) (h : Inv s)
    (hslot : s.slot = none) (link : Link) (backup : Option Link) :
    Picked (packetOfSlot usable asn s link backup).1 (packetOfSlot usable asn s link backup).2 := by
  have hfirst := picked_getPacketAndNeighborForLink usable asn h hslot link
  unfold packetOfSlot
  dsimp only
  split
  · split_ifs
    · exact .nothing hfirst.inv hfirst.noSlot
    · exact picked_getPacketAndNeighborForLink usable asn hfirst.inv hfirst.noSlot _
  · exact hfirst

/-- A slot starts with a packet that is picked. -/
theorem Inv.startSlot (h : Inv s) (hslot : s.slot = none) (usable : Nbr → PacketId → Bool)
    (asn : ℕ) (link : Link) (backup : Option Link) :
    Inv (startSlot usable asn s link backup) := by
  have hpicked := picked_packetOfSlot usable asn h hslot link backup
  unfold Queue.startSlot
  dsimp only
  split
  · exact hpicked.inv
  · rename_i p n hfound
    rcases hpicked.found p n hfound with ⟨hl, hp⟩
    have hinv := hpicked.inv
    rw [touch_of_live (hinv.mem_live (.queue n) (mem_of_head? hp)), ite_self]
    refine ⟨hinv.custody, hinv.live, hinv.fresh, hinv.safe, hinv.order, hinv.sent, fun _ => hl,
      fun slot i hs hi => ?_, hinv.single, hinv.pending⟩
    cases hs
    exact ⟨hp, hi⟩

/-- The packet of a slot stays in the queue, or it is what the slot takes out. -/
theorem packetSent_cases (hl : s.locked = false) (hp : (s.queue n).toList.head? = some p)
    (hlive : p ∈ s.live) (asn : ℕ) (status : TxStatus) :
    ∃ packet, packetSent s n p asn status = (true, none, { s with packet := packet }) ∨
      packetSent s n p asn status = (false, some p, popped { s with packet := packet } n p) := by
  have hremove : ∀ packet, removePacketFromQueue { s with packet := packet } n =
      (some p, popped { s with packet := packet } n p) := fun packet =>
    removePacketFromQueue_eq hl hp
  unfold packetSent
  split_ifs with hok
  · refine ⟨s.packet, .inr ?_⟩
    rw [removePacketFromQueue_eq hl hp]
  · rw [touch_of_live hlive]
    dsimp only
    rw [hremove]
    split_ifs
    · exact ⟨_, .inr rfl⟩
    · exact ⟨_, .inl rfl⟩
    · exact ⟨_, .inr rfl⟩
    · exact ⟨_, .inl rfl⟩

/-- A slot ends: the packet stays, or goes to the ring. -/
theorem Inv.endSlot (h : Inv s) {slot : Slot} (hslot : s.slot = some slot) (status : TxStatus) :
    Inv (endSlot s slot status) := by
  unfold Queue.endSlot
  cases hi : slot.dequeuedIndex with
  | none => exact h.noSlot
  | some i =>
    rcases h.slot slot i hslot hi with ⟨hp, hput⟩
    have hl := h.unlocked (by rw [hslot]; simp)
    have hlive : slot.packet ∈ s.live :=
      h.mem_live (.queue slot.neighbor) (mem_of_head? hp)
    dsimp only
    rw [touch_of_live hlive]
    generalize Function.update s.packet slot.packet _ = packet
    rcases packetSent_cases (s := { s with slot := none, packet := packet }) hl hp hlive slot.asn
      status with ⟨packet', hsent | hsent⟩
    · rw [hsent]
      exact h.noSlot.setPacket packet'
    · rw [hsent]
      exact h.dequeue hp hput packet'

end

/-! ## Runs -/

/-- Nobody takes a packet out of a queue that a slot is sending from. -/
def HeadKept (s : State) : Event → Prop
  | .removePacket n | .flush n => ¬ s.Sending n
  | _ => True

instance (s : State) (n : Nbr) : Decidable (s.Sending n) :=
  decidable_of_iff
    (s.slot.any (fun slot => slot.neighbor = n ∧ slot.dequeuedIndex ≠ none) = true) (by
      unfold State.Sending
      cases s.slot <;> simp)

instance (s : State) : ∀ e, Decidable (HeadKept s e)
  | .removePacket n | .flush n => inferInstanceAs (Decidable (¬ s.Sending n))
  | .addPacket .. | .startSlot .. | .endSlot _ | .processPending | .free | .getLock
  | .releaseLock => isTrue trivial

/-- One event. -/
theorem Inv.step {z : Sizes} {s t : State} {e : Event} (h : Inv s) (hok : HeadKept s e)
    (hstep : Queue.step z s e = some t) : Inv t := by
  unfold Queue.step at hstep
  rw [if_neg (Bool.eq_false_iff.1 h.safe)] at hstep
  unfold act at hstep
  -- One case for each function of the queue; a slot that ends may free its packet.
  cases e with
  | addPacket n content queuebuf =>
    cases hstep
    exact h.addPacket z n content queuebuf
  | startSlot usable asn link backup =>
    dsimp only at hstep
    split_ifs at hstep with hslot
    cases hstep
    exact h.startSlot hslot usable asn link backup
  | endSlot status =>
    rcases Option.map_eq_some_iff.1 hstep with ⟨slot, hslot, rfl⟩
    exact h.endSlot hslot status
  | removePacket n =>
    dsimp only at hstep
    rcases removePacketFromQueue_cases s n with hr | ⟨p, _, hp, hr⟩
    · rw [hr] at hstep
      cases hstep
      exact h
    · rw [hr] at hstep
      cases hstep
      exact h.hold hp hok
  | flush n =>
    dsimp only at hstep
    rcases removePacketFromQueue_cases s n with hr | ⟨p, _, hp, hr⟩
    · rw [hr] at hstep
      cases hstep
    · rw [hr] at hstep
      dsimp only at hstep
      rw [touch_of_live (s := popped s n p)
        (h.mem_live (.queue n) (mem_of_head? hp))] at hstep
      cases hstep
      exact (h.hold hp hok).setPacket _
  | processPending =>
    dsimp only at hstep
    split_ifs at hstep with hnone
    rcases Option.map_eq_some_iff.1 hstep with ⟨p, hp, rfl⟩
    exact h.processPending hp (Bool.eq_false_iff.2 hnone)
  | free =>
    dsimp only at hstep
    split at hstep
    · cases hstep
    · rename_i p frames hf
      cases hstep
      exact h.free_removed hf
    · rename_i p frames hf
      cases hstep
      exact h.free_pending hf
  | getLock =>
    dsimp only at hstep
    split_ifs at hstep with hfree
    cases hstep
    exact ⟨h.custody, h.live, h.fresh, h.safe, h.order, h.sent, fun hs => absurd hfree.1 hs,
      h.slot, h.single, h.pending⟩
  | releaseLock =>
    dsimp only at hstep
    split_ifs at hstep
    cases hstep
    exact ⟨h.custody, h.live, h.fresh, h.safe, h.order, h.sent, fun _ => rfl, h.slot, h.single,
      h.pending⟩

theorem inv_initState (z : Sizes) : Inv (initState z) := by
  have hnil : ∀ place, (initState z).contents place = [] := by
    intro place
    cases place with
    | queue n => exact RingBuffer.toList_init _
    | dequeued => exact RingBuffer.toList_init _
    | held => rfl
  refine ⟨⟨fun place => ?_, fun {i j a} hi => ?_⟩, fun p => ⟨fun hp => ?_, ?_⟩, fun p hp => ?_, rfl,
    fun n => hnil (.queue n), fun x hx => ?_, fun hs => absurd rfl hs, fun slot i hs => ?_,
    Nat.zero_le _, fun p hp => ?_⟩
  · rw [hnil place]
    exact List.nodup_nil
  · rw [hnil i] at hi
    cases hi
  · cases hp
  · rintro ⟨place, hp⟩
    rw [hnil place] at hp
    cases hp
  · cases hp
  · cases hx
  · cases hs
  · cases hp

/-- In every run in which no packet is taken from under a slot, every packet is
accounted for. -/
theorem accounted_of_run (z : Sizes) (s : State)
    (hrun : Run (Queue.step z) HeadKept (initState z) s) : Accounted s :=
  (hrun.invariant (fun _ _ _ h hok hstep => h.step hok hstep) (inv_initState z)).accounted

/-- Four cells for each neighbor, eight packets. -/
def smallSizes : Sizes := ⟨4, 8, 8⟩

/-- A packet for the neighbor itself is added, and a slot starts to send it. -/
def sendEvents : List Event :=
  [.addPacket (.node 5) ⟨0, 3, none, 0, 0, true⟩ true,
    .startSlot (fun _ _ => true) 7 ⟨true, true, .normal, .node 5, 0⟩ none]

/-- The routing layer removes a packet of another neighbor, and the slot ends. -/
theorem accounted_of_run_sent :
    ∃ s, Run (Queue.step smallSizes) HeadKept (initState smallSizes) s ∧
      s.dequeues = [(0, some 0)] ∧ s.live = [] ∧ Accounted s := by
  obtain ⟨s, hrun, hs⟩ := exists_run_of_runEvents (Queue.step smallSizes) HeadKept
    (initState smallSizes) (sendEvents ++ [.addPacket (.node 6) ⟨0, 3, none, 0, 0, true⟩ true,
      .removePacket (.node 6), .free, .endSlot .ok, .processPending, .free])
    (fun s => s.dequeues = [(0, some 0)] ∧ s.live = []) (by decide)
  exact ⟨s, hrun, hs.1, hs.2, accounted_of_run smallSizes s hrun⟩

/-- The routing layer removes the packet and frees it while the slot is sending it. -/
theorem freed_while_sending :
    ∃ s, Run (Queue.step smallSizes) (fun _ _ => True) (initState smallSizes) s ∧
      ¬ Accounted s := by
  obtain ⟨s, hrun, hs⟩ := exists_run_of_runEvents (Queue.step smallSizes) (fun _ _ => True)
    (initState smallSizes) (sendEvents ++ [.removePacket (.node 5), .free, .endSlot .ok])
    (fun s => s.fault = true) (by decide)
  refine ⟨s, hrun, fun h => ?_⟩
  rw [h.safe] at hs
  cases hs

end MasterScheduler.Mote.Queue

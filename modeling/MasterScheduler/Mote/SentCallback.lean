import MasterScheduler.Mote.Accounting
import MasterScheduler.Mote.Framer

/-!
# MasterScheduler.Mote.SentCallback — what a sent callback finds in the buffer

A sent callback learns which packet it is about from the attributes and
addresses of the packet buffer. `tsch_tx_process_pending` copies them back from
the queuebuf of the packet; the flush of a queue does not.

1. **Model**: the queues of `MasterScheduler.Mote.Queue` with the attributes of
   the buffer and of every queuebuf.
2. **Step**: `Inv.step`, what one event does to the calls that are recorded.
3. **Runs**: `own_of_run`.

A sent callback may do whatever else there is: what it does to the buffer and to
the queues are events of their own.
-/

namespace MasterScheduler.Mote.SentCallback

open Lib Frame802154 Queue

/-! ## Model -/

/-- The attributes and addresses of the packet buffer that sent callbacks read. -/
structure Visible where
  /-- `PACKETBUF_ATTR_PACKET_COMMAND`. -/
  packetCommand : UInt16
  /-- `PACKETBUF_ATTR_PACKET_NUMBER`. -/
  packetNumber : UInt16
  /-- `PACKETBUF_ATTR_PACKET_HDR_SIZE`. -/
  packetHdrSize : UInt16
  /-- `PACKETBUF_ATTR_MAC_METADATA`. -/
  macMetadata : UInt16
  /-- `PACKETBUF_ADDR_SENDER`. -/
  sender : Linkaddr
  /-- `PACKETBUF_ADDR_RECEIVER`. -/
  receiver : Linkaddr
deriving DecidableEq, Repr

/-- A call of a sent callback. -/
structure Call where
  packet : PacketId
  seen : Visible
deriving DecidableEq, Repr

structure State where
  queues : Queue.State
  /-- The attributes in the packet buffer. -/
  packetbuf : Visible
  /-- The attributes in the queuebuf of a packet. -/
  qb : PacketId → Visible
  /-- `sent` of a packet is not `NULL`. -/
  sent : PacketId → Bool
  calls : List Call

def initState (z : Sizes) (packetbuf : Visible) : State where
  queues := Queue.initState z
  packetbuf := packetbuf
  qb := fun _ => packetbuf
  sent := fun _ => false
  calls := []

/-- `mac_call_sent_callback`. -/
def macCallSentCallback (s : State) (p : PacketId) : State :=
  if s.sent p then { s with calls := s.calls ++ [⟨p, s.packetbuf⟩] } else s

/-- `queuebuf_to_packetbuf`, as far as attributes go. -/
def queuebufToPacketbuf (s : State) (p : PacketId) : State := { s with packetbuf := s.qb p }

inductive Event where
  /-- A send, a reception or a callback leaves other attributes in the buffer. -/
  | write (packetbuf : Visible)
  /-- An event of the queues; `sent` is whether a packet that is added has a sent callback. -/
  | queues (e : Queue.Event) (sent : Bool)

/-- What an event of the queues does beyond them, given the queues after it. -/
def follow (s : State) (t : Queue.State) (sent : Bool) : Queue.Event → State
  | .addPacket .. =>
      let p := s.queues.nextPacket
      if t.nextPacket = p then { s with queues := t }
      else
        -- `queuebuf_new_from_packetbuf`
        { s with queues := t
                 qb := Function.update s.qb p s.packetbuf
                 sent := Function.update s.sent p sent }
  | .flush n => (s.queues.queue n).peekGet.elim { s with queues := t }
      (macCallSentCallback { s with queues := t })
  | .processPending => s.queues.dequeued.peekGet.elim { s with queues := t }
      fun p => macCallSentCallback (queuebufToPacketbuf { s with queues := t } p) p
  | _ => { s with queues := t }

def step (z : Sizes) (s : State) : Event → Option State
  | .write packetbuf => some { s with packetbuf := packetbuf }
  | .queues e sent => (Queue.step z s.queues e).map fun t => follow s t sent e

/-! ## The condition -/

/-- A packet that is flushed is the one whose attributes are in the buffer, or has no callback. -/
def FindsOwn (s : State) : Queue.Event → Prop
  | .flush n => ∀ p ∈ (s.queues.queue n).peekGet, s.sent p = true → s.packetbuf = s.qb p
  | _ => True

/-- No packet is taken from under a slot, and those that are flushed find their attributes. -/
def Orderly (s : State) : Event → Prop
  | .write _ => True
  | .queues e _ => HeadKept s.queues e ∧ FindsOwn s e

/-- Every callback found the attributes with which its packet was queued. -/
def OwnSeen (s : State) : Prop := ∀ c ∈ s.calls, c.seen = s.qb c.packet

/-! ## The next packet

Only `tsch_queue_add_packet` allocates. -/

section

variable {s : Queue.State} {n : Nbr} {p : PacketId} {asn : ℕ}

theorem nextPacket_packetSent (s : Queue.State) (status : TxStatus) :
    (packetSent s n p asn status).2.2.nextPacket = s.nextPacket := by
  unfold packetSent
  by_cases hok : status = .ok
  · rw [if_pos hok]
    exact (sameContent_removePacketFromQueue s n).1
  · rw [if_neg hok]
    dsimp only
    split_ifs
    · exact (sameContent_removePacketFromQueue _ n).1.trans (sameContent_touch s p).1
    · exact (sameContent_touch s p).1
    · exact (sameContent_removePacketFromQueue _ n).1.trans (sameContent_touch s p).1
    · exact (sameContent_touch s p).1

theorem nextPacket_endSlot (slot : Slot) (status : TxStatus) :
    (endSlot s slot status).nextPacket = s.nextPacket := by
  unfold endSlot
  split
  · rfl
  · dsimp only
    split_ifs
    · exact (nextPacket_packetSent _ _).trans (sameContent_touch s _).1
    · exact (nextPacket_packetSent _ _).trans (sameContent_touch s _).1

/-- Every other event leaves it. -/
theorem nextPacket_step {z : Sizes} {t : Queue.State} {e : Queue.Event}
    (hadd : ∀ n content queuebuf, e ≠ .addPacket n content queuebuf)
    (hstep : Queue.step z s e = some t) : t.nextPacket = s.nextPacket := by
  unfold Queue.step at hstep
  split_ifs at hstep with hfault
  unfold act at hstep
  -- Only an addition gives out a number.
  cases e with
  | addPacket n content queuebuf => exact absurd rfl (hadd n content queuebuf)
  | startSlot usable asn link backup =>
    dsimp only at hstep
    split_ifs at hstep with hslot
    cases hstep
    exact (sameContent_startSlot usable asn s link backup).1
  | endSlot status =>
    rcases Option.map_eq_some_iff.1 hstep with ⟨slot, _, rfl⟩
    exact nextPacket_endSlot slot status
  | removePacket n =>
    dsimp only at hstep
    rcases removePacketFromQueue_cases s n with hr | ⟨q, _, _, hr⟩
    · rw [hr] at hstep
      cases hstep
      rfl
    · rw [hr] at hstep
      cases hstep
      rfl
  | flush n =>
    dsimp only at hstep
    rcases removePacketFromQueue_cases s n with hr | ⟨q, _, _, hr⟩
    · rw [hr] at hstep
      cases hstep
    · rw [hr] at hstep
      cases hstep
      exact (sameContent_touch _ q).1
  | processPending =>
    dsimp only at hstep
    split_ifs at hstep
    rcases Option.map_eq_some_iff.1 hstep with ⟨q, _, rfl⟩
    exact (sameContent_touch s q).1
  | free =>
    dsimp only at hstep
    split at hstep
    · cases hstep
    · cases hstep
      exact (sameContent_freePacket s _).1
    · cases hstep
      exact (sameContent_freePacket s _).1
  | getLock =>
    dsimp only at hstep
    split_ifs at hstep
    cases hstep
    rfl
  | releaseLock =>
    dsimp only at hstep
    split_ifs at hstep
    cases hstep
    rfl

end

/-! ## Step -/

structure Inv (s : State) : Prop where
  queues : Queue.Inv s.queues
  own : OwnSeen s
  /-- The callbacks were about packets that have been queued. -/
  called : ∀ c ∈ s.calls, c.packet < s.queues.nextPacket

section

variable {z : Sizes} {s : State} {p : PacketId} {t : Queue.State}

/-- A callback that finds the attributes of its packet. -/
theorem Inv.call (h : Inv s) (hp : p < s.queues.nextPacket)
    (hown : s.sent p = true → s.packetbuf = s.qb p) : Inv (macCallSentCallback s p) := by
  unfold macCallSentCallback
  by_cases hsent : s.sent p = true
  · rw [if_pos hsent]
    refine ⟨h.queues, fun c hc => ?_, fun c hc => ?_⟩
    · rcases List.mem_append.1 hc with hc | hc
      · exact h.own c hc
      · rw [List.mem_singleton.1 hc]
        exact hown hsent
    · rcases List.mem_append.1 hc with hc | hc
      · exact h.called c hc
      · rw [List.mem_singleton.1 hc]
        exact hp
  · rw [if_neg hsent]
    exact h

/-- The queues go on without a call. -/
theorem Inv.advance (h : Inv s) (ht : Queue.Inv t) (hnext : t.nextPacket = s.queues.nextPacket) :
    Inv { s with queues := t } := by
  refine ⟨ht, h.own, fun c hc => ?_⟩
  dsimp only
  rw [hnext]
  exact h.called c hc

theorem nextPacket_addPacket (z : Sizes) (s : Queue.State) (n : Nbr) (content : Queue.Packet)
    (queuebuf : Bool) : s.nextPacket ≤ (addPacket z s n content queuebuf).nextPacket := by
  unfold addPacket
  by_cases hl : s.locked = true
  · rw [if_pos hl]
  rw [if_neg hl]
  cases (s.queue n).peekPut with
  | none => exact Nat.le_refl _
  | some i =>
    dsimp only
    split_ifs
    · exact Nat.le_succ _
    · exact Nat.le_refl _

/-- A new packet takes the attributes in the buffer with it; those of the others stay. -/
theorem Inv.enqueue (h : Inv s) (ht : Queue.Inv t) (hnext : s.queues.nextPacket ≤ t.nextPacket)
    (sent : PacketId → Bool) :
    Inv { s with
      queues := t
      qb := Function.update s.qb s.queues.nextPacket s.packetbuf
      sent := sent } := by
  refine ⟨ht, fun c hc => ?_, fun c hc => Nat.lt_of_lt_of_le (h.called c hc) hnext⟩
  have hne : c.packet ≠ s.queues.nextPacket := Nat.ne_of_lt (h.called c hc)
  dsimp only
  rw [Function.update_of_ne hne]
  exact h.own c hc

/-- A packet of a queue or of the ring has been allocated. -/
theorem lt_nextPacket (h : Queue.Inv t) (place : Place) (hp : p ∈ t.contents place) :
    p < t.nextPacket :=
  h.fresh p (h.mem_live place hp)

/-- What an event does. The cases are those in which a callback runs or a packet is added. -/
theorem Inv.step {u : State} {e : Event} (h : Inv s) (hok : Orderly s e)
    (hstep : SentCallback.step z s e = some u) : Inv u := by
  cases e with
  | write packetbuf =>
    cases hstep
    exact ⟨h.queues, h.own, h.called⟩
  | queues e sent =>
    -- The queues keep their invariant; the callbacks follow what left them.
    rcases hok with ⟨hkept, hfinds⟩
    rcases Option.map_eq_some_iff.1 hstep with ⟨t, ht, rfl⟩
    have hinv := h.queues.step hkept ht
    unfold follow
    split
    · -- a packet is added, or there is no room for it
      rename_i n content queuebuf
      dsimp only
      split_ifs with hsame
      · exact h.advance hinv hsame
      · refine h.enqueue hinv ?_ _
        unfold Queue.step at ht
        split_ifs at ht
        cases ht
        exact nextPacket_addPacket z s.queues n content queuebuf
    · -- a flush calls back with the buffer as it is
      rename_i n
      have hnext := nextPacket_step (by simp) ht
      cases hp : (s.queues.queue n).peekGet with
      | none => exact h.advance hinv hnext
      | some p =>
        refine (h.advance hinv hnext).call ?_ (hfinds p hp)
        dsimp only
        rw [hnext]
        rw [RingBuffer.peekGet_eq] at hp
        exact lt_nextPacket h.queues (.queue n) (mem_of_head? hp)
    · -- the attributes of the packet come from its queuebuf
      have hnext := nextPacket_step (by simp) ht
      cases hp : s.queues.dequeued.peekGet with
      | none => exact h.advance hinv hnext
      | some p =>
        have hadv := h.advance hinv hnext
        have hload : Inv (queuebufToPacketbuf { s with queues := t } p) :=
          ⟨hadv.queues, hadv.own, hadv.called⟩
        refine hload.call ?_ fun _ => rfl
        change p < t.nextPacket
        rw [hnext]
        rw [RingBuffer.peekGet_eq] at hp
        exact lt_nextPacket h.queues .dequeued (mem_of_head? hp)
    · rename_i hadd _ _
      exact h.advance hinv (nextPacket_step (fun n content queuebuf => hadd n content queuebuf) ht)

end

/-! ## Runs -/

theorem inv_initState (z : Sizes) (packetbuf : Visible) : Inv (initState z packetbuf) := by
  refine ⟨Queue.inv_initState z, fun c hc => ?_, fun c hc => ?_⟩
  · cases hc
  · cases hc

/-- Whatever is in the buffer at first, in every run in which flushed packets find their
attributes there, every sent callback finds those with which its packet was queued. -/
theorem own_of_run (z : Sizes) (packetbuf : Visible) (s : State)
    (hrun : Run (SentCallback.step z) Orderly (initState z packetbuf) s) : OwnSeen s :=
  (hrun.invariant (fun _ _ _ h hok hs => h.step hok hs) (inv_initState z packetbuf)).own

theorem length_nodeAddr (id : UInt8) : [0, 0, 0, 0, 0, 0, 0, id].length = 8 := rfl

/-- The address of a node. -/
def nodeAddr (id : UInt8) : Linkaddr := ⟨[0, 0, 0, 0, 0, 0, 0, id], length_nodeAddr id⟩

/-- A poll for node 5, and one for node 6. -/
def pollVisible (id : UInt8) : Visible := ⟨1, id.toUInt16, 21, 0, nodeAddr 1, nodeAddr id⟩

/-- A poll of a neighbor is queued. -/
def pollEvents (id : UInt8) : List Event :=
  [.write (pollVisible id),
    .queues (.addPacket (.node id.toNat) ⟨0, 3, none, 0, 0, true⟩ true) true]

instance (s : State) : ∀ e, Decidable (FindsOwn s e)
  | .flush n => inferInstanceAs
      (Decidable (∀ p ∈ (s.queues.queue n).peekGet, s.sent p = true → s.packetbuf = s.qb p))
  | .addPacket .. | .startSlot .. | .endSlot _ | .removePacket _ | .processPending | .free
  | .getLock | .releaseLock => isTrue trivial

instance (s : State) : ∀ e, Decidable (Orderly s e)
  | .write _ => isTrue trivial
  | .queues e _ => inferInstanceAs (Decidable (HeadKept s.queues e ∧ FindsOwn s e))

/-- A packet is sent and its callback runs; the next one is flushed at once. -/
theorem own_of_run_poll :
    ∃ s, Run (SentCallback.step smallSizes) Orderly (initState smallSizes (pollVisible 0)) s ∧
      s.calls = [⟨0, pollVisible 5⟩, ⟨1, pollVisible 6⟩] ∧ OwnSeen s := by
  obtain ⟨s, hrun, hs⟩ := exists_run_of_runEvents (SentCallback.step smallSizes) Orderly
    (initState smallSizes (pollVisible 0))
    (pollEvents 5 ++
      [.queues (.startSlot (fun _ _ => true) 7 ⟨true, true, .normal, .node 5, 0⟩ none) false,
        .queues (.endSlot .ok) false, .write (pollVisible 0), .queues .processPending false,
        .queues .free false] ++
      pollEvents 6 ++ [.queues (.flush (.node 6)) false])
    (fun s => s.calls = [⟨0, pollVisible 5⟩, ⟨1, pollVisible 6⟩]) (by decide)
  exact ⟨s, hrun, hs, own_of_run smallSizes (pollVisible 0) s hrun⟩

/-- Two polls are queued and then flushed: the callback of the first finds the second. -/
theorem flushed_unseen :
    ∃ s, Run (SentCallback.step smallSizes) (fun _ _ => True)
        (initState smallSizes (pollVisible 0)) s ∧
      s.qb 0 = pollVisible 5 ∧ s.calls = [⟨0, pollVisible 6⟩] ∧ ¬ OwnSeen s := by
  obtain ⟨s, hrun, hs⟩ := exists_run_of_runEvents (SentCallback.step smallSizes) (fun _ _ => True)
    (initState smallSizes (pollVisible 0))
    (pollEvents 5 ++ pollEvents 6 ++ [.queues (.flush (.node 5)) false])
    (fun s => s.qb 0 = pollVisible 5 ∧ s.calls = [⟨0, pollVisible 6⟩]) (by decide)
  refine ⟨s, hrun, hs.1, hs.2, ?_⟩
  intro hown
  have hseen := hown ⟨0, pollVisible 6⟩ (by rw [hs.2]; exact List.mem_singleton_self _)
  rw [hs.1] at hseen
  exact absurd hseen (by decide)

end MasterScheduler.Mote.SentCallback

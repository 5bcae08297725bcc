import MasterScheduler.Mote.CsmaQueues

/-!
# MasterScheduler.Mote.CsmaMemory — the memory of `csma-output.c`

1. **Memory**: the pools, lists and timers agree (`Mem`), and what they say is
   an entry for each neighbor (`entryOf`).
2. **Packets that are handed in**: rejected ones leave everything as it was
   (`AsBefore`), others join a queue (`csmaOutputPacket_cases`).
-/

namespace MasterScheduler.Mote.Csma

open Lib Frame802154 Queues

variable {cfg : Config} {Sent Ptr : Type}

/-! ## Memory -/

/-- The number of a packet in a queue. -/
def number (s : State cfg Sent Ptr) (q : Fin cfg.queuebufNum) : ℕ :=
  (((s.packet q).buf.bind s.queuebuf).map (·.contents)).getD 0

/-- What the memory says of a neighbor. -/
def entryOf (s : State cfg Sent Ptr) (n : Fin cfg.maxNeighborQueues) : Option Entry :=
  if n ∈ s.neighborList then
    some ⟨(s.neighbor n).addr, (s.neighbor n).transmissions, (s.neighbor n).collisions,
      (s.neighbor n).packetQueue.map (number s)⟩
  else none

/-- The memory of a packet in a queue: its blocks are in use, and hold what was handed in. -/
def Held (s : State cfg Sent Ptr) (handed : List (Request Sent Ptr))
    (q : Fin cfg.queuebufNum) : Prop :=
  ∃ b m pb r, s.packet q = ⟨some b, some m⟩ ∧ s.packetMemb q = true ∧
    (s.bufmem b = true ∧ s.others b = false) ∧ s.metadataMemb m = true ∧
    s.queuebuf b = some pb ∧ pb.macSeqno ≠ 0 ∧ handed[pb.contents]? = some r ∧
    s.metadata m = some ⟨r.sent, r.cptr, limit cfg r.maxMacTransmissions⟩

/-- The packets in the queues are stored apart from each other. -/
structure Stored (s : State cfg Sent Ptr) (handed : List (Request Sent Ptr)) : Prop where
  custody : Exclusive fun n => (s.neighbor n).packetQueue
  held : ∀ n, ∀ q ∈ (s.neighbor n).packetQueue, Held s handed q
  bufs : ∀ n n' q q', q ∈ (s.neighbor n).packetQueue → q' ∈ (s.neighbor n').packetQueue →
    (s.packet q).buf = (s.packet q').buf → q = q'
  ptrs : ∀ n n' q q', q ∈ (s.neighbor n).packetQueue → q' ∈ (s.neighbor n').packetQueue →
    (s.packet q).ptr = (s.packet q').ptr → q = q'
  others : ∀ b, s.others b = true → s.bufmem b = true

/-- The memory is in order, except that the neighbor `pending` may have no packet, and the
timer of the neighbor `busy` need not be armed. -/
structure Mem (pending busy : Option (Fin cfg.maxNeighborQueues)) (s : State cfg Sent Ptr)
    (handed : List (Request Sent Ptr)) : Prop extends Stored s handed where
  nodup : s.neighborList.Nodup
  member : ∀ n, n ∈ s.neighborList ↔ s.neighborMemb n = true
  listed : ∀ n, n ∈ s.neighborList ↔ (s.neighbor n).packetQueue ≠ [] ∨ pending = some n
  timer : ∀ n, s.transmitTimer n = true ∨ busy = some n ↔ (s.neighbor n).packetQueue ≠ []

section Memory

variable {s s' : State cfg Sent Ptr} {handed : List (Request Sent Ptr)}
  {pending busy : Option (Fin cfg.maxNeighborQueues)} {n : Fin cfg.maxNeighborQueues}
  {q : Fin cfg.queuebufNum} {qs : List (Fin cfg.queuebufNum)}

/-- A neighbor in the list has an entry. -/
theorem entryOf_eq_some {e : Entry} (h : entryOf s n = some e) : n ∈ s.neighborList ∧
    e = ⟨(s.neighbor n).addr, (s.neighbor n).transmissions, (s.neighbor n).collisions,
      (s.neighbor n).packetQueue.map (number s)⟩ := by
  rw [entryOf] at h
  split at h
  case isTrue hn => exact ⟨hn, (Option.some.inj h).symm⟩
  case isFalse => cases h

/-- Which is made of its fields. -/
theorem entryOf_of_mem (h : n ∈ s.neighborList) : entryOf s n = some
    ⟨(s.neighbor n).addr, (s.neighbor n).transmissions, (s.neighbor n).collisions,
      (s.neighbor n).packetQueue.map (number s)⟩ :=
  if_pos h

theorem entryOf_of_not_mem (h : n ∉ s.neighborList) : entryOf s n = none := if_neg h

/-- What is held stays when more is handed in. -/
theorem Held.append (h : Held s handed q) (r : Request Sent Ptr) :
    Held s (handed ++ [r]) q := by
  obtain ⟨b, m, pb, r', hq, hused, hb, hm, hpb, hseq, hr, hmd⟩ := h
  exact ⟨b, m, pb, r', hq, hused, hb, hm, hpb, hseq, getElem?_handed (lt_of_handed hr) ▸ hr, hmd⟩

theorem Mem.append (h : Mem pending busy s handed) (r : Request Sent Ptr) :
    Mem pending busy s (handed ++ [r]) :=
  { h with held := fun n q hq => (h.held n q hq).append r }

/-- A queued packet is allocated. -/
theorem Stored.packetMemb (h : Stored s handed) (hq : q ∈ (s.neighbor n).packetQueue) :
    s.packetMemb q = true := by
  obtain ⟨b, m, pb, r, -, hused, -⟩ := h.held n q hq
  exact hused

/-- The queues and the blocks in use are what matters. -/
theorem Stored.congr (h : Stored s handed)
    (hqueue : ∀ n, (s'.neighbor n).packetQueue = (s.neighbor n).packetQueue)
    (hpacket : ∀ q, s.packetMemb q = true → s'.packet q = s.packet q)
    (hpacketMemb : s'.packetMemb = s.packetMemb) (hmetadataMemb : s'.metadataMemb = s.metadataMemb)
    (hbufmem : s'.bufmem = s.bufmem) (hothers : s'.others = s.others)
    (hqueuebuf : s'.queuebuf = s.queuebuf) (hmetadata : s'.metadata = s.metadata) :
    Stored s' handed := by
  have hsame : ∀ n, ∀ q ∈ (s'.neighbor n).packetQueue, s'.packet q = s.packet q :=
    fun n q hq => hpacket q (h.packetMemb (hqueue n ▸ hq))
  constructor
  case custody => exact (funext hqueue) ▸ h.custody
  case held =>
    intro n q hq
    obtain ⟨b, m, pb, r, hbm, hrest⟩ := h.held n q (hqueue n ▸ hq)
    refine ⟨b, m, pb, r, (hsame n q hq).trans hbm, ?_⟩
    rw [hpacketMemb, hbufmem, hothers, hmetadataMemb, hqueuebuf, hmetadata]
    exact hrest
  case bufs =>
    intro n n' q q' hq hq'
    rw [hsame n q hq, hsame n' q' hq']
    exact h.bufs n n' q q' (hqueue n ▸ hq) (hqueue n' ▸ hq')
  case ptrs =>
    intro n n' q q' hq hq'
    rw [hsame n q hq, hsame n' q' hq']
    exact h.ptrs n n' q q' (hqueue n ▸ hq) (hqueue n' ▸ hq')
  case others =>
    intro b
    rw [hothers, hbufmem]
    exact h.others b

/-- Neither the counters nor the packet buffer matter. -/
theorem Mem.setNeighbor (h : Mem pending busy s handed) (nq : NeighborQueue cfg)
    (hnq : nq.packetQueue = (s.neighbor n).packetQueue) :
    Mem pending busy (setNeighbor s n nq) handed := by
  have hqueue : ∀ m, ((Csma.setNeighbor s n nq).neighbor m).packetQueue =
      (s.neighbor m).packetQueue := by
    intro m
    by_cases hm : m = n
    · subst hm
      show (Function.update s.neighbor m nq m).packetQueue = _
      rw [Function.update_self, hnq]
    · show (Function.update s.neighbor n nq m).packetQueue = _
      rw [Function.update_of_ne hm]
  exact
    { h.toStored.congr hqueue (fun _ _ => rfl) rfl rfl rfl rfl rfl rfl with
      nodup := h.nodup
      member := h.member
      listed := fun m => by rw [hqueue m]; exact h.listed m
      timer := fun m => by rw [hqueue m]; exact h.timer m }

/-- Writing a neighbor changes its entry. -/
theorem entryOf_setNeighbor (nq : NeighborQueue cfg) (hn : n ∈ s.neighborList) :
    entryOf (setNeighbor s n nq) = Function.update (entryOf s) n
      (some ⟨nq.addr, nq.transmissions, nq.collisions, nq.packetQueue.map (number s)⟩) := by
  funext m
  by_cases hm : m = n
  · subst hm
    rw [Function.update_self]
    refine (entryOf_of_mem (s := setNeighbor s m nq) hn).trans ?_
    have hnq : (setNeighbor s m nq).neighbor m = nq := Function.update_self _ _ _
    rw [hnq]
    rfl
  · rw [Function.update_of_ne hm]
    have hold : (setNeighbor s n nq).neighbor m = s.neighbor m := Function.update_of_ne hm _ _
    rw [entryOf, hold]
    rfl

end Memory

/-! ## Packets that are handed in -/

/-- A packet that was rejected left no trace. -/
structure AsBefore (s s' : State cfg Sent Ptr) : Prop where
  neighborList : s'.neighborList = s.neighborList
  neighborMemb : s'.neighborMemb = s.neighborMemb
  packetMemb : s'.packetMemb = s.packetMemb
  metadataMemb : s'.metadataMemb = s.metadataMemb
  bufmem : s'.bufmem = s.bufmem
  others : s'.others = s.others
  transmitTimer : s'.transmitTimer = s.transmitTimer
  metadata : s'.metadata = s.metadata
  queuebuf : s'.queuebuf = s.queuebuf
  sending : s'.sending = s.sending
  neighbor : ∀ n ∈ s.neighborList, s'.neighbor n = s.neighbor n
  unlisted : ∀ n ∉ s.neighborList, (s'.neighbor n).packetQueue = []
  packet : ∀ q, s.packetMemb q = true → s'.packet q = s.packet q

section Output

variable {s s' : State cfg Sent Ptr} {handed : List (Request Sent Ptr)}
  {pending busy : Option (Fin cfg.maxNeighborQueues)} {n : Fin cfg.maxNeighborQueues}
  {q : Fin cfg.queuebufNum} {addr : Linkaddr}

/-- A neighbor outside the list has no packets. -/
theorem Mem.queue_nil (h : Mem none busy s handed) (hn : n ∉ s.neighborList) :
    (s.neighbor n).packetQueue = [] := by
  by_contra hne
  exact hn ((h.listed n).mpr (.inl hne))

/-- A failed allocation leaves the queues. -/
theorem AsBefore.queue (h : AsBefore s s') (hmem : Mem none busy s handed)
    (n : Fin cfg.maxNeighborQueues) :
    (s'.neighbor n).packetQueue = (s.neighbor n).packetQueue := by
  by_cases hn : n ∈ s.neighborList
  · rw [h.neighbor n hn]
  · rw [h.unlisted n hn, hmem.queue_nil hn]

/-- And the memory. -/
theorem AsBefore.mem (h : AsBefore s s') (hmem : Mem none busy s handed) :
    Mem none busy s' handed :=
  { hmem.toStored.congr (h.queue hmem) h.packet h.packetMemb h.metadataMemb h.bufmem h.others
      h.queuebuf h.metadata with
    nodup := h.neighborList ▸ hmem.nodup
    member := by
      intro n
      rw [h.neighborList, h.neighborMemb]
      exact hmem.member n
    listed := by
      intro n
      rw [h.neighborList, h.queue hmem n]
      exact hmem.listed n
    timer := by
      intro n
      rw [h.transmitTimer, h.queue hmem n]
      exact hmem.timer n }

/-- And the entries. -/
theorem AsBefore.entryOf (h : AsBefore s s') (hmem : Mem none busy s handed) :
    entryOf s' = entryOf s := by
  funext n
  by_cases hn : n ∈ s.neighborList
  · rw [entryOf_of_mem hn, entryOf_of_mem (h.neighborList ▸ hn), h.neighbor n hn]
    congr 2
    refine List.map_congr_left fun q hq => ?_
    rw [number, number, h.packet q (hmem.packetMemb hq), h.queuebuf]
  · rw [entryOf_of_not_mem hn, entryOf_of_not_mem (h.neighborList ▸ hn)]

theorem AsBefore.trans {s'' : State cfg Sent Ptr} (h : AsBefore s s') (h' : AsBefore s' s'') :
    AsBefore s s'' where
  neighborList := h'.neighborList.trans h.neighborList
  neighborMemb := h'.neighborMemb.trans h.neighborMemb
  packetMemb := h'.packetMemb.trans h.packetMemb
  metadataMemb := h'.metadataMemb.trans h.metadataMemb
  bufmem := h'.bufmem.trans h.bufmem
  others := h'.others.trans h.others
  transmitTimer := h'.transmitTimer.trans h.transmitTimer
  metadata := h'.metadata.trans h.metadata
  queuebuf := h'.queuebuf.trans h.queuebuf
  sending := h'.sending.trans h.sending
  neighbor n hn := (h'.neighbor n (h.neighborList ▸ hn)).trans (h.neighbor n hn)
  unlisted n hn := h'.unlisted n (h.neighborList ▸ hn)
  packet q hq := (h'.packet q (h.packetMemb ▸ hq)).trans (h.packet q hq)

/-- A neighbor that is found is in the list, with the address. -/
theorem neighborQueueFromAddr_eq_some (h : neighborQueueFromAddr s addr = some n) :
    n ∈ s.neighborList ∧ (s.neighbor n).addr = addr := by
  have hprop := List.find?_some h
  exact ⟨List.mem_of_find?_eq_some h, of_decide_eq_true hprop⟩

theorem neighborQueueFromAddr_eq_none (h : neighborQueueFromAddr s addr = none) :
    ∀ n ∈ s.neighborList, (s.neighbor n).addr ≠ addr := by
  intro n hn heq
  exact List.find?_eq_none.mp h n hn (decide_eq_true heq)

/-- The state with a new neighbor at the end of the list. -/
def added (s : State cfg Sent Ptr) (n : Fin cfg.maxNeighborQueues) (addr : Linkaddr) :
    State cfg Sent Ptr :=
  { s with
    neighborMemb := s.neighborMemb.take n
    neighbor := Function.update s.neighbor n ⟨addr, 0, cfg.minBe, []⟩
    neighborList := listAdd s.neighborList n }

/-- A new neighbor has an empty queue. -/
theorem Mem.added (h : Mem none busy s handed) (hn : n ∉ s.neighborList) (addr : Linkaddr) :
    Mem (some n) busy (added s n addr) handed := by
  have hnil := h.queue_nil hn
  have hqueue : ∀ m, ((Csma.added s n addr).neighbor m).packetQueue =
      (s.neighbor m).packetQueue := by
    intro m
    by_cases hm : m = n
    · subst hm
      show (Function.update s.neighbor m _ m).packetQueue = _
      rw [Function.update_self, hnil]
    · show (Function.update s.neighbor n _ m).packetQueue = _
      rw [Function.update_of_ne hm]
  exact
    { h.toStored.congr hqueue (fun _ _ => rfl) rfl rfl rfl rfl rfl rfl with
      nodup := listAdd_nodup h.nodup
      member := by
        intro m
        show m ∈ listAdd s.neighborList n ↔ s.neighborMemb.take n m = true
        rw [mem_listAdd, Pool.take_eq_true, h.member m]
      listed := by
        intro m
        show m ∈ listAdd s.neighborList n ↔ _
        rw [mem_listAdd, hqueue m, h.listed m, or_comm]
        simp only [reduceCtorEq, or_false, Option.some.injEq, eq_comm (a := n)]
      timer := fun m => by rw [hqueue m]; exact h.timer m }

/-- The state with another packet in a queue, before the timer is set. -/
def enqueued (s : State cfg Sent Ptr) (n : Fin cfg.maxNeighborQueues) (pb : Packetbuf)
    (sent : Sent) (cptr : Ptr) (q m b : Fin cfg.queuebufNum) : State cfg Sent Ptr :=
  { s with
    packetMemb := s.packetMemb.take q
    metadataMemb := s.metadataMemb.take m
    bufmem := s.bufmem.take b
    queuebuf := Function.update s.queuebuf b (some pb)
    packet := Function.update s.packet q ⟨some b, some m⟩
    metadata := Function.update s.metadata m
      (some ⟨sent, cptr, limit cfg pb.maxMacTransmissions⟩)
    neighbor := Function.update s.neighbor n { s.neighbor n with
      packetQueue := listAdd (s.neighbor n).packetQueue q } }

/-- The three allocations of a packet: all succeed, or none lasts. -/
theorem addPacket_cases (s : State cfg Sent Ptr) (n : Fin cfg.maxNeighborQueues) (pb : Packetbuf)
    (sent : Sent) (cptr : Ptr) :
    (∃ packet, addPacket s n pb sent cptr = (false, { s with packet := packet }) ∧
      ∀ q, s.packetMemb q = true → packet q = s.packet q) ∨
    ∃ q m b, s.packetMemb q = false ∧ s.metadataMemb m = false ∧ s.bufmem b = false ∧
      addPacket s n pb sent cptr = (true,
        if (listAdd (s.neighbor n).packetQueue q).head? = some q then
          scheduleTransmission (enqueued s n pb sent cptr q m b) n
        else enqueued s n pb sent cptr q m b) := by
  cases hq : s.packetMemb.free with
  | none =>
    left
    exact ⟨s.packet, by simp only [addPacket, hq], fun _ _ => rfl⟩
  | some q =>
    have hqfree := Pool.free_eq_some hq
    -- what is written to a free block does not matter
    have hscratch : ∀ x, ∀ q', s.packetMemb q' = true →
        Function.update s.packet q x q' = s.packet q' := by
      intro x q' hq'
      refine Function.update_of_ne ?_ _ _
      rintro rfl
      rw [hqfree] at hq'
      cases hq'
    cases hm : s.metadataMemb.free with
    | none =>
      left
      refine ⟨_, ?_, hscratch { s.packet q with ptr := none }⟩
      simp only [addPacket, hq, hm, Pool.release_take hqfree]
    | some m =>
      cases hb : s.bufmem.free with
      | none =>
        left
        refine ⟨_, ?_, hscratch ⟨none, some m⟩⟩
        simp only [addPacket, hq, hm, hb, Pool.release_take hqfree,
          Pool.release_take (Pool.free_eq_some hm)]
      | some b =>
        right
        refine ⟨q, m, b, hqfree, Pool.free_eq_some hm, Pool.free_eq_some hb, ?_⟩
        simp only [addPacket, hq, hm, hb, enqueued]

/-- A cell that is in use is not the free one. -/
theorem ne_of_inUse {k : ℕ} {p : Pool k} {i j : Fin k} (hi : p i = true) (hj : p j = false) :
    i ≠ j := by
  rintro rfl
  rw [hi] at hj
  cases hj

section Enqueued

variable {pb : Packetbuf} {r : Request Sent Ptr} {m b : Fin cfg.queuebufNum}

/-- A free cell is in no queue. -/
theorem Stored.not_mem (h : Stored s handed) (hq : s.packetMemb q = false)
    (n : Fin cfg.maxNeighborQueues) : q ∉ (s.neighbor n).packetQueue :=
  fun hmem => ne_of_inUse (h.packetMemb hmem) hq rfl

variable (n pb r m b) in
/-- The packet is at the end of its queue. -/
theorem enqueued_queue (h : Stored s handed) (hq : s.packetMemb q = false)
    (n' : Fin cfg.maxNeighborQueues) :
    ((enqueued s n pb r.sent r.cptr q m b).neighbor n').packetQueue =
      Function.update (fun n => (s.neighbor n).packetQueue) n
        ((s.neighbor n).packetQueue ++ [q]) n' := by
  show (Function.update s.neighbor n _ n').packetQueue = _
  by_cases hn' : n' = n
  · subst hn'
    rw [Function.update_self, Function.update_self]
    show listAdd (s.neighbor n').packetQueue q = _
    rw [listAdd, List.erase_of_not_mem (h.not_mem hq n')]
  · rw [Function.update_of_ne hn', Function.update_of_ne hn']

/-- The packet is held as it was handed in. -/
theorem Stored.enqueued (h : Stored s handed) (hq : s.packetMemb q = false)
    (hm : s.metadataMemb m = false) (hb : s.bufmem b = false) (hseq : pb.macSeqno ≠ 0)
    (hcontents : pb.contents = handed.length)
    (hmax : pb.maxMacTransmissions = r.maxMacTransmissions) :
    Stored (enqueued s n pb r.sent r.cptr q m b) (handed ++ [r]) := by
  have hqueue := enqueued_queue n pb r m b h hq
  -- a packet of a queue is the new one or an old one
  have hmem : ∀ n' q', q' ∈ ((Csma.enqueued s n pb r.sent r.cptr q m b).neighbor n').packetQueue →
      q' = q ∨ q' ≠ q ∧ q' ∈ (s.neighbor n').packetQueue := by
    intro n' q' hq'
    by_cases hqq : q' = q
    · exact .inl hqq
    · rw [hqueue n'] at hq'
      rcases mem_update hq' with ⟨rfl, hq'⟩ | ⟨-, hq'⟩
      · rcases List.mem_append.mp hq' with hq' | hq'
        · exact .inr ⟨hqq, hq'⟩
        · exact absurd (List.mem_singleton.mp hq') hqq
      · exact .inr ⟨hqq, hq'⟩
  have hnew : (Csma.enqueued s n pb r.sent r.cptr q m b).packet q = ⟨some b, some m⟩ :=
    Function.update_self _ _ _
  have hold : ∀ q', q' ≠ q →
      (Csma.enqueued s n pb r.sent r.cptr q m b).packet q' = s.packet q' :=
    fun q' hq' => Function.update_of_ne hq' _ _
  -- the blocks of an old packet are not the new ones
  have happart : ∀ n' q', q' ∈ (s.neighbor n').packetQueue →
      (s.packet q').buf ≠ some b ∧ (s.packet q').ptr ≠ some m := by
    intro n' q' hq'
    obtain ⟨b', m', _, _, hbm, -, ⟨hb', -⟩, hm', -⟩ := h.held n' q' hq'
    rw [hbm]
    exact ⟨fun heq => ne_of_inUse hb' hb (Option.some.inj heq),
      fun heq => ne_of_inUse hm' hm (Option.some.inj heq)⟩
  constructor
  case custody =>
    rw [funext hqueue]
    exact h.custody.insert (fun n' => h.not_mem hq n') (List.perm_append_singleton _ _)
  case held =>
    intro n' q' hq'
    rcases hmem n' q' hq' with rfl | ⟨hne, hq'⟩
    · refine ⟨b, m, pb, r, hnew, Pool.take_self, ⟨Pool.take_self, ?_⟩, Pool.take_self,
        Function.update_self _ _ _, hseq, ?_, ?_⟩
      · show s.others b = false
        rw [← Bool.not_eq_true]
        intro hother
        exact ne_of_inUse (h.others b hother) hb rfl
      · rw [hcontents]
        exact getElem?_handed_self
      · rw [← hmax]
        exact Function.update_self _ _ _
    · obtain ⟨b', m', pb', r', hbm, hused, ⟨hb', hother⟩, hm', hpb, hseq', hr, hmd⟩ :=
        h.held n' q' hq'
      refine ⟨b', m', pb', r', (hold q' hne).trans hbm, Pool.take_eq_true.mpr (.inr hused),
        ⟨Pool.take_eq_true.mpr (.inr hb'), hother⟩, Pool.take_eq_true.mpr (.inr hm'),
        (Function.update_of_ne (ne_of_inUse hb' hb) _ _).trans hpb, hseq',
        (getElem?_handed (lt_of_handed hr)).trans hr,
        (Function.update_of_ne (ne_of_inUse hm' hm) _ _).trans hmd⟩
  case bufs =>
    intro n₁ n₂ q₁ q₂ h₁ h₂ heq
    rcases hmem n₁ q₁ h₁ with rfl | ⟨hne₁, h₁⟩ <;> rcases hmem n₂ q₂ h₂ with hq₂ | ⟨hne₂, h₂⟩
    · exact hq₂.symm
    · rw [hnew, hold q₂ hne₂] at heq
      exact absurd heq.symm (happart n₂ q₂ h₂).1
    · rw [hq₂, hnew, hold q₁ hne₁] at heq
      exact absurd heq (happart n₁ q₁ h₁).1
    · rw [hold q₁ hne₁, hold q₂ hne₂] at heq
      exact h.bufs n₁ n₂ q₁ q₂ h₁ h₂ heq
  case ptrs =>
    intro n₁ n₂ q₁ q₂ h₁ h₂ heq
    rcases hmem n₁ q₁ h₁ with rfl | ⟨hne₁, h₁⟩ <;> rcases hmem n₂ q₂ h₂ with hq₂ | ⟨hne₂, h₂⟩
    · exact hq₂.symm
    · rw [hnew, hold q₂ hne₂] at heq
      exact absurd heq.symm (happart n₂ q₂ h₂).2
    · rw [hq₂, hnew, hold q₁ hne₁] at heq
      exact absurd heq (happart n₁ q₁ h₁).2
    · rw [hold q₁ hne₁, hold q₂ hne₂] at heq
      exact h.ptrs n₁ n₂ q₁ q₂ h₁ h₂ heq
  case others => exact fun b' hb' => Pool.take_eq_true.mpr (.inr (h.others b' hb'))

/-- The entry has one packet more. -/
theorem entryOf_enqueued (h : Stored s handed) (hn : n ∈ s.neighborList)
    (hq : s.packetMemb q = false) (hb : s.bufmem b = false) :
    entryOf (enqueued s n pb r.sent r.cptr q m b) = Function.update (entryOf s) n
      (some ⟨(s.neighbor n).addr, (s.neighbor n).transmissions, (s.neighbor n).collisions,
        (s.neighbor n).packetQueue.map (number s) ++ [pb.contents]⟩) := by
  have hqueue := enqueued_queue n pb r m b h hq
  -- The stored packets keep their numbers, as their buffers were in use.
  have hnumber : ∀ n', ∀ q' ∈ (s.neighbor n').packetQueue,
      number (enqueued s n pb r.sent r.cptr q m b) q' = number s q' := by
    intro n' q' hq'
    obtain ⟨b', m', pb', _, hbm, hused, ⟨hb', -⟩, -⟩ := h.held n' q' hq'
    have hpacket : (enqueued s n pb r.sent r.cptr q m b).packet q' = s.packet q' :=
      Function.update_of_ne (ne_of_inUse hused hq) _ _
    have hbuf : (enqueued s n pb r.sent r.cptr q m b).queuebuf b' = s.queuebuf b' :=
      Function.update_of_ne (ne_of_inUse hb' hb) _ _
    rw [number, number, hpacket, hbm, Option.bind_some, Option.bind_some, hbuf]
  -- The new one has the number it was handed over with.
  have hself : number (enqueued s n pb r.sent r.cptr q m b) q = pb.contents := by
    have hpacket : (enqueued s n pb r.sent r.cptr q m b).packet q = ⟨some b, some m⟩ :=
      Function.update_self _ _ _
    have hbuf : (enqueued s n pb r.sent r.cptr q m b).queuebuf b = some pb :=
      Function.update_self _ _ _
    rw [number, hpacket, Option.bind_some, hbuf]
    rfl
  funext n'
  by_cases hn' : n' = n
  · subst hn'
    have hneighbor : (enqueued s n' pb r.sent r.cptr q m b).neighbor n' = { s.neighbor n' with
        packetQueue := listAdd (s.neighbor n').packetQueue q } := Function.update_self _ _ _
    have hlist : ((enqueued s n' pb r.sent r.cptr q m b).neighbor n').packetQueue =
        (s.neighbor n').packetQueue ++ [q] := (hqueue n').trans (Function.update_self _ _ _)
    rw [Function.update_self,
      entryOf_of_mem (s := enqueued s n' pb r.sent r.cptr q m b) hn, hlist, List.map_append,
      List.map_singleton, hself, List.map_congr_left (hnumber n'), hneighbor]
  · rw [Function.update_of_ne hn']
    have hneighbor : (enqueued s n pb r.sent r.cptr q m b).neighbor n' = s.neighbor n' :=
      Function.update_of_ne hn' _ _
    by_cases hlisted : n' ∈ s.neighborList
    · rw [entryOf_of_mem hlisted,
        entryOf_of_mem (s := enqueued s n pb r.sent r.cptr q m b) hlisted, hneighbor,
        List.map_congr_left (hnumber n')]
    · rw [entryOf_of_not_mem hlisted]
      exact entryOf_of_not_mem hlisted

/-- A packet that joins a queue, with the timer set for the first one. -/
theorem Mem.enqueued (h : Mem (some n) none s handed) (hn : n ∈ s.neighborList)
    (hq : s.packetMemb q = false) (hm : s.metadataMemb m = false) (hb : s.bufmem b = false)
    (hseq : pb.macSeqno ≠ 0) (hcontents : pb.contents = handed.length)
    (hmax : pb.maxMacTransmissions = r.maxMacTransmissions) :
    Mem none none (if (listAdd (s.neighbor n).packetQueue q).head? = some q then
        scheduleTransmission (enqueued s n pb r.sent r.cptr q m b) n
      else enqueued s n pb r.sent r.cptr q m b) (handed ++ [r]) := by
  have hstored := h.toStored.enqueued (n := n) hq hm hb hseq hcontents hmax
  have hqueue := enqueued_queue n pb r m b h.toStored hq
  have hnot := h.toStored.not_mem hq n
  have hself : ((Csma.enqueued s n pb r.sent r.cptr q m b).neighbor n).packetQueue ≠ [] := by
    rw [hqueue n, Function.update_self]
    exact List.append_ne_nil_of_right_ne_nil _ (List.cons_ne_nil _ _)
  have hother : ∀ n', n' ≠ n →
      ((Csma.enqueued s n pb r.sent r.cptr q m b).neighbor n').packetQueue =
        (s.neighbor n').packetQueue := by
    intro n' hn'
    rw [hqueue n', Function.update_of_ne hn']
  -- The neighbor has a packet now, so it need not be pending.
  have hlisted : ∀ n', n' ∈ s.neighborList ↔
      ((Csma.enqueued s n pb r.sent r.cptr q m b).neighbor n').packetQueue ≠ [] ∨
        none = some n' := by
    intro n'
    by_cases hn' : n' = n
    · rw [hn']
      exact iff_of_true hn (.inl hself)
    · rw [hother n' hn', h.listed n']
      simp [Ne.symm hn']
  -- The timer is started with the first packet of a queue only.
  by_cases hfirst : (listAdd (s.neighbor n).packetQueue q).head? = some q
  · rw [if_pos hfirst]
    exact
      { hstored with
        nodup := h.nodup
        member := h.member
        listed := hlisted
        timer := by
          intro n'
          show Function.update s.transmitTimer n true n' = true ∨ _ ↔
            ((Csma.enqueued s n pb r.sent r.cptr q m b).neighbor n').packetQueue ≠ []
          by_cases hn' : n' = n
          · rw [hn', Function.update_self]
            exact iff_of_true (.inl rfl) hself
          · rw [Function.update_of_ne hn', hother n' hn']
            exact h.timer n' }
  · rw [if_neg hfirst]
    have hne : (s.neighbor n).packetQueue ≠ [] := by
      intro hnil
      rw [hnil] at hfirst
      exact hfirst rfl
    exact
      { hstored with
        nodup := h.nodup
        member := h.member
        listed := hlisted
        timer := by
          intro n'
          by_cases hn' : n' = n
          · rw [hn']
            exact iff_of_true ((h.timer n).mpr hne) hself
          · rw [hother n' hn']
            exact h.timer n' }

end Enqueued

/-! ### The outcome -/

/-- The neighbor is found, or added, or there is no room. -/
theorem findOrAdd_cases (s : State cfg Sent Ptr) (addr : Linkaddr) :
    findOrAdd s addr = (none, s) ∨
    (∃ n ∈ s.neighborList, (s.neighbor n).addr = addr ∧ findOrAdd s addr = (some n, s)) ∨
    ∃ n, s.neighborMemb n = false ∧ (∀ m ∈ s.neighborList, (s.neighbor m).addr ≠ addr) ∧
      findOrAdd s addr = (some n, added s n addr) := by
  cases hfind : neighborQueueFromAddr s addr with
  | some n =>
    obtain ⟨hn, haddr⟩ := neighborQueueFromAddr_eq_some hfind
    exact .inr (.inl ⟨n, hn, haddr, by simp only [findOrAdd, hfind]⟩)
  | none =>
    cases hfree : s.neighborMemb.free with
    | none => exact .inl (by simp only [findOrAdd, hfind, hfree])
    | some n =>
      refine .inr (.inr ⟨n, Pool.free_eq_some hfree, neighborQueueFromAddr_eq_none hfind, ?_⟩)
      simp only [findOrAdd, hfind, hfree, added]

theorem Mem.weaken (h : Mem none busy s handed) (hn : n ∈ s.neighborList) :
    Mem (some n) busy s handed :=
  { h with
    listed := by
      intro m
      rw [h.listed m]
      constructor
      · rintro (hm | hm)
        · exact .inl hm
        · cases hm
      · rintro (hm | hm)
        · exact .inl hm
        · obtain rfl := Option.some.inj hm
          exact (h.listed n).mp hn }

/-- A free neighbor is not in the list. -/
theorem Mem.not_listed (h : Mem pending busy s handed) (hn : s.neighborMemb n = false) :
    n ∉ s.neighborList :=
  fun hmem => ne_of_inUse ((h.member n).mp hmem) hn rfl

/-- A new neighbor has an entry without packets. -/
theorem entryOf_added (hn : n ∉ s.neighborList) (addr : Linkaddr) :
    entryOf (added s n addr) =
      Function.update (entryOf s) n (some ⟨addr, 0, cfg.minBe, []⟩) := by
  funext m
  by_cases hm : m = n
  · subst hm
    have hnew : (added s m addr).neighbor m = ⟨addr, 0, cfg.minBe, []⟩ := Function.update_self _ _ _
    rw [Function.update_self, entryOf_of_mem (s := added s m addr) (mem_listAdd.mpr (.inl rfl)),
      hnew]
    rfl
  · have hold : (added s n addr).neighbor m = s.neighbor m := Function.update_of_ne hm _ _
    have hlist : m ∈ (added s n addr).neighborList ↔ m ∈ s.neighborList := by
      show m ∈ listAdd s.neighborList n ↔ _
      rw [mem_listAdd]
      exact or_iff_right hm
    rw [Function.update_of_ne hm, entryOf, entryOf, hold]
    simp only [hlist]
    rfl

/-- The packet as it is stored. -/
def stamped (s : State cfg Sent Ptr) (pb : Packetbuf) : Packetbuf :=
  { pb with macSeqno := if s.seqno = 0 then 1 else s.seqno }

/-- The state in which the neighbor is looked up. -/
def prepared (s : State cfg Sent Ptr) (pb : Packetbuf) : State cfg Sent Ptr :=
  { s with packetbuf := some (stamped s pb), seqno := ((stamped s pb).macSeqno + 1) % 256 }

/-- A packet that is sent has a sequence number. -/
theorem stamped_macSeqno (s : State cfg Sent Ptr) (pb : Packetbuf) :
    (stamped s pb).macSeqno ≠ 0 := by
  show (if s.seqno = 0 then 1 else s.seqno) ≠ 0
  split
  case isTrue => exact one_ne_zero
  case isFalse h => exact h

theorem prepared_asBefore (h : Mem none busy s handed) (pb : Packetbuf) :
    AsBefore s (prepared s pb) :=
  ⟨rfl, rfl, rfl, rfl, rfl, rfl, rfl, rfl, rfl, rfl, fun _ _ => rfl, fun _ hn => h.queue_nil hn,
    fun _ _ => rfl⟩

/-- What is written to free cells makes no difference. -/
theorem asBefore_scratch (h : Mem none busy s handed)
    {packet : Fin cfg.queuebufNum → PacketQueue cfg}
    (hpacket : ∀ q, s.packetMemb q = true → packet q = s.packet q) :
    AsBefore s { s with packet := packet } :=
  ⟨rfl, rfl, rfl, rfl, rfl, rfl, rfl, rfl, rfl, rfl, fun _ _ => rfl, fun _ hn => h.queue_nil hn,
    hpacket⟩

/-- A new neighbor is removed again. -/
theorem asBefore_added (h : Mem none busy s handed) (hn : s.neighborMemb n = false)
    {packet : Fin cfg.queuebufNum → PacketQueue cfg}
    (hpacket : ∀ q, s.packetMemb q = true → packet q = s.packet q) :
    AsBefore s { added s n addr with
      packet := packet
      neighborList := (added s n addr).neighborList.erase n
      neighborMemb := (added s n addr).neighborMemb.release n } where
  neighborList := by
    show (listAdd s.neighborList n).erase n = s.neighborList
    have hnot := h.not_listed hn
    rw [listAdd, List.erase_of_not_mem hnot, List.erase_append_right _ hnot,
      List.erase_cons_head, List.append_nil]
  neighborMemb := Pool.release_take hn
  packetMemb := rfl
  metadataMemb := rfl
  bufmem := rfl
  others := rfl
  transmitTimer := rfl
  metadata := rfl
  queuebuf := rfl
  sending := rfl
  neighbor m hm := by
    refine Function.update_of_ne ?_ _ _
    rintro rfl
    exact h.not_listed hn hm
  unlisted m hm := by
    show (Function.update s.neighbor n _ m).packetQueue = []
    by_cases hmn : m = n
    · rw [hmn, Function.update_self]
    · rw [Function.update_of_ne hmn]
      exact h.queue_nil hm
  packet := hpacket

/-- The outcome if the packet is to join the queue of a neighbor. -/
theorem addPacket_outcome {pb : Packetbuf} {r : Request Sent Ptr}
    (h : Mem (some n) none s handed) (hn : n ∈ s.neighborList) (hseq : pb.macSeqno ≠ 0)
    (hcontents : pb.contents = handed.length)
    (hmax : pb.maxMacTransmissions = r.maxMacTransmissions) :
    (∃ packet, addPacket s n pb r.sent r.cptr = (false, { s with packet := packet }) ∧
      ∀ q, s.packetMemb q = true → packet q = s.packet q) ∨
    ∃ s', addPacket s n pb r.sent r.cptr = (true, s') ∧ s'.sending = s.sending ∧
      Mem none none s' (handed ++ [r]) ∧
      entryOf s' = Function.update (entryOf s) n
        (some ⟨(s.neighbor n).addr, (s.neighbor n).transmissions, (s.neighbor n).collisions,
          (s.neighbor n).packetQueue.map (number s) ++ [handed.length]⟩) := by
  rcases addPacket_cases s n pb r.sent r.cptr with hfail | ⟨q, m, b, hq, hm, hb, hadd⟩
  · exact .inl hfail
  · refine .inr ⟨_, hadd, ?_, h.enqueued hn hq hm hb hseq hcontents hmax, ?_⟩
    · split <;> rfl
    · rw [← hcontents, ← entryOf_enqueued (r := r) (m := m) h.toStored hn hq hb]
      split <;> rfl

section Equations

variable {pb : Packetbuf} {sent : Sent} {cptr : Ptr} {s₁ s₂ : State cfg Sent Ptr}

/-- No room for a neighbor: the packet is dropped. -/
theorem csmaOutputPacket_none (hfind : findOrAdd (prepared s pb) pb.receiver = (none, s₁)) :
    csmaOutputPacket s pb sent cptr = (some ⟨pb.contents, sent, cptr, .err, 1⟩, s₁) := by
  simp only [prepared, stamped] at hfind
  simp only [csmaOutputPacket, hfind]

/-- The queue is full: the packet is dropped. -/
theorem csmaOutputPacket_full (hfind : findOrAdd (prepared s pb) pb.receiver = (some n, s₁))
    (hfull : ¬ (s₁.neighbor n).packetQueue.length < cfg.maxPacketPerNeighbor) :
    csmaOutputPacket s pb sent cptr = (some ⟨pb.contents, sent, cptr, .err, 1⟩, s₁) := by
  simp only [prepared, stamped] at hfind
  simp only [csmaOutputPacket, hfind, if_neg hfull]

/-- No room for the packet: it is dropped, and an empty neighbor with it. -/
theorem csmaOutputPacket_failed (hfind : findOrAdd (prepared s pb) pb.receiver = (some n, s₁))
    (hroom : (s₁.neighbor n).packetQueue.length < cfg.maxPacketPerNeighbor)
    (hadd : addPacket s₁ n (stamped s pb) sent cptr = (false, s₂)) :
    csmaOutputPacket s pb sent cptr = (some ⟨pb.contents, sent, cptr, .err, 1⟩,
      if (s₂.neighbor n).packetQueue.length = 0 then { s₂ with
        neighborList := s₂.neighborList.erase n
        neighborMemb := s₂.neighborMemb.release n }
      else s₂) := by
  simp only [prepared, stamped] at hfind hadd
  simp only [csmaOutputPacket, hfind, if_pos hroom, hadd]
  split <;> rfl

/-- The packet is queued. -/
theorem csmaOutputPacket_added (hfind : findOrAdd (prepared s pb) pb.receiver = (some n, s₁))
    (hroom : (s₁.neighbor n).packetQueue.length < cfg.maxPacketPerNeighbor)
    (hadd : addPacket s₁ n (stamped s pb) sent cptr = (true, s₂)) :
    csmaOutputPacket s pb sent cptr = (none, s₂) := by
  simp only [prepared, stamped] at hfind hadd
  simp only [csmaOutputPacket, hfind, if_pos hroom, hadd]

end Equations

/-- A packet is dropped with one call and without a trace, or it joins the queue for its
receiver. -/
theorem csmaOutputPacket_cases (h : Mem none none s handed) (r : Request Sent Ptr) :
    (∃ s', csmaOutputPacket s ⟨0, r.receiver, r.maxMacTransmissions, handed.length⟩ r.sent r.cptr =
        (some ⟨handed.length, r.sent, r.cptr, .err, 1⟩, s') ∧ AsBefore s s') ∨
    ∃ s' n e, csmaOutputPacket s ⟨0, r.receiver, r.maxMacTransmissions, handed.length⟩
        r.sent r.cptr = (none, s') ∧
      s'.sending = s.sending ∧ Mem none none s' (handed ++ [r]) ∧
      (entryOf s n = some e ∧ e.addr = r.receiver ∨
        entryOf s n = none ∧ (∀ m e', entryOf s m = some e' → e'.addr ≠ r.receiver) ∧
          e = ⟨r.receiver, 0, cfg.minBe, []⟩) ∧
      entryOf s' = Function.update (entryOf s) n
        (some { e with packets := e.packets ++ [handed.length] }) := by
  let pb : Packetbuf := ⟨0, r.receiver, r.maxMacTransmissions, handed.length⟩
  have hprepared := prepared_asBefore h pb
  have hmem := hprepared.mem h
  have hentry := hprepared.entryOf h
  rcases findOrAdd_cases (prepared s pb) r.receiver with
    hfind | ⟨n, hn, haddr, hfind⟩ | ⟨n, hn, hne, hfind⟩
  · left
    exact ⟨_, csmaOutputPacket_none hfind, hprepared⟩
  · -- there is a neighbor, with packets
    have hqueue : ((prepared s pb).neighbor n).packetQueue ≠ [] := by
      rcases (hmem.listed n).mp hn with hne | hnone
      · exact hne
      · cases hnone
    by_cases hroom : ((prepared s pb).neighbor n).packetQueue.length < cfg.maxPacketPerNeighbor
    · rcases addPacket_outcome (r := r) (hmem.weaken hn) hn (stamped_macSeqno s pb) rfl rfl with
        ⟨packet, hadd, hpacket⟩ | ⟨s', hadd, hsending, hmem', hentry'⟩
      · left
        refine ⟨_, csmaOutputPacket_failed hfind hroom hadd, ?_⟩
        rw [if_neg fun hlen => hqueue (List.eq_nil_of_length_eq_zero hlen)]
        exact hprepared.trans (asBefore_scratch hmem hpacket)
      · right
        refine ⟨s', n, ⟨((prepared s pb).neighbor n).addr, ((prepared s pb).neighbor n).transmissions,
          ((prepared s pb).neighbor n).collisions,
          ((prepared s pb).neighbor n).packetQueue.map (number (prepared s pb))⟩,
          csmaOutputPacket_added hfind hroom hadd, hsending, hmem', .inl ⟨?_, haddr⟩, ?_⟩
        · rw [← hentry]
          exact entryOf_of_mem hn
        · rw [hentry', hentry]
    · left
      exact ⟨_, csmaOutputPacket_full hfind hroom, hprepared⟩
  · -- there is a new neighbor, without a packet
    have hnot := hmem.not_listed hn
    have hnew : (added (prepared s pb) n r.receiver).neighbor n = ⟨r.receiver, 0, cfg.minBe, []⟩ :=
      Function.update_self _ _ _
    have hlen : ((added (prepared s pb) n r.receiver).neighbor n).packetQueue.length = 0 := by
      rw [hnew]
      rfl
    have hroom : ((added (prepared s pb) n r.receiver).neighbor n).packetQueue.length <
        cfg.maxPacketPerNeighbor := by
      rw [hlen]
      exact cfg.packet_pos
    rcases addPacket_outcome (r := r) (hmem.added hnot r.receiver) (mem_listAdd.mpr (.inl rfl))
        (stamped_macSeqno s pb) rfl rfl with
      ⟨packet, hadd, hpacket⟩ | ⟨s', hadd, hsending, hmem', hentry'⟩
    · left
      refine ⟨_, csmaOutputPacket_failed hfind hroom hadd, ?_⟩
      rw [if_pos hlen]
      exact hprepared.trans (asBefore_added hmem hn hpacket)
    · right
      refine ⟨s', n, ⟨r.receiver, 0, cfg.minBe, []⟩, csmaOutputPacket_added hfind hroom hadd,
        hsending, hmem', .inr ⟨?_, ?_, rfl⟩, ?_⟩
      · rw [← hentry]
        exact entryOf_of_not_mem hnot
      · intro m e' he'
        rw [← hentry] at he'
        obtain ⟨hm, rfl⟩ := entryOf_eq_some he'
        exact hne m hm
      · rw [hentry', entryOf_added hnot, Function.update_idem, hentry, hnew]
        rfl

end Output

end MasterScheduler.Mote.Csma

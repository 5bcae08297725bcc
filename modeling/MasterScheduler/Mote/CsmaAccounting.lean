import MasterScheduler.Mote.CsmaMemory

/-!
# MasterScheduler.Mote.CsmaAccounting — the runs of `csma-output.c`

1. **Packets that were sent**: the result goes to the first packet of the queue,
   which is sent again or leaves (`packetSent_cases`).
2. **Refinement**: every event is a step of `Queues` (`Inv.step`).
3. **Result**: `csma_accounting`, for every run.
-/

namespace MasterScheduler.Mote.Csma

open Lib Frame802154 Queues

variable {cfg : Config} {Sent Ptr : Type}

/-! ## Packets that were sent -/

/-- The first packet of a queue is in the packet buffer. -/
structure Head (s : State cfg Sent Ptr) (handed : List (Request Sent Ptr))
    (n : Fin cfg.maxNeighborQueues) (q : Fin cfg.queuebufNum) (qs : List (Fin cfg.queuebufNum))
    (b m : Fin cfg.queuebufNum) (pb : Packetbuf) (r : Request Sent Ptr) : Prop where
  queue : (s.neighbor n).packetQueue = q :: qs
  packet : s.packet q = ⟨some b, some m⟩
  queuebuf : s.queuebuf b = some pb
  seqno : pb.macSeqno ≠ 0
  request : handed[pb.contents]? = some r
  metadata : s.metadata m = some ⟨r.sent, r.cptr, limit cfg r.maxMacTransmissions⟩
  packetbuf : s.packetbuf = some pb

/-- The packet is to be sent again. -/
structure Repeated (handed : List (Request Sent Ptr)) (s s' : State cfg Sent Ptr) : Prop where
  sending : s'.sending = s.sending
  mem : Mem none none s' handed
  entry : entryOf s' = entryOf s

/-- The first packet of a queue has left. -/
structure Completed (handed : List (Request Sent Ptr)) (n : Fin cfg.maxNeighborQueues)
    (qs : List (Fin cfg.queuebufNum)) (s s' : State cfg Sent Ptr) : Prop where
  sending : s'.sending = s.sending
  mem : Mem none none s' handed
  entry : entryOf s' = Function.update (entryOf s) n
    (if qs = [] then none else some ⟨(s.neighbor n).addr, 0, cfg.minBe, qs.map (number s)⟩)

section Sent

variable {s s' : State cfg Sent Ptr} {handed : List (Request Sent Ptr)}
  {n : Fin cfg.maxNeighborQueues} {q : Fin cfg.queuebufNum} {qs : List (Fin cfg.queuebufNum)}
  {b m : Fin cfg.queuebufNum} {pb : Packetbuf} {r : Request Sent Ptr}

/-- The first packet of a queue does not depend on the counters of the neighbour. -/
theorem Head.setNeighbor (h : Head s handed n q qs b m pb r) {nq : NeighborQueue cfg}
    (hnq : nq.packetQueue = (s.neighbor n).packetQueue) :
    Head (setNeighbor s n nq) handed n q qs b m pb r :=
  { h with
    queue := by
      show (Function.update s.neighbor n nq n).packetQueue = q :: qs
      rw [Function.update_self, hnq, h.queue] }

/-- The timer of the neighbor is armed again. -/
theorem Mem.schedule (h : Mem none (some n) s handed) (hn : (s.neighbor n).packetQueue ≠ []) :
    Mem none none (scheduleTransmission s n) handed :=
  { h with
    timer := by
      intro n'
      show Function.update s.transmitTimer n true n' = true ∨ _ ↔ _
      by_cases hn' : n' = n
      · rw [hn', Function.update_self]
        exact iff_of_true (.inl rfl) hn
      · rw [Function.update_of_ne hn']
        refine Iff.trans ?_ (h.timer n')
        simp [Ne.symm hn'] }

/-- The contents of the queue buffer stay as they are. -/
theorem rexmit_eq (h : Head s handed n q qs b m pb r) :
    rexmit s q n = scheduleTransmission s n := by
  have hbuf : (scheduleTransmission s n).queuebuf b = some pb := h.queuebuf
  have hpacket : (scheduleTransmission s n).packet q = ⟨some b, some m⟩ := h.packet
  have hpb : (scheduleTransmission s n).packetbuf = some pb := h.packetbuf
  rw [rexmit]
  have hsame : Function.update (scheduleTransmission s n).queuebuf b (some pb) =
      (scheduleTransmission s n).queuebuf := by
    rw [← hbuf, Function.update_eq_self]
  simp only [hpacket, hpb, hbuf, Option.map_some, hsame]
  rw [← hpb]

/-- A packet that is kept for another attempt changes no queue. -/
theorem repeated_rexmit (hmem : Mem none (some n) s handed) (h : Head s handed n q qs b m pb r) :
    Repeated handed s (rexmit s q n) := by
  rw [rexmit_eq h]
  refine ⟨rfl, hmem.schedule ?_, rfl⟩
  rw [h.queue]
  exact List.cons_ne_nil q qs

/-- The state without the blocks of a packet, and with another queue. -/
def released (s : State cfg Sent Ptr) (n : Fin cfg.maxNeighborQueues) (nq : NeighborQueue cfg)
    (q b m : Fin cfg.queuebufNum) : State cfg Sent Ptr :=
  { s with
    bufmem := s.bufmem.release b
    metadataMemb := s.metadataMemb.release m
    packetMemb := s.packetMemb.release q
    neighbor := Function.update s.neighbor n nq }

variable (s n q b m) in
/-- Freeing a packet sets the queue of its neighbour only. -/
theorem released_queue (nq : NeighborQueue cfg) (n' : Fin cfg.maxNeighborQueues) :
    ((released s n nq q b m).neighbor n').packetQueue =
      Function.update (fun n => (s.neighbor n).packetQueue) n nq.packetQueue n' := by
  show (Function.update s.neighbor n nq n').packetQueue = _
  by_cases hn' : n' = n
  · rw [hn', Function.update_self, Function.update_self]
  · rw [Function.update_of_ne hn', Function.update_of_ne hn']

/-- What is left after the first packet is freed is stored as before. -/
theorem Stored.released (hs : Stored s handed) (h : Head s handed n q qs b m pb r)
    (nq : NeighborQueue cfg) (hnq : nq.packetQueue = qs) :
    Stored (released s n nq q b m) handed := by
  have hqueue := released_queue s n q b m nq
  rw [hnq] at hqueue
  obtain ⟨hcustody, hgone⟩ := hs.custody.remove (i := n) (a := q) (l := qs) (h.queue ▸ .refl _)
  have hq : q ∈ (s.neighbor n).packetQueue := h.queue ▸ List.mem_cons_self
  -- the packets that are left were there before, and have other blocks
  have hold : ∀ n', ∀ q' ∈ ((Csma.released s n nq q b m).neighbor n').packetQueue,
      q' ∈ (s.neighbor n').packetQueue ∧ q' ≠ q := by
    intro n' q' hq'
    rw [hqueue n'] at hq'
    refine ⟨?_, ?_⟩
    · rcases mem_update hq' with ⟨rfl, hin⟩ | ⟨-, hin⟩
      · rw [h.queue]
        exact List.mem_cons_of_mem q hin
      · exact hin
    · rintro rfl
      exact hgone n' hq'
  constructor
  case custody => exact (funext hqueue) ▸ hcustody
  case held =>
    intro n' q' hq'
    obtain ⟨hin, hne⟩ := hold n' q' hq'
    obtain ⟨b', m', pb', r', hbm, hused, ⟨hb', hother⟩, hm', hrest⟩ := hs.held n' q' hin
    have hbne : b' ≠ b := by
      rintro rfl
      exact hne (hs.bufs n' n q' q hin hq (by rw [hbm, h.packet]))
    have hmne : m' ≠ m := by
      rintro rfl
      exact hne (hs.ptrs n' n q' q hin hq (by rw [hbm, h.packet]))
    exact ⟨b', m', pb', r', hbm, Pool.release_eq_true.mpr ⟨hne, hused⟩,
      ⟨Pool.release_eq_true.mpr ⟨hbne, hb'⟩, hother⟩, Pool.release_eq_true.mpr ⟨hmne, hm'⟩, hrest⟩
  case bufs =>
    intro n₁ n₂ q₁ q₂ h₁ h₂
    exact hs.bufs n₁ n₂ q₁ q₂ (hold n₁ q₁ h₁).1 (hold n₂ q₂ h₂).1
  case ptrs =>
    intro n₁ n₂ q₁ q₂ h₁ h₂
    exact hs.ptrs n₁ n₂ q₁ q₂ (hold n₁ q₁ h₁).1 (hold n₂ q₂ h₂).1
  case others =>
    intro b' hb'
    refine Pool.release_eq_true.mpr ⟨?_, hs.others b' hb'⟩
    rintro rfl
    obtain ⟨b'', _, _, _, hbm, -, ⟨-, hother⟩, -⟩ := hs.held n q hq
    rw [h.packet] at hbm
    cases hbm
    have hb'' : s.others b' = true := hb'
    rw [hother] at hb''
    cases hb''

/-- The queue without its first packet. -/
theorem Head.erase (h : Head s handed n q qs b m pb r) :
    (s.neighbor n).packetQueue.erase q = qs := by
  rw [h.queue, List.erase_cons_head]

/-- The last packet of a queue: the neighbor is freed. -/
theorem freePacket_last (h : Head s handed n q [] b m pb r) :
    freePacket s n q = { released s n { s.neighbor n with packetQueue := [] } q b m with
      transmitTimer := Function.update s.transmitTimer n false
      neighborList := s.neighborList.erase n
      neighborMemb := s.neighborMemb.release n } := by
  simp only [freePacket, h.erase, h.packet, Option.elim_some, ne_eq, not_true_eq_false, if_false]
  rfl

/-- There is another packet: the counters are reset. -/
theorem freePacket_next (h : Head s handed n q qs b m pb r) (hqs : qs ≠ []) :
    freePacket s n q =
      scheduleTransmission (released s n ⟨(s.neighbor n).addr, 0, cfg.minBe, qs⟩ q b m) n := by
  simp only [freePacket, h.erase, h.packet, Option.elim_some, if_pos hqs]
  rfl

/-- The last packet of a queue leaves, and the neighbour with it. -/
theorem completed_last (hmem : Mem none (some n) s handed) (h : Head s handed n q [] b m pb r) :
    Completed handed n [] s (freePacket s n q) := by
  rw [freePacket_last h]
  let nq : NeighborQueue cfg := { s.neighbor n with packetQueue := [] }
  -- Only the queue of this neighbor changes, and it is empty.
  have hself : ((released s n nq q b m).neighbor n).packetQueue = [] :=
    (released_queue s n q b m nq n).trans (Function.update_self _ _ _)
  have hother : ∀ n', n' ≠ n → (released s n nq q b m).neighbor n' = s.neighbor n' :=
    fun n' hn' => Function.update_of_ne hn' _ _
  -- So this neighbor leaves the list.
  have herase : ∀ n', n' ∈ s.neighborList.erase n ↔ n' ≠ n ∧ n' ∈ s.neighborList :=
    fun n' => hmem.nodup.mem_erase_iff
  have hstored := hmem.toStored.released h nq rfl
  refine ⟨rfl, { hstored with nodup := hmem.nodup.erase n, member := ?_, listed := ?_, timer := ?_ },
    ?_⟩
  · intro n'
    show n' ∈ s.neighborList.erase n ↔ s.neighborMemb.release n n' = true
    rw [herase, Pool.release_eq_true, hmem.member n']
  · intro n'
    show n' ∈ s.neighborList.erase n ↔
      ((released s n nq q b m).neighbor n').packetQueue ≠ [] ∨ none = some n'
    rw [herase]
    by_cases hn' : n' = n
    · rw [hn', hself]
      simp
    · rw [hother n' hn', hmem.listed n']
      exact and_iff_right hn'
  · intro n'
    show Function.update s.transmitTimer n false n' = true ∨ none = some n' ↔
      ((released s n nq q b m).neighbor n').packetQueue ≠ []
    by_cases hn' : n' = n
    · rw [hn', hself, Function.update_self]
      simp
    · rw [hother n' hn', Function.update_of_ne hn']
      refine Iff.trans ?_ (hmem.timer n')
      simp [Ne.symm hn']
  · funext n'
    rw [if_pos rfl]
    by_cases hn' : n' = n
    · rw [hn', Function.update_self]
      exact entryOf_of_not_mem fun hin => ((herase n).mp hin).1 rfl
    · rw [Function.update_of_ne hn']
      by_cases hin : n' ∈ s.neighborList
      · rw [entryOf_of_mem hin, ← hother n' hn']
        exact entryOf_of_mem ((herase n').mpr ⟨hn', hin⟩)
      · rw [entryOf_of_not_mem hin]
        exact entryOf_of_not_mem fun hin' => hin ((herase n').mp hin').2

/-- A packet leaves a queue that has others, and the next one is scheduled. -/
theorem completed_next (hmem : Mem none (some n) s handed) (h : Head s handed n q qs b m pb r)
    (hqs : qs ≠ []) : Completed handed n qs s (freePacket s n q) := by
  rw [freePacket_next h hqs]
  let nq : NeighborQueue cfg := ⟨(s.neighbor n).addr, 0, cfg.minBe, qs⟩
  have hnil : ∀ n', ((released s n nq q b m).neighbor n').packetQueue ≠ [] ↔
      (s.neighbor n').packetQueue ≠ [] := by
    intro n'
    rw [released_queue s n q b m nq n']
    by_cases hn' : n' = n
    · rw [hn', Function.update_self, h.queue]
      exact iff_of_true hqs (List.cons_ne_nil q qs)
    · rw [Function.update_of_ne hn']
  have hstored := hmem.toStored.released h nq rfl
  have hreleased : Mem none (some n) (released s n nq q b m) handed :=
    { hstored with
      nodup := hmem.nodup
      member := hmem.member
      listed := by
        intro n'
        rw [hnil n']
        exact hmem.listed n'
      timer := by
        intro n'
        rw [hnil n']
        exact hmem.timer n' }
  have hne : (s.neighbor n).packetQueue ≠ [] := by
    rw [h.queue]
    exact List.cons_ne_nil q qs
  refine ⟨rfl, hreleased.schedule ((hnil n).mpr hne), ?_⟩
  rw [if_neg hqs]
  exact entryOf_setNeighbor nq ((hmem.listed n).mpr (.inl hne))

/-- `free_packet` takes the first packet from its queue. -/
theorem completed_freePacket (hmem : Mem none (some n) s handed)
    (h : Head s handed n q qs b m pb r) : Completed handed n qs s (freePacket s n q) := by
  by_cases hqs : qs = []
  · subst hqs
    exact completed_last hmem h
  · exact completed_next hmem h hqs

/-- The callback gets what the application gave with the packet. -/
theorem txDone_eq (h : Head s handed n q qs b m pb r) (status : Status) :
    txDone s status q n = (some ⟨pb.contents, r.sent, r.cptr, status, (s.neighbor n).transmissions⟩,
      freePacket s n q) := by
  simp only [txDone, h.packet, Option.bind_some, h.metadata, h.queuebuf, Option.map_some]

/-- The end of `collision` and `noack`: the limit decides. -/
theorem retry_cases (hmem : Mem none (some n) s handed) (h : Head s handed n q qs b m pb r)
    (status : Status) :
    (∃ s', retry s status q n = (none, s') ∧ Repeated handed s s' ∧
      (s.neighbor n).transmissions < limit cfg r.maxMacTransmissions) ∨
    ∃ s', retry s status q n =
        (some ⟨pb.contents, r.sent, r.cptr, status, (s.neighbor n).transmissions⟩, s') ∧
      Completed handed n qs s s' := by
  have hmax : (((s.packet q).ptr.bind s.metadata).map (·.maxTransmissions)).getD 0 =
      limit cfg r.maxMacTransmissions := by
    simp only [h.packet, Option.bind_some, h.metadata, Option.map_some, Option.getD_some]
  rw [retry, hmax]
  by_cases hlimit : (s.neighbor n).transmissions ≥ limit cfg r.maxMacTransmissions
  · right
    exact ⟨freePacket s n q, by rw [if_pos hlimit, txDone_eq h], completed_freePacket hmem h⟩
  · left
    exact ⟨rexmit s q n, by rw [if_neg hlimit], repeated_rexmit hmem h, not_le.mp hlimit⟩

/-- What `packet_sent` does: the first packet of the queue is repeated or completed. -/
inductive Outcome (handed : List (Request Sent Ptr)) (n : Fin cfg.maxNeighborQueues) (e : Entry)
    (k : ℕ) (ks : List ℕ) (r : Request Sent Ptr) (status : Status) (s : State cfg Sent Ptr) :
    Option (Call Sent Ptr) × State cfg Sent Ptr → Prop
  | again (s' : State cfg Sent Ptr) (t c : ℕ) (hsending : s'.sending = s.sending)
      (hmem : Mem none none s' handed) (hnext : Next cfg e t c)
      (hlimit : t < limit cfg r.maxMacTransmissions)
      (hentry : entryOf s' = Function.update (entryOf s) n
        (some { e with transmissions := t, collisions := c })) :
      Outcome handed n e k ks r status s (none, s')
  | done (s' : State cfg Sent Ptr) (numTx : ℕ) (hsending : s'.sending = s.sending)
      (hmem : Mem none none s' handed)
      (hentry : entryOf s' = Function.update (entryOf s) n
        (if ks = [] then none else some ⟨e.addr, 0, cfg.minBe, ks⟩)) :
      Outcome handed n e k ks r status s (some ⟨k, r.sent, r.cptr, status, numTx⟩, s')

/-- What the memory says of the neighbor. -/
theorem Head.entry (h : Head s handed n q qs b m pb r) {e : Entry} (he : entryOf s n = some e) :
    n ∈ s.neighborList ∧ e = ⟨(s.neighbor n).addr, (s.neighbor n).transmissions,
      (s.neighbor n).collisions, pb.contents :: qs.map (number s)⟩ := by
  obtain ⟨hn, heq⟩ := entryOf_eq_some he
  refine ⟨hn, heq.trans ?_⟩
  have hq : number s q = pb.contents := by
    simp only [number, h.packet, Option.bind_some, h.queuebuf, Option.map_some, Option.getD_some]
  rw [h.queue, List.map_cons, hq]

section Outcome

variable {e : Entry} {t c : ℕ} {status : Status}

/-- A packet that leaves completes the first entry of the queue. -/
theorem Completed.outcome (h : Head s handed n q qs b m pb r) (he : entryOf s n = some e)
    (nq : NeighborQueue cfg) (haddr : nq.addr = (s.neighbor n).addr) {s' : State cfg Sent Ptr}
    (hdone : Completed handed n qs (Csma.setNeighbor s n nq) s') (numTx : ℕ) :
    Outcome handed n e pb.contents (qs.map (number s)) r status s
      (some ⟨pb.contents, r.sent, r.cptr, status, numTx⟩, s') := by
  obtain ⟨hn, rfl⟩ := h.entry he
  refine .done s' numTx hdone.sending hdone.mem (hdone.entry.trans ?_)
  have hneighbor : (Csma.setNeighbor s n nq).neighbor n = nq := Function.update_self _ _ _
  rw [entryOf_setNeighbor _ hn, Function.update_idem, hneighbor, haddr]
  simp only [List.map_eq_nil_iff]
  rfl

variable (status) in
/-- A retry keeps the packet and counts. -/
theorem outcome_retry (hmem : Mem none (some n) s handed) (h : Head s handed n q qs b m pb r)
    (he : entryOf s n = some e) (hnext : Next cfg e t c) :
    Outcome handed n e pb.contents (qs.map (number s)) r status s
      (retry (setNeighbor s n { s.neighbor n with transmissions := t, collisions := c })
        status q n) := by
  have hneighbor : (Csma.setNeighbor s n
      { s.neighbor n with transmissions := t, collisions := c }).neighbor n =
      { s.neighbor n with transmissions := t, collisions := c } := Function.update_self _ _ _
  rcases retry_cases
      (hmem.setNeighbor { s.neighbor n with transmissions := t, collisions := c } rfl)
      (h.setNeighbor rfl) status with ⟨s', hretry, hagain, hlimit⟩ | ⟨s', hretry, hdone⟩
  · rw [hretry]
    rw [hneighbor] at hlimit
    obtain ⟨hn, rfl⟩ := h.entry he
    refine .again s' t c hagain.sending hagain.mem hnext hlimit (hagain.entry.trans ?_)
    rw [entryOf_setNeighbor _ hn]
    rw [entryOf_of_mem hn] at he
    congr 2
    exact congrArg (fun e : Entry => Entry.mk e.addr t c e.packets) (Option.some.inj he)
  · rw [hretry]
    exact hdone.outcome h he { s.neighbor n with transmissions := t, collisions := c } rfl _

variable (status) in
/-- `tx_done` calls back once and takes the packet away. -/
theorem outcome_txDone (hmem : Mem none (some n) s handed) (h : Head s handed n q qs b m pb r)
    (he : entryOf s n = some e) (nq : NeighborQueue cfg) (haddr : nq.addr = (s.neighbor n).addr)
    (hnq : nq.packetQueue = (s.neighbor n).packetQueue) :
    Outcome handed n e pb.contents (qs.map (number s)) r status s
      (txDone (setNeighbor s n nq) status q n) := by
  rw [txDone_eq (h.setNeighbor hnq)]
  exact (completed_freePacket (hmem.setNeighbor nq hnq) (h.setNeighbor hnq)).outcome h he nq haddr _

/-- The limit is a byte, or one more than the configured number of retries. -/
theorem limit_lt (cfg : Config) (maxMacTransmissions : ℕ) :
    limit cfg maxMacTransmissions < 256 := by
  have := cfg.maxFrameRetries_le
  rw [limit]
  split <;> omega

/-- The number of the packet in the packet buffer is found at the head of the queue. -/
theorem find_head (h : Head s handed n q qs b m pb r) :
    (s.neighbor n).packetQueue.find? (fun q =>
      decide (queuebufSeqno s q = s.packetbuf.map (·.macSeqno))) = some q := by
  rw [h.queue]
  refine List.find?_cons_of_pos (decide_eq_true ?_)
  simp only [queuebufSeqno, h.packet, Option.bind_some, h.queuebuf, h.packetbuf, Option.map_some]

/-- The three branches of `packet_sent`. -/
theorem packetSent_eq (h : Head s handed n q qs b m pb r) (status : Status) :
    packetSent s n status 1 =
      match status with
      | .ok => txOk s q n 1
      | .noack => noack s q n 1
      | .collision => collision s q n 1
      | .deferred => (none, s)
      | .err | .errFatal => txDone s status q n := by
  have hptr : (s.packet q).ptr ≠ none := by
    rw [h.packet]
    exact Option.some_ne_none m
  rw [packetSent, find_head h]
  exact if_neg hptr

/-- Whatever the status, the first packet stays for a counted attempt or leaves with a callback. -/
theorem outcome_packetSent (hmem : Mem none (some n) s handed)
    (h : Head s handed n q qs b m pb r) (he : entryOf s n = some e)
    (ht : e.transmissions < limit cfg r.maxMacTransmissions)
    (hc : e.collisions ≤ max cfg.maxBackoff cfg.minBe) (hstatus : status ≠ .deferred) :
    Outcome handed n e pb.contents (qs.map (number s)) r status s (packetSent s n status 1) := by
  have hentry := (h.entry he).2
  have htr : e.transmissions = (s.neighbor n).transmissions := congrArg Entry.transmissions hentry
  have hcol : e.collisions = (s.neighbor n).collisions := congrArg Entry.collisions hentry
  -- the counters do not overflow
  have htmod : ((s.neighbor n).transmissions + 1) % 256 = e.transmissions + 1 := by
    have := limit_lt cfg r.maxMacTransmissions
    rw [htr, Nat.mod_eq_of_lt (by omega)]
  have hcmod : ((s.neighbor n).collisions + 1) % 256 = e.collisions + 1 := by
    have := cfg.minBe_le
    have := cfg.maxBackoff_le
    rw [hcol, Nat.mod_eq_of_lt (by omega)]
  have hsame : setNeighbor s n (s.neighbor n) = s := by
    rw [setNeighbor, Function.update_eq_self]
  rw [packetSent_eq h]
  cases status with
  | ok =>
    exact outcome_txDone .ok hmem h he _ rfl rfl
  | noack =>
    show Outcome _ _ _ _ _ _ _ _ (retry _ _ _ _)
    rw [htmod]
    exact outcome_retry .noack hmem h he (.inl ⟨rfl, rfl⟩)
  | collision =>
    show Outcome _ _ _ _ _ _ _ _ (retry _ _ _ _)
    rw [hcmod, htmod]
    by_cases hmax : e.collisions + 1 > cfg.maxBackoff
    · rw [if_pos hmax]
      exact outcome_retry .collision hmem h he (.inl ⟨rfl, rfl⟩)
    · rw [if_neg hmax]
      have := outcome_retry .collision hmem h he
        (.inr ⟨rfl, rfl, not_lt.mp hmax⟩ : Next cfg e e.transmissions (e.collisions + 1))
      rw [htr] at this
      exact this
  | deferred => exact absurd rfl hstatus
  | err =>
    have := outcome_txDone .err hmem h he (s.neighbor n) rfl rfl
    rwa [hsame] at this
  | errFatal =>
    have := outcome_txDone .errFatal hmem h he (s.neighbor n) rfl rfl
    rwa [hsame] at this

end Outcome

end Sent

/-! ## Refinement -/

/-- What the memory and the histories say of the queues. -/
def queuesOf (w : World cfg Sent Ptr) : Queues (Fin cfg.maxNeighborQueues) Sent Ptr :=
  ⟨entryOf w.state, w.handed, w.accepted, w.completed, w.calls, w.transmissions⟩

structure Inv (w : World cfg Sent Ptr) : Prop where
  mem : Mem none w.state.sending w.state w.handed
  queues : Queues.Inv cfg (queuesOf w)
  /-- The packet with the radio is the first of its queue. -/
  packetbuf : ∀ n q qs, w.state.sending = some n → (w.state.neighbor n).packetQueue = q :: qs →
    w.state.packetbuf = (w.state.packet q).buf.bind w.state.queuebuf

section Refinement

variable {w w' : World cfg Sent Ptr} {s : State cfg Sent Ptr} {handed : List (Request Sent Ptr)}
  {n : Fin cfg.maxNeighborQueues}

/-- Nothing is queued at first. -/
theorem Inv.initial (seqno : UInt8) : Inv (World.initial cfg seqno : World cfg Sent Ptr) where
  mem :=
    { custody := ⟨fun _ => List.nodup_nil, fun h => nomatch h⟩
      held := by simp [World.initial, State.initial]
      bufs := by simp [World.initial, State.initial]
      ptrs := by simp [World.initial, State.initial]
      others := by simp [World.initial, State.initial]
      nodup := List.nodup_nil
      member := by simp [World.initial, State.initial, Pool.empty]
      listed := by simp [World.initial, State.initial]
      timer := by simp [World.initial, State.initial] }
  queues := by
    have hentry : entryOf (State.initial cfg seqno : State cfg Sent Ptr) = fun _ => none :=
      funext fun n => entryOf_of_not_mem (s := State.initial cfg seqno) List.not_mem_nil
    rw [queuesOf]
    show Queues.Inv cfg ⟨entryOf (State.initial cfg seqno), [], [], [], [], fun _ => 0⟩
    rw [hentry]
    exact Queues.Inv.initial
  packetbuf := fun _ _ _ h => nomatch h

/-- A queue is not empty while its timer is armed. -/
theorem Mem.queue_cons (h : Mem none none s handed) (htimer : s.transmitTimer n = true) :
    ∃ q qs, (s.neighbor n).packetQueue = q :: qs :=
  List.exists_cons_of_ne_nil ((h.timer n).mp (.inl htimer))

/-- The timer of a neighbour starts the transmission of its first packet. -/
theorem transmitFromQueue_eq {q : Fin cfg.queuebufNum} {qs : List (Fin cfg.queuebufNum)}
    (hqueue : (s.neighbor n).packetQueue = q :: qs) :
    transmitFromQueue s n = { s with
      transmitTimer := Function.update s.transmitTimer n false
      packetbuf := (s.packet q).buf.bind s.queuebuf
      sending := some n } := by
  simp only [transmitFromQueue, hqueue, List.head?_cons]

/-- Meanwhile the neighbour is busy. -/
theorem Mem.transmitFromQueue (h : Mem none none s handed) (htimer : s.transmitTimer n = true) :
    Mem none (some n) (transmitFromQueue s n) handed := by
  obtain ⟨q, qs, hqueue⟩ := h.queue_cons htimer
  rw [transmitFromQueue_eq hqueue]
  exact
    { h with
      timer := by
        intro n'
        show Function.update s.transmitTimer n false n' = true ∨ some n = some n' ↔
          (s.neighbor n').packetQueue ≠ []
        by_cases hn' : n' = n
        · rw [hn', hqueue]
          exact iff_of_true (.inr rfl) (List.cons_ne_nil q qs)
        · rw [Function.update_of_ne hn']
          refine Iff.trans ?_ (h.timer n')
          simp [Ne.symm hn'] }

/-- A buffer of another layer takes no packet's memory. -/
theorem Mem.otherBuf {busy : Option (Fin cfg.maxNeighborQueues)} {s' : State cfg Sent Ptr}
    {b : Fin cfg.queuebufNum} (h : Mem none busy s handed) (hother : otherBuf s b = some s') :
    Mem none busy s' handed ∧ entryOf s' = entryOf s ∧ s'.sending = s.sending := by
  rw [Csma.otherBuf] at hother
  split at hother
  case isTrue hb =>
    cases hother
    refine ⟨{ h with held := ?_, others := ?_ }, rfl, rfl⟩
    · intro n q hq
      obtain ⟨b', m, pb, r, hbm, hused, ⟨hb', hmine⟩, hrest⟩ := h.held n q hq
      have hne : b' ≠ b := (ne_of_inUse (p := s.others) hb hmine).symm
      exact ⟨b', m, pb, r, hbm, hused, ⟨Pool.release_eq_true.mpr ⟨hne, hb'⟩,
        (Function.update_of_ne hne _ _).trans hmine⟩, hrest⟩
    · intro b' hb'
      obtain ⟨hne, hb'⟩ := (Pool.release_eq_true (p := s.others)).mp hb'
      exact Pool.release_eq_true.mpr ⟨hne, h.others b' hb'⟩
  case isFalse =>
    split at hother
    case isTrue => cases hother
    case isFalse hfree =>
      cases hother
      refine ⟨{ h with held := ?_, others := ?_ }, rfl, rfl⟩
      · intro n q hq
        obtain ⟨b', m, pb, r, hbm, hused, ⟨hb', hmine⟩, hrest⟩ := h.held n q hq
        have hne : b' ≠ b := ne_of_inUse hb' (Bool.eq_false_of_not_eq_true hfree)
        exact ⟨b', m, pb, r, hbm, hused, ⟨Pool.take_eq_true.mpr (.inr hb'),
          (Function.update_of_ne hne _ _).trans hmine⟩, hrest⟩
      · intro b' hb'
        have := (Pool.take_eq_true (p := s.others)).mp hb'
        exact Pool.take_eq_true.mpr (this.imp_right (h.others b'))

/-- A packet with a sequence number keeps it. -/
theorem create_eq {pb : Packetbuf} (hpb : s.packetbuf = some pb) (hseq : pb.macSeqno ≠ 0)
    (macDsn : ℕ) : create s macDsn = s := by
  rw [create, hpb, Option.map_some, if_neg hseq, ← hpb]

/-- A transmission is never reported as deferred. -/
theorem sendStatus_ne_deferred (isBroadcast : Bool) (r : Radio) :
    (sendStatus isBroadcast r).1 ≠ .deferred := by
  rw [sendStatus]
  repeat' split
  all_goals simp

/-- A request of the application keeps the invariant. -/
theorem Inv.output (h : Inv w) {r : Request Sent Ptr} (hstep : step w (.output r) = some w') :
    Inv w' := by
  rw [step] at hstep
  split at hstep
  case isFalse => cases hstep
  case isTrue hsending =>
    have hmem := h.mem
    rw [hsending] at hmem
    -- The packet is refused and called back at once, or it is stored.
    rcases csmaOutputPacket_cases hmem r with
      ⟨s', hout, hbefore⟩ | ⟨s', n, e, hout, hsending', hmem', hn, hentry⟩
    · simp only [hout] at hstep
      cases hstep
      have hnone : s'.sending = none := hbefore.sending.trans hsending
      refine ⟨?_, ?_, fun n q qs hn => ?_⟩
      · show Mem none s'.sending s' (w.handed ++ [r])
        rw [hnone]
        exact (hbefore.mem hmem).append r
      · have hstep' : Queues.Step cfg (queuesOf w) _ := .reject r
        show Queues.Inv cfg ⟨entryOf s', _, _, _, _, _⟩
        rw [hbefore.entryOf hmem]
        exact h.queues.step hstep'
      · rw [hnone] at hn
        cases hn
    · simp only [hout] at hstep
      cases hstep
      have hnone : s'.sending = none := hsending'.trans hsending
      refine ⟨?_, ?_, fun n q qs hn => ?_⟩
      · show Mem none s'.sending s' (w.handed ++ [r])
        rw [hnone]
        exact hmem'
      · have hstep' : Queues.Step cfg (queuesOf w) _ := .accept n e r hn
        have hqueues := h.queues.step hstep'
        show Queues.Inv cfg ⟨entryOf s', _, _, _, w.calls ++ [], _⟩
        rw [hentry, List.append_nil]
        exact hqueues
      · rw [hnone] at hn
        cases hn

/-- A timer keeps the invariant. -/
theorem Inv.timer (h : Inv w) (hstep : step w (.timer n) = some w') : Inv w' := by
  rw [step] at hstep
  split at hstep
  case isFalse => cases hstep
  case isTrue hcond =>
    obtain ⟨hsending, htimer⟩ := hcond
    cases hstep
    have hmem := h.mem
    rw [hsending] at hmem
    obtain ⟨q, qs, hqueue⟩ := hmem.queue_cons htimer
    have heq := transmitFromQueue_eq hqueue
    refine ⟨?_, ?_, ?_⟩
    · show Mem none (transmitFromQueue w.state n).sending _ _
      have hbusy := hmem.transmitFromQueue htimer
      rw [heq] at hbusy ⊢
      exact hbusy
    · show Queues.Inv cfg ⟨entryOf (transmitFromQueue w.state n), _, _, _, _, _⟩
      rw [heq]
      exact h.queues
    · intro n' q' qs' hn' hq'
      show (transmitFromQueue w.state n).packetbuf = _
      rw [heq] at hn' hq' ⊢
      cases hn'
      obtain ⟨rfl, rfl⟩ := List.cons.inj (hqueue.symm.trans hq')
      rfl

/-- A transmission counts for the packet that was sent. -/
theorem count_queuesOf (w : World cfg Sent Ptr) (k : ℕ) (transmitted : Bool) :
    (fun j => w.transmissions j + if (if transmitted then some k else none) = some j then 1 else 0) =
      (queuesOf w).count k transmitted := by
  funext j
  show _ = w.transmissions j + if transmitted = true ∧ j = k then 1 else 0
  cases transmitted with
  | false => simp
  | true => simp [eq_comm (a := j)]

/-- The end of a transmission keeps the invariant. -/
theorem Inv.radio (h : Inv w) {radio : Radio} (hstep : step w (.radio radio) = some w') :
    Inv w' := by
  rw [step] at hstep
  obtain ⟨n, hsending, hw'⟩ := Option.map_eq_some_iff.mp hstep
  have hmem := h.mem
  rw [hsending] at hmem
  -- the first packet of the queue
  obtain ⟨q, qs, hqueue⟩ := List.exists_cons_of_ne_nil ((hmem.timer n).mp (.inr rfl))
  obtain ⟨b, m, pb, r, hpacket, -, -, -, hpb, hseq, hr, hmd⟩ :=
    hmem.held n q (hqueue ▸ List.mem_cons_self)
  have hpacketbuf : w.state.packetbuf = some pb := by
    rw [h.packetbuf n q qs hsending hqueue, hpacket]
    exact hpb
  have hhead : Head { w.state with sending := none } w.handed n q qs b m pb r :=
    ⟨hqueue, hpacket, hpb, hseq, hr, hmd, hpacketbuf⟩
  have hmem' : Mem none (some n) { w.state with sending := none } w.handed :=
    { hmem with nodup := hmem.nodup }
  have hlisted : n ∈ w.state.neighborList := by
    refine (hmem.listed n).mpr (.inl ?_)
    rw [hqueue]
    exact List.cons_ne_nil q qs
  have he : entryOf { w.state with sending := none } n = some _ := entryOf_of_mem hlisted
  obtain ⟨-, heq⟩ := hhead.entry he
  rw [heq] at he
  have hbudget := h.queues.budget n _ pb.contents _ r he rfl hr
  let ret := sendStatus (decide (some pb.receiver = some linkaddrNull)) radio
  have hout := outcome_packetSent hmem' hhead he hbudget.lt hbudget.le
    (sendStatus_ne_deferred (decide (some pb.receiver = some linkaddrNull)) radio)
  have hsend : sendOnePacket w.state n radio =
      ((packetSent { w.state with sending := none } n ret.1 1).1,
        if ret.2 then some pb.contents else none,
        (packetSent { w.state with sending := none } n ret.1 1).2) := by
    simp only [sendOnePacket, create_eq hpacketbuf hseq, hpacketbuf, Option.map_some]
    rfl
  rw [hsend] at hw'
  generalize packetSent { w.state with sending := none } n ret.1 1 = out at hout hw'
  cases hout with
  | again s' t c hs hm hnext hlimit hentry =>
    obtain rfl := hw'
    have hnone : s'.sending = none := hs
    refine ⟨?_, ?_, fun n q qs hn => ?_⟩
    · show Mem none s'.sending s' w.handed
      rw [hnone]
      exact hm
    · have hstep' : Queues.Step cfg (queuesOf w) _ := .retry n _ pb.contents _ t c ret.2 he rfl
        hnext fun r' hr' => by
          obtain rfl := Option.some.inj (hr.symm.trans hr')
          exact hlimit
      show Queues.Inv cfg ⟨entryOf s', w.handed, w.accepted, w.completed ++ [], w.calls ++ [],
        fun j => w.transmissions j + if (if ret.2 then some pb.contents else none) = some j then 1
          else 0⟩
      rw [count_queuesOf, hentry, List.append_nil, List.append_nil]
      exact h.queues.step hstep'
    · rw [hnone] at hn
      cases hn
  | done s' numTx hs hm hentry =>
    obtain rfl := hw'
    have hnone : s'.sending = none := hs
    refine ⟨?_, ?_, fun n q qs hn => ?_⟩
    · show Mem none s'.sending s' w.handed
      rw [hnone]
      exact hm
    · have hstep' : Queues.Step cfg (queuesOf w) _ :=
        .complete n _ pb.contents _ r ret.1 numTx ret.2 he rfl hr
      show Queues.Inv cfg ⟨entryOf s', w.handed, w.accepted, w.completed ++ [pb.contents],
        w.calls ++ [⟨pb.contents, r.sent, r.cptr, ret.1, numTx⟩],
        fun j => w.transmissions j + if (if ret.2 then some pb.contents else none) = some j then 1
          else 0⟩
      rw [count_queuesOf, hentry]
      exact h.queues.step hstep'
    · rw [hnone] at hn
      cases hn

/-- A buffer of another layer keeps the invariant. -/
theorem Inv.otherBuf (h : Inv w) {b : Fin cfg.queuebufNum}
    (hstep : step w (.otherBuf b) = some w') : Inv w' := by
  rw [step] at hstep
  split at hstep
  case isFalse => cases hstep
  case isTrue hsending =>
    obtain ⟨s', hs', rfl⟩ := Option.map_eq_some_iff.mp hstep
    obtain ⟨hmem, hentry, hsending'⟩ := h.mem.otherBuf hs'
    refine ⟨?_, ?_, fun n q qs hn => ?_⟩
    · show Mem none s'.sending s' w.handed
      rw [hsending']
      exact hmem
    · show Queues.Inv cfg ⟨entryOf s', _, _, _, _, _⟩
      rw [hentry]
      exact h.queues
    · have hn' : s'.sending = some n := hn
      rw [hsending', hsending] at hn'
      cases hn'

/-- The step lemma. -/
theorem Inv.step (h : Inv w) {e : Event cfg Sent Ptr} (hstep : step w e = some w') : Inv w' := by
  cases e with
  | output r => exact h.output hstep
  | timer n => exact h.timer hstep
  | radio r => exact h.radio hstep
  | otherBuf b => exact h.otherBuf hstep

end Refinement

/-! ## Result -/

/-- A packet is in a queue of the list. -/
def InQueue (s : State cfg Sent Ptr) (k : ℕ) (n : Fin cfg.maxNeighborQueues)
    (q : Fin cfg.queuebufNum) : Prop :=
  n ∈ s.neighborList ∧ q ∈ (s.neighbor n).packetQueue ∧ number s q = k

/-- The packets are accounted for. -/
structure Sound (w : World cfg Sent Ptr) : Prop where
  queues : ∀ n ∈ w.state.neighborList, (w.state.neighbor n).packetQueue ≠ [] ∧
    (w.state.transmitTimer n = true ∨ w.state.sending = some n)
  waiting : ∀ k ∈ w.accepted, k ∉ w.completed → callsOf w.calls k = [] ∧
    ∃ n q, InQueue w.state k n q ∧ ∀ n' q', InQueue w.state k n' q' → n' = n ∧ q' = q
  queued : ∀ k n q, InQueue w.state k n q → k ∈ w.accepted ∧ k ∉ w.completed ∧
    ∃ r, w.handed[k]? = some r ∧ r.receiver = (w.state.neighbor n).addr
  completed : ∀ k ∈ w.completed, k ∈ w.accepted ∧ ∃ r status numTx, w.handed[k]? = some r ∧
    callsOf w.calls k = [⟨k, r.sent, r.cptr, status, numTx⟩]
  order : ∀ addr, toDest (dest w.handed) w.completed addr <+: toDest (dest w.handed) w.accepted addr
  transmissions : ∀ k r, w.handed[k]? = some r →
    w.transmissions k ≤ limit cfg r.maxMacTransmissions * (cfg.maxBackoff + 1)
  rejected : ∀ k r, w.handed[k]? = some r → k ∉ w.accepted →
    callsOf w.calls k = [⟨k, r.sent, r.cptr, .err, 1⟩]
  /-- What is rejected next leaves no trace. -/
  untouched : w.state.sending = none → ∀ (r : Request Sent Ptr) call s', csmaOutputPacket w.state
      ⟨0, r.receiver, r.maxMacTransmissions, w.handed.length⟩ r.sent r.cptr = (some call, s') →
    call = ⟨w.handed.length, r.sent, r.cptr, .err, 1⟩ ∧ AsBefore w.state s'

section Result

variable {w : World cfg Sent Ptr} {k : ℕ} {n : Fin cfg.maxNeighborQueues}
  {q : Fin cfg.queuebufNum}

/-- The queue of a neighbour is one of the abstract queues. -/
theorem InQueue.entry (h : InQueue w.state k n q) :
    ∃ e, (queuesOf w).entry n = some e ∧ k ∈ e.packets ∧ e.addr = (w.state.neighbor n).addr :=
  ⟨_, entryOf_of_mem h.1, List.mem_map.mpr ⟨q, h.2.1, h.2.2⟩, rfl⟩

/-- An entry of an abstract queue is a packet of the memory. -/
theorem InQueue.of_entry {e : Entry} (hn : (queuesOf w).entry n = some e) (hk : k ∈ e.packets) :
    ∃ q, InQueue w.state k n q := by
  obtain ⟨hlisted, rfl⟩ := entryOf_eq_some hn
  obtain ⟨q, hq, hnumber⟩ := List.mem_map.mp hk
  exact ⟨q, hlisted, hq, hnumber⟩

/-- A packet is in one place. -/
theorem Inv.place (h : Inv w) {n' : Fin cfg.maxNeighborQueues} {q' : Fin cfg.queuebufNum}
    (hq : InQueue w.state k n q) (hq' : InQueue w.state k n' q') : n' = n ∧ q' = q := by
  obtain ⟨e, he, hk, -⟩ := hq.entry
  obtain ⟨e', he', hk', -⟩ := hq'.entry
  have hn := h.queues.place he' he hk' hk
  subst hn
  refine ⟨rfl, ?_⟩
  obtain ⟨waiting, hw⟩ := h.queues.waits
  have hnodup := hw.nodup he
  obtain ⟨-, rfl⟩ := entryOf_eq_some he
  exact List.inj_on_of_nodup_map hnodup hq'.2.1 hq.2.1 (hq'.2.2.trans hq.2.2.symm)

/-- What the invariant says of a state. -/
theorem Inv.sound (h : Inv w) : Sound w := by
  obtain ⟨waiting, hw⟩ := h.queues.waits
  constructor
  case queues =>
    intro n hn
    have hne : (w.state.neighbor n).packetQueue ≠ [] := by
      rcases (h.mem.listed n).mp hn with hne | hnone
      · exact hne
      · cases hnone
    exact ⟨hne, (h.mem.timer n).mpr hne⟩
  case waiting =>
    intro k hk hkc
    refine ⟨h.queues.waitingCalls k hk hkc, ?_⟩
    obtain ⟨addr, hdest⟩ := Option.isSome_iff_exists.mp (hw.order.accepted_dest k hk)
    have hwait := ((hw.order.mem_accepted_iff hdest).mp hk).resolve_left hkc
    -- the destination has an entry
    have hentry : ∃ n e, (queuesOf w).entry n = some e ∧ e.addr = addr := by
      by_contra hno
      rw [hw.none addr fun n e he haddr => hno ⟨n, e, he, haddr⟩] at hwait
      cases hwait
    obtain ⟨n, e, he, rfl⟩ := hentry
    rw [hw.entry n e he] at hwait
    obtain ⟨q, hq⟩ := InQueue.of_entry he hwait
    exact ⟨n, q, hq, fun n' q' hq' => h.place hq hq'⟩
  case queued =>
    intro k n q hq
    obtain ⟨e, he, hk, haddr⟩ := hq.entry
    obtain ⟨hacc, hdest, hnot⟩ := hw.mem he hk
    obtain ⟨r, hr, hreceiver⟩ := Option.map_eq_some_iff.mp hdest
    exact ⟨hacc, hnot, r, hr, hreceiver.trans haddr⟩
  case completed =>
    intro k hk
    have hacc := hw.order.completed_accepted hk
    have hlt := hw.lt hacc
    obtain ⟨status, numTx, hcalls⟩ :=
      h.queues.completedCalls k _ (List.getElem?_eq_getElem hlt) hk
    exact ⟨hacc, _, status, numTx, List.getElem?_eq_getElem hlt, hcalls⟩
  case order => exact hw.order.completed_prefix
  case transmissions => exact h.queues.bound
  case rejected => exact h.queues.rejectedCalls
  case untouched =>
    intro hsending r call s' hout
    have hmem := h.mem
    rw [hsending] at hmem
    rcases csmaOutputPacket_cases hmem r with ⟨s'', hout', hbefore⟩ | ⟨s'', n, e, hout', -⟩
    · rw [hout'] at hout
      cases hout
      exact ⟨rfl, hbefore⟩
    · rw [hout'] at hout
      cases hout

/-- **Packet accounting**: in every run, the packets that were handed in wait in one queue, are
completed in order with one call, or are rejected with one call and without a trace. -/
theorem csma_accounting {seqno : UInt8}
    (hrun : Run step (fun _ _ => True) (World.initial cfg seqno) w) : Sound w :=
  (hrun.invariant (fun _ _ _ h _ hstep => h.step hstep) (Inv.initial seqno)).sound

end Result

/-- The default configuration, with room for two packets. -/
def defaults : Config where
  maxNeighborQueues := 2
  queuebufNum := 2
  maxPacketPerNeighbor := 2
  minBe := 0
  maxBackoff := 5
  maxFrameRetries := 7
  packet_pos := by decide
  minBe_le := by decide
  maxBackoff_le := by decide
  maxFrameRetries_le := by decide

/-- A packet for the node with the address 1, to be transmitted once. -/
def once : Request Unit Unit := ⟨⟨List.replicate 8 1, rfl⟩, 1, (), ()⟩

/-- The packet is transmitted, and what is heard is not its acknowledgment. -/
def wrongAck : Radio := ⟨true, 1, false, false, .ok, true, true, false⟩

/-- The packet is transmitted and acknowledged. -/
def rightAck : Radio := ⟨true, 1, false, false, .ok, true, true, true⟩

/-- Of three packets the third is rejected, the first is transmitted and completed, and the second
is transmitted twice and waits. -/
theorem csma_accounting_third :
    ∃ w : World defaults Unit Unit, Run step (fun _ _ => True) (World.initial defaults 0) w ∧
      (w.accepted = [0, 1] ∧ w.completed = [0] ∧ w.calls.map (·.packet) = [2, 0] ∧
        w.transmissions 0 = 1 ∧ w.transmissions 1 = 2) ∧ Sound w := by
  obtain ⟨w, hrun, hw⟩ := exists_run_of_runEvents step (fun _ _ => True)
    (World.initial defaults 0 : World defaults Unit Unit)
    [.output once, .output once, .output once, .timer ⟨0, Nat.two_pos⟩, .radio rightAck,
      .timer ⟨0, Nat.two_pos⟩, .radio wrongAck, .timer ⟨0, Nat.two_pos⟩, .radio wrongAck]
    (fun w => w.accepted = [0, 1] ∧ w.completed = [0] ∧ w.calls.map (·.packet) = [2, 0] ∧
      w.transmissions 0 = 1 ∧ w.transmissions 1 = 2) (by decide +kernel)
  exact ⟨w, hrun, hw, csma_accounting hrun⟩

/-- A packet that may be transmitted once is transmitted six times, with five backoffs between
the transmissions. -/
theorem six_transmissions :
    ¬ ∀ w : World defaults Unit Unit, Run step (fun _ _ => True) (World.initial defaults 0) w →
      ∀ k r, w.handed[k]? = some r →
        w.transmissions k ≤ limit defaults r.maxMacTransmissions * defaults.maxBackoff := by
  intro hall
  obtain ⟨w, hrun, hhanded, htx⟩ := exists_run_of_runEvents step (fun _ _ => True)
    (World.initial defaults 0 : World defaults Unit Unit)
    (.output once :: (List.replicate 6 [.timer ⟨0, Nat.two_pos⟩, .radio wrongAck]).flatten)
    (fun w => w.handed[0]?.map (·.maxMacTransmissions) = some 1 ∧ w.transmissions 0 = 6)
    (by decide +kernel)
  obtain ⟨r, hr, hmax⟩ := Option.map_eq_some_iff.mp hhanded
  have hbound := hall w hrun 0 r hr
  rw [htx, hmax] at hbound
  exact absurd hbound (by decide)

end MasterScheduler.Mote.Csma

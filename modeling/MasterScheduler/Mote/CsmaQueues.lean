import MasterScheduler.Lib.InOrder
import MasterScheduler.Mote.Csma

/-!
# MasterScheduler.Mote.CsmaQueues — what the packet queues are for

The purpose of `csma-output.c` without its memory: destinations with packets
that wait, the first of which is sent again until it is completed.

1. **Model**: the queues, with the histories of `Csma.World`, and what one step
   does (`Queues.Step`).
2. **Invariant**: the order, the calls and the number of transmissions, kept by
   every step (`Queues.Inv.step`).
-/

namespace MasterScheduler.Mote.Csma

open Lib Frame802154

/-! ## Model -/

/-- A destination with packets that wait. The counters are about the first one. -/
structure Entry where
  addr : Linkaddr
  transmissions : ℕ
  collisions : ℕ
  packets : List ℕ

/-- The destinations with packets, and what happened so far. -/
structure Queues (ι Sent Ptr : Type) where
  entry : ι → Option Entry
  handed : List (Request Sent Ptr)
  accepted : List ℕ
  completed : List ℕ
  calls : List (Call Sent Ptr)
  transmissions : ℕ → ℕ

namespace Queues

variable {ι Sent Ptr : Type} {cfg : Config}

/-- The receiver of a packet. -/
def dest (handed : List (Request Sent Ptr)) (k : ℕ) : Option Linkaddr :=
  handed[k]?.map (·.receiver)

/-- The transmissions, with another one of a packet or not. -/
def count (w : Queues ι Sent Ptr) (k : ℕ) (transmitted : Bool) (j : ℕ) : ℕ :=
  w.transmissions j + if transmitted = true ∧ j = k then 1 else 0

/-- The counters after an attempt that is to be repeated. -/
def Next (cfg : Config) (e : Entry) (t c : ℕ) : Prop :=
  t = e.transmissions + 1 ∧ c = cfg.minBe ∨
    t = e.transmissions ∧ c = e.collisions + 1 ∧ c ≤ cfg.maxBackoff

/-- What one step does. -/
inductive Step [DecidableEq ι] (cfg : Config) (w : Queues ι Sent Ptr) : Queues ι Sent Ptr → Prop
  | skip : Step cfg w w
  /-- A packet is accepted, at a destination that has packets or at a new one. -/
  | accept (n : ι) (e : Entry) (r : Request Sent Ptr)
      (hn : w.entry n = some e ∧ e.addr = r.receiver ∨
        w.entry n = none ∧ (∀ m e', w.entry m = some e' → e'.addr ≠ r.receiver) ∧
          e = ⟨r.receiver, 0, cfg.minBe, []⟩) :
      Step cfg w { w with
        entry := Function.update w.entry n
          (some { e with packets := e.packets ++ [w.handed.length] })
        handed := w.handed ++ [r]
        accepted := w.accepted ++ [w.handed.length] }
  /-- A packet is rejected. -/
  | reject (r : Request Sent Ptr) :
      Step cfg w { w with
        handed := w.handed ++ [r]
        calls := w.calls ++ [⟨w.handed.length, r.sent, r.cptr, .err, 1⟩] }
  /-- The first packet of a destination is to be sent again. -/
  | retry (n : ι) (e : Entry) (k : ℕ) (ks : List ℕ) (t c : ℕ) (transmitted : Bool)
      (hn : w.entry n = some e) (he : e.packets = k :: ks) (hnext : Next cfg e t c)
      (hlimit : ∀ r, w.handed[k]? = some r → t < limit cfg r.maxMacTransmissions) :
      Step cfg w { w with
        entry := Function.update w.entry n
          (some { e with transmissions := t, collisions := c })
        transmissions := w.count k transmitted }
  /-- The first packet of a destination is completed. -/
  | complete (n : ι) (e : Entry) (k : ℕ) (ks : List ℕ) (r : Request Sent Ptr) (status : Status)
      (numTx : ℕ) (transmitted : Bool) (hn : w.entry n = some e) (he : e.packets = k :: ks)
      (hr : w.handed[k]? = some r) :
      Step cfg w { w with
        entry := Function.update w.entry n
          (if ks = [] then none else some ⟨e.addr, 0, cfg.minBe, ks⟩)
        completed := w.completed ++ [k]
        calls := w.calls ++ [⟨k, r.sent, r.cptr, status, numTx⟩]
        transmissions := w.count k transmitted }

/-! ## Invariant -/

/-- The calls about a packet. -/
def callsOf (calls : List (Call Sent Ptr)) (k : ℕ) : List (Call Sent Ptr) :=
  calls.filter fun c => decide (c.packet = k)

/-- What the counters of a destination say of its first packet. -/
structure Budget (cfg : Config) (w : Queues ι Sent Ptr) (e : Entry) (k : ℕ)
    (r : Request Sent Ptr) : Prop where
  lt : e.transmissions < limit cfg r.maxMacTransmissions
  le : e.collisions ≤ max cfg.maxBackoff cfg.minBe
  count : w.transmissions k + cfg.minBe ≤
    e.transmissions * (cfg.maxBackoff + 1) + e.collisions

/-- What waits at the destinations. -/
structure Waits (w : Queues ι Sent Ptr) (waiting : Linkaddr → List ℕ) : Prop where
  order : InOrder (dest w.handed) w.accepted w.completed waiting
  entry : ∀ n e, w.entry n = some e → waiting e.addr = e.packets
  none : ∀ a, (∀ n e, w.entry n = some e → e.addr ≠ a) → waiting a = []

structure Inv (cfg : Config) (w : Queues ι Sent Ptr) : Prop where
  addrs : ∀ n m e e', w.entry n = some e → w.entry m = some e' → e.addr = e'.addr → n = m
  nonempty : ∀ n e, w.entry n = some e → e.packets ≠ []
  waits : ∃ waiting, Waits w waiting
  budget : ∀ n e k ks r, w.entry n = some e → e.packets = k :: ks → w.handed[k]? = some r →
    Budget cfg w e k r
  unsent : ∀ n e k ks, w.entry n = some e → e.packets = k :: ks → ∀ j ∈ ks, w.transmissions j = 0
  bound : ∀ k r, w.handed[k]? = some r →
    w.transmissions k ≤ limit cfg r.maxMacTransmissions * (cfg.maxBackoff + 1)
  future : ∀ k, w.handed.length ≤ k → w.transmissions k = 0
  noCalls : ∀ k, w.handed.length ≤ k → callsOf w.calls k = []
  waitingCalls : ∀ k ∈ w.accepted, k ∉ w.completed → callsOf w.calls k = []
  completedCalls : ∀ k r, w.handed[k]? = some r → k ∈ w.completed →
    ∃ status numTx, callsOf w.calls k = [⟨k, r.sent, r.cptr, status, numTx⟩]
  rejectedCalls : ∀ k r, w.handed[k]? = some r → k ∉ w.accepted →
    callsOf w.calls k = [⟨k, r.sent, r.cptr, .err, 1⟩]

/-- There is at least one attempt. -/
theorem limit_pos (cfg : Config) (maxMacTransmissions : ℕ) : 0 < limit cfg maxMacTransmissions := by
  rw [limit]
  split
  case isTrue => exact Nat.succ_pos _
  case isFalse h => exact Nat.pos_of_ne_zero h

/-- One call more for its packet. -/
theorem callsOf_append_self {calls : List (Call Sent Ptr)} {c : Call Sent Ptr} :
    callsOf (calls ++ [c]) c.packet = callsOf calls c.packet ++ [c] := by
  simp [callsOf]

/-- And none for another one. -/
theorem callsOf_append_of_ne {calls : List (Call Sent Ptr)} {c : Call Sent Ptr} {k : ℕ}
    (h : c.packet ≠ k) : callsOf (calls ++ [c]) k = callsOf calls k := by
  simp [callsOf, h]

section Handed

variable {handed : List (Request Sent Ptr)} {r r' : Request Sent Ptr} {k : ℕ}

/-- The packets before stay where they are. -/
theorem getElem?_handed (hk : k < handed.length) : (handed ++ [r])[k]? = handed[k]? :=
  List.getElem?_append_left hk

/-- The packet that was handed over. -/
theorem getElem?_handed_self : (handed ++ [r])[handed.length]? = some r := by
  simp

/-- A packet that was handed over. -/
theorem lt_of_handed (h : handed[k]? = some r) : k < handed.length :=
  (List.getElem?_eq_some_iff.mp h).1

/-- Its destination stays. -/
theorem dest_append (h : (dest handed k).isSome) : dest (handed ++ [r]) k = dest handed k := by
  obtain ⟨a, ha⟩ := Option.isSome_iff_exists.mp h
  obtain ⟨r', hr', -⟩ := Option.map_eq_some_iff.mp ha
  rw [dest, dest, getElem?_handed (lt_of_handed hr')]

/-- The destination of the new one. -/
theorem dest_append_self : dest (handed ++ [r]) handed.length = some r.receiver := by
  rw [dest, getElem?_handed_self]
  rfl

/-- A packet that was handed in is the new one or an old one. -/
theorem handed_cases (h : (handed ++ [r])[k]? = some r') :
    k = handed.length ∧ r' = r ∨ k < handed.length ∧ handed[k]? = some r' := by
  have hlt := lt_of_handed h
  rw [List.length_append, List.length_singleton] at hlt
  by_cases hk : k < handed.length
  · exact .inr ⟨hk, getElem?_handed hk ▸ h⟩
  · have hk' : k = handed.length := by omega
    subst hk'
    rw [getElem?_handed_self] at h
    exact .inl ⟨rfl, (Option.some.inj h).symm⟩

end Handed

section Inv

variable {w : Queues ι Sent Ptr} {waiting : Linkaddr → List ℕ} {n : ι} {e : Entry} {k : ℕ}
  {ks : List ℕ}

/-- A packet that waits is accepted and not completed. -/
theorem Waits.mem (h : Waits w waiting) (hn : w.entry n = some e) (hk : k ∈ e.packets) :
    k ∈ w.accepted ∧ dest w.handed k = some e.addr ∧ k ∉ w.completed := by
  rw [← h.entry n e hn] at hk
  exact ⟨(h.order.mem_waiting hk).1, (h.order.mem_waiting hk).2, h.order.disjoint hk⟩

/-- An accepted packet was handed over. -/
theorem Waits.lt (h : Waits w waiting) (hk : k ∈ w.accepted) : k < w.handed.length := by
  obtain ⟨a, ha⟩ := Option.isSome_iff_exists.mp (h.order.accepted_dest k hk)
  obtain ⟨r, hr, -⟩ := Option.map_eq_some_iff.mp ha
  exact lt_of_handed hr

/-- No packet waits twice. -/
theorem Waits.nodup (h : Waits w waiting) (hn : w.entry n = some e) : e.packets.Nodup := by
  rw [← h.entry n e hn]
  exact h.order.nodup_waiting _

/-- A packet waits at one destination only. -/
theorem Inv.place (h : Inv cfg w) {m : ι} {e' : Entry} (hn : w.entry n = some e)
    (hm : w.entry m = some e') (hk : k ∈ e.packets) (hk' : k ∈ e'.packets) : n = m := by
  obtain ⟨waiting, hw⟩ := h.waits
  have hd := (hw.mem hn hk).2.1
  have hd' := (hw.mem hm hk').2.1
  exact h.addrs n m e e' hn hm (Option.some.inj (hd.symm.trans hd'))

/-- Nothing waits at first. -/
theorem Inv.initial : Inv cfg (⟨fun _ => none, [], [], [], [], fun _ => 0⟩ : Queues ι Sent Ptr) where
  addrs := by
    intro n m e e' hn
    cases hn
  nonempty := by
    intro n e hn
    cases hn
  waits := ⟨fun _ => [], .nil, (fun n e hn => by cases hn), fun _ _ => rfl⟩
  budget := by
    intro n e k ks r hn
    cases hn
  unsent := by
    intro n e k ks hn
    cases hn
  bound := by
    intro k r hr
    cases hr
  future := fun _ _ => rfl
  noCalls := fun _ _ => rfl
  waitingCalls := by
    intro k hk
    cases hk
  completedCalls := by
    intro k r hr
    cases hr
  rejectedCalls := by
    intro k r hr
    cases hr

/-- The budget allows another transmission. -/
theorem Budget.next {r : Request Sent Ptr} (h : Budget cfg w e k r) :
    w.transmissions k + 1 ≤ (e.transmissions + 1) * (cfg.maxBackoff + 1) := by
  have := h.count
  have := h.le
  rw [Nat.add_mul]
  omega

/-- One more transmission is within the budget. -/
theorem Budget.bound {r : Request Sent Ptr} (h : Budget cfg w e k r) :
    w.transmissions k + 1 ≤ limit cfg r.maxMacTransmissions * (cfg.maxBackoff + 1) :=
  h.next.trans (Nat.mul_le_mul_right _ h.lt)

/-- A transmission counts once. -/
theorem count_self (transmitted : Bool) : w.count k transmitted k ≤ w.transmissions k + 1 := by
  rw [count]
  split <;> omega

/-- It counts for no other packet. -/
theorem count_of_ne (transmitted : Bool) {j : ℕ} (h : j ≠ k) :
    w.count k transmitted j = w.transmissions j := by
  simp [count, h]

/-- The transmissions stay within the bounds when the first packet of a destination is sent. -/
theorem Inv.count_bound (h : Inv cfg w) (hn : w.entry n = some e) (he : e.packets = k :: ks)
    (transmitted : Bool) (j : ℕ) (r : Request Sent Ptr) (hr : w.handed[j]? = some r) :
    w.count k transmitted j ≤ limit cfg r.maxMacTransmissions * (cfg.maxBackoff + 1) := by
  by_cases hj : j = k
  · subst hj
    exact (count_self transmitted).trans (h.budget n e j ks r hn he hr).bound
  · rw [count_of_ne transmitted hj]
    exact h.bound j r hr

/-- It does not count for the packets of other destinations. -/
theorem Inv.count_elsewhere (h : Inv cfg w) (hn : w.entry n = some e) (he : e.packets = k :: ks)
    (transmitted : Bool) {m : ι} {e' : Entry} (hm : m ≠ n) (hold : w.entry m = some e') {j : ℕ}
    (hj : j ∈ e'.packets) : w.count k transmitted j = w.transmissions j := by
  have hne : j ≠ k := by
    rintro rfl
    exact hm (h.place hold hn hj (he ▸ List.mem_cons_self))
  exact count_of_ne transmitted hne

/-- It does not count for packets to come. -/
theorem Inv.count_future (h : Inv cfg w) (hn : w.entry n = some e) (he : e.packets = k :: ks)
    (transmitted : Bool) (j : ℕ) (hj : w.handed.length ≤ j) : w.count k transmitted j = 0 := by
  obtain ⟨waiting, hw⟩ := h.waits
  have hk := hw.lt (hw.mem hn (he ▸ List.mem_cons_self)).1
  rw [count_of_ne transmitted (by omega)]
  exact h.future j hj

end Inv

section Step

variable [DecidableEq ι] {w w' : Queues ι Sent Ptr} {n : ι} {e : Entry} {k : ℕ} {ks : List ℕ}

/-- One entry is another, the others stay. -/
theorem entry_update {f : ι → Option Entry} {m : ι} {e e' : Entry}
    (h : Function.update f n (some e) m = some e') :
    m = n ∧ e' = e ∨ m ≠ n ∧ f m = some e' := by
  by_cases hm : m = n
  · subst hm
    rw [Function.update_self] at h
    exact .inl ⟨rfl, (Option.some.inj h).symm⟩
  · rw [Function.update_of_ne hm] at h
    exact .inr ⟨hm, h⟩

omit [DecidableEq ι] in
/-- A refused packet keeps the invariant. -/
theorem Inv.reject (h : Inv cfg w) (r : Request Sent Ptr) :
    Inv cfg { w with
      handed := w.handed ++ [r]
      calls := w.calls ++ [⟨w.handed.length, r.sent, r.cptr, .err, 1⟩] } := by
  obtain ⟨waiting, hw⟩ := h.waits
  -- The packet is new, so no entry has it, and its call is the only one.
  have hnot : w.handed.length ∉ w.accepted := fun hmem => lt_irrefl _ (hw.lt hmem)
  have hcalls : ∀ j, j ≠ w.handed.length →
      callsOf (w.calls ++ [⟨w.handed.length, r.sent, r.cptr, .err, 1⟩]) j = callsOf w.calls j :=
    fun j hj => callsOf_append_of_ne (Ne.symm hj)
  constructor
  case addrs => exact h.addrs
  case nonempty => exact h.nonempty
  case waits => exact ⟨waiting, hw.order.congr fun k hk => dest_append hk, hw.entry, hw.none⟩
  case budget =>
    intro n e k ks r' hn he hr
    have hlt := hw.lt (hw.mem hn (he ▸ List.mem_cons_self)).1
    have hb := h.budget n e k ks r' hn he (getElem?_handed hlt ▸ hr)
    exact ⟨hb.lt, hb.le, hb.count⟩
  case unsent => exact h.unsent
  case bound =>
    intro k r' hr
    rcases handed_cases hr with ⟨rfl, rfl⟩ | ⟨-, hr⟩
    · show w.transmissions _ ≤ _
      rw [h.future _ le_rfl]
      exact Nat.zero_le _
    · exact h.bound k r' hr
  case future =>
    intro k hk
    rw [List.length_append] at hk
    exact h.future k (by omega)
  case noCalls =>
    intro k hk
    rw [List.length_append, List.length_singleton] at hk
    rw [hcalls k (by omega)]
    exact h.noCalls k (by omega)
  case waitingCalls =>
    intro k hk hkc
    rw [hcalls k (by have := hw.lt hk; omega)]
    exact h.waitingCalls k hk hkc
  case completedCalls =>
    intro k r' hr hk
    have hlt := hw.lt (hw.order.completed_accepted hk)
    rw [hcalls k (by omega)]
    exact h.completedCalls k r' (getElem?_handed hlt ▸ hr) hk
  case rejectedCalls =>
    intro k r' hr hk
    rcases handed_cases hr with ⟨rfl, rfl⟩ | ⟨hlt, hr⟩
    · show callsOf (w.calls ++ [⟨w.handed.length, r'.sent, r'.cptr, .err, 1⟩]) w.handed.length = _
      refine callsOf_append_self.trans ?_
      rw [h.noCalls _ le_rfl]
      rfl
    · rw [hcalls k (by omega)]
      exact h.rejectedCalls k r' hr hk

/-- An accepted packet keeps the invariant. -/
theorem Inv.accept (h : Inv cfg w) (r : Request Sent Ptr)
    (hn : w.entry n = some e ∧ e.addr = r.receiver ∨
      w.entry n = none ∧ (∀ m e', w.entry m = some e' → e'.addr ≠ r.receiver) ∧
        e = ⟨r.receiver, 0, cfg.minBe, []⟩) :
    Inv cfg { w with
      entry := Function.update w.entry n
        (some { e with packets := e.packets ++ [w.handed.length] })
      handed := w.handed ++ [r]
      accepted := w.accepted ++ [w.handed.length] } := by
  obtain ⟨waiting, hw⟩ := h.waits
  have hnot : w.handed.length ∉ w.accepted := fun hmem => lt_irrefl _ (hw.lt hmem)
  have haddr : e.addr = r.receiver := by
    rcases hn with ⟨-, haddr⟩ | ⟨-, -, rfl⟩
    · exact haddr
    · rfl
  -- no other destination has the address
  have hother : ∀ m e', m ≠ n → w.entry m = some e' → e'.addr ≠ r.receiver := by
    intro m e' hm he' heq
    rcases hn with ⟨hn, -⟩ | ⟨-, hnone, -⟩
    · exact hm (h.addrs m n e' e he' hn (heq.trans haddr.symm))
    · exact hnone m e' he' heq
  have hwaiting : waiting r.receiver = e.packets := by
    rcases hn with ⟨hn, -⟩ | ⟨-, hnone, rfl⟩
    · rw [← haddr]
      exact hw.entry n e hn
    · exact hw.none _ hnone
  have hlt : ∀ m e', w.entry m = some e' → ∀ j ∈ e'.packets, j < w.handed.length :=
    fun m e' he' j hj => hw.lt (hw.mem he' hj).1
  constructor
  case addrs =>
    intro m m' e₁ e₂ h₁ h₂ heq
    rcases entry_update h₁ with ⟨rfl, rfl⟩ | ⟨hm, h₁⟩ <;>
      rcases entry_update h₂ with ⟨hm', he₂⟩ | ⟨hm', h₂⟩
    · exact hm'.symm
    · exact absurd (heq.symm.trans haddr) (hother m' e₂ hm' h₂)
    · rw [he₂] at heq
      exact absurd (heq.trans haddr) (hother m e₁ hm h₁)
    · exact h.addrs m m' e₁ e₂ h₁ h₂ heq
  case nonempty =>
    intro m e' he'
    rcases entry_update he' with ⟨rfl, rfl⟩ | ⟨-, he'⟩
    · exact List.append_ne_nil_of_right_ne_nil _ (List.cons_ne_nil _ _)
    · exact h.nonempty m e' he'
  case waits =>
    refine ⟨Function.update waiting r.receiver (waiting r.receiver ++ [w.handed.length]), ?_, ?_, ?_⟩
    · exact (hw.order.congr fun k hk => dest_append hk).accept hnot dest_append_self
    · intro m e' he'
      rcases entry_update he' with ⟨rfl, rfl⟩ | ⟨hm, he'⟩
      · show Function.update waiting r.receiver _ e.addr = e.packets ++ [w.handed.length]
        rw [haddr, Function.update_self, hwaiting]
      · rw [Function.update_of_ne (hother m e' hm he')]
        exact hw.entry m e' he'
    · intro a ha
      have hne : a ≠ r.receiver := by
        rintro rfl
        exact ha n _ (Function.update_self _ _ _) haddr
      rw [Function.update_of_ne hne]
      refine hw.none a fun m e' he' heq => ?_
      by_cases hm : m = n
      · subst hm
        rcases hn with ⟨hn, -⟩ | ⟨hn, -⟩
        · rw [hn] at he'
          obtain rfl := Option.some.inj he'
          exact hne (heq.symm.trans haddr)
        · rw [hn] at he'
          cases he'
      · exact ha m e' ((Function.update_of_ne hm _ _).trans he') heq
  case budget =>
    intro m e' k ks r' he' hpackets hr
    rcases entry_update he' with ⟨rfl, rfl⟩ | ⟨-, he'⟩
    · rcases hn with ⟨hn, -⟩ | ⟨-, -, rfl⟩
      · obtain ⟨k', ks', hcons⟩ := List.exists_cons_of_ne_nil (h.nonempty m e hn)
        have hk : k' = k := by
          have : e.packets ++ [w.handed.length] = k :: ks := hpackets
          rw [hcons] at this
          exact (List.cons.inj this).1
        subst hk
        have hklt := hlt m e hn k' (hcons ▸ List.mem_cons_self)
        have hb := h.budget m e k' ks' r' hn hcons (getElem?_handed hklt ▸ hr)
        exact ⟨hb.lt, hb.le, hb.count⟩
      · have hk : w.handed.length = k := (List.cons.inj hpackets).1
        subst hk
        refine ⟨limit_pos cfg _, le_max_right _ _, ?_⟩
        show w.transmissions w.handed.length + cfg.minBe ≤ 0 * _ + cfg.minBe
        rw [h.future _ le_rfl]
        omega
    · have hklt := hlt m e' he' k (hpackets ▸ List.mem_cons_self)
      have hb := h.budget m e' k ks r' he' hpackets (getElem?_handed hklt ▸ hr)
      exact ⟨hb.lt, hb.le, hb.count⟩
  case unsent =>
    intro m e' k ks he' hpackets j hj
    rcases entry_update he' with ⟨rfl, rfl⟩ | ⟨-, he'⟩
    · rcases hn with ⟨hn, -⟩ | ⟨-, -, rfl⟩
      · obtain ⟨k', ks', hcons⟩ := List.exists_cons_of_ne_nil (h.nonempty m e hn)
        have hks : ks' ++ [w.handed.length] = ks := by
          have : e.packets ++ [w.handed.length] = k :: ks := hpackets
          rw [hcons] at this
          exact (List.cons.inj this).2
        rw [← hks] at hj
        rcases List.mem_append.mp hj with hj | hj
        · exact h.unsent m e k' ks' hn hcons j hj
        · rw [List.mem_singleton.mp hj]
          exact h.future _ le_rfl
      · have hks : [] = ks := (List.cons.inj hpackets).2
        rw [← hks] at hj
        cases hj
    · exact h.unsent m e' k ks he' hpackets j hj
  case bound =>
    intro k r' hr
    rcases handed_cases hr with ⟨rfl, rfl⟩ | ⟨-, hr⟩
    · show w.transmissions _ ≤ _
      rw [h.future _ le_rfl]
      exact Nat.zero_le _
    · exact h.bound k r' hr
  case future =>
    intro k hk
    rw [List.length_append] at hk
    exact h.future k (by omega)
  case noCalls =>
    intro k hk
    rw [List.length_append] at hk
    exact h.noCalls k (by omega)
  case waitingCalls =>
    intro k hk hkc
    rcases List.mem_append.mp hk with hk | hk
    · exact h.waitingCalls k hk hkc
    · rw [List.mem_singleton.mp hk]
      exact h.noCalls _ le_rfl
  case completedCalls =>
    intro k r' hr hk
    have hklt := hw.lt (hw.order.completed_accepted hk)
    exact h.completedCalls k r' (getElem?_handed hklt ▸ hr) hk
  case rejectedCalls =>
    intro k r' hr hk
    rcases handed_cases hr with ⟨rfl, rfl⟩ | ⟨hlt, hr⟩
    · exact absurd (List.mem_append_right _ (List.mem_singleton.mpr rfl)) hk
    · exact h.rejectedCalls k r' hr fun hmem => hk (List.mem_append_left _ hmem)

/-- A counted attempt keeps the invariant. -/
theorem Inv.retry (h : Inv cfg w) {t c : ℕ} (transmitted : Bool) (hn : w.entry n = some e)
    (he : e.packets = k :: ks) (hnext : Next cfg e t c)
    (hlimit : ∀ r, w.handed[k]? = some r → t < limit cfg r.maxMacTransmissions) :
    Inv cfg { w with
      entry := Function.update w.entry n (some { e with transmissions := t, collisions := c })
      transmissions := w.count k transmitted } := by
  obtain ⟨waiting, hw⟩ := h.waits
  have hnodup := he ▸ hw.nodup hn
  -- The packet stays the first of its entry, only the counters change.
  constructor
  case addrs =>
    intro m m' e₁ e₂ h₁ h₂ heq
    rcases entry_update h₁ with ⟨rfl, rfl⟩ | ⟨hm, h₁⟩ <;>
      rcases entry_update h₂ with ⟨hm', he₂⟩ | ⟨hm', h₂⟩
    · exact hm'.symm
    · exact h.addrs m m' e e₂ hn h₂ heq
    · rw [he₂] at heq
      exact hm' ▸ h.addrs m n e₁ e h₁ hn heq
    · exact h.addrs m m' e₁ e₂ h₁ h₂ heq
  case nonempty =>
    intro m e' he'
    rcases entry_update he' with ⟨rfl, rfl⟩ | ⟨-, he'⟩
    · exact h.nonempty m e hn
    · exact h.nonempty m e' he'
  case waits =>
    refine ⟨waiting, hw.order, ?_, ?_⟩
    · intro m e' he'
      rcases entry_update he' with ⟨rfl, rfl⟩ | ⟨-, he'⟩
      · exact hw.entry m e hn
      · exact hw.entry m e' he'
    · intro a ha
      refine hw.none a fun m e' he' heq => ?_
      by_cases hm : m = n
      · subst hm
        obtain rfl := Option.some.inj (hn.symm.trans he')
        exact ha m _ (Function.update_self _ _ _) heq
      · exact ha m e' ((Function.update_of_ne hm _ _).trans he') heq
  case budget =>
    intro m e' k' ks' r' he' hpackets hr
    rcases entry_update he' with ⟨rfl, rfl⟩ | ⟨hm, hold⟩
    · obtain rfl : k' = k := (List.cons.inj (hpackets.symm.trans he)).1
      have hb := h.budget m e k' ks r' hn he hr
      have hcount := count_self (w := w) (k := k') transmitted
      have := hb.next
      have := hb.count
      rcases hnext with ⟨rfl, rfl⟩ | ⟨rfl, rfl, hc⟩
      · refine ⟨hlimit r' hr, le_max_right _ _, ?_⟩
        show w.count k' transmitted k' + cfg.minBe ≤
          (e.transmissions + 1) * (cfg.maxBackoff + 1) + cfg.minBe
        omega
      · refine ⟨hlimit r' hr, hc.trans (le_max_left _ _), ?_⟩
        show w.count k' transmitted k' + cfg.minBe ≤
          e.transmissions * (cfg.maxBackoff + 1) + (e.collisions + 1)
        omega
    · have hb := h.budget m e' k' ks' r' hold hpackets hr
      refine ⟨hb.lt, hb.le, ?_⟩
      show w.count k transmitted k' + cfg.minBe ≤ _
      rw [h.count_elsewhere hn he transmitted hm hold (hpackets ▸ List.mem_cons_self)]
      exact hb.count
  case unsent =>
    intro m e' k' ks' he' hpackets j hj
    show w.count k transmitted j = 0
    rcases entry_update he' with ⟨rfl, rfl⟩ | ⟨hm, hold⟩
    · obtain ⟨rfl, rfl⟩ := List.cons.inj (hpackets.symm.trans he)
      have hne : j ≠ k' := fun heq => (List.nodup_cons.mp hnodup).1 (heq ▸ hj)
      rw [count_of_ne transmitted hne]
      exact h.unsent m e k' ks' hn he j hj
    · rw [h.count_elsewhere hn he transmitted hm hold (hpackets ▸ List.mem_cons_of_mem _ hj)]
      exact h.unsent m e' k' ks' hold hpackets j hj
  case bound => exact h.count_bound hn he transmitted
  case future => exact h.count_future hn he transmitted
  case noCalls => exact h.noCalls
  case waitingCalls => exact h.waitingCalls
  case completedCalls => exact h.completedCalls
  case rejectedCalls => exact h.rejectedCalls

/-- A completed packet keeps the invariant. -/
theorem Inv.complete (h : Inv cfg w) {r : Request Sent Ptr} (status : Status) (numTx : ℕ)
    (transmitted : Bool) (hn : w.entry n = some e) (he : e.packets = k :: ks)
    (hr : w.handed[k]? = some r) :
    Inv cfg { w with
      entry := Function.update w.entry n
        (if ks = [] then none else some ⟨e.addr, 0, cfg.minBe, ks⟩)
      completed := w.completed ++ [k]
      calls := w.calls ++ [⟨k, r.sent, r.cptr, status, numTx⟩]
      transmissions := w.count k transmitted } := by
  obtain ⟨waiting, hw⟩ := h.waits
  have hkmem : k ∈ e.packets := he ▸ List.mem_cons_self
  obtain ⟨hkacc, -, hknot⟩ := hw.mem hn hkmem
  have hnodup := he ▸ hw.nodup hn
  -- what is left of the destinations
  have hentry : ∀ m e', Function.update w.entry n
      (if ks = [] then none else some ⟨e.addr, 0, cfg.minBe, ks⟩) m = some e' →
      m = n ∧ ks ≠ [] ∧ e' = ⟨e.addr, 0, cfg.minBe, ks⟩ ∨ m ≠ n ∧ w.entry m = some e' := by
    intro m e' he'
    by_cases hm : m = n
    · subst hm
      rw [Function.update_self] at he'
      split at he'
      case isTrue => cases he'
      case isFalse hks => exact .inl ⟨rfl, hks, (Option.some.inj he').symm⟩
    · rw [Function.update_of_ne hm] at he'
      exact .inr ⟨hm, he'⟩
  have hcalls : ∀ j, j ≠ k →
      callsOf (w.calls ++ [⟨k, r.sent, r.cptr, status, numTx⟩]) j = callsOf w.calls j :=
    fun j hj => callsOf_append_of_ne (Ne.symm hj)
  constructor
  case addrs =>
    intro m m' e₁ e₂ h₁ h₂ heq
    rcases hentry m e₁ h₁ with ⟨rfl, -, rfl⟩ | ⟨hm, h₁⟩ <;>
      rcases hentry m' e₂ h₂ with ⟨hm', -, he₂⟩ | ⟨hm', h₂⟩
    · exact hm'.symm
    · exact h.addrs m m' e e₂ hn h₂ heq
    · rw [he₂] at heq
      exact hm' ▸ h.addrs m n e₁ e h₁ hn heq
    · exact h.addrs m m' e₁ e₂ h₁ h₂ heq
  case nonempty =>
    intro m e' he'
    rcases hentry m e' he' with ⟨-, hks, rfl⟩ | ⟨-, he'⟩
    · exact hks
    · exact h.nonempty m e' he'
  case waits =>
    refine ⟨Function.update waiting e.addr ks,
      hw.order.complete ((hw.entry n e hn).trans he), ?_, ?_⟩
    · intro m e' he'
      rcases hentry m e' he' with ⟨-, -, rfl⟩ | ⟨hm, he'⟩
      · exact Function.update_self _ _ _
      · rw [Function.update_of_ne fun heq => hm (h.addrs m n e' e he' hn heq)]
        exact hw.entry m e' he'
    · intro a ha
      by_cases hae : a = e.addr
      · subst hae
        rw [Function.update_self]
        by_contra hks
        refine ha n ⟨e.addr, 0, cfg.minBe, ks⟩ ?_ rfl
        show Function.update w.entry n _ n = _
        rw [Function.update_self, if_neg hks]
      · rw [Function.update_of_ne hae]
        refine hw.none a fun m e' he' heq => ?_
        have hm : m ≠ n := by
          rintro rfl
          obtain rfl := Option.some.inj (hn.symm.trans he')
          exact hae heq.symm
        exact ha m e' ((Function.update_of_ne hm _ _).trans he') heq
  case budget =>
    intro m e' k' ks' r' he' hpackets hr'
    rcases hentry m e' he' with ⟨rfl, -, rfl⟩ | ⟨hm, hold⟩
    · have hks : ks = k' :: ks' := hpackets
      have hne : k' ≠ k := by
        rintro rfl
        exact (List.nodup_cons.mp hnodup).1 (hks ▸ List.mem_cons_self)
      refine ⟨limit_pos cfg _, le_max_right _ _, ?_⟩
      show w.count k transmitted k' + cfg.minBe ≤ 0 * _ + cfg.minBe
      rw [count_of_ne transmitted hne, h.unsent m e k ks hn he k' (hks ▸ List.mem_cons_self)]
      omega
    · have hb := h.budget m e' k' ks' r' hold hpackets hr'
      refine ⟨hb.lt, hb.le, ?_⟩
      show w.count k transmitted k' + cfg.minBe ≤ _
      rw [h.count_elsewhere hn he transmitted hm hold (hpackets ▸ List.mem_cons_self)]
      exact hb.count
  case unsent =>
    intro m e' k' ks' he' hpackets j hj
    show w.count k transmitted j = 0
    rcases hentry m e' he' with ⟨rfl, -, rfl⟩ | ⟨hm, hold⟩
    · have hks : ks = k' :: ks' := hpackets
      have hjks : j ∈ ks := hks ▸ List.mem_cons_of_mem _ hj
      have hne : j ≠ k := fun heq => (List.nodup_cons.mp hnodup).1 (heq ▸ hjks)
      rw [count_of_ne transmitted hne]
      exact h.unsent m e k ks hn he j hjks
    · rw [h.count_elsewhere hn he transmitted hm hold (hpackets ▸ List.mem_cons_of_mem _ hj)]
      exact h.unsent m e' k' ks' hold hpackets j hj
  case bound => exact h.count_bound hn he transmitted
  case future => exact h.count_future hn he transmitted
  case noCalls =>
    intro j hj
    have := lt_of_handed hr
    rw [hcalls j (by dsimp only at hj; omega)]
    exact h.noCalls j hj
  case waitingCalls =>
    intro j hj hjc
    have hne : j ≠ k := fun heq => hjc (List.mem_append_right _ (List.mem_singleton.mpr heq))
    rw [hcalls j hne]
    exact h.waitingCalls j hj fun hmem => hjc (List.mem_append_left _ hmem)
  case completedCalls =>
    intro j r' hr' hj
    by_cases hjk : j = k
    · subst hjk
      obtain rfl := Option.some.inj (hr.symm.trans hr')
      refine ⟨status, numTx, callsOf_append_self.trans ?_⟩
      rw [h.waitingCalls j hkacc hknot]
      rfl
    · rw [hcalls j hjk]
      rcases List.mem_append.mp hj with hj | hj
      · exact h.completedCalls j r' hr' hj
      · exact absurd (List.mem_singleton.mp hj) hjk
  case rejectedCalls =>
    intro j r' hr' hj
    have hne : j ≠ k := by
      rintro rfl
      exact hj hkacc
    rw [hcalls j hne]
    exact h.rejectedCalls j r' hr' hj

/-- The step lemma. -/
theorem Inv.step (h : Inv cfg w) (hstep : Step cfg w w') : Inv cfg w' := by
  cases hstep with
  | skip => exact h
  | accept n e r hn => exact h.accept r hn
  | reject r => exact h.reject r
  | retry n e k ks t c transmitted hn he hnext hlimit =>
    exact h.retry transmitted hn he hnext hlimit
  | complete n e k ks r status numTx transmitted hn he hr =>
    exact h.complete status numTx transmitted hn he hr

end Step

end Queues

end MasterScheduler.Mote.Csma

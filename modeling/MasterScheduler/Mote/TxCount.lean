import MasterScheduler.Lib.Transition
import MasterScheduler.Mote.Frame802154
import MasterScheduler.Mote.Tsch

/-!
# MasterScheduler.Mote.TxCount — counters of transmit links

Every neighbor entry counts the links to transmit on, all of them and the
dedicated ones, in a byte each. With queues per flow
`tsch_schedule_add_link` counts a link at the entry of the flow of its
slotframe, and `tsch_schedule_remove_link` takes it off the entry of the
address in the link.

1. **State**: slotframes, links and neighbor entries. The links are kept in one
   list; those of a slotframe are the ones with its handle, in the same order.
2. **Invariant**: `Counted`, kept by one link that is added or removed.
3. **Runs**: `counted_of_run`, as long as a link that is removed has the address
   of its flow.

The pool of neighbor entries has room for all of them here.
-/

namespace MasterScheduler.Mote.TxCount

open Lib Frame802154

/-! ## Model -/

def linkOptionShared : ℕ := 4

/-- `struct tsch_link`. -/
structure Link where
  /-- Counts the links that were ever added. -/
  handle : ℕ
  linkOptions : ℕ
  linkType : LinkType
  slotframeHandle : ℕ
  timeslot : ℕ
  channelOffset : ℕ
  addr : Linkaddr
deriving DecidableEq

def Link.tx (l : Link) : Bool := l.linkOptions &&& linkOptionTx ≠ 0

def Link.shared (l : Link) : Bool := l.linkOptions &&& linkOptionShared ≠ 0

/-- Where a link is: there is one per timeslot of a slotframe. -/
def Link.place (l : Link) : ℕ × ℕ := (l.slotframeHandle, l.timeslot)

structure Slotframe where
  handle : ℕ
  size : ℕ
deriving DecidableEq

/-- What a `struct tsch_neighbor` counts. -/
structure Counters where
  txLinksCount : UInt8
  dedicatedTxLinksCount : UInt8
deriving DecidableEq

/-- `TSCH_SCHEDULE_MAX_SLOTFRAMES` and `TSCH_SCHEDULE_MAX_LINKS`, which is 50, or 10 or 110 in the
examples. -/
structure Pools where
  maxSlotframes : ℕ
  maxLinks : ℕ
  maxLinks_lt : maxLinks < 256

structure State where
  /-- `slotframe_list`. -/
  slotframes : Keyed Slotframe.handle
  links : Keyed Link.place
  neighbors : Linkaddr → Option Counters
  currentLinkHandle : ℕ
  /-- `current_link` of the slot operation. -/
  currentLink : Option Link

def initState : State where
  slotframes := Keyed.empty
  links := Keyed.empty
  neighbors := fun _ => none
  currentLinkHandle := 0
  currentLink := none

/-- `flow_addr` of `tsch_schedule_add_link`. -/
def flowAddr (slotframeHandle : ℕ) : Linkaddr :=
  ⟨[0, UInt8.ofNat slotframeHandle, 0, 0, 0, 0, 0, 0], rfl⟩

/-- The counters of an entry; a new entry has none. -/
def State.counters (s : State) (addr : Linkaddr) : Counters := (s.neighbors addr).getD ⟨0, 0⟩

/-- `tsch_queue_add_nbr`, and a change to the counters of the entry. -/
def State.updateNbr (s : State) (addr : Linkaddr) (f : Counters → Counters) : State :=
  { s with neighbors := Function.update s.neighbors addr (some (f (s.counters addr))) }

/-- `tsch_schedule_add_slotframe`. -/
def addSlotframe (z : Pools) (s : State) (handle size : ℕ) : State :=
  if size = 0 then s
  else if (s.slotframes.get? handle).isSome then s
  else if z.maxSlotframes ≤ s.slotframes.entries.length then s
  else { s with slotframes := s.slotframes.put ⟨handle, size⟩ }

def countDown (l : Link) (c : Counters) : Counters where
  txLinksCount := c.txLinksCount - 1
  dedicatedTxLinksCount :=
    if l.shared then c.dedicatedTxLinksCount else c.dedicatedTxLinksCount - 1

def countUp (l : Link) (c : Counters) : Counters where
  txLinksCount := c.txLinksCount + 1
  dedicatedTxLinksCount :=
    if l.shared then c.dedicatedTxLinksCount else c.dedicatedTxLinksCount + 1

/-- `tsch_schedule_remove_link`. -/
def removeLink (s : State) (slotframeHandle : ℕ) (l : Link) : State :=
  if l.slotframeHandle ≠ slotframeHandle then s
  else
    let s := { s with
      -- abort the next link operation
      currentLink := if s.currentLink = some l then none else s.currentLink
      links := s.links.erase l.place }
    if l.tx then s.updateNbr l.addr (countDown l) else s

/-- `tsch_schedule_remove_link_by_timeslot`. -/
def removeLinkByTimeslot (s : State) (slotframeHandle timeslot : ℕ) : State :=
  match s.links.get? (slotframeHandle, timeslot) with
  | none => s
  | some l => removeLink s slotframeHandle l

/-- `tsch_schedule_add_link` to the slotframe `sf`. -/
def addLink (z : Pools) (s : State) (sf : Slotframe) (linkOptions : ℕ) (linkType : LinkType)
    (address : Option Linkaddr) (timeslot channelOffset : ℕ) : State :=
  if sf.size - 1 < timeslot then s
  else if 15 < channelOffset then s
  else
    -- the link that is replaced goes even if there is no room for the new one
    let s := removeLinkByTimeslot s sf.handle timeslot
    if z.maxLinks ≤ s.links.entries.length then s
    else
      let l : Link := ⟨s.currentLinkHandle, linkOptions, linkType, sf.handle, timeslot,
        channelOffset, address.getD linkaddrNull⟩
      let s := { s with links := s.links.put l, currentLinkHandle := s.currentLinkHandle + 1 }
      if l.tx then s.updateNbr (flowAddr l.slotframeHandle) (countUp l) else s

/-- `links_list` of a slotframe. -/
def State.linksOf (s : State) (slotframeHandle : ℕ) : List Link :=
  s.links.entries.filter (·.slotframeHandle = slotframeHandle)

/-- `tsch_schedule_remove_slotframe`. -/
def removeSlotframe (s : State) (handle : ℕ) : State :=
  let s := (s.linksOf handle).foldl (fun s l => removeLink s handle l) s
  { s with slotframes := s.slotframes.erase handle }

/-- `tsch_schedule_remove_all_slotframes`. -/
def removeAllSlotframes (s : State) : State :=
  s.slotframes.entries.foldl (fun s sf => removeSlotframe s sf.handle) s

inductive Event where
  | addSlotframe (handle size : ℕ)
  | addLink (slotframeHandle linkOptions : ℕ) (linkType : LinkType) (address : Option Linkaddr)
      (timeslot channelOffset : ℕ)
  | removeLink (slotframeHandle : ℕ) (l : Link)
  | removeSlotframe (handle : ℕ)
  | removeAllSlotframes
  /-- `tsch_queue_free_unused_neighbors` comes to an entry without transmit links. -/
  | freeNbr (addr : Linkaddr)

/-- Pointers to slotframes and links are valid. -/
def step (z : Pools) (s : State) : Event → Option State
  | .addSlotframe handle size => some (addSlotframe z s handle size)
  | .addLink handle options type address timeslot channelOffset =>
      (s.slotframes.get? handle).map fun sf =>
        addLink z s sf options type address timeslot channelOffset
  | .removeLink handle l => if l ∈ s.links.entries then some (removeLink s handle l) else none
  | .removeSlotframe handle =>
      (s.slotframes.get? handle).map fun sf => removeSlotframe s sf.handle
  | .removeAllSlotframes => some (removeAllSlotframes s)
  | .freeNbr addr =>
      if (s.counters addr).txLinksCount = 0 then
        some { s with neighbors := Function.update s.neighbors addr none }
      else none

/-! ## Invariant -/

/-- A link that `add_link` counts at an entry. -/
def countedAt (addr : Linkaddr) (l : Link) : Bool := l.tx && flowAddr l.slotframeHandle = addr

/-- The number of transmit links with a property that are counted at an entry. -/
def linksAt (s : State) (P : Link → Bool) (addr : Linkaddr) : ℕ :=
  s.links.entries.countP fun l => countedAt addr l && P l

/-- A counter of every entry says how many links with a property it has. An entry that does not
exist stands for one without any. -/
def Tallied (s : State) (count : Counters → UInt8) (P : Link → Bool) : Prop :=
  ∀ addr, (count (s.counters addr)).toNat = linksAt s P addr

structure Counted (s : State) : Prop where
  tx : Tallied s Counters.txLinksCount fun _ => true
  dedicated : Tallied s Counters.dedicatedTxLinksCount fun l => !l.shared

/-- The links that an event takes out of the schedule. -/
def removedBy (s : State) : Event → List Link
  | .addLink handle _ _ _ timeslot channelOffset =>
      match s.slotframes.get? handle with
      | none => []
      | some sf =>
          if timeslot ≤ sf.size - 1 ∧ channelOffset ≤ 15 then
            (s.links.get? (handle, timeslot)).toList
          else []
  | .removeLink handle l => if l.slotframeHandle = handle then [l] else []
  | .removeSlotframe handle => s.linksOf handle
  | .removeAllSlotframes => s.links.entries
  | .addSlotframe _ _ | .freeNbr _ => []

/-- A link to transmit on that is removed has the address of the flow of its slotframe. -/
def OwnFlow (l : Link) : Prop := l.tx = true → l.addr = flowAddr l.slotframeHandle

instance (l : Link) : Decidable (OwnFlow l) := inferInstanceAs (Decidable (_ → _))

def OwnFlows (s : State) (e : Event) : Prop := ∀ l ∈ removedBy s e, OwnFlow l

instance (s : State) (e : Event) : Decidable (OwnFlows s e) :=
  inferInstanceAs (Decidable (∀ l ∈ removedBy s e, OwnFlow l))

section

variable {s : State} {l : Link} {addr : Linkaddr}

@[simp] theorem links_updateNbr (f : Counters → Counters) :
    (s.updateNbr addr f).links = s.links := rfl

theorem counters_updateNbr (f : Counters → Counters) (addr' : Linkaddr) :
    (s.updateNbr addr f).counters addr' =
      if addr' = addr then f (s.counters addr) else s.counters addr' := by
  unfold State.updateNbr State.counters
  dsimp only
  by_cases h : addr' = addr
  · rw [if_pos h, h, Function.update_self]
    rfl
  · rw [if_neg h, Function.update_of_ne h]

theorem linksAt_le (s : State) (P : Link → Bool) (addr : Linkaddr) :
    linksAt s P addr ≤ s.links.entries.length :=
  List.countP_le_length

theorem countedAt_of_ne (h : addr ≠ flowAddr l.slotframeHandle) : countedAt addr l = false := by
  unfold countedAt
  rw [decide_eq_false (Ne.symm h), Bool.and_false]

theorem toNat_pred {c : UInt8} (h : 1 ≤ c.toNat) : (c - 1).toNat + 1 = c.toNat := by
  have hle : (1 : UInt8) ≤ c := UInt8.le_iff_toNat_le.2 h
  rw [UInt8.toNat_sub_of_le _ _ hle]
  exact Nat.sub_add_cancel h

theorem toNat_succ {c : UInt8} (h : c.toNat < 255) : (c + 1).toNat = c.toNat + 1 := by
  rw [UInt8.toNat_add]
  exact Nat.mod_eq_of_lt (Nat.succ_lt_succ h)

section

variable {count : Counters → UInt8} {P : Link → Bool}

/-- A link with the address of its flow is taken off the entry it was counted at. -/
theorem Tallied.removeLink (h : Tallied s count P)
    (hdown : ∀ c, count (countDown l c) = if P l then count c - 1 else count c)
    (hl : l ∈ s.links.entries) (hown : OwnFlow l) :
    Tallied (removeLink s l.slotframeHandle l) count P := by
  intro a
  have hget : s.links.get? l.place = some l := Keyed.get?_eq_some_iff.2 ⟨hl, rfl⟩
  have hcount := Keyed.countP_erase hget fun l => countedAt a l && P l
  have hold := h a
  unfold linksAt at hold
  unfold TxCount.removeLink
  rw [if_neg (not_not_intro rfl)]
  dsimp only
  by_cases htx : l.tx = true
  · rw [if_pos htx, hown htx, counters_updateNbr]
    unfold linksAt
    rw [links_updateNbr]
    dsimp only
    by_cases ha : a = flowAddr l.slotframeHandle
    · rw [if_pos ha]
      subst ha
      have hat : countedAt (flowAddr l.slotframeHandle) l = true := by simp [countedAt, htx]
      rw [hat, Bool.true_and] at hcount
      show (count (countDown l (s.counters (flowAddr l.slotframeHandle)))).toNat = _
      rw [hdown]
      cases hP : P l with
      | true =>
        -- the entry counts this link at least
        rw [hP, if_pos rfl] at hcount
        have hpred := toNat_pred (c := count (s.counters (flowAddr l.slotframeHandle))) (by omega)
        rw [if_pos rfl]
        omega
      | false =>
        rw [hP, if_neg Bool.false_ne_true] at hcount
        rw [if_neg Bool.false_ne_true]
        omega
    · rw [if_neg ha]
      have hat := countedAt_of_ne ha
      rw [hat, Bool.false_and, if_neg Bool.false_ne_true] at hcount
      show (count (s.counters a)).toNat = _
      omega
  · -- the link was not counted
    have hat : countedAt a l = false := by simp [countedAt, htx]
    rw [hat, Bool.false_and, if_neg Bool.false_ne_true] at hcount
    rw [if_neg htx]
    show (count (s.counters a)).toNat = (s.links.erase l.place).entries.countP _
    omega

/-- A new link is counted at the entry of its flow, as long as the byte has room. -/
theorem Tallied.put (h : Tallied s count P)
    (hup : ∀ c, count (countUp l c) = if P l then count c + 1 else count c)
    (hnew : s.links.get? l.place = none) (hroom : s.links.entries.length < 255) (n : ℕ) :
    Tallied (if l.tx then
        { s with links := s.links.put l, currentLinkHandle := n }.updateNbr
          (flowAddr l.slotframeHandle) (countUp l)
      else { s with links := s.links.put l, currentLinkHandle := n }) count P := by
  intro a
  have hcount := Keyed.countP_put hnew fun l => countedAt a l && P l
  have hold := h a
  have hle := linksAt_le s P a
  unfold linksAt at hold hle
  -- Only a transmit link changes a counter.
  by_cases htx : l.tx = true
  · rw [if_pos htx, counters_updateNbr]
    unfold linksAt
    rw [links_updateNbr]
    dsimp only
    split_ifs with ha
    · subst ha
      have hat : countedAt (flowAddr l.slotframeHandle) l = true := by simp [countedAt, htx]
      rw [hat, Bool.true_and] at hcount
      show (count (countUp l (s.counters (flowAddr l.slotframeHandle)))).toNat = _
      rw [hup]
      cases hP : P l with
      | true =>
        rw [hP, if_pos rfl] at hcount
        rw [if_pos rfl, toNat_succ (by omega)]
        omega
      | false =>
        rw [hP, if_neg Bool.false_ne_true] at hcount
        rw [if_neg Bool.false_ne_true]
        omega
    · have hat := countedAt_of_ne ha
      rw [hat, Bool.false_and, if_neg Bool.false_ne_true] at hcount
      show (count (s.counters a)).toNat = _
      omega
  · have hat : countedAt a l = false := by simp [countedAt, htx]
    rw [hat, Bool.false_and, if_neg Bool.false_ne_true] at hcount
    rw [if_neg htx]
    show (count (s.counters a)).toNat = (s.links.put l).entries.countP _
    omega

end

theorem Counted.removeLink (h : Counted s) (hl : l ∈ s.links.entries) (hown : OwnFlow l) :
    Counted (removeLink s l.slotframeHandle l) := by
  constructor
  · exact h.tx.removeLink (fun _ => rfl) hl hown
  · refine h.dedicated.removeLink ?_ hl hown
    intro c
    unfold countDown
    cases l.shared <;> rfl

/-- What `removeLink` does to the schedule. -/
theorem removeLink_fixed (s : State) (l : Link) :
    (TxCount.removeLink s l.slotframeHandle l).links = s.links.erase l.place ∧
      (TxCount.removeLink s l.slotframeHandle l).slotframes = s.slotframes := by
  unfold TxCount.removeLink
  rw [if_neg (not_not_intro rfl)]
  dsimp only
  by_cases htx : l.tx = true
  · rw [if_pos htx]
    exact ⟨rfl, rfl⟩
  · rw [if_neg htx]
    exact ⟨rfl, rfl⟩

/-- The links of a slotframe are removed one after the other. -/
theorem Counted.removeLinks (h : Counted s) (handle : ℕ) {ls : List Link}
    (hls : ∀ l ∈ ls, l ∈ s.links.entries ∧ l.slotframeHandle = handle ∧ OwnFlow l)
    (hnd : (ls.map Link.place).Nodup) :
    Counted (ls.foldl (fun s l => TxCount.removeLink s handle l) s) ∧
      ((ls.foldl (fun s l => TxCount.removeLink s handle l) s).links.entries).Sublist
        s.links.entries := by
  induction ls generalizing s with
  | nil => exact ⟨h, List.Sublist.refl _⟩
  | cons l ls ih =>
    rcases hls l List.mem_cons_self with ⟨hl, rfl, hown⟩
    rw [List.map_cons, List.nodup_cons] at hnd
    have hlinks := (removeLink_fixed s l).1
    rw [List.foldl_cons]
    have hnext := ih (h.removeLink hl hown) ?_ hnd.2
    · refine ⟨hnext.1, hnext.2.trans ?_⟩
      rw [hlinks]
      exact List.filter_sublist
    · intro l' hl'
      rcases hls l' (List.mem_cons_of_mem _ hl') with ⟨hmem, hh, hown'⟩
      refine ⟨?_, hh, hown'⟩
      rw [hlinks]
      -- the links have different places
      refine List.mem_filter.2 ⟨hmem, ?_⟩
      simp only [ne_eq, decide_eq_true_eq]
      intro hplace
      exact hnd.1 (hplace ▸ List.mem_map_of_mem hl')

theorem Counted.removeSlotframe (h : Counted s) (handle : ℕ)
    (hown : ∀ l ∈ s.linksOf handle, OwnFlow l) :
    Counted (removeSlotframe s handle) ∧
      ((removeSlotframe s handle).links.entries).Sublist s.links.entries := by
  have hnext := h.removeLinks handle (?_ : ∀ l ∈ s.linksOf handle, _)
    (s.links.nodup.sublist (List.filter_sublist.map _))
  · exact ⟨⟨hnext.1.tx, hnext.1.dedicated⟩, hnext.2⟩
  · intro l hl
    rcases List.mem_filter.1 hl with ⟨hmem, hh⟩
    exact ⟨hmem, by simpa using hh, hown l hl⟩

theorem Counted.removeSlotframes {sfs : List Slotframe} (h : Counted s)
    (hown : ∀ l ∈ s.links.entries, OwnFlow l) :
    Counted (sfs.foldl (fun s sf => TxCount.removeSlotframe s sf.handle) s) ∧
      ((sfs.foldl (fun s sf => TxCount.removeSlotframe s sf.handle) s).links.entries).Sublist
        s.links.entries := by
  induction sfs generalizing s with
  | nil => exact ⟨h, List.Sublist.refl _⟩
  | cons sf sfs ih =>
    have hfirst := h.removeSlotframe sf.handle fun l hl =>
      hown l (List.mem_filter.1 hl).1
    rw [List.foldl_cons]
    have hnext := ih hfirst.1 fun l hl => hown l (hfirst.2.mem hl)
    exact ⟨hnext.1, hnext.2.trans hfirst.2⟩

/-- After the link of a timeslot is removed there is none. -/
theorem Counted.removeLinkByTimeslot {handle timeslot : ℕ} (h : Counted s)
    (hown : ∀ l, s.links.get? (handle, timeslot) = some l → OwnFlow l) :
    Counted (removeLinkByTimeslot s handle timeslot) ∧
      (removeLinkByTimeslot s handle timeslot).links.get? (handle, timeslot) = none := by
  unfold TxCount.removeLinkByTimeslot
  cases hl : s.links.get? (handle, timeslot) with
  | none => exact ⟨h, hl⟩
  | some l =>
    rcases Keyed.get?_eq_some_iff.1 hl with ⟨hmem, hplace⟩
    have hh : l.slotframeHandle = handle := congrArg Prod.fst hplace
    subst hh
    refine ⟨h.removeLink hmem (hown l hl), ?_⟩
    dsimp only
    rw [(removeLink_fixed s l).1, Keyed.get?_erase, if_pos hplace.symm]

theorem Counted.addLink {z : Pools} {sf : Slotframe} {options : ℕ} {type : LinkType}
    {address : Option Linkaddr} {timeslot channelOffset : ℕ} (h : Counted s)
    (hown : timeslot ≤ sf.size - 1 ∧ channelOffset ≤ 15 →
      ∀ l, s.links.get? (sf.handle, timeslot) = some l → OwnFlow l) :
    Counted (addLink z s sf options type address timeslot channelOffset) := by
  have hpool := z.maxLinks_lt
  unfold TxCount.addLink
  by_cases hslot : sf.size - 1 < timeslot
  · rw [if_pos hslot]
    exact h
  by_cases hch : 15 < channelOffset
  · rw [if_neg hslot, if_pos hch]
    exact h
  rw [if_neg hslot, if_neg hch]
  have hremoved := h.removeLinkByTimeslot (hown ⟨by omega, by omega⟩)
  generalize TxCount.removeLinkByTimeslot s sf.handle timeslot = r at hremoved
  dsimp only
  by_cases hfull : z.maxLinks ≤ r.links.entries.length
  · -- the old link is removed, and there is no room for the new one
    rw [if_pos hfull]
    exact hremoved.1
  · rw [if_neg hfull]
    have hroom : r.links.entries.length < 255 := by omega
    have hnew (l : Link) (hl : l.place = (sf.handle, timeslot)) : r.links.get? l.place = none := by
      rw [hl]
      exact hremoved.2
    constructor
    · exact hremoved.1.tx.put (fun _ => rfl) (hnew ⟨_, _, _, _, _, _, _⟩ rfl) hroom _
    · refine hremoved.1.dedicated.put ?_ (hnew ⟨_, _, _, _, _, _, _⟩ rfl) hroom _
      intro c
      unfold countUp
      cases Link.shared _ <;> rfl

end

/-! ## Runs -/

section

variable {z : Pools} {s t : State} {e : Event}

/-- One call, case by case. -/
theorem Counted.step (h : Counted s) (hok : OwnFlows s e) (hs : step z s e = some t) :
    Counted t := by
  cases e with
  | addSlotframe handle size =>
    cases hs
    -- the links and counters are not touched
    unfold TxCount.addSlotframe
    split_ifs
    · exact h
    · exact h
    · exact h
    · exact ⟨h.tx, h.dedicated⟩
  | addLink handle options type address timeslot channelOffset =>
    rcases Option.map_eq_some_iff.1 hs with ⟨sf, hsf, rfl⟩
    have hh : sf.handle = handle := (Keyed.get?_eq_some_iff.1 hsf).2
    subst hh
    refine h.addLink ?_
    intro hguard l hl
    refine hok l ?_
    unfold removedBy
    dsimp only
    rw [hsf]
    dsimp only
    rw [if_pos hguard, hl]
    exact List.mem_singleton_self l
  | removeLink handle l =>
    unfold TxCount.step at hs
    dsimp only at hs
    split_ifs at hs with hl
    cases hs
    by_cases hh : l.slotframeHandle = handle
    · subst hh
      refine h.removeLink hl (hok l ?_)
      unfold removedBy
      dsimp only
      rw [if_pos rfl]
      exact List.mem_singleton_self l
    · -- the link is not one of this slotframe
      unfold TxCount.removeLink
      rw [if_pos hh]
      exact h
  | removeSlotframe handle =>
    rcases Option.map_eq_some_iff.1 hs with ⟨sf, hsf, rfl⟩
    have hh : sf.handle = handle := (Keyed.get?_eq_some_iff.1 hsf).2
    subst hh
    exact (h.removeSlotframe sf.handle hok).1
  | removeAllSlotframes =>
    cases hs
    exact (h.removeSlotframes hok).1
  | freeNbr addr =>
    unfold TxCount.step at hs
    dsimp only at hs
    split_ifs at hs with hzero
    cases hs
    -- an entry without transmit links has no dedicated ones either
    have htx : linksAt s (fun _ => true) addr = 0 := by
      rw [← h.tx addr, hzero]
      rfl
    have hded : linksAt s (fun l => !l.shared) addr = 0 := by
      refine Nat.eq_zero_of_le_zero (htx ▸ List.countP_mono_left ?_)
      intro l _ hl
      rw [Bool.and_eq_true] at hl ⊢
      exact ⟨hl.1, rfl⟩
    have hcounters : ∀ a, State.counters
        { s with neighbors := Function.update s.neighbors addr none } a =
          if a = addr then ⟨0, 0⟩ else s.counters a := by
      intro a
      unfold State.counters
      dsimp only
      by_cases ha : a = addr
      · rw [if_pos ha, ha, Function.update_self]
        rfl
      · rw [if_neg ha, Function.update_of_ne ha]
    constructor
    · intro a
      rw [hcounters]
      split_ifs with ha
      · rw [ha]
        exact htx.symm
      · exact h.tx a
    · intro a
      rw [hcounters]
      split_ifs with ha
      · rw [ha]
        exact hded.symm
      · exact h.dedicated a

theorem counted_initState : Counted initState := by
  constructor <;>
  · intro addr
    rfl

/-- In every run in which the links that are removed have the addresses of their flows, every
entry counts its links. -/
theorem counted_of_run (hrun : Run (TxCount.step z) OwnFlows initState s) : Counted s :=
  hrun.invariant (fun _ _ _ h hok hs => h.step hok hs) counted_initState

end

/-- Ten links, as in the neighbor discovery. -/
def tenLinks : Pools := ⟨9, 10, by decide⟩

/-- The address of node 5. -/
def nodeFive : Linkaddr := ⟨[0, 0, 0, 0, 0, 0, 0, 5], rfl⟩

/-- A link to transmit on, in slotframe 1. -/
def txLink (addr : Linkaddr) : Link := ⟨0, 1, .normal, 1, 2, 0, addr⟩

/-- A link to the address of the flow is added, replaced and removed with the slotframe. -/
theorem counted_of_run_flow :
    ∃ s, Run (TxCount.step tenLinks) OwnFlows initState s ∧
      (s.counters (flowAddr 1) = ⟨0, 0⟩ ∧ s.links.entries = []) ∧ Counted s := by
  obtain ⟨s, hrun, hs⟩ := exists_run_of_runEvents (TxCount.step tenLinks) OwnFlows initState
    [.addSlotframe 1 10, .addLink 1 1 .normal (some (flowAddr 1)) 2 0,
      .addLink 1 5 .normal (some (flowAddr 1)) 2 0, .removeSlotframe 1]
    (fun s => s.counters (flowAddr 1) = ⟨0, 0⟩ ∧ s.links.entries = []) (by decide)
  exact ⟨s, hrun, hs, counted_of_run hrun⟩

/-- A link to node 5 is added and removed: its flow still counts one, and node 5 less than none. -/
theorem removed_elsewhere :
    ∃ s, Run (TxCount.step tenLinks) (fun _ _ => True) initState s ∧
      s.neighbors nodeFive = some ⟨255, 255⟩ ∧ s.neighbors (flowAddr 1) = some ⟨1, 1⟩ ∧
      ¬ Counted s := by
  obtain ⟨s, hrun, hs⟩ := exists_run_of_runEvents (TxCount.step tenLinks) (fun _ _ => True)
    initState [.addSlotframe 1 10, .addLink 1 1 .normal (some nodeFive) 2 0,
      .removeLink 1 (txLink nodeFive)]
    (fun s => s.neighbors nodeFive = some ⟨255, 255⟩ ∧ s.neighbors (flowAddr 1) = some ⟨1, 1⟩ ∧
      s.links.entries = []) (by decide)
  refine ⟨s, hrun, hs.1, hs.2.1, ?_⟩
  intro h
  have htx := h.tx nodeFive
  unfold State.counters linksAt at htx
  rw [hs.1, hs.2.2] at htx
  exact absurd htx (by decide)

end MasterScheduler.Mote.TxCount

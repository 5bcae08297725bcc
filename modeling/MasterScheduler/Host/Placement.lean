import MasterScheduler.Host.Cells
import MasterScheduler.Host.Schedule

/-!
# MasterScheduler.Host.Placement — the invariant of the placement loops

`Placed` relates the loop state of `create` to the list of places given away
so far. The used timeslots always form an initial segment no longer than the
number of placed cells; that is why the search for a slot ends inside the table.

- `findSlot_ok`: the search ends at the first unused slot at the latest.
- `placeCell_ok`: one placement keeps the invariant.
- `placeFlow_ok`: the cells of a flow, last first, get strictly increasing slots.
- `foldlM_placeFlow_ok`: the whole placement.
-/

namespace MasterScheduler.Host

open Lib

/-- A cell with the position it was given. -/
structure Place where
  cell : Cell
  channel : ℕ
  slot : ℕ

/-- `schedule[channel][timeslot]`; `none` is an empty or missing position. -/
def cellAt (g : Grid) (channel slot : ℕ) : Option Cell := ((g[channel]?).bind (·[slot]?)).join

/-- `used_nodes_in_timeslot[slot]`. -/
def usedAt (st : SlotState) (slot : ℕ) : List Node := (st.usedNodesInTimeslot[slot]?).getD []

/-- The loop state reflects the places given away so far; `top` is the number
of used timeslots. -/
structure Placed (numChannels width : ℕ) (st : SlotState) (places : List Place) (top : ℕ) :
    Prop where
  channels : st.schedule.length = numChannels
  rows : ∀ row ∈ st.schedule, row.length = width
  slots : st.usedNodesInTimeslot.length = width
  grid : ∀ ch t c, cellAt st.schedule ch t = some c ↔ ⟨c, ch, t⟩ ∈ places
  used : ∀ t x, x ∈ usedAt st t ↔ ∃ p ∈ places, p.slot = t ∧ x ∈ p.cell.participants
  apart : ∀ p ∈ places, ∀ q ∈ places, p.slot = q.slot → p ≠ q →
    ∀ x ∈ p.cell.participants, x ∉ q.cell.participants
  compact : ∀ t, (∃ p ∈ places, p.slot = t) ↔ t < top
  top_le : top ≤ places.length
  last : st.lastTimeslot = top - 1

/-! ## The grid -/

@[simp] theorem cellAt_cons_zero (row : List (Option Cell)) (g : Grid) (t : ℕ) :
    cellAt (row :: g) 0 t = (row[t]?).join := rfl

@[simp] theorem cellAt_cons_succ (row : List (Option Cell)) (g : Grid) (ch t : ℕ) :
    cellAt (row :: g) (ch + 1) t = cellAt g ch t := rfl

theorem cellAt_modify {g : Grid} {ch t width : ℕ} (c : Cell) (hch : ch < g.length)
    (hrows : ∀ row ∈ g, row.length = width) (ht : t < width) (ch' t' : ℕ) :
    cellAt (g.modify ch (·.set t (some c))) ch' t' =
      if ch' = ch ∧ t' = t then some c else cellAt g ch' t' := by
  have hrow : (g[ch]).length = width := hrows _ (List.getElem_mem hch)
  unfold cellAt
  by_cases hc : ch' = ch
  · subst hc
    by_cases htt : t' = t
    · subst htt
      simp [hch, hrow, ht]
    · have htt' : t ≠ t' := fun h => htt h.symm
      simp [hch, htt, htt']
  · have hc' : ch ≠ ch' := fun h => hc h.symm
    simp [hc, hc']

theorem slotAvailable_ok {g : Grid} {slot width : ℕ} (hrows : ∀ row ∈ g, row.length = width)
    (hs : slot < width) :
    ∃ b, slotAvailable slot g = .ok b ∧
      (b = true ↔ ∃ ch < g.length, cellAt g ch slot = none) := by
  induction g with
  | nil => exact ⟨false, rfl, by simp⟩
  | cons row g ih =>
    obtain ⟨b, hb, hiff⟩ := ih fun r hr => hrows r (by simp [hr])
    have hlen : slot < row.length := by rw [hrows row (by simp)]; exact hs
    refine ⟨row[slot].isNone || b, ?_, ?_⟩
    · simp [slotAvailable, List.getElem?_eq_getElem hlen, hb, bind, Except.bind, pure, Except.pure]
    · rw [Bool.or_eq_true, hiff]
      constructor
      · rintro (h0 | ⟨ch, hch, hnone⟩)
        · exact ⟨0, by simp, by simpa [List.getElem?_eq_getElem hlen] using h0⟩
        · exact ⟨ch + 1, by simpa using hch, hnone⟩
      · rintro ⟨ch, hch, hnone⟩
        cases ch with
        | zero => exact .inl (by simpa [List.getElem?_eq_getElem hlen] using hnone)
        | succ ch => exact .inr ⟨ch, by simpa using hch, hnone⟩

theorem availableChannelInSlot_ok {g : Grid} {slot width : ℕ}
    (hrows : ∀ row ∈ g, row.length = width) (hs : slot < width)
    (hfree : ∃ ch < g.length, cellAt g ch slot = none) (k : ℕ) :
    ∃ ch < g.length, availableChannelInSlot slot g k = .ok (k + ch) ∧
      cellAt g ch slot = none := by
  induction g generalizing k with
  | nil => simp at hfree
  | cons row g ih =>
    have hlen : slot < row.length := by rw [hrows row (by simp)]; exact hs
    cases h0 : row[slot] with
    | none =>
      refine ⟨0, by simp, ?_, by simp [List.getElem?_eq_getElem hlen, h0]⟩
      simp [availableChannelInSlot, List.getElem?_eq_getElem hlen, h0]
    | some c =>
      have hrest : ∃ ch < g.length, cellAt g ch slot = none := by
        obtain ⟨ch, hch, hnone⟩ := hfree
        cases ch with
        | zero => simp [List.getElem?_eq_getElem hlen, h0] at hnone
        | succ ch => exact ⟨ch, by simpa using hch, hnone⟩
      obtain ⟨ch, hch, hav, hnone⟩ := ih (fun r hr => hrows r (by simp [hr])) hrest (k + 1)
      refine ⟨ch + 1, by simpa using hch, ?_, hnone⟩
      simp [availableChannelInSlot, List.getElem?_eq_getElem hlen, h0, hav]
      omega

/-! ## Searching a slot -/

section

variable {numChannels width top : ℕ} {st : SlotState} {places : List Place}

theorem Placed.slot_lt (h : Placed numChannels width st places top) {p : Place}
    (hp : p ∈ places) : p.slot < top :=
  (h.compact p.slot).1 ⟨p, hp, rfl⟩

theorem Placed.usedAt_eq_nil (h : Placed numChannels width st places top) {t : ℕ}
    (ht : top ≤ t) : usedAt st t = [] := by
  refine List.eq_nil_iff_forall_not_mem.2 fun x hx => ?_
  obtain ⟨p, hp, rfl, -⟩ := (h.used t x).1 hx
  exact absurd (h.slot_lt hp) (by omega)

/-- What `schedulable_in_slot` decides. -/
theorem Placed.schedulableInSlot_ok (h : Placed numChannels width st places top) {slot : ℕ}
    (hs : slot < width) (participants : List Node) :
    ∃ b, schedulableInSlot st slot participants = .ok b ∧
      (b = true ↔ (∃ ch < st.schedule.length, cellAt st.schedule ch slot = none) ∧
        ∀ x ∈ participants, x ∉ usedAt st slot) := by
  obtain ⟨b, hb, hiff⟩ := slotAvailable_ok h.rows hs
  have hlen : slot < st.usedNodesInTimeslot.length := by rw [h.slots]; exact hs
  have hused : st.usedNodesInTimeslot[slot]? = some (usedAt st slot) := by
    simp [usedAt, List.getElem?_eq_getElem hlen]
  unfold schedulableInSlot
  rw [hb, hused]
  cases b with
  | false =>
    refine ⟨false, rfl, ?_⟩
    simp only [Bool.false_eq_true, false_iff] at hiff ⊢
    exact fun hc => hiff hc.1
  | true =>
    have hch := hiff.1 rfl
    by_cases h0 : (usedAt st slot).length = 0
    · refine ⟨true, by simp [bind, Except.bind, pure, Except.pure, h0], ?_⟩
      simp [List.length_eq_zero_iff.1 h0, hch]
    · refine ⟨participants.all (· ∉ usedAt st slot), ?_, ?_⟩
      · simp [bind, Except.bind, pure, Except.pure, h0]
      · simp [hch]

theorem findSlot_ok (h : Placed numChannels width st places top) (hC : 1 ≤ numChannels)
    (htop : top < width) (participants : List Node) (fuel insertAt : ℕ)
    (hle : insertAt ≤ top) (hfuel : top < fuel + insertAt) :
    ∃ slot, findSlot st participants fuel insertAt = .ok slot ∧ insertAt ≤ slot ∧ slot ≤ top ∧
      (∃ ch < st.schedule.length, cellAt st.schedule ch slot = none) ∧
      ∀ x ∈ participants, x ∉ usedAt st slot := by
  induction fuel generalizing insertAt with
  | zero => omega
  | succ fuel ih =>
    obtain ⟨b, hb, hiff⟩ := h.schedulableInSlot_ok (show insertAt < width by omega) participants
    cases b with
    | true =>
      refine ⟨insertAt, ?_, le_refl _, hle, hiff.1 rfl⟩
      simp [findSlot, hb, bind, Except.bind, pure, Except.pure]
    | false =>
      -- the first unused slot accepts every cell, so the search has not reached it
      have hne : insertAt ≠ top := by
        rintro rfl
        refine absurd (hiff.2 ⟨⟨0, by rw [h.channels]; omega, ?_⟩, ?_⟩) (by simp)
        · rw [Option.eq_none_iff_forall_ne_some]
          intro c hc
          exact absurd (h.slot_lt ((h.grid _ _ _).1 hc)) (lt_irrefl _)
        · simp [h.usedAt_eq_nil (le_refl _)]
      obtain ⟨slot, hslot, hge, hrest⟩ := ih (insertAt + 1) (by omega) (by omega)
      refine ⟨slot, ?_, by omega, hrest⟩
      simp [findSlot, hb, bind, Except.bind, hslot]

/-! ## Placing cells -/

theorem usedAt_modify {used : List (List Node)} {slot t : ℕ} (ps : List Node)
    (hs : slot < used.length) {x : Node} :
    x ∈ ((used.modify slot (· ++ ps))[t]?).getD [] ↔
      x ∈ (used[t]?).getD [] ∨ (slot = t ∧ x ∈ ps) := by
  by_cases ht : slot = t
  · subst ht
    simp [hs]
  · simp [ht]

/-- One placement. -/
theorem placeCell_ok (h : Placed numChannels width st places top) (hC : 1 ≤ numChannels)
    (hroom : places.length < width) {insertAt : ℕ} (hle : insertAt ≤ top) (cell : Cell) :
    ∃ st' ch slot, placeCell (st, insertAt) cell = .ok (st', slot) ∧
      insertAt ≤ slot ∧ slot ≤ top ∧
      (∀ p ∈ places, p.slot = slot → ¬ Share p.cell.participants cell.participants) ∧
      Placed numChannels width st' (places ++ [⟨cell, ch, slot⟩]) (max top (slot + 1)) := by
  have htop : top < width := lt_of_le_of_lt h.top_le hroom
  -- The slot is free of the participants, so one of its channels is free too.
  obtain ⟨slot, hslot, hge, hle', hfree, hnew⟩ := findSlot_ok h hC htop cell.participants
    (st.usedNodesInTimeslot.length + 1 - insertAt) insertAt hle (by rw [h.slots]; omega)
  have hwidth : slot < width := by omega
  obtain ⟨ch, hch, hav, hnone⟩ := availableChannelInSlot_ok h.rows hwidth hfree 0
  rw [zero_add] at hav
  refine ⟨{ schedule := st.schedule.modify ch (·.set slot (some cell))
            usedNodesInTimeslot := st.usedNodesInTimeslot.modify slot (· ++ cell.participants)
            lastTimeslot := if st.lastTimeslot < slot then slot else st.lastTimeslot },
    ch, slot, ?_, hge, hle', ?_, ?_⟩
  · simp only [placeCell, hslot, hav, bind, Except.bind, pure, Except.pure]
  · rintro p hp hps ⟨x, hxp, hxc⟩
    exact hnew x hxc ((h.used slot x).2 ⟨p, hp, hps, hxp⟩)
  -- No other cell of the slot has one of them.
  have hdisj : ∀ p ∈ places, p.slot = slot → ∀ x ∈ p.cell.participants,
      x ∉ cell.participants := by
    intro p hp hps x hx hxc
    exact hnew x hxc ((h.used slot x).2 ⟨p, hp, hps, hx⟩)
  constructor
  case channels => simpa using h.channels
  case rows =>
    intro row hrow
    obtain ⟨i, hi, rfl⟩ := List.mem_iff_getElem.1 hrow
    have hi' : i < st.schedule.length := by simpa using hi
    have := h.rows _ (List.getElem_mem hi')
    rw [List.getElem_modify]
    split_ifs <;> simpa using this
  case slots => simpa using h.slots
  case grid =>
    intro ch' t' c
    rw [cellAt_modify cell hch h.rows hwidth, List.mem_append, List.mem_singleton, ← h.grid]
    split_ifs with heq
    · obtain ⟨rfl, rfl⟩ := heq
      simp [hnone, eq_comm]
    · simp only [Place.mk.injEq]
      tauto
  case used =>
    intro t x
    unfold usedAt
    rw [usedAt_modify _ (by rw [h.slots]; exact hwidth)]
    change x ∈ usedAt st t ∨ _ ↔ _
    rw [h.used]
    simp only [List.mem_append, List.mem_singleton]
    constructor
    · rintro (⟨p, hp, hrest⟩ | ⟨rfl, hx⟩)
      · exact ⟨p, .inl hp, hrest⟩
      · exact ⟨_, .inr rfl, rfl, hx⟩
    · rintro ⟨p, hp | rfl, hrest⟩
      · exact .inl ⟨p, hp, hrest⟩
      · exact .inr hrest
  case apart =>
    intro p hp q hq hpq hne x hx
    rw [List.mem_append, List.mem_singleton] at hp hq
    rcases hp with hp | rfl <;> rcases hq with hq | rfl
    · exact h.apart p hp q hq hpq hne x hx
    · exact hdisj p hp hpq x hx
    · exact fun hxq => hdisj q hq hpq.symm x hxq hx
    · exact absurd rfl hne
  case compact =>
    intro t
    simp only [List.mem_append, List.mem_singleton]
    constructor
    · rintro ⟨p, hp | rfl, rfl⟩
      · exact lt_of_lt_of_le (h.slot_lt hp) (le_max_left _ _)
      · simp
    · intro ht
      by_cases hlt : t < top
      · obtain ⟨p, hp, hpt⟩ := (h.compact t).2 hlt
        exact ⟨p, .inl hp, hpt⟩
      · exact ⟨⟨cell, ch, slot⟩, .inr rfl, by change slot = t; omega⟩
  case top_le =>
    rw [List.length_append, List.length_singleton]
    have := h.top_le
    omega
  case last =>
    change (if st.lastTimeslot < slot then slot else st.lastTimeslot) = _
    rw [h.last]
    split_ifs <;> omega

theorem Share.symm {a b : List Node} : Share a b → Share b a := by
  rintro ⟨x, ha, hb⟩
  exact ⟨x, hb, ha⟩

/-- Consecutive cells of the flow share a node. -/
def LinkedCells (cells : List Cell) : Prop :=
  cells.IsChain fun c d => Share c.participants d.participants

theorem LinkedCells.reverse {cells : List Cell} (h : LinkedCells cells) :
    LinkedCells cells.reverse := by
  unfold LinkedCells
  rw [List.isChain_reverse]
  exact h.imp fun _ _ => Share.symm

/-- The cells of one flow get strictly increasing slots, last cell first. -/
theorem placeFlow_ok (h : Placed numChannels width st places top) (hC : 1 ≤ numChannels)
    {flow : PlannedFlow} (hroom : places.length + flow.cells.length ≤ width)
    (hlinked : LinkedCells flow.cells) :
    ∃ st' new top', placeFlow st flow = .ok st' ∧
      Placed numChannels width st' (places ++ new) top' ∧
      new.map Place.cell = flow.cells.reverse ∧ new.Pairwise (·.slot < ·.slot) := by
  obtain ⟨⟨st', i⟩, hfold, new, top', hP, hcells, hslots, -⟩ := foldlM_prefix
    (I := fun (pre : List Cell) (acc : SlotState × ℕ) => ∃ new top',
      Placed numChannels width acc.1 (places ++ new) top' ∧ new.map Place.cell = pre ∧
      new.Pairwise (·.slot < ·.slot) ∧ acc.2 ≤ top' ∧ (∀ p ∈ new, p.slot ≤ acc.2) ∧
      ∀ p ∈ new.getLast?, p.slot = acc.2)
    (f := placeCell) (l := flow.cells.reverse) (b := (st, 0))
    ⟨[], top, by simpa using h, by simp, by simp, Nat.zero_le _, by simp, by simp⟩
    (by
      rintro pre cell post ⟨st₁, insertAt⟩ hl ⟨new, top₁, hP, hcells, hslots, hle, hmax, hlast⟩
      have hlen := congrArg List.length hl
      have hnew := congrArg List.length hcells
      simp only [List.length_reverse, List.length_append, List.length_cons] at hlen
      simp only [List.length_map] at hnew
      obtain ⟨st₂, ch, slot, hplace, hge, hle₂, hsep, hP₂⟩ :=
        placeCell_ok hP hC (by simp; omega) hle cell
      -- the cell placed last shares a node with this one, so its slot is passed over
      have hlt : ∀ p ∈ new, p.slot < slot := by
        intro p hp
        have hne : new ≠ [] := List.ne_nil_of_mem hp
        have hq := List.getLast?_eq_some_getLast hne
        have hqc : pre.getLast? = some (new.getLast hne).cell := by
          rw [← hcells, List.getLast?_map, hq]
          rfl
        have hshare : Share (new.getLast hne).cell.participants cell.participants := by
          have hrev := hlinked.reverse
          rw [LinkedCells, hl, List.isChain_append] at hrev
          exact hrev.2.2 _ hqc cell (by simp)
        have hslot : (new.getLast hne).slot ≠ slot := fun he =>
          hsep _ (List.mem_append_right _ (List.getLast_mem hne)) he hshare
        have hi := hlast _ hq
        have hpi := hmax p hp
        simp only at hi hpi hge
        omega
      refine ⟨(st₂, slot), hplace, new ++ [⟨cell, ch, slot⟩], _, by simpa using hP₂, by simp [hcells],
        ?_, ?_, ?_, ?_⟩
      · exact List.pairwise_append.2 ⟨hslots, by simp, by simpa using hlt⟩
      · exact (Nat.le_succ slot).trans (le_max_right _ _)
      · intro p hp
        rcases List.mem_append.1 hp with hp | hp
        · exact (hlt p hp).le
        · rw [List.mem_singleton.1 hp]
      · intro p hp
        have : p = ⟨cell, ch, slot⟩ := by simpa [eq_comm] using hp
        rw [this])
  refine ⟨st', new, top', ?_, hP, hcells, hslots⟩
  simp only [placeFlow, hfold, bind, Except.bind, pure, Except.pure]

end

/-- The state before the first placement. -/
def initSlots (numChannels width : ℕ) : SlotState where
  schedule := List.replicate numChannels (List.replicate width none)
  usedNodesInTimeslot := List.replicate width []
  lastTimeslot := 0

theorem placed_init (numChannels width : ℕ) :
    Placed numChannels width (initSlots numChannels width) [] 0 where
  channels := by simp [initSlots]
  rows := by
    intro row hrow
    rw [List.eq_of_mem_replicate hrow]
    simp
  slots := by simp [initSlots]
  grid := by
    intro ch t c
    simp only [initSlots, cellAt, List.getElem?_replicate, List.not_mem_nil, iff_false]
    split_ifs
    · simp only [Option.bind_some, List.getElem?_replicate]
      split_ifs <;> simp
    · simp
  used := by
    intro t x
    simp only [initSlots, usedAt, List.getElem?_replicate]
    split_ifs <;> simp
  apart := by simp
  compact := by simp
  top_le := by simp
  last := by simp [initSlots]

/-- The places of a flow's cells, last cell first, have increasing slots. -/
def InOrder (places : List Place) (cells : List Cell) : Prop :=
  ∃ new : List Place, (∀ p ∈ new, p ∈ places) ∧ new.map Place.cell = cells.reverse ∧
    new.Pairwise (·.slot < ·.slot)

/-- The whole placement. -/
theorem foldlM_placeFlow_ok {numChannels : ℕ} (hC : 1 ≤ numChannels) {flows : List PlannedFlow}
    (hlinked : ∀ f ∈ flows, LinkedCells f.cells) {width : ℕ}
    (hwidth : (flows.map PlannedFlow.length).sum = width) :
    ∃ st places top, flows.foldlM placeFlow (initSlots numChannels width) = .ok st ∧
      Placed numChannels width st places top ∧
      places.map Place.cell = flows.flatMap (·.cells.reverse) ∧
      ∀ f ∈ flows, InOrder places f.cells := by
  -- The invariant of the loop over the flows: the cells so far are placed, each flow behind the one
  -- before.
  obtain ⟨st, hfold, places, top, hP, hcells, hflows⟩ := foldlM_prefix
    (I := fun (pre : List PlannedFlow) (st : SlotState) => ∃ places top,
      Placed numChannels width st places top ∧
      places.map Place.cell = pre.flatMap (·.cells.reverse) ∧
      ∀ f ∈ pre, InOrder places f.cells)
    (f := placeFlow) (l := flows) (b := initSlots numChannels width)
    ⟨[], 0, placed_init _ _, by simp, by simp⟩
    (by
      rintro pre flow post st hl ⟨places, top, hP, hcells, hflows⟩
      have hroom : places.length + flow.cells.length ≤ width := by
        have hlen := congrArg List.length hcells
        rw [List.length_map, List.length_flatMap] at hlen
        have hpre : places.length = (pre.map PlannedFlow.length).sum := by
          rw [hlen]
          simp only [List.length_reverse]
          rfl
        rw [← hwidth, hl, hpre]
        simp [PlannedFlow.length]
      obtain ⟨st', new, top', hplace, hP', hnew, hslots⟩ :=
        placeFlow_ok hP hC hroom (hlinked flow (by simp [hl]))
      refine ⟨st', hplace, places ++ new, top', hP', by simp [hcells, hnew], ?_⟩
      intro f hf
      rcases List.mem_append.1 hf with hf | hf
      · obtain ⟨old, hold, hrest⟩ := hflows f hf
        exact ⟨old, fun p hp => List.mem_append_left _ (hold p hp), hrest⟩
      · rw [List.mem_singleton.1 hf]
        exact ⟨new, fun p hp => List.mem_append_right _ hp, hnew, hslots⟩)
  exact ⟨st, places, top, hfold, hP, hcells, hflows⟩

end MasterScheduler.Host

import MasterScheduler.Host.Placement
import Mathlib.Data.List.Nodup

/-!
# MasterScheduler.Host.Validity — the schedules `create` returns

`Schedule.Valid` says what a schedule is for: every cell of every flow has one
position, cells that share a timeslot share no node, a flow's cells come in
order, no timeslot is empty, and the cells know where they are.

- `cutAndReverse_eq`: the in-place swaps reverse a channel.
- `placeFlows_valid`: placement of planned flows never fails and is valid.
- `create_valid`: the same for `Schedule.create`, for every strategy.
-/

namespace MasterScheduler.Host

open Lib

/-- A schedule in which every flow's cells are realised without conflicts. -/
structure Schedule.Valid (S : Schedule) : Prop where
  /-- Cell objects are told apart by their identity. -/
  distinct : ((S.flows.flatMap (·.cells)).map Cell.ident).Nodup
  rows : ∀ row ∈ S.schedule, row.length = S.lastTimeslot + 1
  /-- Every cell is at exactly one position. -/
  placed : ∀ f ∈ S.flows, ∀ c ∈ f.cells, ∃! pos : ℕ × ℕ, cellAt S.schedule pos.1 pos.2 = some c
  /-- Nothing else is in the table. -/
  owned : ∀ ch t c, cellAt S.schedule ch t = some c → ∃ f ∈ S.flows, c ∈ f.cells
  conflictFree : ∀ t ch ch' c c', cellAt S.schedule ch t = some c →
    cellAt S.schedule ch' t = some c' → Share c.participants c'.participants → ch = ch'
  ordered : ∀ f ∈ S.flows, f.cells.Pairwise fun c d => ∀ ch t ch' t',
    cellAt S.schedule ch t = some c → cellAt S.schedule ch' t' = some d → t < t'
  compact : ∀ t ≤ S.lastTimeslot, ∃ ch c, cellAt S.schedule ch t = some c
  attributes : ∀ ch t c, cellAt S.schedule ch t = some c → S.attrs c.ident = some (t, ch)

/-! ## Reversal -/

theorem getElem?_swapAt {α : Type} {ch : List α} {i j : ℕ} (hi : i < ch.length)
    (hj : j < ch.length) (m : ℕ) :
    (swapAt ch i j)[m]? = if m = j then ch[i]? else if m = i then ch[j]? else ch[m]? := by
  unfold swapAt
  rw [List.getElem?_eq_getElem hi, List.getElem?_eq_getElem hj]
  simp only [List.getElem?_set, List.length_set]
  by_cases h1 : m = j
  · subst h1; simp [hj]
  · have h1' : j ≠ m := fun h => h1 h.symm
    by_cases h2 : m = i
    · subst h2; simp [h1, h1', hi]
    · have h2' : i ≠ m := fun h => h2 h.symm
      simp [h1, h1', h2, h2']

theorem length_swapAt {α : Type} (ch : List α) (i j : ℕ) :
    (swapAt ch i j).length = ch.length := by
  unfold swapAt
  split <;> simp

/-- After `k` swaps the outer `k` elements on both sides are exchanged. -/
theorem getElem?_swaps {α : Type} (ch : List α) {last : ℕ} (hlen : ch.length = last + 1) (k : ℕ)
    (hk : 2 * k ≤ ch.length) :
    ((List.range k).foldl (fun ch t => swapAt ch t (last - t)) ch).length = ch.length ∧
    ∀ i < ch.length, ((List.range k).foldl (fun ch t => swapAt ch t (last - t)) ch)[i]? =
      if i < k ∨ last - k < i then ch[last - i]? else ch[i]? := by
  induction k with
  | zero =>
    refine ⟨by simp, fun i hi => ?_⟩
    rw [if_neg (by omega)]
    rfl
  | succ k ih =>
    obtain ⟨hl, hget⟩ := ih (by omega)
    rw [List.range_succ, List.foldl_append]
    refine ⟨by rw [List.foldl_cons, List.foldl_nil, length_swapAt, hl], fun i hi => ?_⟩
    rw [List.foldl_cons, List.foldl_nil, getElem?_swapAt (by omega) (by omega)]
    rw [hget k (by omega), hget (last - k) (by omega), hget i hi]
    rw [if_neg (show ¬(k < k ∨ last - k < k) by omega),
      if_neg (show ¬(last - k < k ∨ last - k < last - k) by omega)]
    by_cases h1 : i = last - k
    · rw [if_pos h1, if_pos (by omega)]
      congr 1
      omega
    · by_cases h2 : i = k
      · rw [if_neg h1, if_pos h2, if_pos (by omega), h2]
      · rw [if_neg h1, if_neg h2]
        by_cases h3 : i < k ∨ last - k < i
        · rw [if_pos h3, if_pos (by omega)]
        · rw [if_neg h3, if_neg (by omega)]

theorem cutAndReverse_eq {α : Type} {last : ℕ} {channel : List α} (h : last + 1 ≤ channel.length) :
    cutAndReverse last channel = (channel.take (last + 1)).reverse := by
  have hlen : (channel.take (last + 1)).length = last + 1 := by simp; omega
  unfold cutAndReverse
  obtain ⟨hl, hget⟩ := getElem?_swaps (channel.take (last + 1)) hlen
    ((channel.take (last + 1)).length / 2) (by omega)
  refine List.ext_getElem? fun i => ?_
  by_cases hi : i < (channel.take (last + 1)).length
  · rw [hget i hi, List.getElem?_reverse hi, hlen]
    split_ifs
    · congr 1
    · congr 1
      omega
  · rw [List.getElem?_eq_none (hl.trans_le (not_lt.1 hi)),
      List.getElem?_eq_none (by rw [List.length_reverse]; exact not_lt.1 hi)]

/-- The final table, read through the table before the reversal. -/
theorem cellAt_cutAndReverse {g : Grid} {last width : ℕ} (hrows : ∀ row ∈ g, row.length = width)
    (hlast : last + 1 ≤ width) (ch t : ℕ) :
    cellAt (g.map (cutAndReverse last)) ch t =
      if t ≤ last then cellAt g ch (last - t) else none := by
  unfold cellAt
  rw [List.getElem?_map]
  cases hrow : g[ch]? with
  | none => simp
  | some row =>
    have hw : row.length = width := hrows row (List.mem_of_getElem? hrow)
    simp only [Option.map_some, Option.bind_some]
    rw [cutAndReverse_eq (by omega)]
    split_ifs with ht
    · rw [List.getElem?_reverse (by simp; omega), List.length_take, hw, min_eq_left hlast,
        List.getElem?_take_of_lt (by omega)]
      congr 2
    · rw [List.getElem?_eq_none (by simp; omega)]
      rfl

/-! ## Attributes -/

/-- Positions are a function of the identity of the cell. -/
def UniquePositions (g : Grid) : Prop :=
  ∀ ch t c ch' t' c', cellAt g ch t = some c → cellAt g ch' t' = some c' →
    c.ident = c'.ident → ch = ch' ∧ t = t'

/-- One round of `setChannelAttributes`. -/
def setCellAttributes (ch : ℕ) (attrs : CellAttributes) (x : Option Cell × ℕ) : CellAttributes :=
  match x.1 with
  | some cell => Function.update attrs cell.ident (some (x.2, ch))
  | none => attrs

theorem setChannelAttributes_spec {g : Grid} (hu : UniquePositions g) {attrs : CellAttributes}
    {row : List (Option Cell)} {ch : ℕ} (hrow : g[ch]? = some row)
    (h : ∀ ch' t c, ch' < ch → cellAt g ch' t = some c → attrs c.ident = some (t, ch')) :
    ∀ ch' t c, ch' < ch + 1 → cellAt g ch' t = some c →
      setChannelAttributes attrs (row, ch) c.ident = some (t, ch') := by
  have hI := foldl_prefix
    (I := fun (pre : List (Option Cell × ℕ)) (attrs : CellAttributes) =>
      ∀ ch' t c, ch' < ch ∨ (ch' = ch ∧ t < pre.length) → cellAt g ch' t = some c →
        attrs c.ident = some (t, ch'))
    (f := setCellAttributes ch)
    (l := row.zipIdx) (b := attrs)
    (by
      intro ch' t c hlt hc
      exact h ch' t c (by simpa using hlt) hc)
    (by
      rintro pre ⟨x, i⟩ post attrs hl hI ch' t c hlt hc
      obtain ⟨hi, hx⟩ := zipIdx_eq_append_cons hl
      -- the position handled in this round, read in the table
      have hat : cellAt g ch i = x := by simp [cellAt, hrow, hx]
      have hearlier : ¬(ch' = ch ∧ t = i) → ch' < ch ∨ (ch' = ch ∧ t < pre.length) := by
        intro hne
        rw [List.length_append, List.length_singleton] at hlt
        omega
      cases x with
      | none =>
        refine hI ch' t c (hearlier ?_) hc
        rintro ⟨rfl, rfl⟩
        rw [hat] at hc
        cases hc
      | some cell =>
        change Function.update attrs cell.ident (some (i, ch)) c.ident = _
        by_cases hid : c.ident = cell.ident
        · obtain ⟨rfl, rfl⟩ := hu _ _ _ _ _ _ hc hat hid
          rw [hid, Function.update_self]
        · rw [Function.update_of_ne hid]
          refine hI ch' t c (hearlier ?_) hc
          rintro ⟨rfl, rfl⟩
          rw [hat] at hc
          cases hc
          exact hid rfl)
  intro ch' t c hlt hc
  refine hI ch' t c ?_ hc
  by_cases hch : ch' = ch
  · subst hch
    refine .inr ⟨rfl, ?_⟩
    have : t < row.length := by
      by_contra hge
      simp [cellAt, hrow, List.getElem?_eq_none (not_lt.1 hge)] at hc
    simpa using this
  · exact .inl (by omega)

/-- The attributes written by the last loop are the positions in the table. -/
theorem attributes_spec {g : Grid} (hu : UniquePositions g) {ch t : ℕ} {c : Cell}
    (hc : cellAt g ch t = some c) :
    (g.zipIdx.foldl setChannelAttributes fun _ => none) c.ident = some (t, ch) := by
  have hI := foldl_prefix
    (I := fun (pre : List (List (Option Cell) × ℕ)) (attrs : CellAttributes) =>
      ∀ ch' t c, ch' < pre.length → cellAt g ch' t = some c → attrs c.ident = some (t, ch'))
    (f := setChannelAttributes) (l := g.zipIdx) (b := fun _ => none)
    (by simp)
    (by
      rintro pre ⟨row, i⟩ post attrs hl hI ch' t c hlt hc
      obtain ⟨rfl, hrow⟩ := zipIdx_eq_append_cons hl
      exact setChannelAttributes_spec hu hrow hI ch' t c (by simpa using hlt) hc)
  refine hI ch t c ?_ hc
  by_contra hge
  rw [List.length_zipIdx, not_lt] at hge
  simp [cellAt, List.getElem?_eq_none hge] at hc

/-! ## Planned flows -/

/-- What placement needs to know about the flows. -/
structure Placeable (flows : List PlannedFlow) : Prop where
  nonempty : flows ≠ []
  distinct : ((flows.flatMap (·.cells)).map Cell.ident).Nodup
  cells_ne : ∀ f ∈ flows, f.cells ≠ []
  linked : ∀ f ∈ flows, LinkedCells f.cells

theorem Placeable.perm {flows flows' : List PlannedFlow} (h : Placeable flows)
    (hp : flows'.Perm flows) : Placeable flows' where
  nonempty := by
    rintro rfl
    exact h.nonempty hp.nil_eq.symm
  distinct := (((hp.flatMap_right _).map _).nodup_iff).2 h.distinct
  cells_ne := fun f hf => h.cells_ne f (hp.mem_iff.1 hf)
  linked := fun f hf => h.linked f (hp.mem_iff.1 hf)

/-- Two places with the same cell object are the same place. -/
theorem place_unique {places : List Place} (h : (places.map (·.cell.ident)).Nodup) {p q : Place}
    (hp : p ∈ places) (hq : q ∈ places) (hid : p.cell.ident = q.cell.ident) : p = q :=
  List.inj_on_of_nodup_map h hp hq hid

theorem InOrder.pairwise {places : List Place} {cells : List Cell} (h : InOrder places cells)
    (hu : (places.map (·.cell.ident)).Nodup) :
    cells.Pairwise fun c d => ∀ p ∈ places, ∀ q ∈ places, p.cell = c → q.cell = d →
      q.slot < p.slot := by
  obtain ⟨new, hmem, hcells, hslots⟩ := h
  rw [← List.pairwise_reverse, ← hcells, List.pairwise_map]
  refine hslots.imp_of_mem ?_
  intro p' q' hp' hq' hlt p hp q hq hpc hqc
  have hpq : p = q' := place_unique hu hp (hmem q' hq') (by rw [hpc])
  have hqp : q = p' := place_unique hu hq (hmem p' hp') (by rw [hqc])
  rw [hpq, hqp]
  exact hlt

/-- Placement of planned flows. -/
theorem placeFlows_valid {flows : List PlannedFlow} {numChannels : ℕ} (h : Placeable flows)
    (hC : 1 ≤ numChannels) :
    ∃ S, placeFlows flows numChannels = .ok S ∧ S.Valid ∧ S.flows.Perm flows ∧
      S.schedule.length = numChannels := by
  have hperm : (orderFlowsDecreasing flows).Perm flows := List.mergeSort_perm _ _
  have hs := h.perm hperm
  obtain ⟨st, places, top, hfold, hP, hcells, horder⟩ := foldlM_placeFlow_ok hC
    hs.linked (hperm.map PlannedFlow.length).sum_eq
  -- every cell object is placed once
  have hmem : ∀ c, (∃ p ∈ places, p.cell = c) ↔ ∃ f ∈ orderFlowsDecreasing flows, c ∈ f.cells := by
    intro c
    rw [← List.mem_map, hcells, List.mem_flatMap]
    simp only [List.mem_reverse]
  have hunique : (places.map (·.cell.ident)).Nodup := by
    have hrev : (places.map Place.cell).Perm ((orderFlowsDecreasing flows).flatMap (·.cells)) := by
      rw [hcells]
      exact List.Perm.flatMap_left _ fun f _ => List.reverse_perm _
    have := (hrev.map Cell.ident).nodup_iff.2 hs.distinct
    rwa [List.map_map] at this
  have hlen : places.length = (flows.map PlannedFlow.length).sum := by
    have := congrArg List.length hcells
    rw [List.length_map, List.length_flatMap] at this
    rw [this, ← (hperm.map PlannedFlow.length).sum_eq]
    simp only [List.length_reverse]
    rfl
  have htop : 0 < top := by
    obtain ⟨f, hf⟩ := List.exists_mem_of_ne_nil _ hs.nonempty
    obtain ⟨c, hc⟩ := List.exists_mem_of_ne_nil _ (hs.cells_ne f hf)
    obtain ⟨p, hp, -⟩ := (hmem c).2 ⟨f, hf, hc⟩
    exact Nat.zero_lt_of_lt (hP.slot_lt hp)
  have hlast := hP.last
  have hwidth : st.lastTimeslot + 1 ≤ (flows.map PlannedFlow.length).sum := by
    have := hP.top_le
    omega
  -- positions of the final table are the places, counted from the end
  have hgrid : ∀ ch t c, cellAt (st.schedule.map (cutAndReverse st.lastTimeslot)) ch t = some c ↔
      t ≤ st.lastTimeslot ∧ (⟨c, ch, st.lastTimeslot - t⟩ : Place) ∈ places := by
    intro ch t c
    rw [cellAt_cutAndReverse hP.rows hwidth]
    split_ifs with ht
    · rw [hP.grid]; simp [ht]
    · simp [ht]
  have hslot : ∀ p ∈ places, p.slot ≤ st.lastTimeslot := by
    intro p hp
    have := hP.slot_lt hp
    omega
  refine ⟨{ flows := orderFlowsDecreasing flows
            schedule := st.schedule.map (cutAndReverse st.lastTimeslot)
            lastTimeslot := st.lastTimeslot
            attrs := (st.schedule.map (cutAndReverse st.lastTimeslot)).zipIdx.foldl
              setChannelAttributes fun _ => none },
    ?_, ?_, hperm, by simpa using hP.channels⟩
  · simp only [placeFlows, bind, Except.bind]
    rw [← initSlots, hfold]
    rfl
  constructor
  case distinct => exact hs.distinct
  case rows =>
    intro row hrow
    obtain ⟨row', hrow', rfl⟩ := List.mem_map.1 hrow
    have := hP.rows row' hrow'
    rw [cutAndReverse_eq (by omega)]
    simp
    omega
  case placed =>
    intro f hf c hc
    obtain ⟨p, hp, rfl⟩ := (hmem c).2 ⟨f, hf, hc⟩
    have hp' := hslot p hp
    refine ⟨(p.channel, st.lastTimeslot - p.slot), (hgrid _ _ _).2 ⟨by simp, ?_⟩, ?_⟩
    · simpa [Nat.sub_sub_self hp'] using hp
    · rintro ⟨ch, t⟩ hpos
      obtain ⟨ht, hq⟩ := (hgrid _ _ _).1 hpos
      have := place_unique hunique hp hq rfl
      simp only at ht
      rw [this]
      simp
      omega
  case owned =>
    intro ch t c hc
    exact (hmem c).1 ⟨_, ((hgrid _ _ _).1 hc).2, rfl⟩
  case conflictFree =>
    rintro t ch ch' c c' hc hc' ⟨x, hx, hx'⟩
    by_contra hne
    refine hP.apart _ ((hgrid _ _ _).1 hc).2 _ ((hgrid _ _ _).1 hc').2 rfl ?_ x hx hx'
    intro h
    exact hne (Place.mk.inj h).2.1
  case ordered =>
    intro f hf
    refine ((horder f hf).pairwise hunique).imp ?_
    intro c d hcd ch t ch' t' hc hd
    have hlt := hcd _ ((hgrid _ _ _).1 hc).2 _ ((hgrid _ _ _).1 hd).2 rfl rfl
    simp only at hlt
    omega
  case compact =>
    intro t ht
    simp only at ht
    obtain ⟨p, hp, hpt⟩ := (hP.compact (st.lastTimeslot - t)).2 (by omega)
    exact ⟨p.channel, p.cell, (hgrid _ _ _).2 ⟨ht, by rw [← hpt]; exact hp⟩⟩
  case attributes =>
    intro ch t c hc
    refine attributes_spec ?_ hc
    intro ch t c ch' t' c' hc hc' hid
    obtain ⟨ht, hp⟩ := (hgrid _ _ _).1 hc
    obtain ⟨ht', hp'⟩ := (hgrid _ _ _).1 hc'
    have := Place.mk.inj (place_unique hunique hp hp' hid)
    exact ⟨this.2.1, by omega⟩

/-! ## From flows to the schedule -/

/-- The flow is routed over sub-paths the scheduler is meant for. -/
def Schedulable (shortestPath : Graph → Node → Node → Except PyError (List Node)) (etxPower : ℕ)
    (f : Flow) : Prop :=
  ∃ r, f.computePath shortestPath etxPower = .ok r ∧
    ∀ sub ∈ r.path, SimpleSubPath f.graph sub

/-- The path that `compute_path` takes for a flow, before it is cut. -/
def RouteOf (shortestPath : Graph → Node → Node → Except PyError (List Node)) (etxPower : ℕ)
    (f : Flow) (path : List Node) : Prop :=
  shortestPath (etxGraph f.graph etxPower) f.source f.destination = .ok path

/-- A planned flow with the facts about its path and its cells. -/
structure RoutedCells (shortestPath : Graph → Node → Node → Except PyError (List Node))
    (etxPower oid : ℕ) (f : PlannedFlow) : Prop where
  route : ∃ path, RouteOf shortestPath etxPower f.toFlow path ∧ ∀ sub ∈ f.path, sub <:+: path
  simple : ∀ sub ∈ f.path, SimpleSubPath f.graph sub
  bordered : Bordered f.path
  path_ne : f.path ≠ []
  cells : ∃ parts, f.cells = mkCells oid f.flowNumber parts ∧ PathCells f.path parts

theorem computePathBy_spec {add : ℚ → ℚ → ℚ} {f : Flow}
    {shortestPath : Graph → Node → Node → Except PyError (List Node)} {etxPower : ℕ}
    {r : RoutedFlow} (h : f.computePathBy add shortestPath etxPower = .ok r) :
    r.toFlow = f ∧ (∃ path, RouteOf shortestPath etxPower f path ∧
        splitPath path f.maxSubFlowLength = .ok r.path) ∧
      List.Forall₂ (fun sub c => subPathCostBy add f.graph sub = .ok c) r.path r.cost := by
  unfold Flow.computePathBy at h
  cases hp : shortestPath (etxGraph f.graph etxPower) f.source f.destination with
  | error e => rw [hp] at h; cases h
  | ok path =>
    cases hsub : splitPath path f.maxSubFlowLength with
    | error e => rw [hp] at h; simp [bind, Except.bind, hsub] at h
    | ok subs =>
      cases hcost : subs.mapM (subPathCostBy add f.graph) with
      | error e => rw [hp] at h; simp [bind, Except.bind, hsub, hcost] at h
      | ok cost =>
        rw [hp] at h
        simp only [bind, Except.bind, hsub, hcost, pure, Except.pure, Except.ok.injEq] at h
        subst h
        exact ⟨rfl, ⟨path, hp, hsub⟩, forall₂_of_mapM hcost⟩

/-- Routing succeeds with every way to add if it does with one, over the same sub-paths. -/
theorem computePathBy_ok (add : ℚ → ℚ → ℚ) {f : Flow}
    {shortestPath : Graph → Node → Node → Except PyError (List Node)} {etxPower : ℕ}
    {r : RoutedFlow} (h : f.computePath shortestPath etxPower = .ok r)
    (hs : ∀ sub ∈ r.path, SimpleSubPath f.graph sub) :
    ∃ r', f.computePathBy add shortestPath etxPower = .ok r' ∧ r'.path = r.path := by
  obtain ⟨-, ⟨path, hroute, hsplit⟩, -⟩ := computePathBy_spec h
  obtain ⟨costs, hcosts, -⟩ := mapM_forall₂ (f := subPathCostBy add f.graph) (l := r.path)
    (R := fun _ _ => True) fun sub hsub =>
      (subPathCostBy_ok add (hs sub hsub).etx).imp fun _ hcost => ⟨hcost, trivial⟩
  refine ⟨{ f with path := r.path, cost := costs }, ?_, rfl⟩
  rw [RouteOf] at hroute
  simp only [Flow.computePathBy, hroute, hsplit, hcosts, bind, Except.bind, pure, Except.pure]

theorem numSubFlows_ge {length maxLength fuel n m : ℕ}
    (h : numSubFlows length maxLength fuel n = .ok m) : n ≤ m := by
  induction fuel generalizing n with
  | zero => cases h
  | succ fuel ih =>
    unfold numSubFlows at h
    split_ifs at h with hlt
    · exact (Nat.le_succ n).trans (ih h)
    · cases h
      exact le_refl _

theorem splitPath_ne_nil {path : List Node} {maxLength : ℕ} {subs : List (List Node)}
    (h : splitPath path maxLength = .ok subs) : subs ≠ [] := by
  unfold splitPath at h
  split_ifs at h
  · cases hn : numSubFlows path.length maxLength path.length 2 with
    | error e => rw [hn] at h; cases h
    | ok n =>
      have := numSubFlows_ge hn
      rw [hn] at h
      cases h
      simp
      omega
  · cases h
    simp

/-- Every sub-path is a part of the path. -/
theorem splitPath_isInfix {path : List Node} {maxLength : ℕ} {subs : List (List Node)}
    (h : splitPath path maxLength = .ok subs) : ∀ sub ∈ subs, sub <:+: path := by
  unfold splitPath at h
  split_ifs at h
  · cases hn : numSubFlows path.length maxLength path.length 2 with
    | error e => rw [hn] at h; cases h
    | ok n =>
      rw [hn] at h
      cases h
      intro sub hsub
      rcases List.mem_map.1 hsub with ⟨idx, -, rfl⟩
      cases idx with
      | zero => exact (List.take_prefix _ _).isInfix
      | succ idx =>
        exact (List.take_prefix _ _).isInfix.trans (List.drop_suffix _ _).isInfix
  · cases h
    intro sub hsub
    rw [List.mem_singleton.1 hsub]
    exact (List.take_prefix _ _).isInfix

/-- Routing and cutting a schedulable flow into cells. -/
theorem plan_ok {add : ℚ → ℚ → ℚ} {f : Flow}
    {shortestPath : Graph → Node → Node → Except PyError (List Node)}
    {etxPower : ℕ} {r : RoutedFlow} {strategy : SchedulingStrategy}
    {alg : Option WindowSizeAlgorithm} {fixedWindowSize : Option ℤ}
    (h : f.computePathBy add shortestPath etxPower = .ok r)
    (hs : ∀ sub ∈ r.path, SimpleSubPath f.graph sub)
    (hadd : ∀ path, RouteOf shortestPath etxPower f path → CountsHops add path.length)
    (hw : WindowChoice strategy alg fixedWindowSize) (oid : ℕ) :
    ∃ p, r.createCells oid strategy alg fixedWindowSize = .ok p ∧ p.toFlow = f ∧
      RoutedCells shortestPath etxPower oid p := by
  obtain ⟨rfl, ⟨path, hroute, hsplit⟩, hcost⟩ := computePathBy_spec h
  have hb := splitPath_bordered hsplit fun sub hsub => (hs sub hsub).two_le
  -- No sub-path costs less than its hops, so every window has two slots.
  have hle : List.Forall₂ (fun sub (c : ℚ) => ((sub.length - 1 : ℕ) : ℤ) ≤ ⌈c⌉) r.path r.cost := by
    refine List.forall₂_iff_zip.2 ⟨hcost.length_eq, fun {sub c} hmem => ?_⟩
    have hsub := (List.of_mem_zip hmem).1
    have hshort := (splitPath_isInfix hsplit sub hsub).length_le
    exact hops_le_subPathCost ((hadd path hroute).mono hshort) (hs sub hsub)
      (List.forall₂_zip hcost hmem)
  obtain ⟨p, hp, hr, parts, hcells, hpath⟩ := createCells_spec oid hs hle hb hw
  refine ⟨p, hp, by rw [hr], ?_⟩
  rw [← hr] at hs hb hsplit hpath hcells hroute
  exact ⟨⟨path, hroute, splitPath_isInfix hsplit⟩, hs, hb, splitPath_ne_nil hsplit, parts, hcells,
    hpath⟩

theorem mem_mkCells {oid flowNumber : ℕ} {parts : List (List Node)} {c : Cell}
    (h : c ∈ mkCells oid flowNumber parts) :
    c.ident.1 = oid ∧ c.flowNumber = flowNumber ∧ c.participants ∈ parts := by
  obtain ⟨⟨ps, i⟩, hmem, rfl⟩ := List.mem_map.1 h
  exact ⟨rfl, rfl, List.fst_mem_of_mem_zipIdx hmem⟩

theorem nodup_ident_mkCells (oid flowNumber : ℕ) (parts : List (List Node)) :
    ((mkCells oid flowNumber parts).map Cell.ident).Nodup := by
  have : (mkCells oid flowNumber parts).map Cell.ident =
      (parts.zipIdx.map Prod.snd).map (Prod.mk oid) := by
    simp only [mkCells, List.map_map]
    rfl
  rw [this, List.zipIdx_map_snd]
  exact List.Nodup.map (fun _ _ h => (Prod.mk.inj h).2) List.nodup_range'

theorem map_participants_mkCells (oid flowNumber : ℕ) (parts : List (List Node)) :
    (mkCells oid flowNumber parts).map Cell.participants = parts := by
  have : (mkCells oid flowNumber parts).map Cell.participants = parts.zipIdx.map Prod.fst := by
    simp [mkCells, Function.comp_def]
  rw [this, List.zipIdx_map_fst]

/-- Flow objects numbered in order give placeable flows. -/
theorem placeable_of_routed {shortestPath : Graph → Node → Node → Except PyError (List Node)}
    {etxPower : ℕ} {planned : List PlannedFlow} (hne : planned ≠ [])
    (h : ∀ i (hi : i < planned.length), RoutedCells shortestPath etxPower i planned[i]) :
    Placeable planned where
  nonempty := hne
  distinct := by
    rw [List.map_flatMap, List.nodup_flatMap]
    -- The identity of a cell has the number of its flow.
    constructor
    · intro f hf
      obtain ⟨i, hi, rfl⟩ := List.mem_iff_getElem.1 hf
      obtain ⟨parts, hcells, -⟩ := (h i hi).cells
      rw [hcells]
      exact nodup_ident_mkCells _ _ _
    · rw [List.pairwise_iff_getElem]
      intro i j hi hj hij id hidi hidj
      obtain ⟨parts, hcells, -⟩ := (h i hi).cells
      obtain ⟨parts', hcells', -⟩ := (h j hj).cells
      simp only [hcells, hcells'] at hidi hidj
      obtain ⟨c, hc, rfl⟩ := List.mem_map.1 hidi
      obtain ⟨d, hd, hdc⟩ := List.mem_map.1 hidj
      have h1 := (mem_mkCells hc).1
      have h2 := (mem_mkCells hd).1
      rw [hdc] at h2
      omega
  cells_ne := by
    -- A routed flow has a path, so it has a cell.
    intro f hf hnil
    obtain ⟨i, hi, rfl⟩ := List.mem_iff_getElem.1 hf
    obtain ⟨parts, hcells, hpath⟩ := (h i hi).cells
    refine hpath.nonempty (h i hi).path_ne ?_
    rw [← map_participants_mkCells i (planned[i]).flowNumber parts, ← hcells, hnil]
    rfl
  linked := by
    intro f hf
    obtain ⟨i, hi, rfl⟩ := List.mem_iff_getElem.1 hf
    obtain ⟨parts, hcells, hpath⟩ := (h i hi).cells
    have := hpath.linked
    rw [← map_participants_mkCells i (planned[i]).flowNumber parts, ← hcells,
      List.isChain_map] at this
    exact this

/-- `create` on schedulable flows: the planned flows and their placement. -/
theorem createBy_ok {add : ℚ → ℚ → ℚ}
    {shortestPath : Graph → Node → Node → Except PyError (List Node)}
    {flows : List Flow} {etxPower numChannels : ℕ} {strategy : SchedulingStrategy}
    {alg : Option WindowSizeAlgorithm} {fixedWindowSize : Option ℤ}
    (hne : flows ≠ []) (hf : ∀ f ∈ flows, Schedulable shortestPath etxPower f)
    (hadd : ∀ f ∈ flows, ∀ path, RouteOf shortestPath etxPower f path → CountsHops add path.length)
    (hw : WindowChoice strategy alg fixedWindowSize) (hC : 1 ≤ numChannels) :
    ∃ S, createBy add shortestPath flows etxPower numChannels strategy alg fixedWindowSize = .ok S ∧
      S.Valid ∧ (S.flows.map (·.toFlow)).Perm flows ∧ S.schedule.length = numChannels ∧
      ∀ f ∈ S.flows, ∃ oid, RoutedCells shortestPath etxPower oid f := by
  -- The routes of the flows, one for one.
  obtain ⟨routed, hrouted, hR⟩ := mapM_forall₂
    (f := fun f : Flow => f.computePathBy add shortestPath etxPower) (l := flows)
    (R := fun f r => f ∈ flows ∧ f.computePathBy add shortestPath etxPower = .ok r ∧
      ∀ sub ∈ r.path, SimpleSubPath f.graph sub)
    (fun f hmem => by
      obtain ⟨r, hr, hs⟩ := hf f hmem
      obtain ⟨r', hr', hpath⟩ := computePathBy_ok add hr hs
      exact ⟨r', hr', hmem, hr', by rwa [hpath]⟩)
  obtain ⟨hlen, hget⟩ := List.forall₂_iff_get.1 hR
  -- Their cells, one for one.
  obtain ⟨planned, hplanned, hP⟩ := mapM_forall₂
    (f := fun x : RoutedFlow × ℕ => x.1.createCells x.2 strategy alg fixedWindowSize)
    (l := routed.zipIdx)
    (R := fun x p => some p.toFlow = flows[x.2]? ∧ RoutedCells shortestPath etxPower x.2 p)
    (by
      rintro ⟨r, oid⟩ hmem
      have hr : routed[oid]? = some r := by simpa using List.mem_zipIdx_iff_getElem?.1 hmem
      obtain ⟨hoid, hroid⟩ := List.getElem?_eq_some_iff.1 hr
      obtain ⟨hmem', hcomp, hs⟩ := hget oid (by omega) hoid
      simp only [List.get_eq_getElem, hroid] at hmem' hcomp hs
      obtain ⟨p, hp, hpf, hrc⟩ := plan_ok hcomp hs (hadd _ hmem') hw oid
      refine ⟨p, hp, ?_, hrc⟩
      rw [hpf, List.getElem?_eq_getElem (by omega)])
  obtain ⟨hlen', hget'⟩ := List.forall₂_iff_get.1 hP
  rw [List.length_zipIdx] at hlen'
  have hplan : ∀ i (hi : i < planned.length), some planned[i].toFlow = flows[i]? ∧
      RoutedCells shortestPath etxPower i planned[i] := by
    intro i hi
    have := hget' i (by simpa [hlen'] using hi) hi
    simpa using this
  have hflows : planned.map (·.toFlow) = flows := by
    refine List.ext_getElem? fun i => ?_
    by_cases hi : i < planned.length
    · rw [List.getElem?_map, List.getElem?_eq_getElem hi]
      exact (hplan i hi).1
    · rw [List.getElem?_eq_none (by simpa using hi), List.getElem?_eq_none (by omega)]
  have hne' : planned ≠ [] := by
    rintro rfl
    exact hne hflows.symm
  -- With the cells of every flow, the placement succeeds.
  obtain ⟨S, hS, hvalid, hperm, hchannels⟩ :=
    placeFlows_valid (placeable_of_routed hne' fun i hi => (hplan i hi).2) hC
  refine ⟨S, ?_, hvalid, ?_, hchannels, ?_⟩
  · simp only [createBy, hrouted, hplanned, bind, Except.bind]
    exact hS
  · rw [← hflows]
    exact hperm.map _
  · intro f hfS
    obtain ⟨i, hi, rfl⟩ := List.mem_iff_getElem.1 (hperm.mem_iff.1 hfS)
    exact ⟨i, (hplan i hi).2⟩

/-- Every schedule `create` is asked for exists and is valid, with exact sums and, for paths of
up to 2^53 nodes, with those of Python. -/
theorem create_valid {shortestPath : Graph → Node → Node → Except PyError (List Node)}
    {flows : List Flow} {etxPower numChannels : ℕ} {strategy : SchedulingStrategy}
    {alg : Option WindowSizeAlgorithm} {fixedWindowSize : Option ℤ}
    (hne : flows ≠ []) (hf : ∀ f ∈ flows, Schedulable shortestPath etxPower f)
    (hw : WindowChoice strategy alg fixedWindowSize) (hC : 1 ≤ numChannels) :
    (∃ S, create shortestPath flows etxPower numChannels strategy alg fixedWindowSize = .ok S ∧
      (S.flows.map (·.toFlow)).Perm flows ∧ S.schedule.length = numChannels ∧ S.Valid) ∧
    ((∀ f ∈ flows, ∀ path, RouteOf shortestPath etxPower f path → path.length ≤ 2 ^ 53) →
      ∃ S, createBy pyAdd shortestPath flows etxPower numChannels strategy alg fixedWindowSize =
          .ok S ∧
        (S.flows.map (·.toFlow)).Perm flows ∧ S.schedule.length = numChannels ∧ S.Valid) := by
  constructor
  · obtain ⟨S, hS, hvalid, hperm, hchannels, -⟩ :=
      createBy_ok hne hf (fun _ _ path _ => countsHops_add path.length) hw hC
    exact ⟨S, hS, hperm, hchannels, hvalid⟩
  · intro hshort
    obtain ⟨S, hS, hvalid, hperm, hchannels, -⟩ := createBy_ok hne hf
      (fun f hmem path hroute => countsHops_pyAdd (hshort f hmem path hroute)) hw hC
    exact ⟨S, hS, hperm, hchannels, hvalid⟩

/-- A flow over the line `1 → 2 → 3`. -/
def lineFlow : Flow where
  graph := [(1, [(2, 3 / 2)]), (2, [(3, 1)]), (3, [])]
  flowNumber := 1
  source := 1
  destination := 3

theorem lineFlow_schedulable : Schedulable (fun _ _ _ => .ok [1, 2, 3]) 1 lineFlow := by
  have h12 : lineFlow.graph.etx 1 2 = .ok (3 / 2) := rfl
  have h23 : lineFlow.graph.etx 2 3 = .ok 1 := rfl
  refine ⟨{ lineFlow with path := [[1, 2, 3]], cost := [3 / 2 + 1] }, ?_, ?_⟩
  · have hcost : subPathCost lineFlow.graph [1, 2, 3] = .ok (3 / 2 + 1) := by
      simp [subPathCost, subPathCostBy, hops, h12, h23, bind, Except.bind, pure, Except.pure]
    have hsplit : splitPath [1, 2, 3] lineFlow.maxSubFlowLength = .ok [[1, 2, 3]] := rfl
    rw [subPathCost] at hcost
    simp only [Flow.computePath, Flow.computePathBy, hsplit, List.mapM_cons, List.mapM_nil, hcost,
      bind, Except.bind, pure, Except.pure]
  · intro sub hsub
    obtain rfl : sub = [1, 2, 3] := by simpa using hsub
    refine ⟨by decide, by decide, ?_⟩
    intro hop hhop
    have : hop = (1, 2) ∨ hop = (2, 3) := by simpa [hops] using hhop
    rcases this with rfl | rfl
    · exact ⟨3 / 2, h12, by norm_num⟩
    · exact ⟨1, h23, le_refl _⟩

theorem create_valid_line :
    (∃ S, create (fun _ _ _ => .ok [1, 2, 3]) [lineFlow] 1 2 .slidingWindow (some .etxBased) none =
        .ok S ∧
      (S.flows.map (·.toFlow)).Perm [lineFlow] ∧ S.schedule.length = 2 ∧ S.Valid) ∧
    ∃ S, createBy pyAdd (fun _ _ _ => .ok [1, 2, 3]) [lineFlow] 1 2 .slidingWindow
        (some .etxBased) none = .ok S ∧
      (S.flows.map (·.toFlow)).Perm [lineFlow] ∧ S.schedule.length = 2 ∧ S.Valid := by
  have hvalid := @create_valid (fun _ _ _ => .ok [1, 2, 3]) [lineFlow] 1 2 .slidingWindow
    (some .etxBased) none (by simp) (by simpa using lineFlow_schedulable)
    (fun _ => .inr ⟨.inl rfl, _, rfl, by simp⟩) (by decide)
  refine ⟨hvalid.1, hvalid.2 fun f _ path hroute => ?_⟩
  cases hroute
  norm_num

end MasterScheduler.Host

import MasterScheduler.Host.Contiki
import MasterScheduler.Host.Placement
import Mathlib.Data.List.ReduceOption

/-!
# MasterScheduler.Host.Records — what the encoder collects

Facts about the dictionary of node schedules, the links and the tables behind
the bytes of the schedule file.

- `gridCells_mem`: the cells visited are those of the table.
- `getNodeSchedule_ok`: every node has one entry, with the cells it is in.
- `cellLink_spec`: the link of a cell, from the node's position in it.
- `flowTable_spec`: with distinct flow numbers a table has eight entries.
-/

namespace MasterScheduler.Host

open Lib

/-! ## Cells of a node -/

theorem getElem?_of_entry {row : List (Option Cell)} {t : ℕ} {x : Option Cell}
    (h : (match row[t]? with
      | some c => Except.ok c
      | none => Except.error PyError.indexError) = .ok x) : row[t]? = some x := by
  split at h
  · next heq => rw [heq, Except.ok.inj h]
  · cases h

theorem timeslotCells_spec {g : Grid} {t : ℕ} {cs : List (Option Cell)}
    (h : timeslotCells g t = .ok cs) {c : Cell} :
    some c ∈ cs ↔ ∃ ch, cellAt g ch t = some c := by
  have hF := forall₂_of_mapM h
  constructor
  · intro hc
    obtain ⟨ch, hch⟩ := List.mem_iff_getElem?.1 hc
    obtain ⟨row, hrow, hx⟩ := forall₂_getElem?_right hF hch
    exact ⟨ch, by simp [cellAt, hrow, getElem?_of_entry hx]⟩
  · rintro ⟨ch, hc⟩
    cases hrow : g[ch]? with
    | none => simp [cellAt, hrow] at hc
    | some row =>
      obtain ⟨x, hx, hok⟩ := forall₂_getElem?_left hF hrow
      simp only [cellAt, hrow, Option.bind_some, getElem?_of_entry hok,
        Option.join_some] at hc
      rw [← hc]
      exact List.mem_of_getElem? hx

/-- The cells visited are cells of the table. -/
theorem gridCells_mem {g : Grid} {cells : List Cell} (h : gridCells g = .ok cells) {c : Cell}
    (hc : c ∈ cells) : ∃ ch t, cellAt g ch t = some c := by
  unfold gridCells at h
  split at h
  · cases h
  · next row hrow =>
    cases hs : (List.range row.length).mapM (timeslotCells g) with
    | error e => rw [hs] at h; cases h
    | ok slots =>
      rw [hs] at h
      cases h
      rw [List.reduceOption_mem_iff, List.mem_flatten] at hc
      obtain ⟨cs, hcs, hmem⟩ := hc
      obtain ⟨t, -, ht⟩ := forall₂_mem_right (forall₂_of_mapM hs) hcs
      obtain ⟨ch, hch⟩ := (timeslotCells_spec ht).1 hmem
      exact ⟨ch, t, hch⟩

/-- In a table whose channels have the same length no cell is missed. -/
theorem mem_gridCells {g : Grid} {cells : List Cell} (h : gridCells g = .ok cells) {len : ℕ}
    (hrows : ∀ row ∈ g, row.length = len) {ch t : ℕ} {c : Cell} (hc : cellAt g ch t = some c) :
    c ∈ cells := by
  unfold gridCells at h
  split at h
  · cases h
  · next row hrow =>
    cases hs : (List.range row.length).mapM (timeslotCells g) with
    | error e => rw [hs] at h; cases h
    | ok slots =>
      rw [hs] at h
      cases h
      have ht : t ∈ List.range row.length := by
        rw [List.mem_range, hrows row (List.mem_of_getElem? hrow)]
        cases hrow' : g[ch]? with
        | none => simp [cellAt, hrow'] at hc
        | some row' =>
          by_contra hge
          have hlen := hrows row' (List.mem_of_getElem? hrow')
          simp [cellAt, hrow', List.getElem?_eq_none (by omega : row'.length ≤ t)] at hc
      obtain ⟨cs, hcs, hok⟩ := forall₂_mem_left (forall₂_of_mapM hs) ht
      rw [List.reduceOption_mem_iff, List.mem_flatten]
      exact ⟨cs, hcs, (timeslotCells_spec hok).2 ⟨ch, hc⟩⟩

/-- The dictionary of node schedules after the given cells. -/
structure NodeSchedulesOk (nodes : List Node) (cells : List Cell) (d : NodeSchedules) : Prop where
  nodup : (d.map Prod.fst).Nodup
  sound : ∀ e ∈ d, e.1 ∈ nodes ∧ ∀ c ∈ e.2, c ∈ cells ∧ e.1 ∈ c.participants
  complete : ∀ c ∈ cells, ∀ n ∈ c.participants, n ∈ nodes → ∃ e ∈ d, e.1 = n ∧ c ∈ e.2

theorem keys_appendCell (p : Node) (cell : Cell) (d : NodeSchedules) :
    (appendCell p cell d).map Prod.fst =
      if p ∈ d.map Prod.fst then d.map Prod.fst else d.map Prod.fst ++ [p] := by
  induction d with
  | nil => simp [appendCell]
  | cons e d ih =>
    obtain ⟨n, cells⟩ := e
    by_cases hn : n = p
    · simp [appendCell, hn]
    · have hp : p ≠ n := fun h => hn h.symm
      simp only [appendCell, if_neg hn, List.map_cons, ih, List.mem_cons, hp, false_or]
      split_ifs <;> simp

theorem mem_appendCell {p : Node} {cell : Cell} {d : NodeSchedules} {e : Node × List Cell}
    (h : e ∈ appendCell p cell d) :
    e ∈ d ∨ e.1 = p ∧ ∀ x ∈ e.2, x = cell ∨ ∃ e' ∈ d, e'.1 = p ∧ x ∈ e'.2 := by
  induction d with
  | nil =>
    have : e = (p, [cell]) := by simpa [appendCell] using h
    subst this
    exact .inr ⟨rfl, fun x hx => .inl (by simpa using hx)⟩
  | cons e₀ d ih =>
    obtain ⟨n, cells⟩ := e₀
    by_cases hn : n = p
    · simp only [appendCell, if_pos hn, List.mem_cons] at h
      rcases h with rfl | h
      · refine .inr ⟨hn, fun x hx => ?_⟩
        rcases List.mem_append.1 hx with hx | hx
        · exact .inr ⟨(n, cells), by simp, hn, hx⟩
        · exact .inl (by simpa using hx)
      · exact .inl (by simp [h])
    · simp only [appendCell, if_neg hn, List.mem_cons] at h
      rcases h with rfl | h
      · exact .inl (by simp)
      · rcases ih h with h | ⟨hp, hx⟩
        · exact .inl (by simp [h])
        · refine .inr ⟨hp, fun x hxe => ?_⟩
          rcases hx x hxe with h | ⟨e', he', hrest⟩
          · exact .inl h
          · exact .inr ⟨e', by simp [he'], hrest⟩

theorem appendCell_mono (p : Node) (cell : Cell) {d : NodeSchedules} {e : Node × List Cell}
    (h : e ∈ d) : ∃ e' ∈ appendCell p cell d, e'.1 = e.1 ∧ ∀ c ∈ e.2, c ∈ e'.2 := by
  induction d with
  | nil => simp at h
  | cons e₀ d ih =>
    obtain ⟨n, cells⟩ := e₀
    by_cases hn : n = p
    · simp only [appendCell, if_pos hn, List.mem_cons] at h ⊢
      rcases h with rfl | h
      · exact ⟨_, .inl rfl, rfl, fun c hc => by simp [hc]⟩
      · exact ⟨e, .inr h, rfl, fun c hc => hc⟩
    · simp only [appendCell, if_neg hn, List.mem_cons] at h ⊢
      rcases h with rfl | h
      · exact ⟨_, .inl rfl, rfl, fun c hc => hc⟩
      · obtain ⟨e', he', hrest⟩ := ih h
        exact ⟨e', .inr he', hrest⟩

theorem appendCell_self (p : Node) (cell : Cell) (d : NodeSchedules) :
    ∃ e ∈ appendCell p cell d, e.1 = p ∧ cell ∈ e.2 := by
  induction d with
  | nil => exact ⟨(p, [cell]), by simp [appendCell], rfl, by simp⟩
  | cons e₀ d ih =>
    obtain ⟨n, cells⟩ := e₀
    by_cases hn : n = p
    · exact ⟨(n, cells ++ [cell]), by simp [appendCell, hn], hn, by simp⟩
    · obtain ⟨e, he, hrest⟩ := ih
      exact ⟨e, by simp [appendCell, hn, he], hrest⟩

/-- The innermost loop, for the participants handled so far. -/
theorem addCell_ok {nodes : List Node} {cells : List Cell} {d : NodeSchedules}
    (h : NodeSchedulesOk nodes cells d) (cell : Cell) :
    NodeSchedulesOk nodes (cells ++ [cell]) (addCell nodes d cell) := by
  -- The invariant of the loop over the participants: the old cells are there, and the new one for
  -- every participant so far.
  have hI := foldl_prefix
    (I := fun (pre : List Node) (d : NodeSchedules) =>
      (d.map Prod.fst).Nodup ∧
      (∀ e ∈ d, e.1 ∈ nodes ∧ ∀ c ∈ e.2, c ∈ cells ++ [cell] ∧ e.1 ∈ c.participants) ∧
      (∀ c ∈ cells, ∀ n ∈ c.participants, n ∈ nodes → ∃ e ∈ d, e.1 = n ∧ c ∈ e.2) ∧
      ∀ n ∈ pre, n ∈ nodes → ∃ e ∈ d, e.1 = n ∧ cell ∈ e.2)
    (f := fun d p => if p ∈ nodes then appendCell p cell d else d)
    (l := cell.participants) (b := d)
    (by
      refine ⟨h.nodup, fun e he => ?_, h.complete, by simp⟩
      obtain ⟨hn, hc⟩ := h.sound e he
      exact ⟨hn, fun c hce => ⟨by simp [(hc c hce).1], (hc c hce).2⟩⟩)
    (by
      rintro pre p post d hl ⟨hnd, hsound, hold, hnew⟩
      have hp : p ∈ cell.participants := by simp [hl]
      split_ifs with hpn
      · refine ⟨?_, ?_, ?_, ?_⟩
        · rw [keys_appendCell]
          split_ifs with hmem
          · exact hnd
          · exact List.nodup_append.2 ⟨hnd, by simp, by
              intro a ha b hb
              rw [List.mem_singleton.1 hb]
              exact fun hab => hmem (hab ▸ ha)⟩
        · intro e he
          rcases mem_appendCell he with he | ⟨hep, hx⟩
          · exact hsound e he
          · refine ⟨hep ▸ hpn, fun c hc => ?_⟩
            rcases hx c hc with rfl | ⟨e', he', he'p, hce'⟩
            · exact ⟨by simp, hep ▸ hp⟩
            · rw [hep, ← he'p]
              exact (hsound e' he').2 c hce'
        · intro c hc n hn hnn
          obtain ⟨e, he, hen, hce⟩ := hold c hc n hn hnn
          obtain ⟨e', he', hkey, hmono⟩ := appendCell_mono p cell he
          exact ⟨e', he', hkey.trans hen, hmono c hce⟩
        · intro n hn hnn
          rcases List.mem_append.1 hn with hn | hn
          · obtain ⟨e, he, hen, hce⟩ := hnew n hn hnn
            obtain ⟨e', he', hkey, hmono⟩ := appendCell_mono p cell he
            exact ⟨e', he', hkey.trans hen, hmono cell hce⟩
          · rw [List.mem_singleton.1 hn]
            exact appendCell_self p cell d
      · refine ⟨hnd, hsound, hold, fun n hn hnn => ?_⟩
        rcases List.mem_append.1 hn with hn | hn
        · exact hnew n hn hnn
        · rw [List.mem_singleton.1 hn] at hnn
          exact absurd hnn hpn)
  obtain ⟨hnd, hsound, hold, hnew⟩ := hI
  refine ⟨hnd, hsound, fun c hc n hn hnn => ?_⟩
  rcases List.mem_append.1 hc with hc | hc
  · exact hold c hc n hn hnn
  · rw [List.mem_singleton.1 hc] at hn ⊢
    exact hnew n hn hnn

/-- Every node has one entry, with the cells it is in. -/
theorem getNodeSchedule_ok {S : Schedule} {nodes : List Node} {d : NodeSchedules}
    (h : getNodeSchedule S nodes = .ok d) :
    ∃ cells, gridCells S.schedule = .ok cells ∧ NodeSchedulesOk nodes cells d := by
  unfold getNodeSchedule at h
  cases hc : gridCells S.schedule with
  | error e => rw [hc] at h; cases h
  | ok cells =>
    rw [hc] at h
    cases h
    refine ⟨cells, rfl, foldl_prefix (I := NodeSchedulesOk nodes) ?_ ?_⟩
    · exact ⟨by simp, by simp, by simp⟩
    · intro pre cell post d _ hd
      exact addCell_ok hd cell

/-! ## Links -/

theorem participantAt_spec {ps : List Node} {i : ℕ} {n : Node} (h : participantAt ps i = .ok n) :
    ps[i]? = some n := by
  unfold participantAt at h
  split at h
  · next heq => rw [heq, Except.ok.inj h]
  · cases h

/-- The three positions a node can have in a cell. -/
theorem linkRole_spec {ps : List Node} {n : Node} {option : ℕ} {neighbor : Node}
    (h : linkRole ps n = .ok (option, neighbor)) :
    n ∈ ps ∧
    ((ps.idxOf n = 0 ∧ option = 1 ∧ ps[1]? = some neighbor) ∨
     (ps.idxOf n ≠ 0 ∧ ps.idxOf n = ps.length - 1 ∧ option = 2 ∧
       ps[ps.length - 2]? = some neighbor) ∨
     (ps.idxOf n ≠ 0 ∧ ps.idxOf n ≠ ps.length - 1 ∧ option = 3 ∧
       ps[ps.idxOf n + 1]? = some neighbor)) := by
  have hmem : n ∈ ps := by
    by_contra hn
    simp [linkRole, hn] at h
  unfold linkRole at h
  rw [if_neg (not_not.2 hmem)] at h
  simp only at h
  -- The first participant sends, the last one receives, those between do both.
  split_ifs at h with h0 hl
  · refine ⟨hmem, .inl ?_⟩
    cases hp : participantAt ps 1 with
    | error e => rw [hp] at h; cases h
    | ok m =>
      rw [hp] at h
      cases h
      exact ⟨h0, rfl, participantAt_spec hp⟩
  · refine ⟨hmem, .inr (.inl ?_)⟩
    cases hp : participantAt ps (ps.length - 2) with
    | error e => rw [hp] at h; cases h
    | ok m =>
      rw [hp] at h
      cases h
      exact ⟨h0, hl, rfl, participantAt_spec hp⟩
  · refine ⟨hmem, .inr (.inr ?_)⟩
    cases hp : participantAt ps (ps.idxOf n + 1) with
    | error e => rw [hp] at h; cases h
    | ok m =>
      rw [hp] at h
      cases h
      exact ⟨h0, hl, rfl, participantAt_spec hp⟩

theorem linkRole_option_le {ps : List Node} {n : Node} {option : ℕ} {neighbor : Node}
    (h : linkRole ps n = .ok (option, neighbor)) : option ≤ 3 ∧ neighbor ∈ ps := by
  obtain ⟨-, ⟨-, rfl, hn⟩ | ⟨-, -, rfl, hn⟩ | ⟨-, -, rfl, hn⟩⟩ := linkRole_spec h
  · exact ⟨by omega, List.mem_of_getElem? hn⟩
  · exact ⟨by omega, List.mem_of_getElem? hn⟩
  · exact ⟨by omega, List.mem_of_getElem? hn⟩

theorem attrs_of_link {S : Schedule} {cell : Cell} {role : ℕ × Node} {l : Link}
    (h : (match S.attrs cell.ident with
      | none => Except.error PyError.attributeError
      | some (timeslot, channel) =>
          Except.ok (⟨timeslot, channel, role.1, cell.flowNumber, role.2⟩ : Link)) = .ok l) :
    role = (l.linkOption, l.neighbor) ∧
      S.attrs cell.ident = some (l.timeslot, l.channel) ∧ l.flowNumber = cell.flowNumber := by
  split at h
  · cases h
  · next t ch heq =>
    cases h
    exact ⟨rfl, heq, rfl⟩

theorem cellLink_spec {S : Schedule} {n : Node} {cell : Cell} {l : Link}
    (h : cellLink S n cell = .ok l) :
    linkRole cell.participants n = .ok (l.linkOption, l.neighbor) ∧
      S.attrs cell.ident = some (l.timeslot, l.channel) ∧ l.flowNumber = cell.flowNumber := by
  unfold cellLink at h
  cases hr : linkRole cell.participants n with
  | error e => rw [hr] at h; cases h
  | ok role =>
    rw [hr] at h
    obtain ⟨hrole, hattrs, hflow⟩ := attrs_of_link h
    exact ⟨congrArg Except.ok hrole, hattrs, hflow⟩

theorem sortedListOfLinks_spec {S : Schedule} {n : Node} {cells : List Cell} {links : List Link}
    (h : sortedListOfLinks S n cells = .ok links) :
    links.length = cells.length ∧
      (∀ l ∈ links, ∃ c ∈ cells, cellLink S n c = .ok l) ∧
      ∀ c ∈ cells, ∃ l ∈ links, cellLink S n c = .ok l := by
  unfold sortedListOfLinks at h
  cases hm : cells.mapM (cellLink S n) with
  | error e => rw [hm] at h; cases h
  | ok ls =>
    rw [hm] at h
    cases h
    have hF := forall₂_of_mapM hm
    refine ⟨by rw [List.length_mergeSort, hF.length_eq], fun l hl => ?_, fun c hc => ?_⟩
    · exact forall₂_mem_right hF (List.mem_mergeSort.1 hl)
    · obtain ⟨l, hl, hok⟩ := forall₂_mem_left hF hc
      exact ⟨l, List.mem_mergeSort.2 hl, hok⟩

/-! ## Records -/

theorem flowForward_mem {links : List Link} {idx n : ℕ} (h : flowForward links idx = n)
    (hn : n ≠ 0) : ∃ l ∈ links, l.linkOption ≠ linkReceive ∧ l.flowNumber = idx ∧
      l.neighbor = n := by
  unfold flowForward at h
  cases hl : (forwardTo links).eraseDups.reverse.lookup idx with
  | none =>
    rw [hl] at h
    exact absurd h.symm hn
  | some m =>
    rw [hl] at h
    cases h
    obtain ⟨l₁, l₂, hsplit, -⟩ := List.lookup_eq_some_iff.1 hl
    have hmem : (idx, m) ∈ (forwardTo links).eraseDups.reverse := by simp [hsplit]
    rw [List.mem_reverse, List.mem_eraseDups] at hmem
    obtain ⟨l, hmem, heq⟩ := List.mem_map.1 hmem
    obtain ⟨hlmem, hopt⟩ := List.mem_filter.1 hmem
    cases heq
    exact ⟨l, hlmem, by simpa using hopt, rfl, rfl⟩

/-- The fields of the record of one node. -/
theorem nodeRecord_spec {S : Schedule} {e : Node × List Cell} {r : NodeRecord}
    (h : nodeRecord S e = .ok r) :
    r.nodeId = e.1 ∧
      r.ownFlow = (getFlowFromSender S e.1).map (fun f => (f.flowNumber, f.destination)) ∧
      sortedListOfLinks S e.1 e.2 = .ok r.links ∧
      r.flowForwards = (List.range' 1 numOfFlows).map (flowForward r.links) ∧
      (List.range' 1 numOfFlows).mapM (maxTransmissionOf S e.1 r.links) = .ok r.maxTransmission := by
  unfold nodeRecord at h
  cases hl : sortedListOfLinks S e.1 e.2 with
  | error err => rw [hl] at h; cases h
  | ok links =>
    cases hm : (List.range' 1 numOfFlows).mapM (maxTransmissionOf S e.1 links) with
    | error err => rw [hl] at h; simp [bind, Except.bind, hm] at h
    | ok maxTx =>
      rw [hl] at h
      simp only [bind, Except.bind, hm, pure, Except.pure, Except.ok.injEq] at h
      subst h
      exact ⟨rfl, rfl, rfl, rfl, hm⟩

theorem nodeRecords_forall₂ {S : Schedule} {nodeIds : List Node} {recs : List NodeRecord}
    (h : nodeRecords S nodeIds = .ok recs) :
    ∃ d, getNodeSchedule S nodeIds = .ok d ∧
      List.Forall₂ (fun e r => nodeRecord S e = .ok r) d recs := by
  unfold nodeRecords at h
  cases hd : getNodeSchedule S nodeIds with
  | error e => rw [hd] at h; cases h
  | ok d =>
    rw [hd] at h
    exact ⟨d, rfl, forall₂_of_mapM h⟩

theorem nodeRecords_mem {S : Schedule} {nodeIds : List Node} {recs : List NodeRecord}
    (h : nodeRecords S nodeIds = .ok recs) {r : NodeRecord} (hr : r ∈ recs) :
    ∃ d e, getNodeSchedule S nodeIds = .ok d ∧ e ∈ d ∧ nodeRecord S e = .ok r := by
  obtain ⟨d, hd, hF⟩ := nodeRecords_forall₂ h
  obtain ⟨e, he, hre⟩ := forall₂_mem_right hF hr
  exact ⟨d, e, hd, he, hre⟩

/-- Every node has at most one record. -/
theorem nodup_nodeRecords {S : Schedule} {nodeIds : List Node} {recs : List NodeRecord}
    (h : nodeRecords S nodeIds = .ok recs) : (recs.map NodeRecord.nodeId).Nodup := by
  obtain ⟨d, hd, hF⟩ := nodeRecords_forall₂ h
  have hkeys : recs.map NodeRecord.nodeId = d.map Prod.fst := by
    refine List.ext_getElem? fun i => ?_
    rw [List.getElem?_map, List.getElem?_map]
    cases hi : recs[i]? with
    | none =>
      rw [List.getElem?_eq_none_iff] at hi
      rw [List.getElem?_eq_none (by rw [hF.length_eq]; exact hi)]
      rfl
    | some r =>
      obtain ⟨e, he, hre⟩ := forall₂_getElem?_right hF hi
      rw [he]
      exact congrArg some (nodeRecord_spec hre).1
  obtain ⟨cells, -, hok⟩ := getNodeSchedule_ok hd
  rw [hkeys]
  exact hok.nodup

/-! ## Tables -/

theorem flowColumn_spec {S : Schedule} {value : PlannedFlow → Except PyError ℕ} {idx : ℕ}
    {column : List ℕ} (hnd : (S.flows.map (·.flowNumber)).Nodup)
    (h : flowColumn S value idx = .ok column) :
    column.length = 1 ∧ ∀ n ∈ column, n = 0 ∨ ∃ f ∈ S.flows, f.flowNumber = idx ∧ value f = .ok n := by
  have hsub : ((S.flows.filter (idx = ·.flowNumber)).map (·.flowNumber)).Nodup :=
    hnd.sublist (List.filter_sublist.map _)
  have hall : ∀ f ∈ S.flows.filter (idx = ·.flowNumber), f.flowNumber = idx := by
    intro f hf
    simpa [eq_comm] using (List.mem_filter.1 hf).2
  have hone : (S.flows.filter (idx = ·.flowNumber)).length ≤ 1 := by
    have hrep : (S.flows.filter (idx = ·.flowNumber)).map (·.flowNumber) =
        List.replicate (S.flows.filter (idx = ·.flowNumber)).length idx := by
      refine List.eq_replicate_iff.2 ⟨by simp, fun n hn => ?_⟩
      obtain ⟨f, hf, rfl⟩ := List.mem_map.1 hn
      exact hall f hf
    rw [hrep, List.nodup_replicate] at hsub
    exact hsub
  unfold flowColumn at h
  split at h
  · cases h
    exact ⟨rfl, fun n hn => .inl (by simpa using hn)⟩
  · next hne =>
    have hF := forall₂_of_mapM h
    have hpos : (S.flows.filter (idx = ·.flowNumber)).length ≠ 0 := fun h0 =>
      hne (List.length_eq_zero_iff.1 h0)
    refine ⟨by rw [← hF.length_eq]; omega, fun n hn => .inr ?_⟩
    obtain ⟨f, hf, hok⟩ := forall₂_mem_right hF hn
    exact ⟨f, (List.mem_filter.1 hf).1, hall f hf, hok⟩

theorem flowTable_spec {S : Schedule} {value : PlannedFlow → Except PyError ℕ} {table : List ℕ}
    (hnd : (S.flows.map (·.flowNumber)).Nodup) (h : flowTable S value = .ok table) :
    table.length = 8 ∧ ∀ n ∈ table, n = 0 ∨ ∃ f ∈ S.flows, value f = .ok n := by
  unfold flowTable at h
  cases hm : (List.range' 1 numOfFlows).mapM (flowColumn S value) with
  | error e => rw [hm] at h; cases h
  | ok columns =>
    rw [hm] at h
    cases h
    have hF := forall₂_of_mapM hm
    have hlen : ∀ column ∈ columns, column.length = 1 := by
      intro column hc
      obtain ⟨idx, -, hok⟩ := forall₂_mem_right hF hc
      exact (flowColumn_spec hnd hok).1
    constructor
    · rw [List.length_flatten, List.map_congr_left hlen]
      have := hF.length_eq
      simp [numOfFlows] at this ⊢
      omega
    · intro n hn
      obtain ⟨column, hc, hn⟩ := List.mem_flatten.1 hn
      obtain ⟨idx, -, hok⟩ := forall₂_mem_right hF hc
      rcases (flowColumn_spec hnd hok).2 n hn with h0 | ⟨f, hf, -, hv⟩
      · exact .inl h0
      · exact .inr ⟨f, hf, hv⟩

/-- The parts of the header. -/
theorem scheduleHeader_spec {S : Schedule} {minimalScheduleLength : ℕ} {header : ScheduleHeader}
    (h : scheduleHeader S minimalScheduleLength = .ok header) :
    ∃ row, S.schedule[0]? = some row ∧
      header.slotframeLength = slotframeLength row.length minimalScheduleLength ∧
      header.numFlows = S.flows.length ∧
      flowTable S (fun f => .ok f.source) = .ok header.senderOfFlow ∧
      flowTable S (fun f => .ok f.destination) = .ok header.receiverOfFlow ∧
      flowTable S (fun f => cellTimeslot S f.cells.head?) = .ok header.firstTxSlotInFlow ∧
      flowTable S (fun f => cellTimeslot S f.cells.getLast?) = .ok header.lastTxSlotInFlow := by
  unfold scheduleHeader at h
  split at h
  · cases h
  · next row hrow =>
    cases h1 : flowTable S fun f => .ok f.source with
    | error e => simp [h1, bind, Except.bind] at h
    | ok senders =>
    cases h2 : flowTable S fun f => .ok f.destination with
    | error e => simp [h1, h2, bind, Except.bind] at h
    | ok receivers =>
    cases h3 : flowTable S fun f => cellTimeslot S f.cells.head? with
    | error e => simp [h1, h2, h3, bind, Except.bind] at h
    | ok first =>
    cases h4 : flowTable S fun f => cellTimeslot S f.cells.getLast? with
    | error e => simp [h1, h2, h3, h4, bind, Except.bind] at h
    | ok last =>
    simp only [h1, h2, h3, h4, bind, Except.bind, pure, Except.pure, Except.ok.injEq] at h
    subst h
    exact ⟨row, hrow, rfl, rfl, rfl, rfl, rfl, rfl⟩

end MasterScheduler.Host

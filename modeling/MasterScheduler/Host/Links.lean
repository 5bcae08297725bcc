import MasterScheduler.Host.Records
import MasterScheduler.Host.Validity

/-!
# MasterScheduler.Host.Links — the links of a node and the cells behind them

A record lists the links of a node without naming cells or paths. Over a valid
schedule of routed flows the two determine each other.

- `nextHop_unique`: on a simple path, the next hop of a node is determined.
- `RecordLinks`: what the record of a node says about the schedule.
- `nodeRecords_links`: the encoder writes such records.
-/

namespace MasterScheduler.Host

open Lib

/-! ## Next hops -/

/-- `m` follows `n` on the path. -/
def NextHop (path : List Node) (n m : Node) : Prop := ∃ i, path[i]? = some n ∧ path[i + 1]? = some m

theorem NextHop.of_isInfix {sub path : List Node} {n m : Node} (h : NextHop sub n m)
    (hsub : sub <:+: path) : NextHop path n m := by
  rcases h with ⟨i, hn, hm⟩
  rcases hsub with ⟨pre, post, rfl⟩
  have hlt : ∀ {j x}, sub[j]? = some x → (pre ++ sub ++ post)[pre.length + j]? = some x := by
    intro j x hj
    rcases List.getElem?_eq_some_iff.1 hj with ⟨hjl, -⟩
    rw [List.append_assoc, List.getElem?_append_right (by omega), Nat.add_sub_cancel_left,
      List.getElem?_append_left hjl, hj]
  exact ⟨pre.length + i, hlt hn, hlt hm⟩

theorem nextHop_unique {path : List Node} (hnd : path.Nodup) {n m m' : Node}
    (h : NextHop path n m) (h' : NextHop path n m') : m = m' := by
  rcases h with ⟨i, hn, hm⟩
  rcases h' with ⟨j, hn', hm'⟩
  obtain rfl : i = j := by
    rcases List.getElem?_eq_some_iff.1 hn with ⟨hi, hni⟩
    rcases List.getElem?_eq_some_iff.1 hn' with ⟨hj, hnj⟩
    exact (List.Nodup.getElem_inj_iff hnd).1 (hni.trans hnj.symm)
  rw [hm] at hm'
  exact Option.some.inj hm'

/-- The next hop of a node on the path of a flow. -/
def PlannedFlow.NextHop (f : PlannedFlow) (n m : Node) : Prop :=
  ∃ sub ∈ f.path, Host.NextHop sub n m

/-! ## Link options -/

/-- The option byte for a node's position: it sends unless it is the last
participant, and receives unless it is the first. -/
def positionOptions (participants : List Node) (n : Node) : ℕ :=
  (if participants.getLast? = some n then 0 else linkTransmit) +
    if participants.head? = some n then 0 else linkReceive

theorem linkRole_position {ps : List Node} {n neighbor : Node} {option : ℕ} (hnd : ps.Nodup)
    (h2 : 2 ≤ ps.length) (h : linkRole ps n = .ok (option, neighbor)) :
    option = positionOptions ps n ∧ (option ≠ linkReceive → NextHop ps n neighbor) := by
  rcases linkRole_spec h with ⟨hmem, hrole⟩
  have hidx : ps.idxOf n < ps.length := List.idxOf_lt_length_of_mem hmem
  have hget : ps[ps.idxOf n]? = some n := by
    rw [List.getElem?_eq_getElem hidx, List.getElem_idxOf hidx]
  have hpos : ∀ j, ps[j]? = some n → j = ps.idxOf n := by
    intro j hj
    rcases List.getElem?_eq_some_iff.1 hj with ⟨hjl, hjn⟩
    rw [← hjn, hnd.idxOf_getElem j hjl]
  have hhead : ps.head? = some n ↔ ps.idxOf n = 0 := by
    rw [List.head?_eq_getElem?]
    constructor
    · intro h0
      exact (hpos 0 h0).symm
    · intro h0
      rw [← h0, hget]
  have hlast : ps.getLast? = some n ↔ ps.idxOf n = ps.length - 1 := by
    rw [List.getLast?_eq_getElem?]
    constructor
    · intro hl
      exact (hpos _ hl).symm
    · intro hl
      rw [← hl, hget]
  unfold positionOptions linkTransmit linkReceive
  simp only [hhead, hlast]
  rcases hrole with ⟨h0, rfl, hn⟩ | ⟨h0, hl, rfl, hn⟩ | ⟨h0, hl, rfl, hn⟩
  · rw [if_neg (by omega), if_pos h0]
    exact ⟨rfl, fun _ => ⟨0, h0 ▸ hget, hn⟩⟩
  · rw [if_pos hl, if_neg h0]
    exact ⟨rfl, fun h => absurd rfl h⟩
  · rw [if_neg hl, if_neg h0]
    exact ⟨rfl, fun _ => ⟨ps.idxOf n, hget, hn⟩⟩

/-! ## Forwarding -/

/-- With a single neighbour to send to, that is the entry of the flow. -/
theorem flowForward_eq {links : List Link} {idx : ℕ} {n : Node} {l : Link} (hl : l ∈ links)
    (htx : l.linkOption ≠ linkReceive) (hflow : l.flowNumber = idx)
    (hall : ∀ l' ∈ links, l'.linkOption ≠ linkReceive → l'.flowNumber = idx → l'.neighbor = n) :
    flowForward links idx = n := by
  unfold flowForward
  have hmem : (idx, l.neighbor) ∈ (forwardTo links).eraseDups.reverse := by
    rw [List.mem_reverse, List.mem_eraseDups]
    exact List.mem_map.2 ⟨l, List.mem_filter.2 ⟨hl, by simpa using htx⟩, by rw [hflow]⟩
  cases hlook : (forwardTo links).eraseDups.reverse.lookup idx with
  | none =>
    rw [List.lookup_eq_none_iff] at hlook
    have hne := hlook _ hmem
    simp at hne
  | some m =>
    rcases List.lookup_eq_some_iff.1 hlook with ⟨l₁, l₂, hsplit, -⟩
    have hm : (idx, m) ∈ (forwardTo links).eraseDups.reverse := by simp [hsplit]
    rw [List.mem_reverse, List.mem_eraseDups] at hm
    rcases List.mem_map.1 hm with ⟨l', hl', heq⟩
    rcases List.mem_filter.1 hl' with ⟨hmem', hopt⟩
    cases heq
    exact hall l' hmem' (by simpa using hopt) rfl

/-! ## Records and cells -/

/-- The links of a record are those of the cells its node takes part in. -/
structure RecordLinks (S : Schedule) (r : NodeRecord) : Prop where
  sound : ∀ l ∈ r.links, ∃ c, cellAt S.schedule l.channel l.timeslot = some c ∧
    r.nodeId ∈ c.participants ∧ l.flowNumber = c.flowNumber ∧
    linkRole c.participants r.nodeId = .ok (l.linkOption, l.neighbor)
  complete : ∀ ch t c, cellAt S.schedule ch t = some c → r.nodeId ∈ c.participants →
    ∃ l ∈ r.links, l.channel = ch ∧ l.timeslot = t ∧ l.flowNumber = c.flowNumber ∧
      linkRole c.participants r.nodeId = .ok (l.linkOption, l.neighbor)
  forwards : r.flowForwards = (List.range' 1 numOfFlows).map (flowForward r.links)

theorem nodeRecords_links {S : Schedule} (hS : S.Valid) {nodeIds : List Node}
    {recs : List NodeRecord} (h : nodeRecords S nodeIds = .ok recs) {r : NodeRecord}
    (hr : r ∈ recs) : RecordLinks S r := by
  rcases nodeRecords_mem h hr with ⟨d, e, hd, he, hre⟩
  rcases getNodeSchedule_ok hd with ⟨cells, hgrid, hok⟩
  rcases nodeRecord_spec hre with ⟨hid, -, hlinks, hfw, -⟩
  rcases sortedListOfLinks_spec hlinks with ⟨-, hfrom, hto⟩
  rcases hok.sound e he with ⟨hnode, hcells⟩
  constructor
  · intro l hl
    rcases hfrom l hl with ⟨c, hc, hlink⟩
    rcases cellLink_spec hlink with ⟨hrole, hattrs, hflow⟩
    rcases gridCells_mem hgrid (hcells c hc).1 with ⟨ch, t, hat⟩
    -- the attributes the link was made of are the position of the cell
    rw [hS.attributes ch t c hat] at hattrs
    cases hattrs
    rw [hid]
    exact ⟨c, hat, (hcells c hc).2, hflow, hrole⟩
  · intro ch t c hat hmem
    rw [hid] at hmem ⊢
    rcases hok.complete c (mem_gridCells hgrid hS.rows hat) e.1 hmem hnode with ⟨e', he', hkey, hc⟩
    obtain rfl : e' = e := List.inj_on_of_nodup_map hok.nodup he' he hkey
    rcases hto c hc with ⟨l, hl, hlink⟩
    rcases cellLink_spec hlink with ⟨hrole, hattrs, hflow⟩
    rw [hS.attributes ch t c hat] at hattrs
    cases hattrs
    exact ⟨l, hl, rfl, rfl, hflow, hrole⟩
  · exact hfw

section

variable {S : Schedule} {r : NodeRecord}

theorem Schedule.Valid.slot_le (hS : S.Valid) {ch t : ℕ} {c : Cell}
    (hat : cellAt S.schedule ch t = some c) : t ≤ S.lastTimeslot := by
  unfold cellAt at hat
  cases hrow : S.schedule[ch]? with
  | none => simp [hrow] at hat
  | some row =>
    have hlen := hS.rows row (List.mem_of_getElem? hrow)
    by_contra hlt
    simp [hrow, List.getElem?_eq_none (by omega : row.length ≤ t)] at hat

/-- The lengths that the header of a valid schedule gives. -/
theorem scheduleHeader_lengths (hS : S.Valid) {minimalScheduleLength : ℕ} {header : ScheduleHeader}
    (h : scheduleHeader S minimalScheduleLength = .ok header) :
    header.slotframeLength = slotframeLength (S.lastTimeslot + 1) minimalScheduleLength ∧
      header.numFlows = S.flows.length := by
  rcases scheduleHeader_spec h with ⟨row, hrow, hlen, hnum, -⟩
  rw [hS.rows row (List.mem_of_getElem? hrow)] at hlen
  exact ⟨hlen, hnum⟩

/-- A node has one link per timeslot. -/
theorem RecordLinks.unique (h : RecordLinks S r) (hS : S.Valid) {l l' : Link} (hl : l ∈ r.links)
    (hl' : l' ∈ r.links) (ht : l.timeslot = l'.timeslot) : l = l' := by
  rcases h.sound l hl with ⟨c, hat, hmem, hflow, hrole⟩
  rcases h.sound l' hl' with ⟨c', hat', hmem', hflow', hrole'⟩
  rw [← ht] at hat'
  have hch : l.channel = l'.channel :=
    hS.conflictFree _ _ _ c c' hat hat' ⟨r.nodeId, hmem, hmem'⟩
  rw [← hch, hat] at hat'
  cases hat'
  rw [hrole] at hrole'
  cases l
  cases l'
  simp_all

/-- The flows of the schedule are routed over simple paths. -/
structure RoutedSchedule (S : Schedule) : Prop where
  valid : S.Valid
  distinct : (S.flows.map (·.flowNumber)).Nodup
  cells : ∀ f ∈ S.flows, ∀ c ∈ f.cells, c.flowNumber = f.flowNumber ∧ c.participants.Nodup ∧
    2 ≤ c.participants.length ∧ ∃ sub ∈ f.path, c.participants <:+: sub
  simple : ∀ f ∈ S.flows, ∃ path : List Node, path.Nodup ∧ ∀ sub ∈ f.path, sub <:+: path

/-- What `create` returns is routed over simple paths if the flows are numbered
apart and their shortest paths are simple. -/
theorem RoutedSchedule.of_createBy {add : ℚ → ℚ → ℚ}
    {shortestPath : Graph → Node → Node → Except PyError (List Node)} {flows : List Flow}
    {etxPower numChannels : ℕ} {strategy : SchedulingStrategy} {alg : Option WindowSizeAlgorithm}
    {fixedWindowSize : Option ℤ} (hne : flows ≠ [])
    (hf : ∀ f ∈ flows, Schedulable shortestPath etxPower f)
    (hadd : ∀ f ∈ flows, ∀ path, RouteOf shortestPath etxPower f path → CountsHops add path.length)
    (hw : WindowChoice strategy alg fixedWindowSize) (hC : 1 ≤ numChannels)
    (hsimple : ∀ f ∈ flows, ∀ path, RouteOf shortestPath etxPower f path → path.Nodup)
    (hnum : (flows.map (·.flowNumber)).Nodup)
    (hS : createBy add shortestPath flows etxPower numChannels strategy alg fixedWindowSize =
      .ok S) :
    RoutedSchedule S ∧ (S.flows.map (·.toFlow)).Perm flows := by
  rcases createBy_ok hne hf hadd hw hC with ⟨S', hS', hvalid, hperm, -, hrouted⟩
  rw [hS] at hS'
  cases hS'
  refine ⟨⟨hvalid, ?_, ?_, ?_⟩, hperm⟩
  · have := (hperm.map (·.flowNumber)).nodup_iff.2 hnum
    rwa [List.map_map] at this
  · intro f hfS c hc
    rcases hrouted f hfS with ⟨oid, h⟩
    rcases h.cells with ⟨parts, hcells, hparts⟩
    rw [hcells] at hc
    rcases mem_mkCells hc with ⟨-, hflow, hpart⟩
    rcases hparts.block _ hpart with ⟨hlen, sub, hsub, hinfix⟩
    exact ⟨hflow, (h.simple sub hsub).nodup.sublist hinfix.sublist, hlen, sub, hsub, hinfix⟩
  · intro f hfS
    rcases hrouted f hfS with ⟨oid, h⟩
    rcases h.route with ⟨path, hroute, hsub⟩
    exact ⟨path, hsimple _ (hperm.mem_iff.1 (List.mem_map_of_mem hfS)) path hroute, hsub⟩

/-- The next hop of a node on the path of a flow is determined. -/
theorem RoutedSchedule.nextHop_eq (hS : RoutedSchedule S) {f : PlannedFlow} (hf : f ∈ S.flows)
    {n m m' : Node} (h : f.NextHop n m) (h' : f.NextHop n m') : m = m' := by
  rcases hS.simple f hf with ⟨path, hnd, hsub⟩
  rcases h with ⟨sub, hmem, hnext⟩
  rcases h' with ⟨sub', hmem', hnext'⟩
  exact nextHop_unique hnd (hnext.of_isInfix (hsub sub hmem)) (hnext'.of_isInfix (hsub sub' hmem'))

/-- A cell of the table and the role of a node in it. -/
theorem RoutedSchedule.role (hS : RoutedSchedule S) {ch t option : ℕ} {c : Cell}
    (hat : cellAt S.schedule ch t = some c) {n neighbor : Node}
    (hrole : linkRole c.participants n = .ok (option, neighbor)) :
    ∃ f ∈ S.flows, c ∈ f.cells ∧ f.flowNumber = c.flowNumber ∧
      option = positionOptions c.participants n ∧ (option ≠ linkReceive → f.NextHop n neighbor) := by
  rcases hS.valid.owned ch t c hat with ⟨f, hf, hc⟩
  rcases hS.cells f hf c hc with ⟨hflow, hnd, hlen, sub, hsub, hinfix⟩
  rcases linkRole_position hnd hlen hrole with ⟨hopt, hnext⟩
  exact ⟨f, hf, hc, hflow.symm, hopt, fun h => ⟨sub, hsub, (hnext h).of_isInfix hinfix⟩⟩

/-- The entry of a flow is the neighbour of each of its sending links. -/
theorem RecordLinks.forward (h : RecordLinks S r) (hS : RoutedSchedule S) {l : Link}
    (hl : l ∈ r.links) (htx : l.linkOption ≠ linkReceive) :
    flowForward r.links l.flowNumber = l.neighbor := by
  refine flowForward_eq hl htx rfl ?_
  intro l' hl' htx' hflow'
  rcases h.sound l hl with ⟨c, hat, -, hflow, hrole⟩
  rcases h.sound l' hl' with ⟨c', hat', -, hcflow', hrole'⟩
  rcases hS.role hat hrole with ⟨f, hf, -, hfc, -, hnext⟩
  rcases hS.role hat' hrole' with ⟨f', hf', -, hfc', -, hnext'⟩
  -- both cells belong to the one flow with this number
  obtain rfl : f' = f := List.inj_on_of_nodup_map hS.distinct hf' hf (by omega)
  exact hS.nextHop_eq hf (hnext' htx') (hnext htx)

end

end MasterScheduler.Host

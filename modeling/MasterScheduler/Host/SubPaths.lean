import MasterScheduler.Host.Validity

/-!
# MasterScheduler.Host.SubPaths — sub-paths and the windows over them

A long path is cut into sub-paths that share their border nodes, and a sliding
window runs over each of them.

1. **Split**: `computePath_split`. The parts glue together to the path; their
   costs are sums of floats, and add up to that of the path up to rounding.
2. **Windows**: `createCells_window`, the cells of the sliding window, and how
   often each node may send.
-/

namespace MasterScheduler.Host

open Lib

/-! ## Split -/

/-- Lists of nodes put together at common border nodes. -/
def glue : List (List Node) → List Node
  | [] => []
  | sub :: rest => sub ++ rest.flatMap List.tail

/-- The parts of a path, none longer than `maxLength`. -/
structure SplitOf (path : List Node) (maxLength : ℕ) (subs : List (List Node)) : Prop where
  two_le : ∀ sub ∈ subs, 2 ≤ sub.length
  le_max : ∀ sub ∈ subs, sub.length ≤ maxLength
  bordered : Bordered subs
  /-- Without repeated nodes, the border is all that two parts share. -/
  border : path.Nodup → ∀ pre a b post, subs = pre ++ a :: b :: post →
    ∀ x, x ∈ a → x ∈ b → a.getLast? = some x
  glued : glue subs = path

theorem glue_concat {subs : List (List Node)} {sub : List Node} (h : subs ≠ []) :
    glue (subs ++ [sub]) = glue subs ++ sub.tail := by
  cases subs with
  | nil => exact absurd rfl h
  | cons s rest => simp [glue]

theorem le_mul_ceilDiv {length n : ℕ} (hn : 0 < n) : length ≤ n * ceilDiv length n := by
  have h := Nat.lt_mul_div_succ (length + n - 1) hn
  unfold ceilDiv
  rw [Nat.mul_succ] at h
  omega

theorem mul_lt_of_lt_ceilDiv {length n q : ℕ} (hn : 0 < n) (h : q < ceilDiv length n) :
    q * n < length := by
  unfold ceilDiv at h
  have := (Nat.le_div_iff_mul_le hn).1 h
  rw [Nat.succ_mul] at this
  omega

/-- The loop over the number of parts ends, at the first number that is large enough. -/
theorem numSubFlows_ok {length maxLength : ℕ} (hm : 3 ≤ maxLength) :
    ∀ fuel n, 2 ≤ n → n ≤ length → length < n + fuel →
      ∃ k, numSubFlows length maxLength fuel n = .ok k ∧ n ≤ k ∧
        ceilDiv length k ≤ maxLength - 1 ∧ (n < k → maxLength - 1 < ceilDiv length (k - 1)) := by
  intro fuel
  induction fuel with
  | zero =>
    intro n _ _ _
    omega
  | succ fuel ih =>
    intro n h2 hle hlt
    unfold numSubFlows
    by_cases hbig : maxLength - 1 < ceilDiv length n
    · -- with as many parts as nodes the parts would be short enough
      have hne : n ≠ length := by
        rintro rfl
        have := mul_lt_of_lt_ceilDiv (by omega) hbig
        have : 2 * n ≤ (maxLength - 1) * n := Nat.mul_le_mul_right n (by omega)
        omega
      obtain ⟨k, hk, hnk, hsmall, hmin⟩ := ih (n + 1) (by omega) (by omega) (by omega)
      rw [if_pos hbig]
      refine ⟨k, hk, by omega, hsmall, ?_⟩
      intro _
      by_cases hk1 : n + 1 = k
      · rw [← hk1, Nat.add_sub_cancel]
        exact hbig
      · exact hmin (by omega)
    · rw [if_neg hbig]
      exact ⟨n, rfl, le_rfl, not_lt.1 hbig, fun h => absurd h (lt_irrefl n)⟩

/-- The number of parts and their length: all but the last are full, and the last is not empty. -/
theorem numSubFlows_split {length maxLength : ℕ} (hm : 3 ≤ maxLength) (hlong : maxLength < length) :
    ∃ n len, numSubFlows length maxLength length 2 = .ok n ∧ ceilDiv length n = len ∧ 2 ≤ n ∧
      2 ≤ len ∧ len + 1 ≤ maxLength ∧ (n - 1) * len < length ∧ length ≤ n * len := by
  have hlong2 : 2 ≤ length := by omega
  obtain ⟨n, hn, h2, hsmall, hmin⟩ :=
    numSubFlows_ok hm length 2 le_rfl hlong2 (by omega)
  have hcover : length ≤ n * ceilDiv length n := le_mul_ceilDiv (by omega)
  refine ⟨n, ceilDiv length n, hn, rfl, h2, ?_, by omega, ?_, hcover⟩
  · by_contra hlt
    have hone : n * ceilDiv length n ≤ n * 1 := Nat.mul_le_mul_left n (by omega)
    by_cases hn2 : n = 2
    · omega
    · have := mul_lt_of_lt_ceilDiv (by omega) (hmin (by omega))
      have : 2 * (n - 1) ≤ (maxLength - 1) * (n - 1) := Nat.mul_le_mul_right _ (by omega)
      omega
  · by_cases hn2 : n = 2
    · -- half of the path, rounded up, is not all of it
      subst hn2
      unfold ceilDiv
      omega
    · have := mul_lt_of_lt_ceilDiv (by omega) (hmin (by omega))
      have : ceilDiv length n * (n - 1) ≤ (maxLength - 1) * (n - 1) :=
        Nat.mul_le_mul_right _ hsmall
      rw [Nat.mul_comm]
      omega

theorem tail_subFlowPath {path : List Node} {len idx : ℕ} (hlen : 0 < len)
    (h : (idx + 1) * len < path.length) :
    (subFlowPath path len (idx + 1)).tail = (path.drop ((idx + 1) * len)).take len := by
  have hpos : len ≤ (idx + 1) * len := Nat.le_mul_of_pos_left len (by omega)
  have hdrop : path.drop ((idx + 1) * len - 1)
      = path[(idx + 1) * len - 1] :: path.drop ((idx + 1) * len) := by
    rw [List.drop_eq_getElem_cons (by omega)]
    congr 2
    omega
  rw [subFlowPath, hdrop, List.take_succ_cons, List.tail_cons]

/-- The first parts glued together are the beginning of the path. -/
theorem glue_subFlowPath {path : List Node} {len : ℕ} (hlen : 0 < len) :
    ∀ n, 0 < n → (n - 1) * len < path.length →
      glue ((List.range n).map (subFlowPath path len)) = path.take (n * len) := by
  intro n
  induction n with
  | zero => omega
  | succ n ih =>
    intro _ hlt
    rw [Nat.add_sub_cancel] at hlt
    cases n with
    | zero => simp [glue, subFlowPath]
    | succ n =>
      have hbefore : n * len < path.length := by
        rw [Nat.succ_mul] at hlt
        omega
      rw [List.range_succ, List.map_append, List.map_singleton, glue_concat (by simp),
        ih (by omega) (by simpa using hbefore), tail_subFlowPath hlen hlt,
        ← List.take_add, Nat.succ_mul (n + 1)]

theorem length_subFlowPath_le (path : List Node) (len idx : ℕ) :
    (subFlowPath path len idx).length ≤ len + 1 := by
  cases idx with
  | zero =>
    simp only [subFlowPath, List.length_take]
    omega
  | succ idx =>
    simp only [subFlowPath, List.length_take, List.length_drop]
    omega

theorem two_le_length_subFlowPath {path : List Node} {len n idx : ℕ} (hlen : 2 ≤ len)
    (hlt : (n - 1) * len < path.length) (h2 : 2 ≤ path.length) (hidx : idx < n) :
    2 ≤ (subFlowPath path len idx).length := by
  cases idx with
  | zero =>
    simp only [subFlowPath, List.length_take]
    omega
  | succ idx =>
    have hle : (idx + 1) * len ≤ (n - 1) * len := Nat.mul_le_mul_right len (by omega)
    have hpos : len ≤ (idx + 1) * len := Nat.le_mul_of_pos_left len (by omega)
    simp only [subFlowPath, List.length_take, List.length_drop]
    omega

/-- The positions of the nodes of a part. -/
theorem mem_subFlowPath {path : List Node} {len idx : ℕ} {x : Node} (hlen : 0 < len)
    (h : x ∈ subFlowPath path len idx) :
    ∃ p, path[p]? = some x ∧ idx * len ≤ p + 1 ∧ p < (idx + 1) * len := by
  obtain ⟨k, hk, hx⟩ := List.mem_iff_getElem.1 h
  cases idx with
  | zero =>
    simp only [subFlowPath, List.length_take] at hk
    simp only [subFlowPath, List.getElem_take] at hx
    refine ⟨k, by rw [← hx]; exact List.getElem?_eq_getElem (by omega), by omega, by omega⟩
  | succ idx =>
    have hpos : len ≤ (idx + 1) * len := Nat.le_mul_of_pos_left len (by omega)
    simp only [subFlowPath, List.length_take, List.length_drop] at hk
    simp only [subFlowPath, List.getElem_take, List.getElem_drop] at hx
    refine ⟨(idx + 1) * len - 1 + k, ?_, by omega, ?_⟩
    · rw [← hx]
      exact List.getElem?_eq_getElem (by omega)
    · rw [Nat.succ_mul (idx + 1)]
      omega

/-- Two parts in a row share the border only. -/
theorem subFlowPath_border {path : List Node} {len idx : ℕ} {x : Node} (hnd : path.Nodup)
    (hlen : 0 < len) (hle : (idx + 1) * len ≤ path.length) (ha : x ∈ subFlowPath path len idx)
    (hb : x ∈ subFlowPath path len (idx + 1)) : (subFlowPath path len idx).getLast? = some x := by
  obtain ⟨p, hp, -, hlt⟩ := mem_subFlowPath hlen ha
  obtain ⟨q, hq, hge, -⟩ := mem_subFlowPath hlen hb
  obtain ⟨hpl, hpx⟩ := List.getElem?_eq_some_iff.1 hp
  obtain ⟨hql, hqx⟩ := List.getElem?_eq_some_iff.1 hq
  obtain rfl : p = q := hnd.getElem_inj_iff.1 (hpx.trans hqx.symm)
  rw [getLast?_subFlowPath hlen hle, ← hp]
  congr 1
  omega

/-- The loop of `compute_path` cuts a path as it should. -/
theorem splitPath_ok {path : List Node} {maxLength : ℕ} (hm : 3 ≤ maxLength)
    (h2 : 2 ≤ path.length) :
    ∃ subs, splitPath path maxLength = .ok subs ∧ SplitOf path maxLength subs := by
  unfold splitPath
  -- A path that is short enough is its only sub-path.
  by_cases hlong : maxLength < path.length
  swap
  · rw [if_neg hlong, List.take_length]
    refine ⟨[path], rfl, ?_⟩
    constructor
    · intro sub hsub
      rw [List.mem_singleton.1 hsub]
      exact h2
    · intro sub hsub
      rw [List.mem_singleton.1 hsub]
      exact not_lt.1 hlong
    · exact List.isChain_singleton _
    · intro _ pre a b post heq
      have := congrArg List.length heq
      simp at this
      omega
    · simp [glue]
  -- Else it is cut in pieces of one length, the last of which may be shorter.
  obtain ⟨n, len, hn, hlen, hn2, hlen2, hmax, hlast, hcover⟩ := numSubFlows_split hm hlong
  have htwo : ∀ sub ∈ (List.range n).map (subFlowPath path len), 2 ≤ sub.length := by
    intro sub hsub
    obtain ⟨idx, hidx, rfl⟩ := List.mem_map.1 hsub
    exact two_le_length_subFlowPath hlen2 hlast h2 (List.mem_range.1 hidx)
  have hsplit : splitPath path maxLength = .ok ((List.range n).map (subFlowPath path len)) := by
    rw [splitPath, if_pos hlong, hn, ← hlen]
    rfl
  refine ⟨(List.range n).map (subFlowPath path len), ?_, htwo, ?_,
    splitPath_bordered hsplit htwo, ?_, ?_⟩
  · rw [if_pos hlong, hn, ← hlen]
    rfl
  · intro sub hsub
    obtain ⟨idx, -, rfl⟩ := List.mem_map.1 hsub
    exact (length_subFlowPath_le path len idx).trans hmax
  · intro hnd pre a b post heq x ha hb
    have hget : ∀ k < n, ((List.range n).map (subFlowPath path len))[k]?
        = some (subFlowPath path len k) := by
      intro k hk
      simp [hk]
    have hlenEq := congrArg List.length heq
    simp only [List.length_map, List.length_range, List.length_append, List.length_cons] at hlenEq
    have h0 := hget pre.length (by omega)
    have h1 := hget (pre.length + 1) (by omega)
    rw [heq] at h0 h1
    obtain rfl : a = subFlowPath path len pre.length := by simpa using h0
    obtain rfl : b = subFlowPath path len (pre.length + 1) := by simpa using h1
    refine subFlowPath_border hnd (by omega) ?_ ha hb
    have : (pre.length + 1) * len ≤ (n - 1) * len := Nat.mul_le_mul_right len (by omega)
    omega
  · rw [glue_subFlowPath (by omega) n (by omega) hlast, List.take_of_length_le hcover]

/-! ### Costs -/

theorem hops_append_tail {a b : List Node} (ha : a ≠ []) (h : a.getLast? = b.head?) :
    hops (a ++ b.tail) = hops a ++ hops b := by
  induction a with
  | nil => exact absurd rfl ha
  | cons x a ih =>
    cases a with
    | nil =>
      cases b with
      | nil => simp at h
      | cons y b =>
        obtain rfl : x = y := by simpa using h
        rfl
    | cons y a =>
      rw [List.cons_append, List.cons_append, hops_cons_cons, hops_cons_cons, List.cons_append]
      congr 1
      rw [← List.cons_append]
      exact ih (by simp) (by simpa using h)

/-- The ETX values along a path. -/
def etxs (g : Graph) (path : List Node) : Except PyError (List ℚ) :=
  (hops path).mapM fun hop => g.etx hop.1 hop.2

/-- The cost is the sum of the values from the first. -/
theorem subPathCostBy_eq (add : ℚ → ℚ → ℚ) (g : Graph) (sub : List Node) :
    subPathCostBy add g sub = (etxs g sub).map (List.foldl add 0) := by
  unfold subPathCostBy etxs
  generalize (0 : ℚ) = c
  induction hops sub generalizing c with
  | nil => rfl
  | cons hop l ih =>
    rw [List.foldlM_cons, List.mapM_cons]
    cases g.etx hop.1 hop.2 with
    | error e => rfl
    | ok w =>
      have hrest := ih (add c w)
      change l.foldlM _ (add c w) = _ at hrest ⊢
      rw [hrest]
      cases l.mapM fun hop => g.etx hop.1 hop.2 with
      | error e => rfl
      | ok ws => rfl

theorem subPathCost_eq (g : Graph) (sub : List Node) :
    subPathCost g sub = (etxs g sub).map List.sum := by
  have hsum : List.foldl (· + ·) (0 : ℚ) = List.sum := funext fun ws => List.sum_eq_foldl.symm
  rw [subPathCost, subPathCostBy_eq, hsum]

theorem mapM_map {α β γ : Type} {f : α → Except PyError β} {h : β → γ} (l : List α) :
    l.mapM (fun a => (f a).map h) = (l.mapM f).map (List.map h) := by
  induction l with
  | nil => rfl
  | cons a l ih =>
    rw [List.mapM_cons, List.mapM_cons, ih]
    cases f a with
    | error e => rfl
    | ok b =>
      cases l.mapM f with
      | error e => rfl
      | ok bs => rfl

theorem length_etxs {g : Graph} {path : List Node} {ws : List ℚ} (h : etxs g path = .ok ws) :
    ws.length = path.length - 1 := by
  rw [← (forall₂_of_mapM h).length_eq, length_hops]

/-- The values of a path put together at a border. -/
theorem etxs_append_tail {g : Graph} {a b : List Node} (ha : a ≠ [])
    (h : a.getLast? = b.head?) {ws : List ℚ} (hw : etxs g (a ++ b.tail) = .ok ws) :
    ∃ us vs, etxs g a = .ok us ∧ etxs g b = .ok vs ∧ us ++ vs = ws := by
  unfold etxs at hw
  rw [hops_append_tail ha h, List.mapM_append] at hw
  obtain ⟨us, hus, hw⟩ := bind_eq_ok.1 hw
  obtain ⟨vs, hvs, hw⟩ := bind_eq_ok.1 hw
  cases hw
  exact ⟨us, vs, hus, hvs, rfl⟩

/-- The values of the parts are those of the path, in order. -/
theorem etxs_glue {g : Graph} {subs : List (List Node)} (hne : subs ≠ [])
    (h2 : ∀ sub ∈ subs, 2 ≤ sub.length) (hb : Bordered subs) {ws : List ℚ}
    (hw : etxs g (glue subs) = .ok ws) :
    ∃ parts, subs.mapM (etxs g) = .ok parts ∧ parts.flatten = ws := by
  induction subs generalizing ws with
  | nil => exact absurd rfl hne
  | cons a rest ih =>
    have ha : a ≠ [] := by
      rintro rfl
      have := h2 [] (by simp)
      simp at this
    cases rest with
    | nil =>
      refine ⟨[ws], ?_, by simp⟩
      have hw' : etxs g a = .ok ws := by simpa [glue] using hw
      simp [hw', bind, Except.bind, pure, Except.pure]
    | cons b rest =>
      have hbne : b ≠ [] := by
        rintro rfl
        have := h2 [] (by simp)
        simp at this
      obtain ⟨y, b', rfl⟩ := List.exists_cons_of_ne_nil hbne
      have hglue : glue (a :: (y :: b') :: rest) = a ++ (glue ((y :: b') :: rest)).tail := by
        simp [glue]
      have hab : a.getLast? = (glue ((y :: b') :: rest)).head? := by
        have := (List.isChain_cons_cons.1 hb).1
        simpa [glue] using this
      rw [hglue] at hw
      obtain ⟨us, vs, hus, hvs, hws⟩ := etxs_append_tail ha hab hw
      obtain ⟨parts, hparts, hflat⟩ := ih (by simp) (fun sub hsub => h2 sub (by simp [hsub]))
        (List.isChain_cons_cons.1 hb).2 hvs
      refine ⟨us :: parts, ?_, by rw [List.flatten_cons, hflat, hws]⟩
      rw [List.mapM_cons, hus, hparts]
      rfl

/-- No float is rounded when the ETX values of a path are added up. -/
def SumsExactly (g : Graph) (sub : List Node) : Prop :=
  ∀ ws, etxs g sub = .ok ws → Unrounded 53 ws

/-- `compute_path` cuts every path into parts that glue together to it. Their costs add up to its
cost if no addition is rounded, and in any case both are as near to the exact cost as so many
roundings allow. -/
theorem computePath_split {f : Flow} {etxPower : ℕ} {path : List Node} {total : ℚ}
    {shortestPath : Graph → Node → Node → Except PyError (List Node)}
    (hm : 3 ≤ f.maxSubFlowLength)
    (hpath : shortestPath (etxGraph f.graph etxPower) f.source f.destination = .ok path)
    (h2 : 2 ≤ path.length) (hcost : subPathCostBy pyAdd f.graph path = .ok total) :
    ∃ r exact, f.computePathBy pyAdd shortestPath etxPower = .ok r ∧ r.toFlow = f ∧
      SplitOf path f.maxSubFlowLength r.path ∧
      r.path.mapM (subPathCostBy pyAdd f.graph) = .ok r.cost ∧
      subPathCost f.graph path = .ok exact ∧
      (SumsExactly f.graph path → (∀ sub ∈ r.path, SumsExactly f.graph sub) →
        r.cost.sum = total) ∧
      ((∀ hop ∈ hops path, ∀ w, f.graph.etx hop.1 hop.2 = .ok w → 0 ≤ w) →
        |r.cost.sum - exact| ≤ ((1 + 1 / 2 ^ 53) ^ (path.length - 1) - 1) * exact ∧
        |total - exact| ≤ ((1 + 1 / 2 ^ 53) ^ (path.length - 1) - 1) * exact) := by
  obtain ⟨subs, hsubs, hsplit⟩ := splitPath_ok hm h2
  have hne := splitPath_ne_nil hsubs
  -- the ETX values of the path, and of its parts
  rw [subPathCostBy_eq] at hcost
  cases hws : etxs f.graph path with
  | error e =>
    rw [hws] at hcost
    cases hcost
  | ok ws =>
    rw [hws] at hcost
    cases hcost
    obtain ⟨parts, hparts, rfl⟩ :=
      etxs_glue hne hsplit.two_le hsplit.bordered (by rw [hsplit.glued]; exact hws)
    have hmem := forall₂_of_mapM hparts
    have hcosts : subs.mapM (subPathCostBy pyAdd f.graph) = .ok (parts.map (sumRounded 53)) := by
      have hby : subPathCostBy pyAdd f.graph = fun sub => (etxs f.graph sub).map (sumRounded 53) :=
        funext fun sub => subPathCostBy_eq pyAdd f.graph sub
      rw [hby, mapM_map, hparts]
      rfl
    refine ⟨{ f with path := subs, cost := parts.map (sumRounded 53) }, parts.flatten.sum, ?_, rfl,
      hsplit, hcosts, by rw [subPathCost_eq, hws]; rfl, ?_, ?_⟩
    · unfold Flow.computePathBy
      simp [hpath, hsubs, hcosts, bind, Except.bind, pure, Except.pure]
    · intro hwhole heach
      have hexact : ∀ us ∈ parts, sumRounded 53 us = us.sum := by
        intro us hus
        obtain ⟨i, hi, rfl⟩ := List.mem_iff_getElem.1 hus
        have hi' : i < subs.length := by rwa [hmem.length_eq]
        exact sumRounded_eq_sum (heach _ (List.getElem_mem hi') _ (hmem.get hi' hi))
      change (parts.map (sumRounded 53)).sum = sumRounded 53 parts.flatten
      rw [sumRounded_eq_sum (hwhole _ hws), List.sum_flatten, List.map_congr_left hexact]
    · intro hnonneg
      have hall : ∀ w ∈ parts.flatten, 0 ≤ w := by
        intro w hw
        obtain ⟨i, hi, rfl⟩ := List.mem_iff_getElem.1 hw
        have hhops := forall₂_of_mapM hws
        have hi' : i < (hops path).length := by rwa [hhops.length_eq]
        exact hnonneg _ (List.getElem_mem hi') _ (hhops.get hi' hi)
      rw [← length_etxs hws]
      exact ⟨abs_sum_map_sumRounded_sub_le 53 fun us hus w hw =>
        hall w (List.mem_flatten.2 ⟨us, hus, hw⟩), abs_sumRounded_sub_le 53 hall⟩

/-- A flow over the line `1 → 2 → 3 → 4 → 5`, in parts of three nodes at most. -/
def longFlow : Flow where
  graph := [(1, [(2, 1)]), (2, [(3, 3 / 2)]), (3, [(4, 1)]), (4, [(5, 2)])]
  flowNumber := 1
  source := 1
  destination := 5
  maxSubFlowLength := 3

/-- Halves are added without rounding. -/
theorem longFlow_sumsExactly : ∀ sub ∈ [[1, 2, 3, 4, 5], [1, 2], [2, 3, 4], [4, 5]],
    SumsExactly longFlow.graph sub := by
  have hcheck : [[1, 2, 3, 4, 5], [1, 2], [2, 3, 4], [4, 5]].all (fun sub =>
      (etxs longFlow.graph sub).toOption.all fun ws => decide (Unrounded 53 ws)) = true := by
    decide +kernel
  intro sub hsub ws hws
  have hdec := List.all_eq_true.1 hcheck sub hsub
  rw [hws] at hdec
  exact of_decide_eq_true hdec

theorem computePath_split_line :
    ∃ r exact, longFlow.computePathBy pyAdd (fun _ _ _ => .ok [1, 2, 3, 4, 5]) 1 = .ok r ∧
      SplitOf [1, 2, 3, 4, 5] 3 r.path ∧ r.path = [[1, 2], [2, 3, 4], [4, 5]] ∧
      r.cost.sum = 11 / 2 ∧ subPathCost longFlow.graph [1, 2, 3, 4, 5] = .ok exact ∧
      |r.cost.sum - exact| ≤ ((1 + 1 / 2 ^ 53) ^ 4 - 1) * exact := by
  obtain ⟨r, exact, hr, _, hsplit, _, hexact, hsum, hbound⟩ :=
    @computePath_split longFlow 1 [1, 2, 3, 4, 5] (11 / 2) (fun _ _ _ => .ok [1, 2, 3, 4, 5])
      (by decide) rfl (by decide) (by decide +kernel)
  have hpath : r.path = [[1, 2], [2, 3, 4], [4, 5]] := by
    have hrun : (longFlow.computePathBy pyAdd (fun _ _ _ => .ok [1, 2, 3, 4, 5]) 1).toOption.map
        RoutedFlow.path = some [[1, 2], [2, 3, 4], [4, 5]] := by decide +kernel
    rw [hr] at hrun
    exact Option.some.inj hrun
  refine ⟨r, exact, hr, hsplit, hpath, hsum ?_ ?_, hexact, (hbound ?_).1⟩
  · exact longFlow_sumsExactly _ List.mem_cons_self
  · intro sub hsub
    exact longFlow_sumsExactly sub (List.mem_cons_of_mem _ (hpath ▸ hsub))
  · have hcheck : (hops [1, 2, 3, 4, 5]).all (fun hop =>
        (longFlow.graph.etx hop.1 hop.2).toOption.all fun w => decide (0 ≤ w)) = true := by
      decide +kernel
    intro hop hhop w hw
    have hdec := List.all_eq_true.1 hcheck hop hhop
    rw [hw] at hdec
    exact of_decide_eq_true hdec

/-- Ten hops with the float 1.1. -/
def roundedFlow : Flow where
  graph := (List.range 10).map fun n => (n, [(n + 1, 2476979795053773 / 2 ^ 51)])
  flowNumber := 1
  source := 0
  destination := 10

/-- Five times 1.1 is 5.5 for floats, ten times is less than 11. -/
theorem rounded_costs_differ :
    ∃ r total, roundedFlow.computePathBy pyAdd (fun _ _ _ => .ok (List.range 11)) 1 = .ok r ∧
      subPathCostBy pyAdd roundedFlow.graph (List.range 11) = .ok total ∧
      r.cost = [11 / 2, 11 / 2] ∧ total < 11 ∧ r.cost.sum ≠ total := by
  have hsplit : splitPath (List.range 11) roundedFlow.maxSubFlowLength =
      .ok [List.range 6, List.range' 5 6] := by decide +kernel
  have hcosts : [List.range 6, List.range' 5 6].mapM (subPathCostBy pyAdd roundedFlow.graph) =
      .ok [11 / 2, 11 / 2] := by decide +kernel
  refine ⟨{ roundedFlow with path := [List.range 6, List.range' 5 6], cost := [11 / 2, 11 / 2] },
    6192449487634431 / 2 ^ 49, ?_, by decide +kernel, rfl, by norm_num, by norm_num⟩
  simp only [Flow.computePathBy, hsplit, hcosts, bind, Except.bind, pure, Except.pure]

/-! ## Windows -/

/-- The cells of a sliding window over a sub-path. -/
structure WindowCells (sub : List Node) (w : ℕ) (cells : List (List Node)) : Prop where
  length : cells.length = sub.length - 1 + w - 2
  /-- The nodes from position `j + 2 - w` to position `j + 1`, as far as there are any. -/
  block : ∀ j c, cells[j]? = some c →
    c = (sub.take (min (sub.length - 1) (j + 1) + 1)).drop (j + 2 - w)
  two_le : ∀ c ∈ cells, 2 ≤ c.length
  le_window : ∀ c ∈ cells, c.length ≤ w
  /-- Hop `i` takes place in the cells from `i` to `i + w - 2`. -/
  hop : ∀ i n m, sub[i]? = some n → sub[i + 1]? = some m →
    ∀ j c, cells[j]? = some c → (n ∈ c ∧ m ∈ c ↔ i ≤ j ∧ j ≤ i + w - 2)

theorem mem_windowSlot_iff {w j i : ℕ} {sub : List Node} {n : Node} (hnd : sub.Nodup)
    (hi : sub[i]? = some n) : n ∈ windowSlot w sub j ↔ i ≤ j + 1 ∧ j + 2 ≤ i + w := by
  obtain ⟨hlt, rfl⟩ := List.getElem?_eq_some_iff.1 hi
  constructor
  · intro h
    obtain ⟨k, hk, hx⟩ := List.mem_iff_getElem.1 h
    rw [length_windowSlot] at hk
    simp only [windowSlot, List.getElem_drop, List.getElem_take] at hx
    have := hnd.getElem_inj_iff.1 hx
    omega
  · rintro ⟨h1, h2⟩
    exact mem_windowSlot hlt h1 h2

theorem windowCells {w : ℕ} {sub : List Node} (hw : 2 ≤ w) (hnd : sub.Nodup)
    (h2 : 2 ≤ sub.length) :
    WindowCells sub w ((List.range (sub.length + w - 3)).map (windowSlot w sub)) := by
  have hget : ∀ j c, ((List.range (sub.length + w - 3)).map (windowSlot w sub))[j]? = some c →
      j < sub.length + w - 3 ∧ c = windowSlot w sub j := by
    intro j c hc
    obtain ⟨hj, hc⟩ := List.getElem?_eq_some_iff.1 hc
    rw [List.length_map, List.length_range] at hj
    rw [List.getElem_map, List.getElem_range] at hc
    exact ⟨hj, hc.symm⟩
  have hlen : ∀ c ∈ (List.range (sub.length + w - 3)).map (windowSlot w sub),
      2 ≤ c.length ∧ c.length ≤ w := by
    intro c hc
    obtain ⟨j, hj, rfl⟩ := List.mem_map.1 hc
    rw [List.mem_range] at hj
    rw [length_windowSlot]
    omega
  refine ⟨?_, ?_, fun c hc => (hlen c hc).1, fun c hc => (hlen c hc).2, ?_⟩
  · rw [List.length_map, List.length_range]
    omega
  · intro j c hc
    rw [(hget j c hc).2, windowSlot]
    congr 1
    rcases Nat.le_total (j + 2) sub.length with hle | hge
    · rw [show min (sub.length - 1) (j + 1) + 1 = j + 2 by omega]
    · rw [List.take_of_length_le hge, List.take_of_length_le (by omega)]
  · intro i n m hn hm j c hc
    rw [(hget j c hc).2, mem_windowSlot_iff hnd hn, mem_windowSlot_iff hnd hm]
    omega

/-- Every node but the last may send in all its slots but one. -/
theorem windowTransmissions_eq {w : ℕ} {sub : List Node} (hw : 2 ≤ w) (h2 : 2 ≤ sub.length)
    (maxTx : MaxTx) (n : Node) :
    windowTransmissions w sub maxTx n =
      if n ∈ sub.dropLast then some ((w : ℤ) - 1) else maxTx n := by
  unfold windowTransmissions
  -- The invariant of the loop: the nodes so far have one transmission less than the window.
  have hinv := foldl_prefix
    (I := fun (pre : List (Node × ℕ)) (acc : MaxTx) =>
      ∀ n, acc n = if n ∈ sub.take (min pre.length (sub.length - 1)) then some ((w : ℤ) - 1)
        else maxTx n)
    (f := fun maxTx (x : Node × ℕ) =>
      let slots := (insertionIndices w sub.length x.2).length
      if x.2 = 0 then Function.update maxTx x.1 (some slots)
      else if x.2 = sub.length - 1 then maxTx
      else Function.update maxTx x.1 (some (slots - 1)))
    (l := sub.zipIdx) (b := maxTx) (by simp)
    (by
      rintro pre ⟨p, i⟩ post acc hl hI n
      obtain ⟨hi, hp⟩ := zipIdx_eq_append_cons hl
      obtain ⟨hlt, rfl⟩ := List.getElem?_eq_some_iff.1 hp
      simp only [List.length_append, List.length_singleton, ← hi]
      rw [← hi] at hI
      by_cases hlast : i = sub.length - 1
      · -- the receiver at the end sends nothing
        rw [if_neg (by omega), if_pos hlast, hI]
        rw [show min (i + 1) (sub.length - 1) = min i (sub.length - 1) by omega]
      · have hslots : (if i = 0 then
              Function.update acc sub[i] (some ((insertionIndices w sub.length i).length : ℤ))
            else Function.update acc sub[i]
              (some (((insertionIndices w sub.length i).length : ℤ) - 1)))
            = Function.update acc sub[i] (some ((w : ℤ) - 1)) := by
          unfold insertionIndices pyRange
          split
          · simp only [List.length_range', Nat.cast_zero]
            congr 2
            omega
          · simp only [List.length_range']
            congr 2
            omega
        rw [if_neg hlast, hslots, Function.update_apply, hI,
          show min (i + 1) (sub.length - 1) = i + 1 by omega,
          show min i (sub.length - 1) = i by omega, List.take_add_one,
          List.getElem?_eq_getElem hlt]
        simp only [Option.toList_some, List.mem_append, List.mem_singleton]
        by_cases hn : n = sub[i]
        · simp [hn]
        · simp [hn])
  have := hinv n
  rw [List.length_zipIdx, show min sub.length (sub.length - 1) = sub.length - 1 by omega,
    ← List.dropLast_eq_take] at this
  exact this

/-- The loop of `create_cells` over the sub-paths. -/
theorem foldlM_addSubPath_window {g : Graph} {alg : Option WindowSizeAlgorithm}
    {fixedWindowSize : Option ℤ} {l : List (List Node × ℚ)} {ws : List ℕ}
    (hw : List.Forall₂ (fun x (w : ℕ) =>
      calculateWindowSize g x.1 x.2 alg fixedWindowSize = .ok (w : ℤ) ∧ 2 ≤ w) l ws)
    (hs : ∀ x ∈ l, x.1.Nodup ∧ 2 ≤ x.1.length) (acc : List (List Node) × MaxTx) :
    ∃ parts maxTx,
      l.foldlM (addSubPath g .slidingWindow alg fixedWindowSize) acc =
        .ok (acc.1 ++ parts.flatten, maxTx) ∧
      List.Forall₂ (fun (x : List Node × ℕ) cells => WindowCells x.1 x.2 cells)
        ((l.map Prod.fst).zip ws) parts ∧
      (∀ n, (∀ x ∈ l, n ∉ x.1.dropLast) → maxTx n = acc.2 n) ∧
      ∀ (pre : List (List Node × ℕ)) (sub : List Node) (w : ℕ) (post : List (List Node × ℕ)),
        (l.map Prod.fst).zip ws = pre ++ (sub, w) :: post → ∀ n ∈ sub.dropLast,
          (∀ x ∈ post, n ∉ x.1.dropLast) → maxTx n = some ((w : ℤ) - 1) := by
  -- On the sub-paths: what comes later overwrites the nodes that a border shares.
  induction hw generalizing acc with
  | nil =>
    refine ⟨[], acc.2, ?_, .nil, fun _ _ => rfl, ?_⟩
    · simp [pure, Except.pure]
    · intro pre sub w post h
      simp at h
  | @cons x w l ws hx hl ih =>
    obtain ⟨sub, cost⟩ := x
    obtain ⟨hcalc, h2w⟩ := hx
    obtain ⟨hnd, h2⟩ := hs (sub, cost) (by simp)
    have hstep : addSubPath g .slidingWindow alg fixedWindowSize acc (sub, cost) =
        .ok (acc.1 ++ (List.range (sub.length + w - 3)).map (windowSlot w sub),
          windowTransmissions w sub acc.2) := by
      simp only [addSubPath, subPathCells, hcalc, participantLists_eq h2w h2, bind, Except.bind,
        pure, Except.pure]
    obtain ⟨parts, maxTx, hfold, hparts, hother, htx⟩ := ih (fun y hy => hs y (by simp [hy]))
      (acc.1 ++ (List.range (sub.length + w - 3)).map (windowSlot w sub),
        windowTransmissions w sub acc.2)
    have hlen : l.length = ws.length := hl.length_eq
    have hzip : ∀ x ∈ l, ∃ y ∈ (l.map Prod.fst).zip ws, y.1 = x.1 := by
      intro x hx
      have hfst : ((l.map Prod.fst).zip ws).map Prod.fst = l.map Prod.fst :=
        List.map_fst_zip (by simp [hlen])
      have : x.1 ∈ ((l.map Prod.fst).zip ws).map Prod.fst := by
        rw [hfst]
        exact List.mem_map_of_mem hx
      exact List.mem_map.1 this
    refine ⟨_ :: parts, maxTx, ?_, .cons (windowCells h2w hnd h2) hparts, ?_, ?_⟩
    · rw [List.foldlM_cons, hstep]
      change l.foldlM _ _ = _
      rw [hfold, List.flatten_cons, List.append_assoc]
    · intro n hn
      rw [hother n fun y hy => hn y (by simp [hy])]
      exact (windowTransmissions_eq h2w h2 acc.2 n).trans (if_neg (hn (sub, cost) (by simp)))
    · intro pre sub' w' post heq n hmem hpost
      cases pre with
      | nil =>
        simp only [List.map_cons, List.zip_cons_cons, List.nil_append, List.cons.injEq,
          Prod.mk.injEq] at heq
        obtain ⟨⟨rfl, rfl⟩, rfl⟩ := heq
        have hn : ∀ x ∈ l, n ∉ x.1.dropLast := by
          intro x hx
          obtain ⟨y, hy, hyx⟩ := hzip x hx
          rw [← hyx]
          exact hpost y hy
        rw [hother n hn]
        exact (windowTransmissions_eq h2w h2 acc.2 n).trans (if_pos hmem)
      | cons y pre =>
        simp only [List.map_cons, List.zip_cons_cons, List.cons_append, List.cons.injEq] at heq
        exact htx pre sub' w' post heq.2 n hmem hpost

/-- `1 → 2 → 3 → 4` and `4 → 5`. -/
def twoParts : RoutedFlow := { longFlow with path := [[1, 2, 3, 4], [4, 5]], cost := [7 / 2, 2] }

end MasterScheduler.Host

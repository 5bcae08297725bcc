import MasterScheduler.Host.Flow
import MasterScheduler.Lib.Loop
import Mathlib.Tactic.Push

/-!
# MasterScheduler.Host.Cells — what `create_cells` produces

Placement relies on three facts about the cells of a flow: there is at least
one, each is a block of at least two consecutive nodes of a sub-path, and two
consecutive cells share a node, also across a sub-path border.

- `participantLists_eq`: slot `j` of a window of size `w` holds the nodes at
  the path positions from `j + 2 - w` up to `j + 1`.
- `subPathCells_spec`: the three facts for one sub-path, for every strategy.
- `createCells_spec`: the three facts for a whole flow.
-/

namespace MasterScheduler.Host

open Lib

/-- Two cells with a common node. -/
def Share (a b : List Node) : Prop := ∃ x, x ∈ a ∧ x ∈ b

/-- The cells of one sub-path. -/
structure SubCells (sub : List Node) (cells : List (List Node)) : Prop where
  nonempty : cells ≠ []
  block : ∀ c ∈ cells, c <:+: sub ∧ 2 ≤ c.length
  linked : cells.IsChain Share
  head : ∀ c ∈ cells.head?, ∀ x ∈ sub.head?, x ∈ c
  last : ∀ c ∈ cells.getLast?, c.length = 2 ∧ ∀ x ∈ sub.getLast?, x ∈ c

/-- The sub-paths the scheduler is meant for: simple, with at least one hop,
every hop of ETX at least one. -/
structure SimpleSubPath (g : Graph) (sub : List Node) : Prop where
  nodup : sub.Nodup
  two_le : 2 ≤ sub.length
  etx : ∀ hop ∈ hops sub, ∃ w, g.etx hop.1 hop.2 = .ok w ∧ 1 ≤ w

/-- The window parameters that give every sub-path a window: a fixed size of
at least two, or one of the six ETX based algorithms. -/
def WindowChoice (strategy : SchedulingStrategy) (alg : Option WindowSizeAlgorithm)
    (fixedWindowSize : Option ℤ) : Prop :=
  strategy = .slidingWindow →
    (∃ w, fixedWindowSize = some w ∧ 2 ≤ w) ∨
    ((fixedWindowSize = none ∨ fixedWindowSize = some 0) ∧ ∃ a, alg = some a ∧ a ≠ .fixed)

/-! ## Windows -/

/-- Slot `j` of a window of size `w` over the nodes handled so far. -/
def windowSlot (w : ℕ) (nodes : List Node) (j : ℕ) : List Node :=
  (nodes.take (j + 2)).drop (j + 2 - w)

/-- A range with an integer end. -/
theorem mem_pyRange {a j : ℕ} {b : ℤ} : j ∈ pyRange a b ↔ a ≤ j ∧ (j : ℤ) < b := by
  simp only [pyRange, List.mem_range'_1]
  omega

/-- No index twice. -/
theorem nodup_insertionIndices (w : ℤ) (n i : ℕ) : (insertionIndices w n i).Nodup := by
  unfold insertionIndices pyRange
  split_ifs <;> exact List.nodup_range'

/-- A node takes part in the slots whose window covers its position. -/
theorem mem_insertionIndices {w n i j : ℕ} (hw : 2 ≤ w) (hn : 2 ≤ n) (hi : i < n) :
    j ∈ insertionIndices w n i ↔ j < n + w - 3 ∧ i ≤ j + 1 ∧ j + 2 ≤ i + w := by
  unfold insertionIndices
  split_ifs with h0 hl
  · rw [mem_pyRange]; omega
  · rw [mem_pyRange]; omega
  · rw [mem_pyRange]; omega

/-- Appending one node to a set of slots. -/
theorem foldlM_appendAt {p : Node} {idxs : List ℕ} {ls : List (List Node)}
    (hnd : idxs.Nodup) (hlt : ∀ i ∈ idxs, i < ls.length) :
    idxs.foldlM (fun ls i => appendAt ls i p) ls =
      .ok (ls.mapIdx fun j l => if j ∈ idxs then l ++ [p] else l) := by
  induction idxs generalizing ls with
  | nil => simp [pure, Except.pure, List.mapIdx_eq_zipIdx_map]
  | cons i idxs ih =>
    obtain ⟨hi, hnd'⟩ := List.nodup_cons.1 hnd
    have hlen : i < ls.length := hlt i (by simp)
    rw [List.foldlM_cons, appendAt, if_pos hlen]
    change idxs.foldlM (fun ls i => appendAt ls i p) (ls.modify i (· ++ [p])) = _
    rw [ih hnd' fun j hj => by simpa using hlt j (by simp [hj])]
    congr 1
    apply List.ext_getElem (by simp)
    intro j h₁ h₂
    simp only [List.getElem_mapIdx, List.getElem_modify, List.mem_cons]
    by_cases hji : j = i
    · subst hji; simp [hi]
    · have hij : i ≠ j := fun h => hji h.symm
      simp [hji, hij]

/-- One node more shifts the window. -/
theorem windowSlot_append (w : ℕ) (nodes : List Node) (p : Node) (j : ℕ) :
    windowSlot w (nodes ++ [p]) j =
      if nodes.length ≤ j + 1 ∧ j + 2 ≤ nodes.length + w then windowSlot w nodes j ++ [p]
      else windowSlot w nodes j := by
  unfold windowSlot
  by_cases h1 : nodes.length ≤ j + 1
  · have hall : (nodes ++ [p]).take (j + 2) = nodes ++ [p] :=
      List.take_of_length_le (by simp; omega)
    have hall' : nodes.take (j + 2) = nodes := List.take_of_length_le (by omega)
    rw [hall, hall']
    by_cases h2 : j + 2 ≤ nodes.length + w
    · rw [if_pos ⟨h1, h2⟩, List.drop_append_of_le_length (by omega)]
    · rw [if_neg (by tauto), List.drop_eq_nil_of_le (by simp; omega),
        List.drop_eq_nil_of_le (by omega)]
  · rw [if_neg (by tauto), List.take_append_of_le_length (by omega)]

/-- The closed form of the window loops. -/
theorem participantLists_eq {w : ℕ} {sub : List Node} (hw : 2 ≤ w) (hn : 2 ≤ sub.length) :
    participantLists w sub =
      .ok ((List.range (sub.length + w - 3)).map (windowSlot w sub)) := by
  have hslots : (((sub.length - 1 : ℕ) : ℤ) + w - 2).toNat = sub.length + w - 3 := by omega
  unfold participantLists
  rw [hslots]
  -- after the nodes `pre`, every slot holds its window over `pre`
  obtain ⟨ls, hls, hI⟩ := foldlM_prefix
    (I := fun pre ls =>
      ls = (List.range (sub.length + w - 3)).map (windowSlot w (pre.map Prod.fst)))
    (f := fun ls (x : Node × ℕ) =>
      (insertionIndices w sub.length x.2).foldlM (fun ls i => appendAt ls i x.1) ls)
    (l := sub.zipIdx) (b := List.replicate (sub.length + w - 3) [])
    (by
      refine List.ext_getElem (by simp) fun j _ _ => ?_
      simp [windowSlot])
    (by
      rintro pre ⟨p, i⟩ post ls hl rfl
      obtain ⟨hi, -⟩ := zipIdx_eq_append_cons hl
      have hpl : pre.length < sub.length := by
        have := congrArg List.length hl
        simp at this
        omega
      refine ⟨_, foldlM_appendAt (nodup_insertionIndices _ _ _) fun j hj => ?_, ?_⟩
      · rw [mem_insertionIndices hw hn (by omega)] at hj
        simpa using hj.1
      · refine List.ext_getElem (by simp) fun j h₁ h₂ => ?_
        simp only [List.length_map, List.length_range] at h₂
        simp only [List.getElem_mapIdx, List.getElem_map, List.getElem_range, List.map_append,
          List.map_cons, List.map_nil, windowSlot_append, List.length_map]
        simp only [hi, mem_insertionIndices hw hn hpl, h₂, true_and])
  rw [hls, hI, List.zipIdx_map_fst]

/-- A window is part of the sub-path. -/
theorem windowSlot_isInfix (w : ℕ) (sub : List Node) (j : ℕ) : windowSlot w sub j <:+: sub :=
  (List.drop_suffix _ _).isInfix.trans (List.take_prefix _ _).isInfix

/-- The length of a window. -/
theorem length_windowSlot (w : ℕ) (sub : List Node) (j : ℕ) :
    (windowSlot w sub j).length = min (j + 2) sub.length - (j + 2 - w) := by
  simp [windowSlot]

/-- The nodes of a slot, by their position on the sub-path. -/
theorem mem_windowSlot {w j i : ℕ} {sub : List Node} (hi : i < sub.length) (h1 : i ≤ j + 1)
    (h2 : j + 2 ≤ i + w) : sub[i] ∈ windowSlot w sub j := by
  refine List.mem_iff_getElem.2 ⟨i - (j + 2 - w), ?_, ?_⟩
  · rw [length_windowSlot]; omega
  · simp only [windowSlot, List.getElem_drop, List.getElem_take]
    congr 1
    omega

/-- The windows of a sub-path are cells for it. -/
theorem window_subCells {w : ℕ} {sub : List Node} (hw : 2 ≤ w) (hn : 2 ≤ sub.length) :
    SubCells sub ((List.range (sub.length + w - 3)).map (windowSlot w sub)) where
  nonempty := by
    intro h
    have := congrArg List.length h
    simp at this
    omega
  block := by
    intro c hc
    obtain ⟨j, hj, rfl⟩ := List.mem_map.1 hc
    rw [List.mem_range] at hj
    refine ⟨windowSlot_isInfix w sub j, ?_⟩
    rw [length_windowSlot]
    omega
  linked := by
    rw [List.isChain_iff_getElem]
    intro j hj
    simp only [List.length_map, List.length_range] at hj
    simp only [List.getElem_map, List.getElem_range]
    -- the newest node of slot `j` stays for one more slot
    have hi : min (j + 1) (sub.length - 1) < sub.length := by omega
    exact ⟨sub[min (j + 1) (sub.length - 1)],
      mem_windowSlot hi (by omega) (by omega), mem_windowSlot hi (by omega) (by omega)⟩
  head := by
    intro c hc x hx
    obtain ⟨k, hk⟩ : ∃ k, sub.length + w - 3 = k + 1 := ⟨sub.length + w - 4, by omega⟩
    rw [hk, List.range_succ_eq_map] at hc
    simp only [List.map_cons, List.head?_cons, Option.mem_def, Option.some.injEq] at hc
    rw [Option.mem_def, List.head?_eq_getElem?, List.getElem?_eq_getElem (by omega)] at hx
    cases hx
    rw [← hc]
    exact mem_windowSlot (by omega) (by omega) (by omega)
  last := by
    intro c hc
    obtain ⟨k, hk⟩ : ∃ k, sub.length + w - 3 = k + 1 := ⟨sub.length + w - 4, by omega⟩
    rw [hk, List.range_succ] at hc
    simp only [List.map_append, List.map_cons, List.map_nil, List.getLast?_concat,
      Option.mem_def, Option.some.injEq] at hc
    rw [← hc]
    refine ⟨by rw [length_windowSlot]; omega, fun x hx => ?_⟩
    rw [Option.mem_def, List.getLast?_eq_getElem?, List.getElem?_eq_getElem (by omega)] at hx
    cases hx
    exact mem_windowSlot (by omega) (by omega) (by omega)

/-! ## One cell per transmission -/

/-- The cells of the two strategies that give every hop its own cells. -/
def hopCells (n : Node × Node → ℕ) (sub : List Node) : List (List Node) :=
  (hops sub).flatMap fun hop => List.replicate (n hop) [hop.1, hop.2]

/-- The hops of a path. -/
theorem hops_cons_cons (a b : Node) (sub : List Node) :
    hops (a :: b :: sub) = (a, b) :: hops (b :: sub) := rfl

/-- One hop less than nodes. -/
theorem length_hops (sub : List Node) : (hops sub).length = sub.length - 1 := by
  simp [hops]

/-- A cell with itself. -/
theorem share_self {a b : Node} : Share [a, b] [a, b] := ⟨a, by simp, by simp⟩

/-- The first of repeated cells. -/
theorem head?_replicate_append {n : ℕ} {c d : List Node} {cells : List (List Node)}
    (h : d ∈ (List.replicate (n + 1) c ++ cells).head?) : d = c := by
  simpa [List.replicate_succ, eq_comm] using h

/-- The last of two lists. -/
theorem getLast?_append_of_ne_nil {α : Type} {l l' : List α} (h : l' ≠ []) :
    (l ++ l').getLast? = l'.getLast? := by
  simp [List.getLast?_append, List.getLast?_eq_some_getLast h]

/-- One hop with its repetitions. -/
theorem SubCells.single (a b : Node) (n : ℕ) :
    SubCells [a, b] (List.replicate (n + 1) [a, b]) where
  nonempty := by simp
  block := by
    intro c hc
    rw [List.eq_of_mem_replicate hc]
    exact ⟨List.infix_refl _, by simp⟩
  linked := List.isChain_replicate_of_rel _ share_self
  head := by
    intro c hc x hx
    have hc : c = [a, b] := by simpa [List.replicate_succ, eq_comm] using hc
    have hx : x = a := by simpa [eq_comm] using hx
    simp [hc, hx]
  last := by
    intro c hc
    have hc : c = [a, b] := by simpa [List.getLast?_replicate, eq_comm] using hc
    refine ⟨by simp [hc], fun x hx => ?_⟩
    have hx : x = b := by simpa [eq_comm] using hx
    simp [hc, hx]

/-- One hop in front of a sub-path. -/
theorem SubCells.cons {a b : Node} {rest : List Node} {cells : List (List Node)}
    (h : SubCells (b :: rest) cells) (n : ℕ) :
    SubCells (a :: b :: rest) (List.replicate (n + 1) [a, b] ++ cells) where
  nonempty := by simp
  block := by
    intro c hc
    rcases List.mem_append.1 hc with hc | hc
    · rw [List.eq_of_mem_replicate hc]
      exact ⟨⟨[], rest, by simp⟩, by simp⟩
    · obtain ⟨hinf, hlen⟩ := h.block c hc
      exact ⟨hinf.trans (List.suffix_cons _ _).isInfix, hlen⟩
  linked := by
    refine List.isChain_append.2 ⟨List.isChain_replicate_of_rel _ share_self, h.linked, ?_⟩
    intro c hc d hd
    have hc : c = [a, b] := by simpa [List.getLast?_replicate, eq_comm] using hc
    exact ⟨b, by simp [hc], h.head d hd b (by simp)⟩
  head := by
    intro c hc x hx
    have hx : x = a := by simpa [eq_comm] using hx
    simp [head?_replicate_append hc, hx]
  last := by
    intro c hc
    rw [getLast?_append_of_ne_nil h.nonempty] at hc
    obtain ⟨hlen, hlast⟩ := h.last c hc
    exact ⟨hlen, fun x hx => hlast x (by simpa using hx)⟩

/-- The repeated hops of a sub-path are cells for it. -/
theorem hopCells_subCells {n : Node × Node → ℕ} {sub : List Node} (hlen : 2 ≤ sub.length)
    (hn : ∀ hop ∈ hops sub, 1 ≤ n hop) : SubCells sub (hopCells n sub) := by
  induction sub with
  | nil => simp at hlen
  | cons a sub ih =>
    cases sub with
    | nil => simp at hlen
    | cons b rest =>
      obtain ⟨k, hk⟩ : ∃ k, n (a, b) = k + 1 :=
        ⟨n (a, b) - 1, by have := hn (a, b) (by simp [hops_cons_cons]); omega⟩
      have hcells : hopCells n (a :: b :: rest) =
          List.replicate (k + 1) [a, b] ++ hopCells n (b :: rest) := by
        simp [hopCells, hops_cons_cons, hk]
      rw [hcells]
      cases rest with
      | nil => simpa [hopCells, hops] using SubCells.single a b k
      | cons c rest =>
        have hrest : ∀ hop ∈ hops (b :: c :: rest), 1 ≤ n hop := by
          intro hop hhop
          exact hn hop (by rw [hops_cons_cons]; exact List.mem_cons_of_mem _ hhop)
        exact (ih (by simp) hrest).cons k

/-- The loop of `upper_etx_tx_per_link` in closed form. -/
theorem foldlM_addHop {g : Graph} {n : Node × Node → ℕ} {l : List (Node × Node)}
    (hn : ∀ hop ∈ l, hopEtxCeil g hop = .ok (n hop)) (acc : List (List Node) × MaxTx) :
    ∃ maxTx, l.foldlM (addHop g) acc =
      .ok (acc.1 ++ l.flatMap fun hop => List.replicate (n hop) [hop.1, hop.2], maxTx) := by
  induction l generalizing acc with
  | nil => exact ⟨acc.2, by simp [pure, Except.pure]⟩
  | cons hop l ih =>
    obtain ⟨maxTx, h⟩ := ih (fun hop' h' => hn hop' (by simp [h']))
      (acc.1 ++ List.replicate (n hop) [hop.1, hop.2],
        Function.update acc.2 hop.1 (some (n hop : ℤ)))
    refine ⟨maxTx, ?_⟩
    have hhop : addHop g acc hop = .ok (acc.1 ++ List.replicate (n hop) [hop.1, hop.2],
        Function.update acc.2 hop.1 (some (n hop : ℤ))) := by
      simp [addHop, hn hop (by simp), bind, Except.bind, pure, Except.pure]
    rw [List.foldlM_cons, hhop]
    simpa [bind, Except.bind] using h

/-! ## Window sizes -/

/-- Costs of at least one add up. -/
theorem foldlM_cost_le {K : Type} [CommRing K] [LinearOrder K] [IsStrictOrderedRing K]
    (cost : Node × Node → Except PyError K) {l : List (Node × Node)} {c₀ c : K}
    (h1 : ∀ hop ∈ l, ∃ w, cost hop = .ok w ∧ 1 ≤ w)
    (hc : l.foldlM (fun c hop => do return c + (← cost hop)) c₀ = .ok c) :
    c₀ + l.length ≤ c := by
  induction l generalizing c₀ with
  | nil =>
    cases hc
    simp
  | cons hop l ih =>
    obtain ⟨w, hw, hw1⟩ := h1 hop (by simp)
    rw [List.foldlM_cons, hw] at hc
    have := ih (fun hop' h' => h1 hop' (by simp [h'])) hc
    push_cast [List.length_cons]
    linarith

/-- With an ETX value for every hop a sub-path has a cost. -/
theorem subPathCostBy_ok (add : ℚ → ℚ → ℚ) {g : Graph} {sub : List Node}
    (h : ∀ hop ∈ hops sub, ∃ w, g.etx hop.1 hop.2 = .ok w ∧ 1 ≤ w) :
    ∃ cost, subPathCostBy add g sub = .ok cost := by
  unfold subPathCostBy
  generalize (0 : ℚ) = c
  generalize hops sub = l at h
  induction l generalizing c with
  | nil => exact ⟨c, rfl⟩
  | cons hop l ih =>
    obtain ⟨w, hw, -⟩ := h hop (by simp)
    rw [List.foldlM_cons, hw]
    exact ih (add c w) fun hop' h' => h hop' (by simp [h'])

/-- A way to add under which up to `n` hops of one transmission at least cost no less than
their number. -/
def CountsHops (add : ℚ → ℚ → ℚ) (n : ℕ) : Prop :=
  ∀ k < n, ∀ c w : ℚ, (k : ℚ) ≤ c → 1 ≤ w → ((k + 1 : ℕ) : ℚ) ≤ add c w

/-- Exact sums count all hops. -/
theorem countsHops_add (n : ℕ) : CountsHops (· + ·) n := by
  intro k _ c w hc hw
  push_cast
  linarith

/-- Floats count as far as the number of hops is a float itself. -/
theorem countsHops_pyAdd {n : ℕ} (hn : n ≤ 2 ^ 53) : CountsHops pyAdd n := by
  intro k hk c w hc hw
  refine Lib.natCast_le_roundDigits (by norm_num) (by omega) ?_
  push_cast
  linarith

theorem CountsHops.mono {add : ℚ → ℚ → ℚ} {m n : ℕ} (h : CountsHops add n) (hmn : m ≤ n) :
    CountsHops add m :=
  fun k hk => h k (by omega)

/-- Hops added to what counted `n` of them. -/
theorem CountsHops.foldlM_le {add : ℚ → ℚ → ℚ} (cost : Node × Node → Except PyError ℚ)
    {l : List (Node × Node)} {n : ℕ} {c₀ c : ℚ} (hadd : CountsHops add (n + l.length))
    (h1 : ∀ hop ∈ l, ∃ w, cost hop = .ok w ∧ 1 ≤ w) (h0 : (n : ℚ) ≤ c₀)
    (hc : l.foldlM (fun c hop => do return add c (← cost hop)) c₀ = .ok c) :
    ((n + l.length : ℕ) : ℚ) ≤ c := by
  induction l generalizing n c₀ with
  | nil =>
    cases hc
    exact h0
  | cons hop l ih =>
    obtain ⟨w, hw, hw1⟩ := h1 hop (by simp)
    rw [List.foldlM_cons, hw] at hc
    rw [List.length_cons] at hadd ⊢
    have hstep : ((n + 1 : ℕ) : ℚ) ≤ add c₀ w := hadd n (by omega) c₀ w h0 hw1
    have := ih (hadd.mono (by omega)) (fun hop' h' => h1 hop' (by simp [h'])) hstep hc
    rwa [Nat.add_right_comm, Nat.add_assoc] at this

/-- The cost of a sub-path is at least its hops. -/
theorem hops_le_subPathCost {add : ℚ → ℚ → ℚ} {g : Graph} {sub : List Node} {cost : ℚ}
    (hadd : CountsHops add sub.length) (hs : SimpleSubPath g sub)
    (hc : subPathCostBy add g sub = .ok cost) : ((sub.length - 1 : ℕ) : ℤ) ≤ ⌈cost⌉ := by
  have hlen : 0 + (hops sub).length ≤ sub.length := by
    rw [length_hops]
    omega
  have h := (hadd.mono hlen).foldlM_le (fun hop => g.etx hop.1 hop.2) hs.etx (by simp) hc
  rw [Nat.zero_add, length_hops] at h
  exact_mod_cast h.trans (Int.le_ceil cost)

/-- So is the sum of the rounded ETX values. -/
theorem linkCost_ok {g : Graph} {sub : List Node} (hs : SimpleSubPath g sub) :
    ∃ c, linkCost g sub = .ok c ∧ ((sub.length - 1 : ℕ) : ℤ) ≤ c := by
  have hceil : ∀ hop ∈ hops sub, ∃ w, hopEtxCeil g hop = .ok w ∧ 1 ≤ w := by
    intro hop hhop
    obtain ⟨w, hw, hw1⟩ := hs.etx hop hhop
    refine ⟨⌈w⌉, by rw [hopEtxCeil, hw]; rfl, ?_⟩
    exact_mod_cast hw1.trans (Int.le_ceil w)
  have hfold : linkCost g sub =
      (hops sub).foldlM (fun c hop => do return c + (← hopEtxCeil g hop)) 0 := by
    unfold linkCost
    congr 1
    funext c hop
    cases h : g.etx hop.1 hop.2 <;> simp [hopEtxCeil, h, bind, Except.bind, pure, Except.pure]
  obtain ⟨c, hc, -⟩ := foldlM_prefix (I := fun _ _ => True)
    (f := fun (c : ℤ) hop => do return c + (← hopEtxCeil g hop)) (l := hops sub) (b := 0) trivial
    (by
      intro pre hop post c hl _
      obtain ⟨w, hw, -⟩ := hceil hop (by simp [hl])
      exact ⟨c + w, by simp [hw, bind, Except.bind, pure, Except.pure], trivial⟩)
  refine ⟨c, hfold.trans hc, ?_⟩
  have := foldlM_cost_le (hopEtxCeil g) hceil hc
  rwa [zero_add, length_hops] at this

/-- A cost that is not below the number of hops gives a window of at least two slots. -/
theorem calculateWindowSize_of_le {g : Graph} {sub : List Node} {cost : ℚ}
    {alg : Option WindowSizeAlgorithm} {fixedWindowSize : Option ℤ}
    (hs : SimpleSubPath g sub) (hcost : ((sub.length - 1 : ℕ) : ℤ) ≤ ⌈cost⌉)
    (hw : WindowChoice .slidingWindow alg fixedWindowSize) :
    ∃ w : ℕ, calculateWindowSize g sub cost alg fixedWindowSize = .ok (w : ℤ) ∧ 2 ≤ w := by
  suffices h : ∃ w : ℤ, calculateWindowSize g sub cost alg fixedWindowSize = .ok w ∧ 2 ≤ w by
    obtain ⟨w, hw, h2⟩ := h
    exact ⟨w.toNat, by rw [hw, Int.toNat_of_nonneg (by omega)], by omega⟩
  rcases hw rfl with ⟨w, rfl, h2⟩ | ⟨hfix, a, rfl, ha⟩
  · exact ⟨w, by simp [calculateWindowSize, show w ≠ 0 by omega, show ¬w < 2 by omega], h2⟩
  · have hcalc : calculateWindowSize g sub cost (some a) fixedWindowSize =
        etxWindowSize g sub cost (some a) := by
      rcases hfix with rfl | rfl <;> simp [calculateWindowSize]
    rw [hcalc]
    have hpos : 0 ≤ cost := by
      by_contra hneg
      have : ⌈cost⌉ ≤ 0 := Int.ceil_le.2 (by push_cast; linarith)
      have := hs.two_le
      omega
    have h2cost : ⌈cost⌉ ≤ ⌈2 * cost⌉ := Int.ceil_le_ceil (by linarith)
    have h3cost : ⌈cost⌉ ≤ ⌈3 * cost⌉ := Int.ceil_le_ceil (by linarith)
    obtain ⟨c, hlc, hlen⟩ := linkCost_ok hs
    cases a with
    | etxBased => exact ⟨_, rfl, by omega⟩
    | etxBasedDoubled => exact ⟨_, rfl, by omega⟩
    | etxBasedTrippled => exact ⟨_, rfl, by omega⟩
    | etxLinkBased => exact ⟨_, by rw [etxWindowSize, hlc]; rfl, by omega⟩
    | etxLinkBasedDoubled => exact ⟨_, by rw [etxWindowSize, hlc]; rfl, by omega⟩
    | etxLinkBasedTrippled => exact ⟨_, by rw [etxWindowSize, hlc]; rfl, by omega⟩
    | fixed => exact absurd rfl ha

/-- Every admissible choice gives a window of at least two slots. -/
theorem calculateWindowSize_ok {g : Graph} {sub : List Node} {cost : ℚ}
    {alg : Option WindowSizeAlgorithm} {fixedWindowSize : Option ℤ}
    (hs : SimpleSubPath g sub) (hc : subPathCost g sub = .ok cost)
    (hw : WindowChoice .slidingWindow alg fixedWindowSize) :
    ∃ w : ℕ, calculateWindowSize g sub cost alg fixedWindowSize = .ok (w : ℤ) ∧ 2 ≤ w :=
  calculateWindowSize_of_le hs (hops_le_subPathCost (countsHops_add _) hs hc) hw

/-! ## One sub-path -/

/-- The cells of a sub-path, for every strategy. -/
theorem subPathCells_spec {g : Graph} {strategy : SchedulingStrategy}
    {alg : Option WindowSizeAlgorithm} {fixedWindowSize : Option ℤ} {sub : List Node} {cost : ℚ}
    (hs : SimpleSubPath g sub) (hc : ((sub.length - 1 : ℕ) : ℤ) ≤ ⌈cost⌉)
    (hw : WindowChoice strategy alg fixedWindowSize) (maxTx : MaxTx) :
    ∃ cells maxTx', subPathCells g strategy alg fixedWindowSize sub cost maxTx =
      .ok (cells, maxTx') ∧ SubCells sub cells := by
  cases strategy with
  | noRetransmissions =>
    refine ⟨_, _, rfl, ?_⟩
    have h := hopCells_subCells (n := fun _ => 1) hs.two_le fun _ _ => le_refl 1
    rw [List.map_eq_flatMap]
    exact h
  | upperEtxTxPerLink =>
    -- the number of cells of a hop is its rounded ETX
    let n : Node × Node → ℕ := fun hop =>
      match hopEtxCeil g hop with
      | .ok k => k.toNat
      | .error _ => 0
    have hn : ∀ hop ∈ hops sub, hopEtxCeil g hop = .ok (n hop : ℤ) ∧ 1 ≤ n hop := by
      intro hop hhop
      obtain ⟨w, hw, hw1⟩ := hs.etx hop hhop
      have hceil : hopEtxCeil g hop = .ok ⌈w⌉ := by rw [hopEtxCeil, hw]; rfl
      have h1 : 1 ≤ ⌈w⌉ := by exact_mod_cast hw1.trans (Int.le_ceil w)
      have hnv : n hop = ⌈w⌉.toNat := by simp only [n, hceil]
      rw [hceil, hnv]
      exact ⟨by rw [Int.toNat_of_nonneg (by omega)], by omega⟩
    obtain ⟨maxTx', h⟩ := foldlM_addHop (fun hop hhop => (hn hop hhop).1) ([], maxTx)
    exact ⟨_, maxTx', h, hopCells_subCells hs.two_le fun hop hhop => (hn hop hhop).2⟩
  | slidingWindow =>
    obtain ⟨w, hcalc, h2⟩ := calculateWindowSize_of_le hs hc hw
    refine ⟨_, windowTransmissions w sub maxTx, ?_, window_subCells h2 hs.two_le⟩
    simp only [subPathCells, hcalc, participantLists_eq h2 hs.two_le, bind, Except.bind, pure,
      Except.pure]

/-! ## Whole flows -/

/-- Each sub-path starts with the last node of the one before. -/
def Bordered (subs : List (List Node)) : Prop :=
  subs.IsChain fun a b => a.getLast? = b.head?

/-- The end of a sub-path of the splitting. -/
theorem getLast?_subFlowPath {path : List Node} {len idx : ℕ} (hlen : 0 < len)
    (h : (idx + 1) * len ≤ path.length) :
    (subFlowPath path len idx).getLast? = path[(idx + 1) * len - 1]? := by
  cases idx with
  | zero =>
    rw [zero_add, one_mul] at h ⊢
    rw [subFlowPath, List.getLast?_eq_getElem?, List.length_take, min_eq_left h,
      List.getElem?_take_of_lt (by omega)]
  | succ idx =>
    have hsplit : (idx + 1 + 1) * len = (idx + 1) * len + len := by ring
    have hpos : len ≤ (idx + 1) * len := Nat.le_mul_of_pos_left len (by omega)
    rw [hsplit] at h ⊢
    have hl : (subFlowPath path len (idx + 1)).length = len + 1 := by
      simp only [subFlowPath, List.length_take, List.length_drop]
      omega
    rw [List.getLast?_eq_getElem?, hl, subFlowPath, List.getElem?_take_of_lt (by omega),
      List.getElem?_drop]
    congr 1
    omega

/-- Sub-paths share their borders. -/
theorem splitPath_bordered {path : List Node} {maxLength : ℕ} {subs : List (List Node)}
    (h : splitPath path maxLength = .ok subs) (h2 : ∀ sub ∈ subs, 2 ≤ sub.length) :
    Bordered subs := by
  unfold splitPath at h
  split_ifs at h with hlong
  · cases hn : numSubFlows path.length maxLength path.length 2 with
    | error e => rw [hn] at h; cases h
    | ok n =>
      rw [hn] at h
      cases h
      unfold Bordered
      rw [List.isChain_iff_getElem]
      intro i hi
      simp only [List.length_map, List.length_range] at hi
      simp only [List.getElem_map, List.getElem_range]
      have hnext := h2 (subFlowPath path (ceilDiv path.length n) (i + 1))
        (List.mem_map_of_mem (List.mem_range.2 hi))
      have hlen : (i + 1) * ceilDiv path.length n + 1 ≤ path.length := by
        simp only [subFlowPath, List.length_take, List.length_drop] at hnext
        omega
      have hpos : 0 < ceilDiv path.length n := by
        by_contra h0
        have hz : ceilDiv path.length n = 0 := by omega
        simp only [subFlowPath, hz, List.length_take, List.length_drop] at hnext
        omega
      rw [getLast?_subFlowPath hpos (by omega)]
      simp [subFlowPath, List.head?_take, List.head?_drop]
  · cases h
    exact List.isChain_singleton _

/-- The cells of a list of sub-paths, taken in order. -/
structure PathCells (subs : List (List Node)) (cells : List (List Node)) : Prop where
  nonempty : subs ≠ [] → cells ≠ []
  block : ∀ c ∈ cells, 2 ≤ c.length ∧ ∃ sub ∈ subs, c <:+: sub
  linked : cells.IsChain Share
  last : ∀ c ∈ cells.getLast?,
    c.length = 2 ∧ ∀ sub ∈ subs.getLast?, ∀ x ∈ sub.getLast?, x ∈ c

/-- No sub-path, no cell. -/
theorem PathCells.nil : PathCells [] [] where
  nonempty := by simp
  block := by simp
  linked := List.isChain_nil
  last := by simp

/-- The cells of one sub-path more. -/
theorem PathCells.concat {subs : List (List Node)} {sub : List Node}
    {cells cells' : List (List Node)} (h : PathCells subs cells) (h' : SubCells sub cells')
    (hne : sub ≠ []) (hb : ∀ s ∈ subs.getLast?, s.getLast? = sub.head?)
    (hnil : subs = [] → cells = []) :
    PathCells (subs ++ [sub]) (cells ++ cells') where
  nonempty := by
    intro _ hc
    exact h'.nonempty (List.append_eq_nil_iff.1 hc).2
  block := by
    intro c hc
    rcases List.mem_append.1 hc with hc | hc
    · obtain ⟨hlen, s, hs, hinf⟩ := h.block c hc
      exact ⟨hlen, s, by simp [hs], hinf⟩
    · obtain ⟨hinf, hlen⟩ := h'.block c hc
      exact ⟨hlen, sub, by simp, hinf⟩
  linked := by
    refine List.isChain_append.2 ⟨h.linked, h'.linked, ?_⟩
    -- the border node is in the last cell before and in the first cell after
    intro c hc d hd
    have hsubs : subs ≠ [] := by
      intro hs
      simp [hnil hs] at hc
    have hs := List.getLast?_eq_some_getLast hsubs
    have hx := List.head?_eq_some_head hne
    exact ⟨sub.head hne, (h.last c hc).2 _ hs _ ((hb _ hs).trans hx), h'.head d hd _ hx⟩
  last := by
    intro c hc
    rw [getLast?_append_of_ne_nil h'.nonempty] at hc
    obtain ⟨hlen, hlast⟩ := h'.last c hc
    refine ⟨hlen, fun s hs => ?_⟩
    have hs : s = sub := by simpa [eq_comm] using hs
    exact hs ▸ hlast

/-- The cells of a routed flow. -/
theorem createCells_spec {f : RoutedFlow} {strategy : SchedulingStrategy}
    {alg : Option WindowSizeAlgorithm} {fixedWindowSize : Option ℤ} (oid : ℕ)
    (hs : ∀ sub ∈ f.path, SimpleSubPath f.graph sub)
    (hcost : List.Forall₂ (fun sub (c : ℚ) => ((sub.length - 1 : ℕ) : ℤ) ≤ ⌈c⌉) f.path f.cost)
    (hb : Bordered f.path) (hw : WindowChoice strategy alg fixedWindowSize) :
    ∃ p : PlannedFlow, f.createCells oid strategy alg fixedWindowSize = .ok p ∧
      p.toRoutedFlow = f ∧
      ∃ parts, p.cells = mkCells oid f.flowNumber parts ∧ PathCells f.path parts := by
  have hfst : (f.path.zip f.cost).map Prod.fst = f.path :=
    List.map_fst_zip (hcost.length_eq.le)
  -- The invariant of the loop: the cells so far are cells for the sub-paths so far.
  obtain ⟨⟨parts, maxTx⟩, hfold, -, hI⟩ := foldlM_prefix
    (I := fun (pre : List (List Node × ℚ)) (acc : List (List Node) × MaxTx) =>
      (pre.map Prod.fst = [] → acc.1 = []) ∧ PathCells (pre.map Prod.fst) acc.1)
    (f := addSubPath f.graph strategy alg fixedWindowSize)
    (l := f.path.zip f.cost) (b := ([], fun _ => none))
    ⟨fun _ => rfl, PathCells.nil⟩
    (by
      rintro pre ⟨sub, cost⟩ post ⟨parts, maxTx⟩ hl ⟨hnil, hI⟩
      have hmem : (sub, cost) ∈ f.path.zip f.cost := by simp [hl]
      have hsub := hs sub (List.of_mem_zip hmem).1
      have hc := List.forall₂_zip hcost hmem
      obtain ⟨cells, maxTx', hcells, hspec⟩ := subPathCells_spec hsub hc hw maxTx
      refine ⟨(parts ++ cells, maxTx'), ?_, by simp, ?_⟩
      · simp only [addSubPath, hcells, bind, Except.bind, pure, Except.pure]
      · have hne : sub ≠ [] := by
          intro h0
          have := hsub.two_le
          simp [h0] at this
        have hpath : f.path = pre.map Prod.fst ++ sub :: post.map Prod.fst := by
          rw [← hfst, hl]
          simp
        rw [List.map_append]
        refine hI.concat hspec hne (fun s hs' => ?_) hnil
        rw [Bordered, hpath, List.isChain_append] at hb
        exact hb.2.2 s hs' sub (by simp))
  rw [hfst] at hI
  refine ⟨{ f with cells := mkCells oid f.flowNumber parts, maxTransmissions := maxTx }, ?_,
    rfl, parts, rfl, hI⟩
  rw [RoutedFlow.createCells, hfold]
  rfl

end MasterScheduler.Host

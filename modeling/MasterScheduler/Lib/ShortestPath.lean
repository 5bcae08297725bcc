import Mathlib.Algebra.Order.Monoid.Defs
import Mathlib.Algebra.Order.Monoid.Unbundled.Basic
import Mathlib.Data.List.Nodup
import Mathlib.Data.Prod.Lex
import Mathlib.Logic.Function.Basic

/-!
# MasterScheduler.Lib.ShortestPath — shortest walks with positive weights

Walks in a directed graph with weights, and the labels of a search that settles
the vertex with the least label next. Among vertices at the same distance the
smaller one comes first. How lengths are added is a parameter, and sums may be
rounded (`Extends`).

1. **Walks**: `Walk.uncons`, and `WalkBy.exists_exit`, the edge by which a walk leaves
   a set.
2. **Distances**: `IsDistBy`.
3. **Labels**: `Labels.Inv` is kept by `settle` and `relax`.
4. **Search**: `Inv.least_le`, nothing unsettled is nearer than the least label; if no
   weight is lost in a sum (`NothingLost`), what is as near comes later
   (`Inv.le_of_walk`).
-/

namespace MasterScheduler.Lib

variable {V R : Type*}

/-! ## Walks -/

/-- A walk from `s`: where it leads, the vertices on it and its length, added from `s` on. -/
inductive WalkBy [Zero R] (add : R → R → R) (w : V → V → Option R) (s : V) : V → List V → R → Prop
  | nil : WalkBy add w s s [s] 0
  | snoc {u v : V} {p : List V} {c d : R} (h : WalkBy add w s u p c) (he : w u v = some d) :
      WalkBy add w s v (p ++ [v]) (add c d)

section WalkBy

variable [Zero R] {add : R → R → R} {w : V → V → Option R} {s v : V} {p : List V} {c : R}

theorem WalkBy.head_eq (h : WalkBy add w s v p c) : ∃ q, p = s :: q := by
  induction h with
  | nil => exact ⟨[], rfl⟩
  | snoc h he ih =>
    obtain ⟨q, rfl⟩ := ih
    exact ⟨_, List.cons_append⟩

theorem WalkBy.getLast?_eq (h : WalkBy add w s v p c) : p.getLast? = some v := by
  cases h with
  | nil => rfl
  | snoc h he => exact List.getLast?_concat

end WalkBy

/-- A walk with its exact length. -/
abbrev Walk [AddCommMonoid R] (w : V → V → Option R) (s : V) : V → List V → R → Prop :=
  WalkBy HAdd.hAdd w s

section Walk

variable [AddCommMonoid R] {w : V → V → Option R} {s v x : V} {p : List V} {c d : R}

/-- A walk starts with an edge, if it has any. -/
theorem Walk.cons (he : w s x = some d) (h : Walk w x v p c) : Walk w s v (s :: p) (d + c) := by
  induction h with
  | nil =>
    have hedge : Walk w s _ _ _ := WalkBy.nil.snoc he
    rw [zero_add] at hedge
    rw [add_zero]
    exact hedge
  | snoc h he' ih =>
    have hwalk := ih.snoc he'
    rw [add_assoc] at hwalk
    exact hwalk

theorem Walk.uncons (h : Walk w s v p c) : v = s ∧ p = [s] ∧ c = 0 ∨
    ∃ x d q c', w s x = some d ∧ Walk w x v q c' ∧ p = s :: q ∧ c = d + c' := by
  induction h with
  | nil => exact .inl ⟨rfl, rfl, rfl⟩
  | @snoc u v p c d h he ih =>
    right
    rcases ih with ⟨rfl, rfl, rfl⟩ | ⟨x, d', q, c', hx, hq, rfl, rfl⟩
    · exact ⟨v, d, [v], 0, he, .nil, rfl, by rw [zero_add, add_zero]⟩
    · exact ⟨x, d', q ++ [v], c' + d, hx, hq.snoc he, List.cons_append, add_assoc d' c' d⟩

end Walk

/-! ## Positive weights -/

/-- Every edge has a positive length. -/
def Positive [Zero R] [LT R] (w : V → V → Option R) : Prop := ∀ u v d, w u v = some d → 0 < d

/-- The least length of a walk. -/
structure IsDistBy [Zero R] [LE R] (add : R → R → R) (w : V → V → Option R) (s v : V) (c : R) :
    Prop where
  walk : ∃ p, WalkBy add w s v p c
  le : ∀ q d, WalkBy add w s v q d → c ≤ d

/-- No edge makes a walk shorter, and what is longer is not shorter behind an edge. -/
structure Extends [Zero R] [Preorder R] (add : R → R → R) (w : V → V → Option R) (s : V) :
    Prop where
  le : ∀ {u p c v d}, WalkBy add w s u p c → w u v = some d → c ≤ add c d
  mono : ∀ {c c' u v d}, 0 ≤ c → c ≤ c' → w u v = some d → add c d ≤ add c' d

/-- Every edge leads farther than the distance of the vertex it starts from. -/
def NothingLost [Zero R] [Preorder R] (add : R → R → R) (w : V → V → Option R) (s : V) : Prop :=
  ∀ u v c d, IsDistBy add w s u c → w u v = some d → c < add c d

theorem Positive.extends [AddCommMonoid R] [LinearOrder R] [IsOrderedCancelAddMonoid R]
    {w : V → V → Option R} (hpos : Positive w) (s : V) : Extends HAdd.hAdd w s where
  le _ he := (lt_add_of_pos_right _ (hpos _ _ _ he)).le
  mono _ hle _ := add_le_add_left hle _

/-- Exact sums lose no positive weight. -/
theorem Positive.nothingLost [AddCommMonoid R] [LinearOrder R] [IsOrderedCancelAddMonoid R]
    {w : V → V → Option R} (hpos : Positive w) (s : V) : NothingLost HAdd.hAdd w s :=
  fun _ _ _ _ _ he => lt_add_of_pos_right _ (hpos _ _ _ he)

section Order

variable [Zero R] [LinearOrder R] {add : R → R → R} {w : V → V → Option R} {s v x : V}
  {p q : List V} {c d : R}

theorem WalkBy.nonneg (hext : Extends add w s) (h : WalkBy add w s v p c) : 0 ≤ c := by
  induction h with
  | nil => exact le_refl 0
  | snoc h he ih => exact ih.trans (hext.le h he)

theorem IsDistBy.nonneg (hext : Extends add w s) (h : IsDistBy add w s v c) : 0 ≤ c := by
  obtain ⟨p, hp⟩ := h.walk
  exact hp.nonneg hext

theorem IsDistBy.unique (h : IsDistBy add w s v c) (h' : IsDistBy add w s v d) : c = d := by
  obtain ⟨p, hp⟩ := h.walk
  obtain ⟨q, hq⟩ := h'.walk
  exact le_antisymm (h.le q d hq) (h'.le p c hp)

theorem isDist_self (hext : Extends add w s) : IsDistBy add w s s 0 :=
  ⟨⟨[s], .nil⟩, fun _ _ h => h.nonneg hext⟩

/-- Only a walk back to the start has no length. -/
theorem WalkBy.pos_of_ne (hext : Extends add w s) (hlost : NothingLost add w s)
    (h : WalkBy add w s v p c) (hne : v ≠ s) : 0 < c := by
  induction h with
  | nil => exact absurd rfl hne
  | @snoc u v p c d h he ih =>
    by_cases hus : u = s
    · rw [hus] at he
      have hedge := hlost s v 0 d (isDist_self hext) he
      exact hedge.trans_le (hext.mono le_rfl (h.nonneg hext) he)
    · exact (ih hus).trans_le (hext.le h he)

/-- A walk that leaves a set does so by an edge, and ends there or goes on by another one. -/
theorem WalkBy.exists_exit (hext : Extends add w s) {S : V → Prop} (h : WalkBy add w s v p c)
    (hs : S s) (hv : ¬ S v) : ∃ x y q cx d, S x ∧ ¬ S y ∧ WalkBy add w s x q cx ∧
      w x y = some d ∧ add cx d ≤ c ∧
      (y = v ∧ add cx d = c ∨ ∃ z e, w y z = some e ∧ add (add cx d) e ≤ c) := by
  induction h with
  | nil => exact absurd hs hv
  | @snoc u v p c d h he ih =>
    by_cases hu : S u
    · exact ⟨u, v, p, c, d, hu, hv, h, he, le_rfl, .inl ⟨rfl, rfl⟩⟩
    · obtain ⟨x, y, q, cx, d', hx, hy, hq, hxy, hle, hrest⟩ := ih hu
      have hgrow : c ≤ add c d := hext.le h he
      refine ⟨x, y, q, cx, d', hx, hy, hq, hxy, hle.trans hgrow, .inr ?_⟩
      rcases hrest with ⟨rfl, rfl⟩ | ⟨z, e, hyz, hle'⟩
      · exact ⟨v, d, he, le_rfl⟩
      · exact ⟨z, e, hyz, hle'.trans hgrow⟩

end Order

/-! ## Distances -/

/-- The least exact length of a walk. -/
abbrev IsDist [AddCommMonoid R] [LinearOrder R] (w : V → V → Option R) (s v : V) (c : R) : Prop :=
  IsDistBy HAdd.hAdd w s v c

/-- A shortest walk is a shortest one from its second vertex on. -/
theorem IsDist.uncons [AddCommMonoid R] [LinearOrder R] [IsOrderedCancelAddMonoid R]
    {w : V → V → Option R} {s v x : V} {p : List V} {c d : R} (h : IsDist w s v (d + c))
    (he : w s x = some d) (hp : Walk w x v p c) : IsDist w x v c := by
  refine ⟨⟨p, hp⟩, fun q e hq => ?_⟩
  exact le_of_add_le_add_left (h.le _ _ (Walk.cons he hq))

/-! ## Labels -/

/-- The distances of the settled vertices, the lengths found for others, and the predecessors
of both. -/
structure Labels (V R : Type*) where
  settled : V → Option R
  label : V → Option R
  pred : V → Option V

/-- A length is the one by way of the predecessor, which is settled. -/
def Labels.Linked (add : R → R → R) (w : V → V → Option R) (L : Labels V R) (v : V) (d : R) :
    Prop :=
  ∃ u du c, L.pred v = some u ∧ L.settled u = some du ∧ w u v = some c ∧ d = add du c

/-- Predecessors lead back to the start: they decrease some rank. -/
def Labels.Ranked (s : V) (L : Labels V R) : Prop :=
  ∃ (n : ℕ) (rank : V → ℕ), (∀ v, L.settled v ≠ none → rank v < n) ∧
    ∀ u v, L.settled v ≠ none → v ≠ s → L.pred v = some u → rank u < rank v

/-- What the labels say; the edges in `todo` have not been looked at. -/
structure Labels.Inv [Zero R] [LinearOrder R] (add : R → R → R) (w : V → V → Option R) (s : V)
    (todo : V → V → Prop) (L : Labels V R) : Prop where
  isDist : ∀ v d, L.settled v = some d → IsDistBy add w s v d
  linked : ∀ v d, L.settled v = some d → v ≠ s → L.Linked add w v d
  ranked : L.Ranked s
  start : L.settled s = none → L.settled = (fun _ => none) ∧ L.label s = some 0
  unsettled : ∀ v d, L.label v = some d → L.settled v = none
  label : ∀ v d, L.label v = some d → v ≠ s → L.Linked add w v d
  covered : ∀ u v du c, L.settled u = some du → w u v = some c → ¬ todo u v →
    L.settled v ≠ none ∨ ∃ d, L.label v = some d ∧ d ≤ add du c

namespace Labels

section Inv

variable [Zero R] [LinearOrder R] {add : R → R → R} {w : V → V → Option R} {s x v : V} {p : List V}
  {d c : R} {L : Labels V R} {todo : V → V → Prop}

/-- The start is settled, at distance zero, as soon as anything is. -/
theorem Inv.settled_start (hext : Extends add w s) (h : L.Inv add w s todo)
    (hv : L.settled v ≠ none) : L.settled s = some 0 := by
  cases hs : L.settled s with
  | none =>
    rw [(h.start hs).1] at hv
    exact absurd rfl hv
  | some d => rw [(h.isDist s d hs).unique (isDist_self hext)]

/-- A label is the length of a walk. -/
theorem Inv.walk_of_label (h : L.Inv add w s todo) (hx : L.label x = some d) :
    ∃ p, WalkBy add w s x p d := by
  by_cases hxs : x = s
  · subst hxs
    have hstart := (h.start (h.unsettled x d hx)).2
    rw [hx, Option.some.injEq] at hstart
    exact ⟨[x], hstart ▸ .nil⟩
  · obtain ⟨u, du, c, _, hu, he, rfl⟩ := h.label x d hx hxs
    obtain ⟨p, hp⟩ := (h.isDist u du hu).walk
    exact ⟨_, hp.snoc he⟩

/-- A walk to an unsettled vertex meets a label that is no longer. If this is the distance of
another vertex than the one the walk leads to, it is shorter. -/
theorem Inv.exists_label (hext : Extends add w s) (h : L.Inv add w s fun _ _ => False)
    (hv : L.settled v = none) (hwalk : WalkBy add w s v p c) :
    ∃ y e, L.label y = some e ∧ e ≤ c ∧
      (NothingLost add w s → y = v ∨ (IsDistBy add w s y e → e < c)) := by
  cases hs : L.settled s with
  | none =>
    refine ⟨s, 0, (h.start hs).2, hwalk.nonneg hext, fun hlost => ?_⟩
    by_cases hvs : v = s
    · exact .inl hvs.symm
    · exact .inr fun _ => hwalk.pos_of_ne hext hlost hvs
  | some d =>
    obtain ⟨x, y, q, cx, e, hx, hy, hq, hxy, hle, hrest⟩ := hwalk.exists_exit hext
      (S := fun u => L.settled u ≠ none) (by rw [hs]; exact Option.some_ne_none d)
      (not_not.mpr hv)
    obtain ⟨dx, hdx⟩ := Option.ne_none_iff_exists'.mp hx
    have hdxle : dx ≤ cx := (h.isDist x dx hdx).le q cx hq
    rcases h.covered x y dx e hdx hxy (fun h => h) with hset | ⟨dy, hdy, hdyle⟩
    · exact absurd hset hy
    · have hlabel : dy ≤ add cx e :=
        hdyle.trans (hext.mono ((h.isDist x dx hdx).nonneg hext) hdxle hxy)
      refine ⟨y, dy, hdy, hlabel.trans hle, fun hlost => ?_⟩
      rcases hrest with ⟨rfl, -⟩ | ⟨z, e', hyz, hle'⟩
      · exact .inl rfl
      · -- The edge by which the walk goes on leads farther than the distance.
        refine .inr fun hdist => ?_
        have hnext : add dy e' ≤ add (add cx e) e' := hext.mono (hdist.nonneg hext) hlabel hyz
        exact (hlost y z dy e' hdist hyz).trans_le (hnext.trans hle')

/-- No edge leads to a shorter way to a settled vertex. -/
theorem Inv.not_lt {x y : V} {dx dy : R} (h : L.Inv add w s todo) (hx : L.settled x = some dx)
    (hy : L.settled y = some dy) (he : w x y = some c) : ¬ add dx c < dy := by
  obtain ⟨p, hp⟩ := (h.isDist x dx hx).walk
  exact ((h.isDist y dy hy).le _ _ (hp.snoc he)).not_gt

theorem Inv.mono {todo' : V → V → Prop} (h : L.Inv add w s todo)
    (hle : ∀ u v c, w u v = some c → todo u v → todo' u v) : L.Inv add w s todo' :=
  ⟨h.isDist, h.linked, h.ranked, h.start, h.unsettled, h.label,
    fun u v du c hu he hnot => h.covered u v du c hu he fun htodo => hnot (hle u v c he htodo)⟩

end Inv

/-! ## Search -/

section Search

variable [Zero R] [LinearOrder R] [LinearOrder V] {add : R → R → R} {w : V → V → Option R}
  {s x y v : V} {p : List V} {d c dx : R} {L : Labels V R} {todo todo' : V → V → Prop}

/-- Nothing is settled, and the start is at distance zero. -/
def init (s : V) (pred : V → Option V) : Labels V R where
  settled := fun _ => none
  label := Function.update (fun _ => none) s (some 0)
  pred := pred

/-- The label of a vertex becomes its distance. -/
def settle (L : Labels V R) (x : V) (d : R) : Labels V R where
  settled := Function.update L.settled x (some d)
  label := Function.update L.label x none
  pred := L.pred

/-- A vertex is reached over another one. -/
def improve (L : Labels V R) (x y : V) (d : R) : Labels V R where
  settled := L.settled
  label := Function.update L.label y (some d)
  pred := Function.update L.pred y (some x)

theorem inv_init (s : V) (pred : V → Option V) :
    (init s pred : Labels V R).Inv add w s fun _ _ => False := by
  constructor
  · intro v d h
    cases h
  · intro v d h
    cases h
  · exact ⟨0, fun _ => 0, fun v hv => absurd rfl hv, fun u v hv => absurd rfl hv⟩
  · intro _
    refine ⟨rfl, ?_⟩
    dsimp only [init]
    exact Function.update_self ..
  · intro v d _
    rfl
  · intro v d h hv
    dsimp only [init] at h
    rw [Function.update_of_ne hv] at h
    cases h
  · intro u v du c h
    cases h

omit [Zero R] [LinearOrder R] in
theorem Linked.settle {e : R} (h : L.Linked add w v e) (hx : L.settled x = none) :
    (L.settle x d).Linked add w v e := by
  obtain ⟨u, du, c, hpred, hu, he, rfl⟩ := h
  have hux : u ≠ x := by
    rintro rfl
    rw [hx] at hu
    cases hu
  refine ⟨u, du, c, hpred, ?_, he, rfl⟩
  dsimp only [Labels.settle]
  rw [Function.update_of_ne hux]
  exact hu

omit [Zero R] [LinearOrder R] in
theorem Linked.improve {e : R} (h : L.Linked add w v e) (hv : v ≠ y) :
    (L.improve x y d).Linked add w v e := by
  obtain ⟨u, du, c, hpred, hu, he, rfl⟩ := h
  refine ⟨u, du, c, ?_, hu, he, rfl⟩
  dsimp only [Labels.improve]
  rw [Function.update_of_ne hv]
  exact hpred

/-- An edge that brings nothing is done with. -/
theorem Inv.skip (h : L.Inv add w s todo) (hx : L.settled x = some dx) (he : w x y = some c)
    (hdone : L.settled y ≠ none ∨ ∃ e, L.label y = some e ∧ e ≤ add dx c) :
    L.Inv add w s fun u v => todo u v ∧ ¬ (u = x ∧ v = y) := by
  refine ⟨h.isDist, h.linked, h.ranked, h.start, h.unsettled, h.label, ?_⟩
  intro u v du c' hu he' hnot
  by_cases hedge : u = x ∧ v = y
  · obtain ⟨rfl, rfl⟩ := hedge
    rw [hx, Option.some.injEq] at hu
    rw [he, Option.some.injEq] at he'
    rw [← hu, ← he']
    exact hdone
  · exact h.covered u v du c' hu he' fun htodo => hnot ⟨htodo, hedge⟩

theorem improve_inv (h : L.Inv add w s todo) (hx : L.settled x = some dx) (he : w x y = some c)
    (hy : L.settled y = none) (hlt : ∀ e, L.label y = some e → add dx c < e) :
    (L.improve x y (add dx c)).Inv add w s fun u v => todo u v ∧ ¬ (u = x ∧ v = y) := by
  have hlabel : (L.improve x y (add dx c)).label y = some (add dx c) := Function.update_self ..
  -- Only the label of `y` and its predecessor change.
  constructor
  · exact h.isDist
  · intro v e hv hvs
    refine (h.linked v e hv hvs).improve ?_
    rintro rfl
    dsimp only [improve] at hv
    rw [hy] at hv
    cases hv
  · obtain ⟨n, rank, hbound, hrank⟩ := h.ranked
    refine ⟨n, rank, hbound, fun u v hv hvs hpred => hrank u v hv hvs ?_⟩
    have hvy : v ≠ y := by
      rintro rfl
      exact hv hy
    dsimp only [improve] at hpred
    rw [Function.update_of_ne hvy] at hpred
    exact hpred
  · intro hs
    dsimp only [improve] at hs
    rw [(h.start hs).1] at hx
    cases hx
  · intro v e hv
    by_cases hvy : v = y
    · rw [hvy]
      exact hy
    · dsimp only [improve] at hv
      rw [Function.update_of_ne hvy] at hv
      exact h.unsettled v e hv
  -- The label is the way by `x`, or as before.
  · intro v e hv hvs
    by_cases hvy : v = y
    · subst hvy
      rw [hlabel] at hv
      cases hv
      exact ⟨x, dx, c, Function.update_self .., hx, he, rfl⟩
    · dsimp only [improve] at hv
      rw [Function.update_of_ne hvy] at hv
      exact (h.label v e hv hvs).improve hvy
  -- The edge from `x` to `y` is done: the new label is that way.
  · intro u v du c' hu he' hnot
    dsimp only [improve] at hu
    by_cases hvy : v = y
    · right
      subst hvy
      refine ⟨add dx c, hlabel, ?_⟩
      by_cases hux : u = x
      · subst hux
        rw [hx, Option.some.injEq] at hu
        rw [he, Option.some.injEq] at he'
        rw [hu, he']
      · -- The label it had before was at most this long, and has become shorter.
        rcases h.covered u v du c' hu he' (fun htodo => hnot ⟨htodo, fun hand => hux hand.1⟩)
          with hset | ⟨e, hv, hle⟩
        · exact absurd hy hset
        · exact (hlt e hv).le.trans hle
    · rcases h.covered u v du c' hu he' (fun htodo => hnot ⟨htodo, fun hand => hvy hand.2⟩)
        with hset | ⟨e, hv, hle⟩
      · exact .inl hset
      · right
        refine ⟨e, ?_, hle⟩
        dsimp only [improve]
        rw [Function.update_of_ne hvy]
        exact hv

/-- Nothing unsettled is nearer than the least label. -/
theorem Inv.least_le (hext : Extends add w s) (h : L.Inv add w s fun _ _ => False)
    (hmin : ∀ y e, L.label y = some e → toLex (d, x) ≤ toLex (e, y)) (hv : L.settled v = none)
    (hwalk : WalkBy add w s v p c) : d ≤ c := by
  obtain ⟨y, e, hy, hle, -⟩ := h.exists_label hext hv hwalk
  have hde := hmin y e hy
  rw [Prod.Lex.toLex_le_toLex] at hde
  rcases hde with hlt | ⟨heq, -⟩
  · exact hlt.le.trans hle
  · exact heq.le.trans hle

/-- Nor does anything as near come before its vertex. -/
theorem Inv.le_of_walk (hext : Extends add w s) (hlost : NothingLost add w s)
    (h : L.Inv add w s fun _ _ => False)
    (hmin : ∀ y e, L.label y = some e → toLex (d, x) ≤ toLex (e, y)) (hv : L.settled v = none)
    (hwalk : WalkBy add w s v p c) : toLex (d, x) ≤ toLex (c, v) := by
  obtain ⟨y, e, hy, hle, hend⟩ := h.exists_label hext hv hwalk
  have hde := hmin y e hy
  rcases (h.least_le hext hmin hv hwalk).lt_or_eq with hlt | rfl
  · rw [Prod.Lex.toLex_le_toLex]
    exact .inl hlt
  -- The label on the walk is the least one too, so it is the distance of its vertex.
  have hed : e = d := by
    rw [Prod.Lex.toLex_le_toLex] at hde
    rcases hde with hlt | ⟨heq, -⟩
    · exact absurd hlt hle.not_gt
    · exact heq.symm
  subst hed
  have hdist : IsDistBy add w s y e :=
    ⟨h.walk_of_label hy, fun q c hq => h.least_le hext hmin (h.unsettled y e hy) hq⟩
  rcases hend hlost with rfl | hshort
  · exact hde
  · exact absurd (hshort hdist) (lt_irrefl e)

/-- The least label is a distance. -/
theorem Inv.isDist_of_least (hext : Extends add w s) (h : L.Inv add w s fun _ _ => False)
    (hx : L.label x = some d) (hmin : ∀ y e, L.label y = some e → toLex (d, x) ≤ toLex (e, y)) :
    IsDistBy add w s x d :=
  ⟨h.walk_of_label hx, fun _ _ hq => h.least_le hext hmin (h.unsettled x d hx) hq⟩

/-- The next vertex gets the next rank. -/
theorem Inv.ranked_settle (h : L.Inv add w s todo) (hx : L.label x = some d) :
    (L.settle x d).Ranked s := by
  have hnone := h.unsettled x d hx
  obtain ⟨n, rank, hbound, hrank⟩ := h.ranked
  refine ⟨n + 1, Function.update rank x n, fun v hv => ?_, fun u v hv hvs hpred => ?_⟩
  · rw [Function.update_apply]
    split
    case isTrue => exact Nat.lt_succ_self n
    case isFalse hvx =>
      dsimp only [settle] at hv
      rw [Function.update_of_ne hvx] at hv
      exact (hbound v hv).trans (Nat.lt_succ_self n)
  · -- The predecessor is settled, so it is another vertex, with the rank it had.
    have hold : ∀ e, L.Linked add w v e → L.settled u ≠ none := by
      rintro e ⟨u', du, c, hpred', hu, _⟩
      rw [show u = u' from Option.some.inj (hpred.symm.trans hpred'), hu]
      exact Option.some_ne_none du
    by_cases hvx : v = x
    · subst hvx
      have hu := hold d (h.label v d hx hvs)
      rw [Function.update_self, Function.update_of_ne (ne_of_apply_ne L.settled (hnone ▸ hu))]
      exact hbound u hu
    · dsimp only [settle] at hv
      rw [Function.update_of_ne hvx] at hv
      obtain ⟨e, he⟩ := Option.ne_none_iff_exists'.mp hv
      have hu := hold e (h.linked v e he hvs)
      rw [Function.update_of_ne hvx, Function.update_of_ne (ne_of_apply_ne L.settled (hnone ▸ hu))]
      exact hrank u v hv hvs hpred

theorem settle_inv (hext : Extends add w s) (h : L.Inv add w s fun _ _ => False)
    (hx : L.label x = some d)
    (hmin : ∀ y e, L.label y = some e → toLex (d, x) ≤ toLex (e, y)) :
    (L.settle x d).Inv add w s fun u _ => u = x := by
  have hnone := h.unsettled x d hx
  have hkeep : ∀ v, L.settled v ≠ none → (L.settle x d).settled v ≠ none := by
    intro v hv
    dsimp only [settle]
    rw [Function.update_apply]
    split
    · exact Option.some_ne_none d
    · exact hv
  constructor
  · intro v e hv
    dsimp only [settle] at hv
    rw [Function.update_apply] at hv
    split at hv
    case isTrue heq =>
      cases hv
      rw [heq]
      exact h.isDist_of_least hext hx hmin
    case isFalse => exact h.isDist v e hv
  · intro v e hv hvs
    dsimp only [settle] at hv
    rw [Function.update_apply] at hv
    split at hv
    case isTrue heq =>
      cases hv
      subst heq
      exact (h.label v d hx hvs).settle hnone
    case isFalse => exact (h.linked v e hv hvs).settle hnone
  · exact h.ranked_settle hx
  · intro hs
    -- Before the start is settled, it has the only label.
    have hsx : s ≠ x := by
      rintro rfl
      dsimp only [settle] at hs
      rw [Function.update_self] at hs
      cases hs
    have hs' : L.settled s = none := by
      dsimp only [settle] at hs
      rw [Function.update_of_ne hsx] at hs
      exact hs
    obtain ⟨u, du, c, _, hu, _⟩ := h.label x d hx hsx.symm
    rw [(h.start hs').1] at hu
    cases hu
  · intro v e hv
    dsimp only [settle] at hv ⊢
    rw [Function.update_apply] at hv ⊢
    split at hv
    case isTrue => cases hv
    case isFalse hne =>
      rw [if_neg hne]
      exact h.unsettled v e hv
  · intro v e hv hvs
    dsimp only [settle] at hv
    rw [Function.update_apply] at hv
    split at hv
    case isTrue => cases hv
    case isFalse => exact (h.label v e hv hvs).settle hnone
  · intro u v du c hu he hne
    dsimp only [settle] at hu
    rw [Function.update_of_ne hne] at hu
    rcases h.covered u v du c hu he (fun h => h) with hset | ⟨e, hv, hle⟩
    · exact .inl (hkeep v hset)
    · by_cases hvx : v = x
      · left
        dsimp only [settle]
        rw [hvx, Function.update_self]
        exact Option.some_ne_none d
      · right
        refine ⟨e, ?_, hle⟩
        dsimp only [settle]
        rw [Function.update_of_ne hvx]
        exact hv

end Search

end Labels

end MasterScheduler.Lib

import Mathlib.Algebra.Order.Group.Nat
import Mathlib.Data.List.Nodup

/-!
# MasterScheduler.Lib.Tiling — ranges that follow each other

Tiles cover a range of addresses from its start to its end: each starts where
the one before it ends, and `len` gives their lengths.

- `Tiled.apart`: two tiles do not overlap.
- `Tiled.join`, `Tiled.divide`: two neighbors become one tile, and one becomes two.
-/

namespace MasterScheduler.Lib

/-- The tiles of the range from `a` to `e`. -/
def Tiled (len : ℕ → ℕ) : ℕ → List ℕ → ℕ → Prop
  | a, [], e => a = e
  | a, x :: xs, e => x = a ∧ Tiled len (a + len x) xs e

namespace Tiled

variable {len len' : ℕ → ℕ} {a e x y : ℕ} {l pre post : List ℕ}

theorem congr (h : Tiled len a l e) (hlen : ∀ x ∈ l, len' x = len x) : Tiled len' a l e := by
  induction l generalizing a with
  | nil => exact h
  | cons x xs ih =>
    refine ⟨h.1, ?_⟩
    rw [hlen x (by simp)]
    apply ih h.2
    intro y hy
    exact hlen y (by simp [hy])

theorem append_iff :
    Tiled len a (pre ++ post) e ↔ ∃ m, Tiled len a pre m ∧ Tiled len m post e := by
  induction pre generalizing a with
  | nil => simp [Tiled]
  | cons x xs ih => simp [Tiled, ih, and_assoc]

theorem le (h : Tiled len a l e) : a ≤ e := by
  induction l generalizing a with
  | nil => exact le_of_eq h
  | cons x xs ih => exact (Nat.le_add_right _ _).trans (ih h.2)

theorem bounds (h : Tiled len a l e) (hx : x ∈ l) : a ≤ x ∧ x + len x ≤ e := by
  induction l generalizing a with
  | nil => cases hx
  | cons y ys ih =>
    obtain ⟨rfl, hrest⟩ := h
    rcases List.mem_cons.mp hx with rfl | hx
    · exact ⟨le_rfl, hrest.le⟩
    · have hb := ih hrest hx
      exact ⟨(Nat.le_add_right _ _).trans hb.1, hb.2⟩

theorem apart (h : Tiled len a l e) (hx : x ∈ l) (hy : y ∈ l) (hne : x ≠ y) :
    x + len x ≤ y ∨ y + len y ≤ x := by
  induction l generalizing a with
  | nil => cases hx
  | cons z zs ih =>
    obtain ⟨rfl, hrest⟩ := h
    -- The first tile is in front of all others.
    rcases List.mem_cons.mp hx with rfl | hx'
    · rcases List.mem_cons.mp hy with rfl | hy'
      · exact absurd rfl hne
      · exact .inl (hrest.bounds hy').1
    · rcases List.mem_cons.mp hy with rfl | hy'
      · exact .inr (hrest.bounds hx').1
      · exact ih hrest hx' hy'

theorem nodup (h : Tiled len a l e) (hpos : ∀ x, 0 < len x) : l.Nodup := by
  induction l generalizing a with
  | nil => exact List.nodup_nil
  | cons x xs ih =>
    obtain ⟨rfl, hrest⟩ := h
    refine List.nodup_cons.mpr ⟨?_, ih hrest⟩
    intro hx
    have hb := (hrest.bounds hx).1
    have hlen := hpos x
    omega

theorem length_le (h : Tiled len a l e) (hpos : ∀ x, 0 < len x) : a + l.length ≤ e := by
  induction l generalizing a with
  | nil => exact le_of_eq h
  | cons x xs ih =>
    have hrest := ih h.2
    have hlen := hpos x
    rw [List.length_cons]
    omega

theorem next_eq (h : Tiled len a (pre ++ x :: y :: post) e) : x + len x = y := by
  obtain ⟨m, -, rfl, rfl, -⟩ := append_iff.mp h
  rfl

theorem last_eq (h : Tiled len a (pre ++ [x]) e) : x + len x = e := by
  obtain ⟨m, -, rfl, hend⟩ := append_iff.mp h
  exact hend

/-- The tile at the end is the last one. -/
theorem post_eq_nil (h : Tiled len a (pre ++ x :: post) e) (hpos : ∀ x, 0 < len x)
    (hend : x + len x = e) : post = [] := by
  cases post with
  | nil => rfl
  | cons y ys =>
    obtain ⟨m, -, rfl, rfl, hrest⟩ := append_iff.mp h
    have hle := hrest.le
    have hlen := hpos (x + len x)
    omega

theorem dropLast (h : Tiled len a (l ++ [x]) e) : Tiled len a l x := by
  obtain ⟨m, hl, rfl, -⟩ := append_iff.mp h
  exact hl

theorem join (h : Tiled len a (pre ++ x :: y :: post) e) (hjoin : len' x = len x + len y)
    (hlen : ∀ z ∈ pre ++ post, len' z = len z) : Tiled len' a (pre ++ x :: post) e := by
  -- What is in front keeps its place, and what is behind starts where the two ended.
  obtain ⟨m, hpre, rfl, rfl, hpost⟩ := append_iff.mp h
  refine append_iff.mpr ⟨x, ?_, rfl, ?_⟩
  · apply hpre.congr
    intro z hz
    exact hlen z (by simp [hz])
  · rw [hjoin, ← Nat.add_assoc]
    apply hpost.congr
    intro z hz
    exact hlen z (by simp [hz])

theorem divide (h : Tiled len a (pre ++ x :: post) e) (hnew : y = x + len' x)
    (hdivide : len x = len' x + len' y) (hlen : ∀ z ∈ pre ++ post, len' z = len z) :
    Tiled len' a (pre ++ x :: y :: post) e := by
  obtain ⟨m, hpre, rfl, hpost⟩ := append_iff.mp h
  refine append_iff.mpr ⟨x, ?_, rfl, hnew, ?_⟩
  · apply hpre.congr
    intro z hz
    exact hlen z (by simp [hz])
  · have hend : x + len' x + len' y = x + len x := by omega
    rw [hend]
    apply hpost.congr
    intro z hz
    exact hlen z (by simp [hz])

/-- A tile is added behind the end. -/
theorem concat (h : Tiled len a l e) (len' : ℕ → ℕ) (hlen : ∀ z ∈ l, len' z = len z) :
    Tiled len' a (l ++ [e]) (e + len' e) :=
  append_iff.mpr ⟨e, h.congr hlen, rfl, rfl⟩

end Tiled

end MasterScheduler.Lib

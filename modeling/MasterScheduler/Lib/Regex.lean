import Mathlib.Data.List.Basic

/-!
# MasterScheduler.Lib.Regex — backtracking search

Regular expressions with greedy repetition and groups, as a backtracking
engine matches them: all matches at a position in the order in which they are
tried. A search takes the first match at the first position that has one.

`First r s gs t` says that the first match at `s` leaves `t` unread and has
recorded the groups `gs`; the rules below compose such matches, so that a text
of known shape is matched without ever backtracking.
-/

namespace MasterScheduler.Lib

inductive Regex where
  /-- One character of a class. -/
  | char (p : Char → Bool)
  | seq (r r' : Regex)
  /-- As often as possible. -/
  | star (r : Regex)
  /-- Once if possible. -/
  | opt (r : Regex)
  | group (r : Regex)

namespace Regex

/-- The matched groups, outermost first, and the unread text. -/
abbrev Match := List (List Char) × List Char

/-- Repetitions of `f`, longest first. An empty repetition ends the loop. -/
def iterate (f : List Char → List Match) (s : List Char) : List Match :=
  ((f s).flatMap fun m =>
    -- An empty repetition is dropped, so the text gets shorter.
    if m.2.length < s.length then (iterate f m.2).map fun m' => (m.1 ++ m'.1, m'.2) else []) ++
  [([], s)]
termination_by s.length

/-- The matches at the beginning of a text, in the order they are tried. -/
def run : Regex → List Char → List Match
  | char _, [] => []
  | char p, c :: s => if p c then [([], s)] else []
  | seq r r', s => (r.run s).flatMap fun m => (r'.run m.2).map fun m' => (m.1 ++ m'.1, m'.2)
  | star r, s => iterate r.run s
  | opt r, s => r.run s ++ [([], s)]
  | group r, s => (r.run s).map fun m => (s.take (s.length - m.2.length) :: m.1, m.2)

/-- The leftmost match. -/
def search (r : Regex) : List Char → Option Match
  | [] => (r.run []).head?
  | c :: s => (r.run (c :: s)).head?.or (r.search s)

/-! ## Derived expressions -/

/-- `r+`. -/
def plus (r : Regex) : Regex := seq r (star r)

/-- `r{1,3}`. -/
def upToThree (r : Regex) : Regex := seq r (opt (seq r (opt r)))

/-- The characters of a word, followed by `r`. -/
def word (w : List Char) (r : Regex) : Regex := w.foldr (fun c r => seq (char (· == c)) r) r

/-! ## First matches -/

/-- The match a search at this position takes. -/
def First (r : Regex) (s : List Char) (gs : List (List Char)) (t : List Char) : Prop :=
  (r.run s).head? = some (gs, t)

/-- No match at this position. -/
def Fails (r : Regex) (s : List Char) : Prop := r.run s = []

section

variable {r r' : Regex} {s t u : List Char} {gs gs' : List (List Char)}

/-- One character. -/
theorem run_char_cons (p : Char → Bool) (c : Char) (s : List Char) :
    (Regex.char p).run (c :: s) = if p c then [([], s)] else [] := rfl

/-- No character is left. -/
theorem run_char_nil (p : Char → Bool) : (Regex.char p).run [] = [] := rfl

/-- One expression after another. -/
theorem run_seq : (Regex.seq r r').run s =
    (r.run s).flatMap fun m => (r'.run m.2).map fun m' => (m.1 ++ m'.1, m'.2) := rfl

/-- A loop. -/
theorem run_star : (star r).run s = iterate r.run s := rfl

/-- The expression is tried first, then nothing. -/
theorem run_opt : (opt r).run s = r.run s ++ [([], s)] := rfl

/-- A group records what was read. -/
theorem run_group : (Regex.group r).run s =
    (r.run s).map fun m => (s.take (s.length - m.2.length) :: m.1, m.2) := rfl

/-- A search tries the next position. -/
theorem search_cons {c : Char} : r.search (c :: s) = (r.run (c :: s)).head?.or (r.search s) := rfl

/-- The first match. -/
theorem first_iff : First r s gs t ↔ (r.run s).head? = some (gs, t) := Iff.rfl

/-- No match. -/
theorem fails_iff : Fails r s ↔ r.run s = [] := Iff.rfl

/-- A character of the class. -/
theorem First.char {p : Char → Bool} {c : Char} (h : p c = true) :
    First (char p) (c :: s) [] s := by
  rw [first_iff, run_char_cons, if_pos h]
  rfl

/-- A character outside the class. -/
theorem Fails.char {p : Char → Bool} {c : Char} (h : p c = false) : Fails (char p) (c :: s) := by
  rw [fails_iff, run_char_cons, if_neg (by simp [h])]

/-- The first match heads the list. -/
theorem First.exists_run (h : First r s gs t) : ∃ ms, r.run s = (gs, t) :: ms := by
  rw [first_iff, List.head?_eq_some_iff] at h
  exact h

/-- First matches in a row. -/
theorem First.seq (h : First r s gs t) (h' : First r' t gs' u) :
    First (seq r r') s (gs ++ gs') u := by
  obtain ⟨ms, hms⟩ := h.exists_run
  obtain ⟨ms', hms'⟩ := h'.exists_run
  rw [first_iff, run_seq, hms, List.flatMap_cons, hms']
  rfl

/-- No match of the first part. -/
theorem Fails.seq (h : Fails r s) : Fails (seq r r') s := by
  rw [fails_iff] at h ⊢
  rw [run_seq, h, List.flatMap_nil]

/-- Whatever the first part reads, the second finds nothing. -/
theorem Fails.seq_of_forall (h : ∀ m ∈ r.run s, Fails r' m.2) : Fails (Regex.seq r r') s := by
  rw [fails_iff, run_seq, List.flatMap_eq_nil_iff]
  intro m hm
  have := h m hm
  rw [fails_iff] at this
  rw [this, List.map_nil]

/-- No match in a group. -/
theorem Fails.group (h : Fails r s) : Fails (Regex.group r) s := by
  rw [fails_iff] at h ⊢
  rw [run_group, h, List.map_nil]

/-- No match after a word. -/
theorem Fails.word {w : List Char} (h : Fails r s) : Fails (word w r) (w ++ s) := by
  induction w with
  | nil => exact h
  | cons c w ih =>
    -- A letter of the word has one match at most, and the rest fails behind it.
    refine Fails.seq_of_forall ?_
    intro m hm
    rw [List.cons_append, run_char_cons, if_pos (by simp), List.mem_singleton] at hm
    subst hm
    exact ih

/-- A position without a match is skipped. -/
theorem search_eq_none_of_fails {c : Char} (h : Fails r (c :: s)) (h' : r.search s = none) :
    r.search (c :: s) = none := by
  rw [fails_iff] at h
  rw [search_cons, h, h']
  rfl

/-- A loop that ends at once. -/
theorem First.star_stop (h : Fails r s) : First (star r) s [] s := by
  rw [fails_iff] at h
  rw [first_iff, run_star, iterate, h]
  rfl

/-- A loop that goes on. -/
theorem First.star_step (h : First r s gs t) (hlt : t.length < s.length)
    (h' : First (star r) t gs' u) : First (star r) s (gs ++ gs') u := by
  obtain ⟨ms, hms⟩ := h.exists_run
  obtain ⟨ms', hms'⟩ := h'.exists_run
  -- The longest repetition is tried first.
  rw [run_star] at hms'
  rw [first_iff, run_star, iterate, hms, List.flatMap_cons, if_pos hlt, hms']
  rfl

/-- At least one round. -/
theorem First.plus (h : First r s gs t) (h' : First (star r) t gs' u) :
    First (plus r) s (gs ++ gs') u := h.seq h'

/-- The optional part is there. -/
theorem First.opt_some (h : First r s gs t) : First (opt r) s gs t := by
  obtain ⟨ms, hms⟩ := h.exists_run
  rw [first_iff, run_opt, hms]
  rfl

/-- The optional part is not there. -/
theorem First.opt_none (h : Fails r s) : First (opt r) s [] s := by
  rw [fails_iff] at h
  rw [first_iff, run_opt, h]
  rfl

/-- A group records what its expression has read. -/
theorem First.group (h : First r (t ++ u) gs u) : First (group r) (t ++ u) (t :: gs) u := by
  obtain ⟨ms, hms⟩ := h.exists_run
  rw [first_iff, run_group, hms, List.map_cons, List.length_append, Nat.add_sub_cancel, List.take_left]
  rfl

/-- A match at the start is found first. -/
theorem First.search (h : First r s gs t) : r.search s = some (gs, t) := by
  rw [first_iff] at h
  cases s with
  | nil => exact h
  | cons c s => rw [search_cons, h, Option.some_or]

/-- A word and the first match behind it. -/
theorem First.word {w : List Char} (h : First r s gs t) : First (word w r) (w ++ s) gs t := by
  induction w with
  | nil => exact h
  | cons c w ih => exact (First.char (by simp)).seq ih

/-- Repeating a character class over a run of its characters. -/
theorem First.star_char {p : Char → Bool} (hs : ∀ c ∈ s, p c = true) (hstop : Fails (Regex.char p) t) :
    First (star (Regex.char p)) (s ++ t) [] t := by
  induction s with
  | nil => exact First.star_stop hstop
  | cons c s ih =>
    exact (First.char (hs c (by simp))).star_step (by simp)
      (ih fun d hd => hs d (List.mem_cons_of_mem c hd))

/-- A class in a loop reads up to the first other character. -/
theorem First.plus_char {p : Char → Bool} (hne : s ≠ []) (hs : ∀ c ∈ s, p c = true)
    (hstop : Fails (Regex.char p) t) : First (Regex.plus (Regex.char p)) (s ++ t) [] t := by
  cases s with
  | nil => exact absurd rfl hne
  | cons c s =>
    exact (First.char (hs c (by simp))).plus
      (First.star_char (fun d hd => hs d (List.mem_cons_of_mem c hd)) hstop)

/-- Every match of a repeated class reads characters of the class. -/
theorem run_star_char {p : Char → Bool} :
    ∀ {m : Match}, m ∈ (star (char p)).run s → ∃ t, s = t ++ m.2 ∧ ∀ c ∈ t, p c = true := by
  induction s with
  | nil =>
    intro m hm
    rw [run_star, iterate, run_char_nil] at hm
    simp only [List.flatMap_nil, List.nil_append, List.mem_singleton] at hm
    subst hm
    exact ⟨[], rfl, by simp⟩
  | cons c s ih =>
    intro m hm
    rw [run_star, iterate, run_char_cons] at hm
    -- Another round, or none.
    rcases List.mem_append.1 hm with hm | hm
    · by_cases hc : p c = true
      · rw [if_pos hc, List.flatMap_cons, List.flatMap_nil, List.append_nil,
          if_pos (by simp)] at hm
        obtain ⟨m', hm', rfl⟩ := List.mem_map.1 hm
        obtain ⟨t, ht, hall⟩ := ih (m := m') hm'
        refine ⟨c :: t, by rw [List.cons_append, ← ht], ?_⟩
        intro d hd
        rcases List.mem_cons.1 hd with rfl | hd
        · exact hc
        · exact hall d hd
      · rw [if_neg hc] at hm
        cases hm
    · rw [List.mem_singleton] at hm
      subst hm
      exact ⟨[], rfl, by simp⟩

/-- What a loop read are characters of the class. -/
theorem run_plus_char {p : Char → Bool} {m : Match} (hm : m ∈ (plus (char p)).run s) :
    ∃ t, s = t ++ m.2 ∧ ∀ c ∈ t, p c = true := by
  cases s with
  | nil => cases hm
  | cons c s =>
    rw [plus, run_seq, run_char_cons] at hm
    by_cases hc : p c = true
    · rw [if_pos hc, List.flatMap_cons, List.flatMap_nil, List.append_nil] at hm
      obtain ⟨m', hm', rfl⟩ := List.mem_map.1 hm
      obtain ⟨t, ht, hall⟩ := run_star_char hm'
      refine ⟨c :: t, by rw [List.cons_append, ← ht], ?_⟩
      intro d hd
      rcases List.mem_cons.1 hd with rfl | hd
      · exact hc
      · exact hall d hd
    · rw [if_neg hc] at hm
      cases hm

/-- Up to three characters of a class, if there are no more than that. -/
theorem First.upToThree_char {p : Char → Bool} (hne : s ≠ []) (hlen : s.length ≤ 3)
    (hs : ∀ c ∈ s, p c = true) (hstop : Fails (Regex.char p) t) :
    First (upToThree (Regex.char p)) (s ++ t) [] t := by
  -- One, two and three characters, each with what is left of the optional parts.
  match s with
  | [] => exact absurd rfl hne
  | [a] => exact (First.char (hs a (by simp))).seq (First.opt_none hstop.seq)
  | [a, b] =>
    exact (First.char (hs a (by simp))).seq
      (((First.char (hs b (by simp))).seq (First.opt_none hstop)).opt_some)
  | [a, b, c] =>
    exact (First.char (hs a (by simp))).seq
      (((First.char (hs b (by simp))).seq (First.char (hs c (by simp))).opt_some).opt_some)
  | a :: b :: c :: d :: s =>
    simp only [List.length_cons] at hlen
    omega

end

end Regex

end MasterScheduler.Lib

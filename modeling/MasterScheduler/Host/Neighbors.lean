import Mathlib.Algebra.Order.Field.Rat
import Mathlib.Logic.Function.Basic
import MasterScheduler.Lib.Regex

/-!
# MasterScheduler.Host.Neighbors — the link qualities read from the log

`Parser_EB.match_neighbor_data` of `neighbor_parser_enhanced_beacon.py`. A line
of the log is searched for the metric of a node; every neighbor in it becomes
an edge of the graphs the scheduler works on. Decimal strings are read as
rational numbers.
-/

namespace MasterScheduler.Host

open Lib Lib.Regex

/-- The exceptions of the parser. -/
inductive ParseError where
  | valueError
  | zeroDivisionError
deriving DecidableEq, Repr

/-- `graph_etx` and `graph_prr`, by sender and receiver. -/
structure Graphs where
  etx : ℕ → ℕ → Option ℚ
  prr : ℕ → ℕ → Option ℚ

/-- `graph[sender][receiver] = value`. -/
def setEdge (graph : ℕ → ℕ → Option ℚ) (sender receiver : ℕ) (value : ℚ) :
    ℕ → ℕ → Option ℚ :=
  Function.update graph sender (Function.update (graph sender) receiver (some value))

/-! ## Strings -/

/-- `s.split(', ')`. -/
def splitCommaSpace : List Char → List (List Char)
  | [] => [[]]
  | [c] => [[c]]
  | ',' :: ' ' :: s => [] :: splitCommaSpace s
  | c :: d :: s => (splitCommaSpace (d :: s)).modifyHead (c :: ·)

/-- `s.strip()`. -/
def strip (s : List Char) : List Char :=
  ((s.dropWhile Char.isWhitespace).reverse.dropWhile Char.isWhitespace).reverse

/-- `int(s)` on a string without sign, blanks and underscores. -/
def parseInt (s : List Char) : Except ParseError ℕ :=
  if s ≠ [] ∧ s.all Char.isDigit then .ok (Nat.ofDigitChars 10 s 0) else .error .valueError

/-- `float(s)` on a string without sign, exponent, blanks and underscores. -/
def parseFloat (s : List Char) : Except ParseError ℚ :=
  match s.splitOn '.' with
  | [whole] => do return (← parseInt whole : ℕ)
  | [whole, fraction] => do
      let w ← parseInt whole
      let f ← parseInt fraction
      return w + f / 10 ^ fraction.length
  | _ => .error .valueError

/-! ## The pattern -/

def digit : Regex := .char Char.isDigit

/-- `\d+:\d{1,3}.\d+,? ?`. -/
def entryPattern : Regex :=
  .seq (.plus digit) (.seq (.char (· == ':')) (.seq (.upToThree digit)
    (.seq (.char (· != '\n')) (.seq (.plus digit)
      (.seq (.opt (.char (· == ','))) (.opt (.char (· == ' '))))))))

/-- The text before the node. -/
def linksHead : List Char :=
  ['E', 'T', 'X', '-', 'L', 'i', 'n', 'k', 's', ' ', '-', ' ', 'F', 'R', 'O', 'M', ' ']

/-- `ETX-Links - FROM (\d+); ((\d+:\d{1,3}.\d+,? ?)+)`. The innermost group only
repeats; what it records is never read. -/
def linksPattern : Regex :=
  .word linksHead
    (.seq (.group (.plus digit)) (.word [';', ' '] (.group (.plus entryPattern))))

/-- One round of the loop over `sender_and_etx_values`. -/
def addEdge (maxEtxBound : ℚ) (receiver : ℕ) (g : Graphs) (senderAndEtxValue : List Char) :
    Except ParseError Graphs :=
  match senderAndEtxValue.splitOn ':' with
  | [sender, etxValue] => do
      let etx ← parseFloat etxValue
      if etx < maxEtxBound then
        -- small correction since we can not have a perfect 100% PRR
        let etx := if etx = 1 then etx + 87 / 1000 else etx
        let sender ← parseInt sender
        let g := { g with etx := setEdge g.etx sender receiver etx }
        if etx = 0 then .error .zeroDivisionError
        else .ok { g with prr := setEdge g.prr sender receiver (1 / etx * 100) }
      else .ok g
  | _ => .error .valueError

def matchNeighborData (maxEtxBound : ℚ) (g : Graphs) (line : List Char) :
    Except ParseError Graphs :=
  match linksPattern.search line with
  | some ([receiver, entries], _) => do
      let receiver ← parseInt receiver
      (splitCommaSpace (strip entries)).foldlM (addEdge maxEtxBound receiver) g
  | _ => .ok g

/-! ## Numbers -/

theorem isDigit_toDigits (n : ℕ) : ∀ c ∈ Nat.toDigits 10 n, c.isDigit = true := fun _ hc =>
  Nat.isDigit_of_mem_toDigits (by decide) (by decide) hc

theorem not_mem_toDigits {c : Char} (hc : c.isDigit = false) (n : ℕ) :
    c ∉ Nat.toDigits 10 n := by
  intro h
  rw [isDigit_toDigits n c h] at hc
  cases hc

theorem parseInt_toDigits (n : ℕ) : parseInt (Nat.toDigits 10 n) = .ok n := by
  rw [parseInt, if_pos ⟨Nat.toDigits_ne_nil, List.all_eq_true.2 (isDigit_toDigits n)⟩,
    Nat.ofDigitChars_ten_toDigits]

/-- A decimal number as it reads after its two parts were written separately. -/
def displayed (whole fraction : ℕ) : ℚ :=
  whole + fraction / 10 ^ (Nat.toDigits 10 fraction).length

theorem parseFloat_toDigits (whole fraction : ℕ) :
    parseFloat (Nat.toDigits 10 whole ++ '.' :: Nat.toDigits 10 fraction) =
      .ok (displayed whole fraction) := by
  rw [parseFloat, List.splitOn_append_cons_self_of_not_mem (not_mem_toDigits rfl whole),
    List.splitOn_eq_singleton (not_mem_toDigits rfl fraction)]
  dsimp only
  rw [parseInt_toDigits, parseInt_toDigits]
  rfl

/-! ## Entries -/

/-- A neighbor with the two parts of its link quality. -/
structure LinkEntry where
  sender : ℕ
  whole : ℕ
  fraction : ℕ

/-- `sender:whole.fraction`. -/
def LinkEntry.text (e : LinkEntry) : List Char :=
  Nat.toDigits 10 e.sender ++ ':' ::
    (Nat.toDigits 10 e.whole ++ '.' :: Nat.toDigits 10 e.fraction)

def LinkEntry.value (e : LinkEntry) : ℚ := displayed e.whole e.fraction

/-- The line of a node, as the coordinator prints it. -/
def linksLine (receiver : ℕ) (es : List LinkEntry) : List Char :=
  linksHead ++ (Nat.toDigits 10 receiver ++ ([';', ' '] ++
    ([',', ' '].intercalate (es.map LinkEntry.text) ++ ['\n'])))

theorem fails_digit_of_not_isDigit {c : Char} {s : List Char} (h : c.isDigit = false) :
    digit.Fails (c :: s) := Fails.char h

/-- An entry is read to its end, with the separator if there is one. -/
theorem first_entryPattern (e : LinkEntry) (hwhole : e.whole < 1000) {sep rest : List Char}
    (hsep : sep = [',', ' '] ∨ sep = [] ∧ ∃ rest', rest = '\n' :: rest') :
    entryPattern.First (e.text ++ (sep ++ rest)) [] rest := by
  have hlen : (Nat.toDigits 10 e.whole).length ≤ 3 :=
    (Nat.length_toDigits_le_iff (by decide) (by decide)).2 (by simpa using hwhole)
  have hlast : (Regex.seq (.opt (.char (· == ','))) (.opt (.char (· == ' ')))).First
      (sep ++ rest) [] rest ∧ digit.Fails (sep ++ rest) := by
    rcases hsep with rfl | ⟨rfl, rest', rfl⟩
    · exact ⟨(First.opt_some (First.char rfl)).seq (First.opt_some (First.char rfl)),
        fails_digit_of_not_isDigit rfl⟩
    · exact ⟨(First.opt_none (Fails.char rfl)).seq (First.opt_none (Fails.char rfl)),
        fails_digit_of_not_isDigit rfl⟩
  have hfraction := First.plus_char (s := Nat.toDigits 10 e.fraction) Nat.toDigits_ne_nil
    (isDigit_toDigits _) hlast.2
  have hwhole := First.upToThree_char (s := Nat.toDigits 10 e.whole)
    (t := '.' :: (Nat.toDigits 10 e.fraction ++ (sep ++ rest))) Nat.toDigits_ne_nil hlen
    (isDigit_toDigits _) (Fails.char rfl)
  have hsender := First.plus_char (s := Nat.toDigits 10 e.sender)
    (t := ':' :: (Nat.toDigits 10 e.whole ++
      '.' :: (Nat.toDigits 10 e.fraction ++ (sep ++ rest)))) Nat.toDigits_ne_nil
    (isDigit_toDigits _) (Fails.char rfl)
  have h := hsender.seq ((First.char (p := (· == ':')) rfl).seq (hwhole.seq
    ((First.char (p := (· != '\n')) rfl).seq (hfraction.seq hlast.1))))
  simpa [LinkEntry.text, entryPattern, digit] using h

theorem fails_entryPattern_newline (s : List Char) : entryPattern.Fails ('\n' :: s) :=
  Fails.seq (Fails.seq (Fails.char rfl))

/-- The entries of a line, with the newline. -/
def entriesText (es : List LinkEntry) : List Char :=
  [',', ' '].intercalate (es.map LinkEntry.text)

theorem entriesText_cons_cons (e e' : LinkEntry) (es : List LinkEntry) :
    entriesText (e :: e' :: es) = e.text ++ ([',', ' '] ++ entriesText (e' :: es)) := by
  unfold entriesText
  rw [List.map_cons, List.map_cons, List.intercalate_cons_cons, List.append_assoc]

theorem first_entriesText (e : LinkEntry) (es : List LinkEntry) (hwhole : e.whole < 1000) :
    entryPattern.First (entriesText (e :: es) ++ ['\n']) [] (entriesText es ++ ['\n']) := by
  cases es with
  | nil => simpa [entriesText] using first_entryPattern e hwhole (.inr ⟨rfl, [], rfl⟩)
  | cons e' es =>
    rw [entriesText_cons_cons, List.append_assoc, List.append_assoc]
    exact first_entryPattern e hwhole (.inl rfl)

theorem first_star_entries {es : List LinkEntry} (hwhole : ∀ e ∈ es, e.whole < 1000) :
    (Regex.star entryPattern).First (entriesText es ++ ['\n']) [] ['\n'] := by
  induction es with
  | nil => exact First.star_stop (fails_entryPattern_newline [])
  | cons e es ih =>
    refine (first_entriesText e es (hwhole e (by simp))).star_step ?_
      (ih fun e' he' => hwhole e' (List.mem_cons_of_mem e he'))
    cases es with
    | nil =>
      have : e.text ≠ [] := by simp [LinkEntry.text]
      have := List.length_pos_iff.2 this
      simpa [entriesText] using this
    | cons e' es =>
      rw [entriesText_cons_cons]
      simp
      omega

/-- A line with at least one entry is found, with its receiver and its entries. -/
theorem search_linksLine (receiver : ℕ) {e : LinkEntry} {es : List LinkEntry}
    (hwhole : ∀ e' ∈ e :: es, e'.whole < 1000) :
    linksPattern.search (linksLine receiver (e :: es)) =
      some ([Nat.toDigits 10 receiver, entriesText (e :: es)], ['\n']) := by
  have hentries : (Regex.plus entryPattern).First (entriesText (e :: es) ++ ['\n']) [] ['\n'] :=
    (first_entriesText e es (hwhole e (by simp))).plus
      (first_star_entries fun e' he' => hwhole e' (List.mem_cons_of_mem e he'))
  have hreceiver := First.plus_char (s := Nat.toDigits 10 receiver)
    (t := [';', ' '] ++ (entriesText (e :: es) ++ ['\n'])) Nat.toDigits_ne_nil
    (isDigit_toDigits receiver) (Fails.char rfl)
  exact First.search (First.word (hreceiver.group.seq (First.word hentries.group)))

/-- A node without neighbors prints a line that is not found. -/
theorem search_linksLine_nil (receiver : ℕ) :
    linksPattern.search (linksLine receiver []) = none := by
  -- the text of the pattern is there, but no entry follows it
  have hhere : linksPattern.Fails (linksLine receiver []) := by
    refine Fails.word (Fails.seq_of_forall ?_)
    intro m hm
    rw [run] at hm
    obtain ⟨m', hm', rfl⟩ := List.mem_map.1 hm
    obtain ⟨ds, hds, hdigits⟩ := run_plus_char hm'
    have hend : (Regex.word [';', ' '] (.group (.plus entryPattern))).Fails [';', ' ', '\n'] :=
      Fails.word (Fails.group (Fails.seq (fails_entryPattern_newline [])))
    change (Regex.word _ _).Fails m'.2
    change Nat.toDigits 10 receiver ++ [';', ' ', '\n'] = ds ++ m'.2 at hds
    rcases List.append_eq_append_iff.1 hds with ⟨ds', rfl, hrest⟩ | ⟨ds', hdrop, hrest⟩
    · -- the digits end where the number ends
      cases ds' with
      | nil =>
        rw [List.nil_append] at hrest
        rw [← hrest]
        exact hend
      | cons c ds' =>
        have hc := hdigits c (by simp)
        rw [List.cons_append, List.cons.injEq] at hrest
        rw [← hrest.1] at hc
        cases hc
    · rw [hrest]
      cases ds' with
      | nil => exact hend
      | cons c ds' =>
        -- a digit is left, where a semicolon should be
        have hc := isDigit_toDigits receiver c (by rw [hdrop]; simp)
        refine Fails.seq (Fails.char (beq_eq_false_iff_ne.2 ?_))
        rintro rfl
        cases hc
  -- and no other position has an `E`
  have hrest : ∀ s : List Char, 'E' ∉ s → linksPattern.search s = none := by
    intro s
    induction s with
    | nil => intro _; rfl
    | cons c s ih =>
      intro hs
      rw [List.mem_cons, not_or] at hs
      refine search_eq_none_of_fails (Fails.seq (Fails.char ?_)) (ih hs.2)
      exact beq_eq_false_iff_ne.2 (Ne.symm hs.1)
  refine search_eq_none_of_fails hhere (hrest _ ?_)
  have hdigits := not_mem_toDigits (c := 'E') rfl receiver
  simp [hdigits]

/-! ## Edges -/

theorem LinkEntry.text_chars (e : LinkEntry) :
    ∀ c ∈ e.text, c.isDigit = true ∨ c = ':' ∨ c = '.' := by
  intro c hc
  simp only [LinkEntry.text, List.mem_append, List.mem_cons] at hc
  rcases hc with hc | rfl | hc | rfl | hc
  · exact .inl (isDigit_toDigits _ c hc)
  · exact .inr (.inl rfl)
  · exact .inl (isDigit_toDigits _ c hc)
  · exact .inr (.inr rfl)
  · exact .inl (isDigit_toDigits _ c hc)

/-- Splitting at a separator that an entry does not contain. -/
theorem splitCommaSpace_append {w s : List Char} (hw : ',' ∉ w) :
    splitCommaSpace (w ++ ',' :: ' ' :: s) = w :: splitCommaSpace s := by
  induction w with
  | nil => rfl
  | cons c w ih =>
    rw [List.mem_cons, not_or] at hw
    have hstep : ∀ t, t ≠ [] →
        splitCommaSpace (c :: t) = (splitCommaSpace t).modifyHead (c :: ·) := by
      intro t ht
      obtain ⟨d, t, rfl⟩ := List.exists_cons_of_ne_nil ht
      rw [splitCommaSpace]
      rintro rfl _
      exact hw.1 rfl
    rw [List.cons_append, hstep _ (by simp), ih hw.2]
    rfl

theorem splitCommaSpace_eq_singleton {w : List Char} (hw : ',' ∉ w) :
    splitCommaSpace w = [w] := by
  induction w with
  | nil => rfl
  | cons c w ih =>
    rw [List.mem_cons, not_or] at hw
    cases w with
    | nil => rfl
    | cons d w =>
      rw [splitCommaSpace, ih hw.2]
      · rfl
      · rintro rfl _
        exact hw.1 rfl

theorem splitCommaSpace_entriesText (e : LinkEntry) (es : List LinkEntry) :
    splitCommaSpace (entriesText (e :: es)) = (e :: es).map LinkEntry.text := by
  have hcomma : ∀ e : LinkEntry, ',' ∉ e.text := by
    intro e h
    rcases e.text_chars _ h with h | h | h <;> simp at h
  induction es generalizing e with
  | nil => simpa [entriesText] using splitCommaSpace_eq_singleton (hcomma e)
  | cons e' es ih =>
    rw [entriesText_cons_cons, List.cons_append, List.cons_append, List.nil_append,
      splitCommaSpace_append (hcomma e), ih e']
    rfl

/-- Text between two digits has no blanks to strip. -/
theorem strip_eq_self {s : List Char} {c d : Char} {t u : List Char} (hc : s = c :: t)
    (hd : s = u ++ [d]) (hc' : c.isWhitespace = false) (hd' : d.isWhitespace = false) :
    strip s = s := by
  rw [strip]
  have h₁ : s.dropWhile Char.isWhitespace = s := by
    rw [hc, List.dropWhile_cons_of_neg (by simp [hc'])]
  rw [h₁, hd, List.reverse_append, List.reverse_singleton, List.singleton_append,
    List.dropWhile_cons_of_neg (by simp [hd']), List.reverse_cons, List.reverse_reverse]

theorem isWhitespace_of_isDigit {c : Char} (h : c.isDigit = true) : c.isWhitespace = false := by
  rw [Bool.eq_false_iff]
  intro hw
  simp only [Char.isWhitespace, Bool.or_eq_true, decide_eq_true_eq] at hw
  rcases hw with ((rfl | rfl) | rfl) | rfl <;> cases h

theorem entriesText_head (e : LinkEntry) (es : List LinkEntry) :
    ∃ c t, entriesText (e :: es) = c :: t ∧ c.isDigit = true := by
  obtain ⟨c, t, hct⟩ := List.exists_cons_of_ne_nil (Nat.toDigits_ne_nil (n := e.sender) (b := 10))
  have hc := isDigit_toDigits e.sender c (by rw [hct]; simp)
  cases es with
  | nil =>
    refine ⟨c, t ++ ':' :: (Nat.toDigits 10 e.whole ++ '.' :: Nat.toDigits 10 e.fraction), ?_, hc⟩
    simp [entriesText, LinkEntry.text, hct]
  | cons e' es =>
    rw [entriesText_cons_cons, LinkEntry.text, hct]
    exact ⟨c, _, rfl, hc⟩

theorem entriesText_last (e : LinkEntry) (es : List LinkEntry) :
    ∃ u d, entriesText (e :: es) = u ++ [d] ∧ d.isDigit = true := by
  induction es generalizing e with
  | nil =>
    have hne := Nat.toDigits_ne_nil (n := e.fraction) (b := 10)
    refine ⟨Nat.toDigits 10 e.sender ++ ':' :: (Nat.toDigits 10 e.whole ++
      '.' :: (Nat.toDigits 10 e.fraction).dropLast), (Nat.toDigits 10 e.fraction).getLast hne, ?_,
      isDigit_toDigits _ _ (List.getLast_mem hne)⟩
    simp [entriesText, LinkEntry.text, List.dropLast_concat_getLast]
  | cons e' es ih =>
    obtain ⟨u, d, hud, hd⟩ := ih e'
    refine ⟨e.text ++ ([',', ' '] ++ u), d, ?_, hd⟩
    rw [entriesText_cons_cons, hud]
    simp

theorem strip_entriesText (e : LinkEntry) (es : List LinkEntry) :
    strip (entriesText (e :: es)) = entriesText (e :: es) := by
  obtain ⟨c, t, hct, hc⟩ := entriesText_head e es
  obtain ⟨u, d, hud, hd⟩ := entriesText_last e es
  exact strip_eq_self hct hud (isWhitespace_of_isDigit hc) (isWhitespace_of_isDigit hd)

/-- The value an edge gets. -/
def corrected (value : ℚ) : ℚ := if value = 1 then value + 87 / 1000 else value

/-- One round, on an entry. -/
theorem addEdge_text (bound : ℚ) (receiver : ℕ) (g : Graphs) (e : LinkEntry) :
    addEdge bound receiver g e.text =
      if e.value < bound then
        if corrected e.value = 0 then .error .zeroDivisionError
        else .ok ⟨setEdge g.etx e.sender receiver (corrected e.value),
          setEdge g.prr e.sender receiver (1 / corrected e.value * 100)⟩
      else .ok g := by
  have hcolon : ':' ∉ Nat.toDigits 10 e.whole ++ '.' :: Nat.toDigits 10 e.fraction := by
    simp [not_mem_toDigits (c := ':') rfl]
  rw [addEdge, LinkEntry.text,
    List.splitOn_append_cons_self_of_not_mem (not_mem_toDigits rfl e.sender),
    List.splitOn_eq_singleton hcolon]
  dsimp only
  rw [parseFloat_toDigits, parseInt_toDigits]
  rfl

/-- A printed line leads to one round for each of its entries. -/
theorem matchNeighborData_linksLine (bound : ℚ) (g : Graphs) (receiver : ℕ) {es : List LinkEntry}
    (hwhole : ∀ e ∈ es, e.whole < 1000) :
    matchNeighborData bound g (linksLine receiver es) =
      (es.map LinkEntry.text).foldlM (addEdge bound receiver) g := by
  cases es with
  | nil =>
    rw [matchNeighborData, search_linksLine_nil]
    rfl
  | cons e es =>
    rw [matchNeighborData, search_linksLine receiver hwhole]
    dsimp only
    rw [parseInt_toDigits, strip_entriesText, splitCommaSpace_entriesText]
    rfl

@[simp] theorem setEdge_self (graph : ℕ → ℕ → Option ℚ) (sender receiver : ℕ) (value : ℚ) :
    setEdge graph sender receiver value sender receiver = some value := by
  simp [setEdge]

theorem setEdge_of_ne {graph : ℕ → ℕ → Option ℚ} {sender receiver a r : ℕ} (value : ℚ)
    (h : ¬ (a = sender ∧ r = receiver)) :
    setEdge graph sender receiver value a r = graph a r := by
  unfold setEdge
  by_cases ha : a = sender
  · subst ha
    have hr : r ≠ receiver := fun hr => h ⟨rfl, hr⟩
    simp [hr]
  · rw [Function.update_of_ne ha]

/-- The edges a graph gets from the entries of one line, and no others. -/
structure Edges (bound : ℚ) (receiver : ℕ) (es : List LinkEntry) (g g' : Graphs) : Prop where
  set : ∀ e ∈ es, e.value < bound → g'.etx e.sender receiver = some (corrected e.value)
  keep : ∀ a r, ¬ (r = receiver ∧ ∃ e ∈ es, e.sender = a ∧ e.value < bound) →
    g'.etx a r = g.etx a r

/-- The whole loop, if no quality is zero. -/
theorem foldlM_addEdge {bound : ℚ} (receiver : ℕ) {es : List LinkEntry} :
    ∀ {g : Graphs}, (es.map LinkEntry.sender).Nodup →
      (∀ e ∈ es, e.value < bound → corrected e.value ≠ 0) →
      ∃ g', (es.map LinkEntry.text).foldlM (addEdge bound receiver) g = .ok g' ∧
        Edges bound receiver es g g' := by
  -- Over the entries of the line; the sender of each is another one.
  induction es with
  | nil =>
    intro g _ _
    exact ⟨g, rfl, by simp, fun _ _ _ => rfl⟩
  | cons e es ih =>
    intro g hnodup hzero
    rw [List.map_cons, List.nodup_cons] at hnodup
    have hzero' : ∀ e' ∈ es, e'.value < bound → corrected e'.value ≠ 0 := fun e' he' =>
      hzero e' (List.mem_cons_of_mem e he')
    rw [List.map_cons, List.foldlM_cons, addEdge_text]
    -- Only estimates below the bound become an edge.
    by_cases hlt : e.value < bound
    · rw [if_pos hlt, if_neg (hzero e (by simp) hlt)]
      obtain ⟨g', hg', hedges⟩ := ih (g := ⟨setEdge g.etx e.sender receiver (corrected e.value),
        setEdge g.prr e.sender receiver (1 / corrected e.value * 100)⟩) hnodup.2 hzero'
      refine ⟨g', hg', ?_, ?_⟩
      · intro e' he' hlt'
        rcases List.mem_cons.1 he' with rfl | he'
        · -- the later entries name other senders
          rw [hedges.keep]
          · exact setEdge_self _ _ _ _
          · rintro ⟨_, e'', he'', hsender, _⟩
            exact hnodup.1 (hsender ▸ List.mem_map_of_mem he'')
        · exact hedges.set e' he' hlt'
      · intro a r h
        rw [hedges.keep a r fun ⟨hr, e', he', hsender⟩ =>
          h ⟨hr, e', List.mem_cons_of_mem e he', hsender⟩]
        refine setEdge_of_ne _ ?_
        rintro ⟨rfl, rfl⟩
        exact h ⟨rfl, e, by simp, rfl, hlt⟩
    · rw [if_neg hlt]
      obtain ⟨g', hg', hedges⟩ := ih (g := g) hnodup.2 hzero'
      refine ⟨g', hg', ?_, ?_⟩
      · intro e' he' hlt'
        rcases List.mem_cons.1 he' with rfl | he'
        · exact absurd hlt' hlt
        · exact hedges.set e' he' hlt'
      · intro a r h
        exact hedges.keep a r fun ⟨hr, e', he', hsender⟩ =>
          h ⟨hr, e', List.mem_cons_of_mem e he', hsender⟩

/-- A quality of zero below the bound ends the parser. -/
theorem foldlM_addEdge_zero {bound : ℚ} (receiver : ℕ) {es : List LinkEntry} {e : LinkEntry}
    (he : e ∈ es) (hlt : e.value < bound) (hzero : corrected e.value = 0) :
    ∀ g : Graphs, ∃ err, (es.map LinkEntry.text).foldlM (addEdge bound receiver) g =
      .error err := by
  induction es with
  | nil => cases he
  | cons e' es ih =>
    intro g
    rw [List.map_cons, List.foldlM_cons]
    rcases List.mem_cons.1 he with rfl | he
    · rw [addEdge_text, if_pos hlt, if_pos hzero]
      exact ⟨.zeroDivisionError, rfl⟩
    · cases addEdge bound receiver g e'.text with
      | error err => exact ⟨err, rfl⟩
      | ok g' => exact ih he g'

end MasterScheduler.Host

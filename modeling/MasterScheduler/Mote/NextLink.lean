import MasterScheduler.Mote.Hopping
import MasterScheduler.Mote.Tsch

/-!
# MasterScheduler.Mote.NextLink — the link of the next slot

`tsch_schedule_get_next_active_link` goes once over all links and keeps the best
one and a backup. The backup link is for the case that the best one turns out
useless when the time comes, so it must be one to receive on.

1. **Time**: the slots up to the next occurrence of a link (`timeToTimeslot_spec`).
2. **Pass**: what is known after a part of the links (`Kept`), kept by one link.
3. **Result**: `getNextActiveLink_spec`, independently of the order of the links.

While the schedule is locked the function returns `NULL`.
-/

namespace MasterScheduler.Mote.NextLink

open Lib Hopping

/-! ## Model -/

/-- A link with the handle of its slotframe. -/
abbrev SlotframeLink := ℕ × TschLink

/-- `link_options & option`. -/
def SlotframeLink.option (l : SlotframeLink) (option : ℕ) : ℕ := l.2.linkOptions &&& option

def SlotframeLink.tx (l : SlotframeLink) : Prop := l.option linkOptionTx ≠ 0

def SlotframeLink.rx (l : SlotframeLink) : Prop := l.option linkOptionRx ≠ 0

instance (l : SlotframeLink) : Decidable l.tx := inferInstanceAs (Decidable (_ ≠ _))

instance (l : SlotframeLink) : Decidable l.rx := inferInstanceAs (Decidable (_ ≠ _))

/-- `time_to_curr_best`, `curr_best` and `curr_backup`, once there is a link. -/
structure Selection where
  timeToCurrBest : ℕ
  currBest : SlotframeLink
  currBackup : Option SlotframeLink
deriving DecidableEq

/-- `time_to_timeslot`, a 16 bit number. -/
def timeToTimeslot (size timeslot : ℕ) (l : TschLink) : ℕ :=
  (if timeslot < l.timeslot then l.timeslot - timeslot
    -- the slot is in the next round of the slotframe
    else size + l.timeslot - timeslot) % 2 ^ 16

/-- Whether `l` is the new best of two links in one slot. By standard Tx links come first, then
the lowest handle. -/
def takesOver (currBest l : SlotframeLink) : Bool :=
  if currBest.option linkOptionTx = l.option linkOptionTx then l.1 < currBest.1 else l.tx

/-- The backup after a second link in the slot. -/
def nextBackup (s : Selection) (l : SlotframeLink) : Option SlotframeLink :=
  match s.currBackup with
  | some backup => some backup
  | none =>
      let backup := if takesOver s.currBest l = false ∧ l.rx then some l else none
      -- the best link is looked at whether it is replaced or not
      if s.currBest.rx then some s.currBest else backup

/-- The body of the inner loop. -/
def consider (acc : Option Selection) (time : ℕ) (l : SlotframeLink) : Option Selection :=
  match acc with
  | none => some ⟨time, l, none⟩
  | some s =>
      if time < s.timeToCurrBest then some ⟨time, l, none⟩
      else if time = s.timeToCurrBest then
        some ⟨time, if takesOver s.currBest l then l else s.currBest, nextBackup s l⟩
      else some s

/-- The inner loop, over the links of a slotframe. -/
def considerSlotframe (asn : Asn) (acc : Option Selection) (sf : TschSlotframe) :
    Option Selection :=
  let timeslot := asnMod asn (asnDivisorInit sf.size)
  sf.links.entries.foldl
    (fun acc l => consider acc (timeToTimeslot sf.size timeslot l) (sf.handle, l)) acc

/-- `tsch_schedule_get_next_active_link`. -/
def getNextActiveLink (locked : Bool) (asn : Asn) (t : SlotframeList) : Option Selection :=
  if locked then none else t.entries.foldl (considerSlotframe asn) none

/-! ## Meaning -/

def asnNat (asn : Asn) : ℕ := asn.ms1b.toNat * 2 ^ 32 + asn.ls4b.toNat

/-- A link of the schedule, with the handle and the size of its slotframe. -/
def Installed (t : SlotframeList) (handle size : ℕ) (l : TschLink) : Prop :=
  ∃ sf ∈ t.entries, sf.handle = handle ∧ sf.size = size ∧ l ∈ sf.links.entries

/-- A schedule whose timeslots are below the sizes of their slotframes, which are 16 bit numbers.
That there is one link per timeslot and one slotframe per handle is part of `SlotframeList`. -/
structure Fitting (t : SlotframeList) : Prop where
  timeslot : ∀ h size l, Installed t h size l → l.timeslot < size
  size : ∀ h size l, Installed t h size l → size < 2 ^ 16

/-- A link that is active in a slot. -/
def IsActive (t : SlotframeList) (slot : ℕ) (l : SlotframeLink) : Prop :=
  ∃ size, Installed t l.1 size l.2 ∧ slot % size = l.2.timeslot

/-- The Tx option first, then the lowest handle. -/
def Preferred (l l' : SlotframeLink) : Prop := l.tx ∧ ¬ l'.tx ∨ (l.tx ↔ l'.tx) ∧ l.1 < l'.1

/-- What the selection is for. -/
structure Selects (t : SlotframeList) (asn : ℕ) (s : Selection) : Prop where
  later : 1 ≤ s.timeToCurrBest
  least : ∀ k, 1 ≤ k → k < s.timeToCurrBest → ∀ l, ¬ IsActive t (asn + k) l
  active : IsActive t (asn + s.timeToCurrBest) s.currBest
  best : ∀ l, IsActive t (asn + s.timeToCurrBest) l → l ≠ s.currBest → Preferred s.currBest l
  backup : ¬ s.currBest.rx → (∃ l, IsActive t (asn + s.timeToCurrBest) l ∧ l.rx) →
    ∃ b, s.currBackup = some b ∧ IsActive t (asn + s.timeToCurrBest) b ∧ b.rx ∧ b ≠ s.currBest

/-- The same links in slotframes of the same sizes, in any order. -/
def SameLinks (t t' : SlotframeList) : Prop :=
  ∀ h size l, Installed t h size l ↔ Installed t' h size l

/-! ## Time -/

theorem asnMod_eq (asn : Asn) (size : ℕ) : asnMod asn (asnDivisorInit size) = asnNat asn % size := by
  unfold asnMod asnDivisorInit asnNat
  dsimp only
  -- the remainder is the one of 2 ^ 32
  have hrem : (0xffffffff % size + 1) % size = 2 ^ 32 % size := by
    rw [Nat.mod_add_mod]
    norm_num
  rw [hrem, ← Nat.add_mod, Nat.add_comm, Nat.add_mod, Nat.mul_mod_mod, ← Nat.add_mod]

/-- The slots up to the next occurrence of a timeslot. -/
theorem timeToTimeslot_spec {size : ℕ} {l : TschLink} (asn : ℕ) (hl : l.timeslot < size)
    (hsize : size < 2 ^ 16) :
    1 ≤ timeToTimeslot size (asn % size) l ∧
      (asn + timeToTimeslot size (asn % size) l) % size = l.timeslot ∧
      ∀ k, 1 ≤ k → (asn + k) % size = l.timeslot → timeToTimeslot size (asn % size) l ≤ k := by
  have hpos : 0 < size := by omega
  have hmod : asn % size < size := Nat.mod_lt _ hpos
  have hdiv := Nat.div_add_mod asn size
  -- counted from the start of the round the ASN is in
  have hround : ∀ k, (asn + k) % size = (asn % size + k) % size := by
    intro k
    rw [Nat.mod_add_mod]
  unfold timeToTimeslot
  rw [hround]
  split_ifs with hlt
  · rw [Nat.mod_eq_of_lt (by omega)]
    refine ⟨by omega, ?_, ?_⟩
    · rw [Nat.add_sub_cancel' hlt.le, Nat.mod_eq_of_lt hl]
    · intro k hk hact
      by_contra hshort
      rw [hround, Nat.mod_eq_of_lt (by omega)] at hact
      omega
  · rw [Nat.mod_eq_of_lt (a := size + l.timeslot - asn % size) (by omega)]
    refine ⟨by omega, ?_, ?_⟩
    · rw [show asn % size + (size + l.timeslot - asn % size) = l.timeslot + size by omega,
        Nat.add_mod_right, Nat.mod_eq_of_lt hl]
    · intro k hk hact
      by_contra hshort
      rw [hround] at hact
      by_cases hwrap : asn % size + k < size
      · rw [Nat.mod_eq_of_lt hwrap] at hact
        omega
      · rw [Nat.mod_eq_sub_mod (by omega), Nat.mod_eq_of_lt (by omega)] at hact
        omega

/-! ## Pass -/

/-- What is known after some links, each with its time. -/
structure Kept (seen : List (ℕ × SlotframeLink)) (s : Selection) : Prop where
  mem : (s.timeToCurrBest, s.currBest) ∈ seen
  least : ∀ c ∈ seen, s.timeToCurrBest ≤ c.1
  best : ∀ c ∈ seen, c.1 = s.timeToCurrBest → c.2 ≠ s.currBest → Preferred s.currBest c.2
  backup : ∀ b, s.currBackup = some b → (s.timeToCurrBest, b) ∈ seen ∧ b.rx
  noBackup : s.currBackup = none →
    ∀ c ∈ seen, c.1 = s.timeToCurrBest → c.2 ≠ s.currBest → ¬ c.2.rx

def KeptBy (seen : List (ℕ × SlotframeLink)) : Option Selection → Prop
  | none => seen = []
  | some s => Kept seen s

/-- No two links of one slotframe are active in the same slot. -/
def OnePerSlot (links : List (ℕ × SlotframeLink)) : Prop :=
  ∀ c ∈ links, ∀ c' ∈ links, c.1 = c'.1 → c.2.1 = c'.2.1 → c = c'

theorem Preferred.trans {a b c : SlotframeLink} (hab : Preferred a b) (hbc : Preferred b c) :
    Preferred a c := by
  rcases hab with ⟨ha, hb⟩ | ⟨hab, hlt⟩
  · rcases hbc with ⟨hb', _⟩ | ⟨hbc, _⟩
    · exact absurd hb' hb
    · exact .inl ⟨ha, fun hc => hb (hbc.2 hc)⟩
  · rcases hbc with ⟨hb, hc⟩ | ⟨hbc, hlt'⟩
    · exact .inl ⟨hab.2 hb, hc⟩
    · exact .inr ⟨hab.trans hbc, hlt.trans hlt'⟩

/-- The option is a single bit. -/
theorem option_eq_iff (a b : SlotframeLink) :
    a.option linkOptionTx = b.option linkOptionTx ↔ (a.tx ↔ b.tx) := by
  have hbit : ∀ l : SlotframeLink, l.option linkOptionTx = l.2.linkOptions % 2 := by
    intro l
    unfold SlotframeLink.option linkOptionTx
    rw [Nat.and_one_is_mod]
  unfold SlotframeLink.tx
  rw [hbit, hbit]
  omega

/-- Of two links in one slot the preferred one is taken. -/
theorem takesOver_spec {best l : SlotframeLink} (hne : l.1 ≠ best.1) :
    if takesOver best l then Preferred l best else Preferred best l := by
  unfold takesOver
  by_cases heq : best.option linkOptionTx = l.option linkOptionTx
  · have hiff := (option_eq_iff best l).1 heq
    rw [if_pos heq]
    by_cases hlt : l.1 < best.1
    · rw [decide_eq_true hlt, if_pos rfl]
      exact Or.inr ⟨hiff.symm, hlt⟩
    · rw [decide_eq_false hlt, if_neg Bool.false_ne_true]
      exact Or.inr ⟨hiff, by omega⟩
  · have hiff := fun h => heq ((option_eq_iff best l).2 h)
    rw [if_neg heq]
    by_cases htx : l.tx
    · have hbest : ¬ best.tx := fun h => hiff ⟨fun _ => htx, fun _ => h⟩
      rw [decide_eq_true htx, if_pos rfl]
      exact Or.inl ⟨htx, hbest⟩
    · have hbest : best.tx := by
        by_contra h
        exact hiff ⟨fun h' => absurd h' h, fun h' => absurd h' htx⟩
      rw [decide_eq_false htx, if_neg Bool.false_ne_true]
      exact Or.inl ⟨hbest, htx⟩

section

variable {seen : List (ℕ × SlotframeLink)} {s : Selection} {time : ℕ} {l : SlotframeLink}

/-- A link that comes first, or before all others. -/
theorem Kept.earlier (h : ∀ c ∈ seen, time < c.1) : Kept (seen ++ [(time, l)]) ⟨time, l, none⟩ := by
  have hcases : ∀ c ∈ seen ++ [(time, l)], time < c.1 ∨ c = (time, l) := by
    intro c hc
    rcases List.mem_append.1 hc with hc | hc
    · exact .inl (h c hc)
    · exact .inr (List.mem_singleton.1 hc)
  constructor
  · simp
  · intro c hc
    rcases hcases c hc with hlt | rfl
    · exact hlt.le
    · exact le_rfl
  · intro c hc htime hne
    rcases hcases c hc with hlt | rfl
    · exact absurd htime hlt.ne'
    · exact absurd rfl hne
  · intro b hb
    cases hb
  · intro _ c hc htime hne
    rcases hcases c hc with hlt | rfl
    · exact absurd htime hlt.ne'
    · exact absurd rfl hne

/-- A link that comes later changes nothing. -/
theorem Kept.later (h : Kept seen s) (hlt : s.timeToCurrBest < time) :
    Kept (seen ++ [(time, l)]) s := by
  constructor
  · exact List.mem_append_left _ h.mem
  · intro c hc
    rcases List.mem_append.1 hc with hc | hc
    · exact h.least c hc
    · rw [List.mem_singleton.1 hc]
      exact hlt.le
  · intro c hc htime hne
    rcases List.mem_append.1 hc with hc | hc
    · exact h.best c hc htime hne
    · rw [List.mem_singleton.1 hc] at htime
      exact absurd htime hlt.ne'
  · intro b hb
    exact ⟨List.mem_append_left _ (h.backup b hb).1, (h.backup b hb).2⟩
  · intro hb c hc htime hne
    rcases List.mem_append.1 hc with hc | hc
    · exact h.noBackup hb c hc htime hne
    · rw [List.mem_singleton.1 hc] at htime
      exact absurd htime hlt.ne'

/-- The backup of a second link in the slot. -/
theorem nextBackup_cases (s : Selection) (l : SlotframeLink) :
    (∃ b, s.currBackup = some b ∧ nextBackup s l = some b) ∨
      s.currBackup = none ∧
        (s.currBest.rx ∧ nextBackup s l = some s.currBest ∨
          ¬ s.currBest.rx ∧ takesOver s.currBest l = false ∧ l.rx ∧ nextBackup s l = some l ∨
          ¬ s.currBest.rx ∧ (takesOver s.currBest l = true ∨ ¬ l.rx) ∧ nextBackup s l = none) := by
  unfold nextBackup
  cases hb : s.currBackup with
  | some b => exact .inl ⟨b, rfl, rfl⟩
  | none =>
    right
    by_cases hbest : s.currBest.rx <;> by_cases hl : l.rx <;>
      cases hover : takesOver s.currBest l <;> simp [hbest, hl]

/-- A link in the slot of the best one so far. -/
theorem Kept.overlap (h : Kept seen s)
    (hone : OnePerSlot (seen ++ [(s.timeToCurrBest, l)])) :
    Kept (seen ++ [(s.timeToCurrBest, l)])
      ⟨s.timeToCurrBest, if takesOver s.currBest l then l else s.currBest, nextBackup s l⟩ := by
  -- the links with the same handle are the same
  have hhandle : l.1 = s.currBest.1 → l = s.currBest := by
    intro heq
    have := hone _ (List.mem_append_right _ (List.mem_singleton_self _)) _
      (List.mem_append_left _ h.mem) rfl heq
    exact congrArg Prod.snd this
  have hmem : (s.timeToCurrBest, if takesOver s.currBest l then l else s.currBest) ∈
      seen ++ [(s.timeToCurrBest, l)] := by
    split_ifs
    · simp
    · exact List.mem_append_left _ h.mem
  refine ⟨hmem, ?_, ?_, ?_, ?_⟩
  · intro c hc
    rcases List.mem_append.1 hc with hc | hc
    · exact h.least c hc
    · rw [List.mem_singleton.1 hc]
  · intro c hc htime hne
    by_cases hsame : l = s.currBest
    · -- the best link once more
      subst hsame
      rw [ite_self] at hne ⊢
      rcases List.mem_append.1 hc with hc | hc
      · exact h.best c hc htime hne
      · rw [List.mem_singleton.1 hc] at hne
        exact absurd rfl hne
    · have hover := @takesOver_spec s.currBest l fun heq => hsame (hhandle heq)
      dsimp only at htime hne ⊢
      split_ifs at hover hne ⊢ with htakes
      · -- the new link is preferred to the old best, and so to all others
        rcases List.mem_append.1 hc with hc | hc
        · by_cases hbest : c.2 = s.currBest
          · rw [hbest]
            exact hover
          · exact hover.trans (h.best c hc htime hbest)
        · rw [List.mem_singleton.1 hc] at hne
          exact absurd rfl hne
      · rcases List.mem_append.1 hc with hc | hc
        · exact h.best c hc htime hne
        · rw [List.mem_singleton.1 hc]
          exact hover
  · intro b hb
    dsimp only at hb
    rcases nextBackup_cases s l with ⟨b', hold, hnew⟩ |
      ⟨_, ⟨hrx, hnew⟩ | ⟨_, _, hrx, hnew⟩ | ⟨_, _, hnew⟩⟩
    · rw [hnew] at hb
      cases hb
      exact ⟨List.mem_append_left _ (h.backup b hold).1, (h.backup b hold).2⟩
    · rw [hnew] at hb
      cases hb
      exact ⟨List.mem_append_left _ h.mem, hrx⟩
    · rw [hnew] at hb
      cases hb
      exact ⟨by simp, hrx⟩
    · rw [hnew] at hb
      cases hb
  · intro hb c hc htime hne
    dsimp only at hb htime hne
    rcases nextBackup_cases s l with ⟨_, _, hnew⟩ |
      ⟨hold, ⟨_, hnew⟩ | ⟨_, _, _, hnew⟩ | ⟨hbest, hl, _⟩⟩
    · rw [hnew] at hb
      cases hb
    · rw [hnew] at hb
      cases hb
    · rw [hnew] at hb
      cases hb
    · -- neither of the two can receive, and before there was none
      rcases List.mem_append.1 hc with hc | hc
      · by_cases hc' : c.2 = s.currBest
        · rw [hc']
          exact hbest
        · exact h.noBackup hold c hc htime hc'
      · rw [List.mem_singleton.1 hc] at hne ⊢
        rcases hl with hover | hl
        · rw [if_pos hover] at hne
          exact absurd rfl hne
        · exact hl

/-- One link. -/
theorem KeptBy.consider {acc : Option Selection} (h : KeptBy seen acc)
    (hone : OnePerSlot (seen ++ [(time, l)])) :
    KeptBy (seen ++ [(time, l)]) (consider acc time l) := by
  cases acc with
  | none =>
    have hnil : seen = [] := h
    subst hnil
    exact Kept.earlier (fun c hc => absurd hc List.not_mem_nil)
  | some s =>
    have hkept : Kept seen s := h
    unfold NextLink.consider
    dsimp only
    rcases lt_trichotomy time s.timeToCurrBest with hlt | heq | hgt
    · rw [if_pos hlt]
      exact Kept.earlier (fun c hc => hlt.trans_le (hkept.least c hc))
    · subst heq
      rw [if_neg (lt_irrefl _), if_pos rfl]
      exact hkept.overlap hone
    · rw [if_neg hgt.not_gt, if_neg hgt.ne']
      exact hkept.later hgt

end

/-! ## Result -/

section

variable {t : SlotframeList} {asn : Asn}

/-- The links in the order of the pass, each with its time. -/
def candidates (asn : Asn) (t : SlotframeList) : List (ℕ × SlotframeLink) :=
  t.entries.flatMap fun sf =>
    sf.links.entries.map fun l =>
      (timeToTimeslot sf.size (asnMod asn (asnDivisorInit sf.size)) l, (sf.handle, l))

theorem mem_candidates {c : ℕ × SlotframeLink} :
    c ∈ candidates asn t ↔ ∃ size, Installed t c.2.1 size c.2.2 ∧
      c.1 = timeToTimeslot size (asnNat asn % size) c.2.2 := by
  unfold candidates Installed
  rw [List.mem_flatMap]
  constructor
  · rintro ⟨sf, hsf, hc⟩
    rcases List.mem_map.1 hc with ⟨l, hl, rfl⟩
    exact ⟨sf.size, ⟨sf, hsf, rfl, rfl, hl⟩, by rw [asnMod_eq]⟩
  · rintro ⟨size, ⟨sf, hsf, hh, rfl, hl⟩, htime⟩
    refine ⟨sf, hsf, List.mem_map.2 ⟨c.2.2, hl, ?_⟩⟩
    rw [asnMod_eq, ← htime, hh]

/-- A pass that finds nothing. -/
theorem not_installed_of_nil (h : candidates asn t = []) (handle size : ℕ) (l : TschLink) :
    ¬ Installed t handle size l := by
  intro hl
  have hmem : (timeToTimeslot size (asnNat asn % size) l, (handle, l)) ∈ candidates asn t :=
    mem_candidates.2 ⟨size, hl, rfl⟩
  rw [h] at hmem
  cases hmem

/-- A slotframe has one size, and one link per timeslot. -/
theorem Installed.unique {h size size' : ℕ} {l l' : TschLink} (hl : Installed t h size l)
    (hl' : Installed t h size' l') :
    size = size' ∧ (l.timeslot = l'.timeslot → l = l') := by
  rcases hl with ⟨sf, hsf, hh, hsize, hmem⟩
  rcases hl' with ⟨sf', hsf', hh', hsize', hmem'⟩
  have hsame : sf = sf' := List.inj_on_of_nodup_map t.nodup hsf hsf' (hh.trans hh'.symm)
  subst hsame
  constructor
  · exact hsize.symm.trans hsize'
  · intro hslot
    exact List.inj_on_of_nodup_map sf.links.nodup hmem hmem' hslot

theorem onePerSlot_candidates (asn : Asn) (ht : Fitting t) : OnePerSlot (candidates asn t) := by
  intro c hc c' hc' htime hh
  rcases mem_candidates.1 hc with ⟨size, hl, hsize⟩
  rcases mem_candidates.1 hc' with ⟨size', hl', hsize'⟩
  rw [hh] at hl
  rcases hl.unique hl' with ⟨rfl, huniq⟩
  -- the time leads to the timeslot
  have hspec := timeToTimeslot_spec (asnNat asn) (ht.timeslot _ _ _ hl) (ht.size _ _ _ hl)
  have hspec' := timeToTimeslot_spec (asnNat asn) (ht.timeslot _ _ _ hl') (ht.size _ _ _ hl')
  rw [← hsize] at hspec
  rw [← hsize', ← htime] at hspec'
  exact Prod.ext htime (Prod.ext hh (huniq (hspec.2.1.symm.trans hspec'.2.1)))

theorem OnePerSlot.sublist {l l' : List (ℕ × SlotframeLink)} (h : OnePerSlot l')
    (hsub : ∀ c ∈ l, c ∈ l') : OnePerSlot l :=
  fun c hc c' hc' => h c (hsub c hc) c' (hsub c' hc')

/-- The two loops are one pass. -/
theorem getNextActiveLink_eq :
    getNextActiveLink false asn t =
      (candidates asn t).foldl (fun acc c => consider acc c.1 c.2) none := by
  unfold getNextActiveLink candidates
  rw [if_neg Bool.false_ne_true, List.foldl_flatMap]
  congr 1
  funext acc sf
  rw [List.foldl_map]
  rfl

theorem keptBy_getNextActiveLink (asn : Asn) (ht : Fitting t) :
    KeptBy (candidates asn t) (getNextActiveLink false asn t) := by
  rw [getNextActiveLink_eq]
  refine foldl_prefix (I := KeptBy) rfl ?_
  intro seen c rest acc hl hacc
  refine hacc.consider ((onePerSlot_candidates asn ht).sublist ?_)
  intro c' hc'
  rw [hl]
  rcases List.mem_append.1 hc' with hc' | hc'
  · exact List.mem_append_left _ hc'
  · rw [List.mem_singleton.1 hc']
    simp

/-- The times of the links. -/
theorem isActive_of_mem (ht : Fitting t) {c : ℕ × SlotframeLink} (hc : c ∈ candidates asn t) :
    1 ≤ c.1 ∧ IsActive t (asnNat asn + c.1) c.2 := by
  rcases mem_candidates.1 hc with ⟨size, hl, htime⟩
  have hspec := timeToTimeslot_spec (asnNat asn) (ht.timeslot _ _ _ hl) (ht.size _ _ _ hl)
  rw [← htime] at hspec
  exact ⟨hspec.1, size, hl, hspec.2.1⟩

theorem exists_mem_of_isActive (ht : Fitting t) {k : ℕ} (hk : 1 ≤ k) {l : SlotframeLink}
    (hl : IsActive t (asnNat asn + k) l) : ∃ time ≤ k, (time, l) ∈ candidates asn t := by
  rcases hl with ⟨size, hinst, hact⟩
  have hspec := timeToTimeslot_spec (asnNat asn) (ht.timeslot _ _ _ hinst)
    (ht.size _ _ _ hinst)
  exact ⟨_, hspec.2.2 k hk hact, mem_candidates.2 ⟨size, hinst, rfl⟩⟩

theorem Kept.selects (ht : Fitting t) {s : Selection} (h : Kept (candidates asn t) s) :
    Selects t (asnNat asn) s := by
  rcases isActive_of_mem ht h.mem with ⟨hlater, hactive⟩
  -- a link that is active with the best one has its time
  have hmem : ∀ l, IsActive t (asnNat asn + s.timeToCurrBest) l →
      (s.timeToCurrBest, l) ∈ candidates asn t := by
    intro l hl
    rcases exists_mem_of_isActive ht hlater hl with ⟨time, hle, hc⟩
    have heq : time = s.timeToCurrBest := le_antisymm hle (h.least _ hc)
    rw [← heq]
    exact hc
  constructor
  · exact hlater
  · intro k hk hlt l hl
    rcases exists_mem_of_isActive ht hk hl with ⟨time, hle, hc⟩
    have := h.least _ hc
    dsimp only at this
    omega
  · exact hactive
  · intro l hl hne
    exact h.best _ (hmem l hl) rfl hne
  · rintro hrx ⟨l, hl, hlrx⟩
    cases hb : s.currBackup with
    | none =>
      have hne : l ≠ s.currBest := fun heq => hrx (heq ▸ hlrx)
      exact absurd hlrx (h.noBackup hb _ (hmem l hl) rfl hne)
    | some b =>
      rcases h.backup b hb with ⟨hbmem, hbrx⟩
      exact ⟨b, rfl, (isActive_of_mem ht hbmem).2, hbrx, fun heq => hrx (heq ▸ hbrx)⟩

theorem Preferred.asymm {a b : SlotframeLink} (hab : Preferred a b) : ¬ Preferred b a := by
  rintro (⟨hb, ha⟩ | ⟨hiff, hlt⟩)
  · rcases hab with ⟨ha', _⟩ | ⟨hiff, _⟩
    · exact ha ha'
    · exact ha (hiff.2 hb)
  · rcases hab with ⟨ha, hb⟩ | ⟨_, hlt'⟩
    · exact hb (hiff.2 ha)
    · omega

/-- Time and best link follow from what they are for. -/
theorem Selects.unique {t' : SlotframeList} {asn : ℕ} {s s' : Selection} (hsame : SameLinks t t')
    (h : Selects t asn s) (h' : Selects t' asn s') :
    s'.timeToCurrBest = s.timeToCurrBest ∧ s'.currBest = s.currBest := by
  have hact : ∀ slot l, IsActive t slot l ↔ IsActive t' slot l := by
    intro slot l
    unfold IsActive
    simp only [hsame l.1 _ l.2]
  have htime : s'.timeToCurrBest = s.timeToCurrBest := by
    rcases lt_trichotomy s'.timeToCurrBest s.timeToCurrBest with hlt | heq | hgt
    · exact absurd ((hact _ _).2 h'.active) (h.least _ h'.later hlt _)
    · exact heq
    · exact absurd ((hact _ _).1 h.active) (h'.least _ h.later hgt _)
  refine ⟨htime, ?_⟩
  by_contra hne
  have hactive := h.active
  have hactive' := h'.active
  rw [htime, ← hact] at hactive'
  rw [hact, ← htime] at hactive
  exact (h.best _ hactive' hne).asymm (h'.best _ hactive (fun heq => hne heq.symm))

/-- The next active link, of any schedule and whatever the order of its links. -/
theorem getNextActiveLink_spec (locked : Bool) (asn : Asn) (t : SlotframeList) (ht : Fitting t) :
    (getNextActiveLink locked asn t = none ↔
      locked = true ∨ ∀ h size l, ¬ Installed t h size l) ∧
      ∀ s, getNextActiveLink locked asn t = some s →
        Selects t (asnNat asn) s ∧
        ∀ t', SameLinks t t' → ∃ backup, getNextActiveLink locked asn t' =
          some ⟨s.timeToCurrBest, s.currBest, backup⟩ := by
  -- The lock refuses the search; else the two best links over all slotframes are found.
  cases locked with
  | true => exact ⟨⟨fun _ => .inl rfl, fun _ => rfl⟩, fun s hs => nomatch hs⟩
  | false =>
    have hkept := keptBy_getNextActiveLink asn ht
    constructor
    · constructor
      · intro hnone
        right
        rw [hnone] at hkept
        exact not_installed_of_nil hkept
      · rintro (hlocked | hempty)
        · cases hlocked
        · cases hs : getNextActiveLink false asn t with
          | none => rfl
          | some s =>
            rw [hs] at hkept
            have hmem : Kept (candidates asn t) s := hkept
            rcases mem_candidates.1 hmem.mem with ⟨size, hl, _⟩
            exact absurd hl (hempty _ _ _)
    · intro s hs
      rw [hs] at hkept
      have hsel : Selects t (asnNat asn) s := Kept.selects ht hkept
      refine ⟨hsel, ?_⟩
      intro t' hsame
      have ht' : Fitting t' :=
        ⟨fun h size l hl => ht.timeslot h size l ((hsame h size l).2 hl),
          fun h size l hl => ht.size h size l ((hsame h size l).2 hl)⟩
      have hkept' := keptBy_getNextActiveLink asn ht'
      cases hs' : getNextActiveLink false asn t' with
      | none =>
        rw [hs'] at hkept'
        rcases hsel.active with ⟨size, hl, _⟩
        exact absurd ((hsame _ _ _).1 hl) (not_installed_of_nil hkept' _ _ _)
      | some s' =>
        rw [hs'] at hkept'
        rcases hsel.unique hsame (Kept.selects ht' hkept') with ⟨htime, hbest⟩
        exact ⟨s'.currBackup, by rw [← htime, ← hbest]⟩

end

/-- A slotframe of three slots with a link to send and, in the next slot, one to receive. -/
def oneSlotframe : SlotframeList :=
  (Keyed.empty : SlotframeList).put
    ⟨1, 3, (Keyed.empty.put ⟨1, .normal, some 2, 0, 0⟩).put ⟨2, .normal, some 0, 1, 0⟩⟩

theorem fitting_oneSlotframe : Fitting oneSlotframe := by
  have hall : ∀ sf ∈ oneSlotframe.entries, sf.size = 3 ∧ ∀ l ∈ sf.links.entries, l.timeslot < 3 := by
    decide
  constructor
  · rintro h size l ⟨sf, hsf, _, rfl, hl⟩
    rw [(hall sf hsf).1]
    exact (hall sf hsf).2 l hl
  · rintro h size l ⟨sf, hsf, _, rfl, _⟩
    rw [(hall sf hsf).1]
    decide

theorem getNextActiveLink_spec_one :
    getNextActiveLink false ⟨4, 0⟩ oneSlotframe =
        some ⟨2, (1, ⟨1, .normal, some 2, 0, 0⟩), none⟩ ∧
      Selects oneSlotframe (asnNat ⟨4, 0⟩) ⟨2, (1, ⟨1, .normal, some 2, 0, 0⟩), none⟩ := by
  have hnext : getNextActiveLink false ⟨4, 0⟩ oneSlotframe =
      some ⟨2, (1, ⟨1, .normal, some 2, 0, 0⟩), none⟩ := by decide
  exact ⟨hnext,
    ((getNextActiveLink_spec false ⟨4, 0⟩ oneSlotframe fitting_oneSlotframe).2 _ hnext).1⟩

/-- While the schedule is locked the links are not looked at. -/
theorem locked_schedule :
    ¬ (getNextActiveLink true ⟨4, 0⟩ oneSlotframe = none ↔
      ∀ h size l, ¬ Installed oneSlotframe h size l) := by
  intro h
  exact h.1 rfl 1 3 ⟨1, .normal, some 2, 0, 0⟩ ⟨_, List.mem_singleton_self _, rfl, rfl, by decide⟩

end MasterScheduler.Mote.NextLink

import MasterScheduler.Lib.MostRecent
import MasterScheduler.Mote.Frame802154

/-!
# MasterScheduler.Mote.MacSequence — the sequence numbers seen last

`mac-sequence.c` remembers the last sequence number of the neighbors that were
heard last, to drop frames that arrive twice. The number of a frame is an
attribute of 16 bits, the table has 8 bits for it.

1. **Model**: the table, `mac_sequence_is_duplicate` and
   `mac_sequence_register_seqno`, and a frame that goes through both.
2. **Shift**: what the loop of `mac_sequence_register_seqno` does to the table.
3. **Invariant**: the table is the beginning of the list of senders, the latest
   first, followed by null entries.
4. **Numbers**: `kept_iff_narrow`. The table tells the registered frames apart
   exactly if their numbers have 8 bits; the framer gives a frame without a
   number `0xffff`.
-/

namespace MasterScheduler.Mote.MacSequence

open Lib Frame802154

/-! ## Model -/

structure Config where
  /-- `MAX_SEQNOS`. -/
  maxSeqnos : ℕ
  /-- `SEQNO_MAX_AGE`; zero stands for no limit. -/
  seqnoMaxAge : ℕ
  /-- The width of `clock_time_t`. -/
  clockBits : ℕ
  maxSeqnos_pos : 0 < maxSeqnos

variable (cfg : Config)

/-- `struct seqno`. -/
structure Seqno where
  sender : Linkaddr
  timestamp : BitVec cfg.clockBits
  seqno : UInt8
deriving DecidableEq

/-- What the packet buffer and `clock_time` say when a frame is handled. -/
structure Received where
  sender : Linkaddr
  /-- `PACKETBUF_ATTR_MAC_SEQNO`, a `packetbuf_attr_t`. The framer puts the byte of the frame
  here, or `0xffff` for a frame without one. -/
  macSeqno : UInt16
  clockTime : BitVec cfg.clockBits
deriving DecidableEq

/-- An entry of a table without senders. -/
def nullSeqno : Seqno cfg := ⟨linkaddrNull, 0, 0⟩

/-- `received_seqnos` at the start. -/
def nullSeqnos : List (Seqno cfg) := List.replicate cfg.maxSeqnos (nullSeqno cfg)

variable {cfg}

/-- `now` is not more than `SEQNO_MAX_AGE` after `timestamp` on the clock. -/
def WithinMaxAge (cfg : Config) (timestamp now : BitVec cfg.clockBits) : Prop :=
  cfg.seqnoMaxAge = 0 ∨ (now - timestamp).toNat ≤ cfg.seqnoMaxAge

instance (timestamp now : BitVec cfg.clockBits) : Decidable (WithinMaxAge cfg timestamp now) :=
  inferInstanceAs (Decidable (_ ∨ _))

/-- `mac_sequence_is_duplicate`. -/
def isDuplicate (f : Received cfg) : List (Seqno cfg) → Bool
  | [] => false
  | e :: table =>
    if f.sender = e.sender then
      decide (f.macSeqno = e.seqno.toUInt16) &&
        decide (WithinMaxAge cfg e.timestamp f.clockTime)
    else isDuplicate f table

/-- The first loop of `mac_sequence_register_seqno`: `i` after it. -/
def locate (sender : Linkaddr) : List (Seqno cfg) → ℕ
  | [] => 0
  | e :: table => if sender = e.sender then 1 else locate sender table + 1

/-- The second loop, with `j` rounds to go. -/
def shift : ℕ → List (Seqno cfg) → List (Seqno cfg)
  | 0, table => table
  | j + 1, table => shift j (table.set (j + 1) (table.getD j (nullSeqno cfg)))

/-- The entry for a frame; `seqno` is a `uint8_t`. -/
def Received.entry (f : Received cfg) : Seqno cfg := ⟨f.sender, f.clockTime, f.macSeqno.toUInt8⟩

/-- `mac_sequence_register_seqno`. -/
def registerSeqno (f : Received cfg) (table : List (Seqno cfg)) : List (Seqno cfg) :=
  (shift (locate f.sender table - 1) table).set 0 f.entry

/-- The table, and the frames that were registered, the latest first. -/
structure History (cfg : Config) where
  table : List (Seqno cfg)
  registered : List (Received cfg)

/-- A frame is checked, and registered if it is not a duplicate. -/
def receive (s : History cfg) (f : Received cfg) : History cfg :=
  if isDuplicate f s.table then s
  else ⟨registerSeqno f s.table, f :: s.registered⟩

/-- The frames of a run, from the table at the start. -/
def receiveAll (frames : List (Received cfg)) : History cfg :=
  frames.foldl receive ⟨nullSeqnos cfg, []⟩

/-! ## Shift -/

variable {f : Received cfg} {e : Seqno cfg} {table : List (Seqno cfg)} {sender : Linkaddr}

/-- The loop closes place `j`, and leaves its first entry twice. -/
theorem set_shift {j : ℕ} (hj : j < table.length) :
    (shift j table).set 0 e = e :: table.eraseIdx j := by
  induction j generalizing table with
  | zero =>
    cases table with
    | nil => exact absurd hj (Nat.not_lt_zero 0)
    | cons a table => rfl
  | succ j ih =>
    rw [shift, ih (by rw [List.length_set]; omega)]
    congr 1
    apply List.ext_getElem?
    intro i
    rw [List.getElem?_eraseIdx, List.getElem?_eraseIdx]
    -- only the places `j` and `j + 1` are read differently
    rcases Nat.lt_trichotomy i j with hlt | rfl | hgt
    · rw [if_pos hlt, if_pos (by omega), List.getElem?_set_ne (by omega)]
    · rw [if_neg (lt_irrefl i), if_pos (by omega), List.getElem?_set_self hj,
        List.getD_eq_getElem?_getD, List.getElem?_eq_getElem (by omega), Option.getD_some]
    · rw [if_neg (by omega), if_neg (by omega), List.getElem?_set_ne (by omega)]

theorem locate_eq (sender : Linkaddr) (table : List (Seqno cfg)) :
    locate sender table =
      min ((table.findIdx fun e => decide (e.sender = sender)) + 1) table.length := by
  induction table with
  | nil => rfl
  | cons a table ih =>
    rw [locate, List.findIdx_cons, List.length_cons]
    by_cases ha : sender = a.sender
    · rw [if_pos ha, decide_eq_true ha.symm, cond_true]
      omega
    · rw [if_neg ha, decide_eq_false fun h => ha h.symm, cond_false, ih]
      omega

/-- What `mac_sequence_register_seqno` makes of the table. -/
theorem registerSeqno_eq {n : ℕ} (hlen : table.length = n + 1) :
    registerSeqno f table = f.entry ::
      table.eraseIdx (min (table.findIdx fun e => decide (e.sender = f.entry.sender)) n) := by
  have hplace : locate f.sender table - 1 =
      min (table.findIdx fun e => decide (e.sender = f.entry.sender)) n := by
    rw [locate_eq, hlen, Nat.add_min_add_right, Nat.add_sub_cancel]
    rfl
  rw [registerSeqno, hplace, set_shift (by omega)]

/-! ## Invariant -/

/-- The table holds the senders registered last, and null entries behind them. -/
def Recorded (s : History cfg) : Prop :=
  (∀ f ∈ s.registered, f.sender ≠ linkaddrNull) ∧
    s.table = ((mostRecent Received.sender s.registered).map Received.entry ++
      nullSeqnos cfg).take cfg.maxSeqnos

theorem recorded_init : Recorded (⟨nullSeqnos cfg, []⟩ : History cfg) := by
  constructor
  · intro f hf
    exact absurd hf List.not_mem_nil
  · rw [mostRecent_nil, List.map_nil, List.nil_append, nullSeqnos,
      List.take_of_length_le (by simp)]

/-- One frame: it goes to the front, and what is closed is its old entry or the last one. -/
theorem Recorded.receive {s : History cfg} (h : Recorded s) (hf : f.sender ≠ linkaddrNull) :
    Recorded (receive s f) := by
  obtain ⟨hsenders, htable⟩ := h
  rw [MacSequence.receive]
  split
  · exact ⟨hsenders, htable⟩
  constructor
  · intro g hg
    rcases List.mem_cons.mp hg with rfl | hg
    · exact hf
    · exact hsenders g hg
  · obtain ⟨n, hn⟩ : ∃ n, cfg.maxSeqnos = n + 1 := Nat.exists_eq_add_one.mpr cfg.maxSeqnos_pos
    have hlen : s.table.length = n + 1 := by
      rw [htable, List.length_take, List.length_append, nullSeqnos, List.length_replicate]
      omega
    have hpad : ∀ e ∈ nullSeqnos cfg, e.sender ≠ f.entry.sender := by
      intro e he
      rw [List.eq_of_mem_replicate he]
      exact hf.symm
    -- an entry has the sender of its frame, so the rule for tables applies to the entries
    have hkey : ∀ g : Received cfg, g.entry.sender = g.sender := fun g => rfl
    rw [map_mostRecent hkey] at htable
    have hcons := @take_mostRecent_cons _ _ _ Seqno.sender (s.registered.map Received.entry)
      f.entry _ hpad n
    dsimp only at hcons ⊢
    rw [registerSeqno_eq hlen, map_mostRecent hkey, List.map_cons, hn, hcons, htable, hn]

theorem recorded_of_run (frames : List (Received cfg))
    (hsenders : ∀ f ∈ frames, f.sender ≠ linkaddrNull) : Recorded (receiveAll frames) := by
  have hrun : ∀ s : History cfg, Recorded s → Recorded (frames.foldl receive s) := by
    induction frames with
    | nil => exact fun s h => h
    | cons f frames ih =>
      intro s h
      exact ih (fun g hg => hsenders g (List.mem_cons_of_mem f hg)) _
        (h.receive (hsenders f List.mem_cons_self))
  exact hrun _ recorded_init

/-- The null entries behind the others do not count. -/
theorem Recorded.filter_table {s : History cfg} (h : Recorded s) :
    s.table.filter (fun e => decide (e.sender ≠ linkaddrNull)) =
      ((mostRecent Received.sender s.registered).take cfg.maxSeqnos).map Received.entry := by
  have hreal : ∀ e ∈ ((mostRecent Received.sender s.registered).take cfg.maxSeqnos).map
      Received.entry, e.sender ≠ linkaddrNull := by
    intro e he
    rcases List.mem_map.mp he with ⟨f, hf, rfl⟩
    exact h.1 f ((mostRecent_sublist s.registered).mem (List.mem_of_mem_take hf))
  have hnull : ∀ k, ((nullSeqnos cfg).take k).filter
      (fun e => decide (e.sender ≠ linkaddrNull)) = [] := by
    intro k
    rw [List.filter_eq_nil_iff]
    intro e he
    rw [List.eq_of_mem_replicate (List.mem_of_mem_take he)]
    simp [nullSeqno]
  rw [h.2, List.take_append, List.filter_append, hnull, List.append_nil, ← List.map_take]
  exact List.filter_eq_self.mpr fun e he => decide_eq_true (hreal e he)

theorem Recorded.pairwise_table {s : History cfg} (h : Recorded s) :
    s.table.Pairwise fun a b => a.sender = b.sender → a.sender = linkaddrNull := by
  rw [h.2]
  refine List.Pairwise.take (List.pairwise_append.mpr ⟨?_, ?_, ?_⟩)
  · exact List.pairwise_map.mpr ((pairwise_mostRecent _).imp fun hne heq => absurd heq hne)
  · refine List.pairwise_of_forall_mem_list ?_
    intro a ha b _ _
    rw [List.eq_of_mem_replicate ha]
    rfl
  · intro a _ b hb heq
    rw [heq, List.eq_of_mem_replicate hb]
    rfl

/-- The search stops at the sender, so a duplicate is found if no other entry has that sender. -/
theorem isDuplicate_iff (hf : f.sender ≠ linkaddrNull)
    (h : table.Pairwise fun a b => a.sender = b.sender → a.sender = linkaddrNull) :
    isDuplicate f table = true ↔ ∃ e ∈ table, e.sender = f.sender ∧
      e.seqno.toUInt16 = f.macSeqno ∧ WithinMaxAge cfg e.timestamp f.clockTime := by
  induction table with
  | nil =>
    constructor
    · intro hd
      cases hd
    · rintro ⟨e, he, -⟩
      exact absurd he List.not_mem_nil
  | cons a table ih =>
    obtain ⟨hhead, htail⟩ := List.pairwise_cons.mp h
    rw [isDuplicate]
    by_cases ha : f.sender = a.sender
    · rw [if_pos ha, Bool.and_eq_true, decide_eq_true_eq, decide_eq_true_eq]
      constructor
      · rintro ⟨hs, hage⟩
        exact ⟨a, List.mem_cons_self, ha.symm, hs.symm, hage⟩
      · rintro ⟨e, he, hes, hs, hage⟩
        rcases List.mem_cons.mp he with rfl | he
        · exact ⟨hs.symm, hage⟩
        · exact absurd (ha.trans (hhead e he (ha.symm.trans hes.symm))) hf
    · rw [if_neg ha, ih htail]
      constructor
      · rintro ⟨e, he, hrest⟩
        exact ⟨e, List.mem_cons_of_mem a he, hrest⟩
      · rintro ⟨e, he, hes, hrest⟩
        rcases List.mem_cons.mp he with rfl | he
        · exact absurd hes.symm ha
        · exact ⟨e, he, hes, hrest⟩

/-! ## Numbers -/

/-- The number of a frame fits the table. -/
def Received.Narrow (f : Received cfg) : Prop := f.macSeqno < 256

instance (f : Received cfg) : Decidable f.Narrow := inferInstanceAs (Decidable (_ < _))

/-- The table tells the senders registered last, with the numbers and times of their frames, and
it recognises what repeats one of these frames in time. -/
structure Kept (s : History cfg) : Prop where
  table : (s.table.filter fun e => decide (e.sender ≠ linkaddrNull)).map
      (fun e => (e.sender, e.seqno.toUInt16, e.timestamp)) =
    ((mostRecent Received.sender s.registered).take cfg.maxSeqnos).map
      fun f => (f.sender, f.macSeqno, f.clockTime)
  duplicate : ∀ f : Received cfg, f.sender ≠ linkaddrNull → (isDuplicate f s.table = true ↔
    ∃ g ∈ (mostRecent Received.sender s.registered).take cfg.maxSeqnos,
      g.sender = f.sender ∧ g.macSeqno = f.macSeqno ∧
        WithinMaxAge cfg g.clockTime f.clockTime)

theorem entry_seqno_iff : f.entry.seqno.toUInt16 = f.macSeqno ↔ f.Narrow := by
  rw [Received.entry, Received.Narrow, ← UInt16.toNat_inj, UInt16.lt_iff_toNat_lt,
    UInt8.toNat_toUInt16, UInt16.toNat_toUInt8]
  change f.macSeqno.toNat % 256 = f.macSeqno.toNat ↔ f.macSeqno.toNat < 256
  omega

/-- No number of 8 bits is that of a wide frame. -/
theorem not_isDuplicate_of_wide (hf : ¬ f.Narrow) : isDuplicate f table = false := by
  induction table with
  | nil => rfl
  | cons a table ih =>
    have hne : f.macSeqno ≠ a.seqno.toUInt16 := by
      intro heq
      apply hf
      rw [Received.Narrow, heq, UInt16.lt_iff_toNat_lt, UInt8.toNat_toUInt16]
      exact a.seqno.toNat_lt
    rw [isDuplicate, decide_eq_false hne, Bool.false_and, ih, ite_self]

theorem Recorded.kept {s : History cfg} (h : Recorded s) (hn : ∀ f ∈ s.registered, f.Narrow) :
    Kept s := by
  have hnarrow : ∀ f ∈ (mostRecent Received.sender s.registered).take cfg.maxSeqnos,
      f.entry.seqno.toUInt16 = f.macSeqno := by
    intro f hf
    exact entry_seqno_iff.mpr
      (hn f ((mostRecent_sublist s.registered).mem (List.mem_of_mem_take hf)))
  constructor
  case table =>
    rw [h.filter_table, List.map_map]
    refine List.map_congr_left fun f hf => ?_
    simp only [Function.comp_apply, hnarrow f hf]
    rfl
  case duplicate =>
    intro f hf
    rw [isDuplicate_iff hf h.pairwise_table]
    constructor
    · rintro ⟨e, he, hes, hseq, hage⟩
      -- the entry is not null, so it is that of a frame
      have hmem : e ∈ s.table.filter fun e => decide (e.sender ≠ linkaddrNull) :=
        List.mem_filter.mpr ⟨he, decide_eq_true (hes ▸ hf)⟩
      rw [h.filter_table] at hmem
      rcases List.mem_map.mp hmem with ⟨g, hg, rfl⟩
      exact ⟨g, hg, hes, (hnarrow g hg).symm.trans hseq, hage⟩
    · rintro ⟨g, hg, hgs, hseq, hage⟩
      have hmem : g.entry ∈ s.table.filter fun e => decide (e.sender ≠ linkaddrNull) := by
        rw [h.filter_table]
        exact List.mem_map_of_mem hg
      exact ⟨g.entry, List.mem_of_mem_filter hmem, hgs, (hnarrow g hg).trans hseq, hage⟩

theorem registered_subset (frames : List (Received cfg)) :
    ∀ f ∈ (receiveAll frames).registered, f ∈ frames := by
  have hrun : ∀ (s : History cfg), ∀ f ∈ (frames.foldl receive s).registered,
      f ∈ frames ∨ f ∈ s.registered := by
    induction frames with
    | nil => exact fun s f hf => .inr hf
    | cons g frames ih =>
      intro s f hf
      rcases ih _ f hf with hf | hf
      · exact .inl (List.mem_cons_of_mem g hf)
      · rw [receive] at hf
        split at hf
        · exact .inr hf
        · rcases List.mem_cons.mp hf with rfl | hf
          · exact .inl List.mem_cons_self
          · exact .inr hf
  intro f hf
  exact (hrun _ f hf).resolve_right List.not_mem_nil

/-- A wide frame is registered, and then it is the first of the registered frames. -/
theorem not_kept_of_wide (pre : List (Received cfg)) (hpre : ∀ f ∈ pre, f.sender ≠ linkaddrNull)
    (hf : f.sender ≠ linkaddrNull) (hwide : ¬ f.Narrow) : ¬ Kept (receiveAll (pre ++ [f])) := by
  intro hkept
  have hrec : Recorded (receiveAll (pre ++ [f])) := by
    refine recorded_of_run _ fun g hg => ?_
    rcases List.mem_append.mp hg with hg | hg
    · exact hpre g hg
    · rw [List.mem_singleton.mp hg]
      exact hf
  have hreg : (receiveAll (pre ++ [f])).registered = f :: (receiveAll pre).registered := by
    rw [receiveAll, List.foldl_append]
    change (receive (receiveAll pre) f).registered = _
    rw [receive, not_isDuplicate_of_wide hwide]
    rfl
  obtain ⟨n, hn⟩ : ∃ n, cfg.maxSeqnos = n + 1 := Nat.exists_eq_add_one.mpr cfg.maxSeqnos_pos
  have htable := hkept.table
  rw [hrec.filter_table, hreg, mostRecent_cons, hn, List.take_succ_cons, List.map_cons,
    List.map_cons, List.map_cons, List.cons.injEq, Prod.mk.injEq, Prod.mk.injEq] at htable
  exact hwide (entry_seqno_iff.mp htable.1.2.1)

/-- The table is what it should be all along a run of frames exactly if all their numbers have
8 bits. -/
theorem kept_iff_narrow (frames : List (Received cfg))
    (hsenders : ∀ f ∈ frames, f.sender ≠ linkaddrNull) :
    (∀ pre, pre <+: frames → Kept (receiveAll pre)) ↔ ∀ f ∈ frames, f.macSeqno < 256 := by
  constructor
  · intro h f hf
    by_contra hwide
    obtain ⟨pre, post, rfl⟩ := List.append_of_mem hf
    refine not_kept_of_wide pre (fun g hg => hsenders g (List.mem_append_left _ hg))
      (hsenders f hf) hwide (h _ ⟨post, ?_⟩)
    rw [List.append_assoc, List.singleton_append]
  · intro h pre hpre
    have hrec := recorded_of_run pre fun f hf => hsenders f (hpre.subset hf)
    exact hrec.kept fun f hf => h f (hpre.subset (registered_subset pre f hf))

/-- Two entries, 20 seconds of 128 ticks, a clock of 32 bits. -/
def twoSeqnos : Config := ⟨2, 2560, 32, Nat.two_pos⟩

/-- A frame from a sender whose address ends with a number. -/
def frameFrom (n : UInt8) (macSeqno : UInt16) (clockTime : BitVec 32) : Received twoSeqnos :=
  ⟨⟨[0, 0, 0, 0, 0, 0, 0, n], rfl⟩, macSeqno, clockTime⟩

/-- Sender 1 moves to the front, sender 2 is evicted by sender 3; a repetition is dropped. -/
def fiveFrames : List (Received twoSeqnos) :=
  [frameFrom 1 7 0, frameFrom 2 7 10, frameFrom 1 8 20, frameFrom 3 9 30, frameFrom 3 9 40]

/-- After five frames the table has two senders, and the number 8 of sender 1 is known for 2560
ticks. -/
theorem kept_iff_narrow_fiveFrames :
    (receiveAll fiveFrames).registered.length = 4 ∧
      ((receiveAll fiveFrames).table.filter fun e => decide (e.sender ≠ linkaddrNull)).map
          (fun e => (e.seqno.toUInt16, e.timestamp)) = [(9, 30), (8, 20)] ∧
      isDuplicate (frameFrom 1 8 2580) (receiveAll fiveFrames).table = true ∧
      isDuplicate (frameFrom 1 8 2581) (receiveAll fiveFrames).table = false := by
  have hsenders : ∀ f ∈ fiveFrames, f.sender ≠ linkaddrNull := by decide
  have hkept := (kept_iff_narrow fiveFrames hsenders).mpr (by decide) _ (List.prefix_refl _)
  refine ⟨by decide, ?_, (hkept.duplicate _ (by decide)).mpr (by decide), ?_⟩
  · have := congrArg (List.map Prod.snd) hkept.table
    rw [List.map_map, List.map_map] at this
    exact this.trans (by decide)
  · exact Bool.eq_false_iff.mpr fun h => absurd ((hkept.duplicate _ (by decide)).mp h) (by decide)

/-- Two frames of sender 1 without a number: the table says 255, and the second frame counts as
new. A frame with the number 255 counts as known. -/
theorem suppressed_number_not_kept :
    let frame := frameFrom 1 0xffff 0
    frame.sender ≠ linkaddrNull ∧ ¬ Kept (receiveAll [frame]) ∧
      (receiveAll [frame]).table.head?.map Seqno.seqno = some 255 ∧
      isDuplicate (frameFrom 1 0xffff 10) (receiveAll [frame]).table = false ∧
      isDuplicate (frameFrom 1 255 10) (receiveAll [frame]).table = true := by
  refine ⟨by decide, ?_, by decide, by decide, by decide⟩
  intro h
  exact absurd ((h.duplicate (frameFrom 1 0xffff 10) (by decide)).mpr
    ⟨frameFrom 1 0xffff 0, by decide, rfl, rfl, by decide⟩) (by decide)

end MasterScheduler.Mote.MacSequence

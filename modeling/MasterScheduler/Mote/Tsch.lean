import MasterScheduler.Lib.Keyed
import MasterScheduler.Lib.Loop
import MasterScheduler.Mote.Schedule

/-!
# MasterScheduler.Mote.Tsch — slotframes and links

The schedule of the MAC layer (`tsch-schedule.c`) and the part of
`install_schedule` that fills it from the file in flash. A slotframe has one
link per timeslot, and there is one slotframe per handle; both are kept by
`Keyed`. Links and slotframes come from pools of fixed size.

- `get?_addLink`: what an accepted link does to the slotframes.
- `recreateSlotframes_entries`: the slotframes after the old ones are replaced.
- `addLinks_spec`: the links after those of the file are added.
-/

namespace MasterScheduler.Mote

open Lib

inductive LinkType where
  | normal
  | advertising
  | advertisingOnly
deriving DecidableEq, Repr

/-- `struct tsch_link`; the address is a node identifier, or `none` for broadcast. -/
structure TschLink where
  linkOptions : ℕ
  linkType : LinkType
  addr : Option ℕ
  timeslot : ℕ
  channelOffset : ℕ
deriving DecidableEq, Repr

/-- `struct tsch_slotframe`. -/
structure TschSlotframe where
  handle : ℕ
  size : ℕ
  links : Keyed TschLink.timeslot

/-- `slotframe_list`. -/
abbrev SlotframeList := Keyed TschSlotframe.handle

/-- `TSCH_SCHEDULE_MAX_SLOTFRAMES`. -/
def maxSlotframes : ℕ := masterNumFlows + 1

/-- `MASTER_EBSF_PERIOD`. -/
def masterEbsfPeriod : ℕ := 31

def linkOptionTx : ℕ := 1

def linkOptionRx : ℕ := 2

/-- The links taken from the pool. -/
def linkCount (t : SlotframeList) : ℕ := (t.entries.map fun sf => sf.links.entries.length).sum

def tschScheduleAddSlotframe (t : SlotframeList) (handle size : ℕ) : SlotframeList :=
  if size = 0 then t
  else if (t.get? handle).isSome then t
  else if maxSlotframes ≤ t.entries.length then t
  else t.put ⟨handle, size, Keyed.empty⟩

/-- `tsch_schedule_remove_slotframe` for the slotframe with a handle, if there is one. -/
def tschScheduleRemoveSlotframe (t : SlotframeList) (handle : ℕ) : SlotframeList := t.erase handle

/-- `tsch_schedule_add_link` to the slotframe with a handle. The link in the
timeslot is removed before a new one is taken from the pool. -/
def tschScheduleAddLink (maxLinks : ℕ) (t : SlotframeList) (handle : ℕ) (l : TschLink) :
    SlotframeList :=
  match t.get? handle with
  | none => t
  | some sf =>
      if sf.size - 1 < l.timeslot then t
      else if 15 < l.channelOffset then t
      else
        let t := t.modify handle (fun sf => { sf with links := sf.links.erase l.timeslot })
          fun _ => rfl
        if maxLinks ≤ linkCount t then t
        else t.modify handle (fun sf => { sf with links := sf.links.put l }) fun _ => rfl

/-! ## Installation -/

/-- A slotframe is removed, if it is there, and added again. -/
def recreateSlotframe (size : ℕ) (t : SlotframeList) (handle : ℕ) : SlotframeList :=
  tschScheduleAddSlotframe (tschScheduleRemoveSlotframe t handle) handle size

/-- The slotframe for the beacons between the schedules. -/
def recreateBeaconSlotframe (maxLinks : ℕ) (t : SlotframeList) : SlotframeList :=
  tschScheduleAddLink maxLinks (recreateSlotframe masterEbsfPeriod t 0) 0
    ⟨linkOptionTx ||| linkOptionRx, .advertisingOnly, none, 0, 0⟩

def getForwardDestBySlotframe (s : MasterTschSchedule) (l : ScheduledLink) : UInt8 :=
  s.flowForwards.getD (l.slotframeHandle.toNat - 1) 0

/-- A link of the file as it is given to the MAC layer, with its slotframe. -/
def scheduledLink (s : MasterTschSchedule) (l : ScheduledLink) : ℕ × TschLink :=
  (l.slotframeHandle.toNat,
    { linkOptions := l.sendReceive.toNat
      linkType := .normal
      addr := some (if l.sendReceive.toNat = linkOptionRx then 0
        else (getForwardDestBySlotframe s l).toNat)
      timeslot := l.timeslot.toNat
      channelOffset := l.channelOffset.toNat })

def addLinks (maxLinks : ℕ) (t : SlotframeList) (links : List (ℕ × TschLink)) : SlotframeList :=
  links.foldl (fun t l => tschScheduleAddLink maxLinks t l.1 l.2) t

/-- The link for beacons in the last timeslot of slotframe 1. -/
def beaconLink (config : UniversalConfig) : TschLink where
  linkOptions := linkOptionTx ||| linkOptionRx
  linkType := .advertisingOnly
  addr := none
  timeslot := (config.scheduleLength.toNat + (2 ^ 16 - 1)) % 2 ^ 16
  channelOffset := 0

/-- The slotframes and links that `install_schedule` sets up. -/
def installSlotframes (maxLinks : ℕ) (config : UniversalConfig) (s : MasterTschSchedule)
    (t : SlotframeList) : SlotframeList :=
  let t := recreateBeaconSlotframe maxLinks t
  let t := (List.range' 1 config.slotFrames.toNat).foldl
    (recreateSlotframe config.scheduleLength.toNat) t
  let t := addLinks maxLinks t (s.links.map (scheduledLink s))
  tschScheduleAddLink maxLinks t 1 (beaconLink config)

/-- `install_schedule` from the file in flash on; a node without a record gets
no links. -/
def installFromFlash (maxLinks nodeId : ℕ) (flash : Flash) (config : UniversalConfig)
    (s : MasterTschSchedule) (t : SlotframeList) : Option SlotframeList :=
  match readFromFlashById flash config s ((nodeId : ℤ) - 1) with
  | none => none
  | some (true, config, s) => some (installSlotframes maxLinks config s t)
  | some (false, config, s) =>
      some (installSlotframes maxLinks config
        { s with linksLen := 0, ownTransmissionFlow := 0, ownReceiver := 0 } t)

/-! ## One link -/

section

variable {maxLinks : ℕ} {t : SlotframeList} {h : ℕ} {l : TschLink} {sf : TschSlotframe}

theorem linkCount_addLink_le (maxLinks : ℕ) (t : SlotframeList) (h : ℕ) (l : TschLink) :
    linkCount (tschScheduleAddLink maxLinks t h l) ≤ linkCount t + 1 := by
  unfold tschScheduleAddLink
  split
  · omega
  · split
    · omega
    · split
      · omega
      · have herase := Keyed.sum_modify_le t h
          (fun sf => { sf with links := sf.links.erase l.timeslot }) (fun _ => rfl)
          (fun sf => sf.links.entries.length) 0 (fun sf => Keyed.length_erase_le _ _)
        dsimp only
        split
        · exact Nat.le_succ_of_le herase
        · refine (Keyed.sum_modify_le _ h (fun sf : TschSlotframe => { sf with links := sf.links.put l })
            (fun _ => rfl) (fun sf => sf.links.entries.length) 1
            (fun sf => Keyed.length_put_le _ _)).trans ?_
          exact Nat.add_le_add_right herase 1

/-- A link that is accepted replaces the one in its timeslot and nothing else. -/
theorem get?_addLink (hsf : t.get? h = some sf) (hslot : l.timeslot ≤ sf.size - 1)
    (hch : l.channelOffset ≤ 15) (hpool : linkCount t < maxLinks) :
    ∃ links, (∀ k, links.get? k = if k = l.timeslot then some l else sf.links.get? k) ∧
      ∀ i, (tschScheduleAddLink maxLinks t h l).get? i =
        if i = h then some { sf with links := links } else t.get? i := by
  have hroom : ¬ maxLinks ≤ linkCount (t.modify h
      (fun sf => { sf with links := sf.links.erase l.timeslot }) fun _ => rfl) := by
    have := Keyed.sum_modify_le t h
      (fun sf => { sf with links := sf.links.erase l.timeslot }) (fun _ => rfl)
      (fun sf => sf.links.entries.length) 0 (fun sf => Keyed.length_erase_le _ _)
    unfold linkCount at hpool ⊢
    omega
  refine ⟨(sf.links.erase l.timeslot).put l, ?_, ?_⟩
  · intro k
    rw [Keyed.get?_put, Keyed.get?_erase]
    split_ifs <;> rfl
  · intro i
    unfold tschScheduleAddLink
    rw [hsf]
    dsimp only
    rw [if_neg (by omega), if_neg (by omega), if_neg hroom, Keyed.get?_modify, Keyed.get?_modify]
    split_ifs with hi
    · rw [hi, hsf]
      rfl
    · rfl

/-- A link on a channel offset that does not exist is refused. -/
theorem addLink_channel (hch : 15 < l.channelOffset) : tschScheduleAddLink maxLinks t h l = t := by
  unfold tschScheduleAddLink
  split
  · rfl
  · split_ifs
    · rfl
    · rfl

end

/-! ## The slotframes -/

section

variable {t : SlotframeList} {len n : ℕ}

theorem recreateSlotframe_entries (hlen : len ≠ 0) (h : ℕ)
    (hroom : (t.entries.filter (·.handle ≠ h)).length < maxSlotframes) :
    (recreateSlotframe len t h).entries =
      t.entries.filter (·.handle ≠ h) ++ [⟨h, len, Keyed.empty⟩] := by
  have hnone : (t.erase h).get? h = none := by
    rw [Keyed.get?_erase, if_pos rfl]
  unfold recreateSlotframe tschScheduleAddSlotframe tschScheduleRemoveSlotframe
  have hroom' : ¬ maxSlotframes ≤ (t.erase h).entries.length := Nat.not_le.2 hroom
  rw [if_neg hlen, hnone, if_neg (by simp), if_neg hroom']
  unfold Keyed.put Keyed.erase
  simp [List.filter_filter]

/-- Besides slotframe 1 there is the one for beacons, with one link at most. -/
theorem recreateBeaconSlotframe_entries (maxLinks : ℕ) (ht : ∀ sf ∈ t.entries, sf.handle ≤ 1) :
    ∃ sf rest, (recreateBeaconSlotframe maxLinks t).entries = rest ++ [sf] ∧ sf.handle = 0 ∧
      sf.links.entries.length ≤ 1 ∧ rest.length ≤ 1 ∧ ∀ sf ∈ rest, sf.handle = 1 := by
  have hone : ∀ sf ∈ (t.erase 0).entries, sf.handle = 1 := by
    intro sf hsf
    rcases List.mem_filter.1 hsf with ⟨hmem, hne⟩
    have := ht sf hmem
    have hne' : sf.handle ≠ 0 := by simpa using hne
    omega
  have hshort : (t.erase 0).entries.length ≤ 1 := by
    have hnd := (t.erase 0).nodup
    have hrep : (t.erase 0).entries.map TschSlotframe.handle =
        List.replicate (t.erase 0).entries.length 1 :=
      List.eq_replicate_iff.2 ⟨by simp, by simpa using hone⟩
    rw [hrep, List.nodup_replicate] at hnd
    exact hnd
  have hentries := recreateSlotframe_entries (t := t) (by decide : masterEbsfPeriod ≠ 0) 0
    (lt_of_le_of_lt hshort (by decide))
  have hget : (recreateSlotframe masterEbsfPeriod t 0).get? 0 =
      some ⟨0, masterEbsfPeriod, Keyed.empty⟩ :=
    Keyed.get?_eq_some_iff.2 ⟨by rw [hentries]; simp, rfl⟩
  unfold recreateBeaconSlotframe tschScheduleAddLink
  rw [hget]
  dsimp only
  rw [if_neg (by decide), if_neg (by decide)]
  have herase := Keyed.entries_modify_last hentries
    (fun sf => { sf with links := sf.links.erase 0 }) (fun _ => rfl)
  split_ifs
  · exact ⟨_, _, herase, rfl, by decide, hshort, hone⟩
  · exact ⟨_, _, Keyed.entries_modify_last herase
      (fun sf => { sf with links := sf.links.put _ }) (fun _ => rfl), rfl, by decide, hshort, hone⟩

/-- Slotframes `1` up to `n`, without links. -/
def emptySlotframes (len n : ℕ) : List TschSlotframe :=
  (List.range' 1 n).map fun h => ⟨h, len, Keyed.empty⟩

theorem range'_one_succ (n : ℕ) : List.range' 1 (n + 1) = List.range' 1 n ++ [n + 1] := by
  rw [List.range'_concat, Nat.one_mul, Nat.add_comm 1 n]

theorem emptySlotframes_succ (len n : ℕ) :
    emptySlotframes len (n + 1) = emptySlotframes len n ++ [⟨n + 1, len, Keyed.empty⟩] := by
  unfold emptySlotframes
  rw [range'_one_succ, List.map_append, List.map_singleton]

theorem recreateSlotframes_entries (hlen : len ≠ 0) {sf : TschSlotframe} (hsf : sf.handle = 0)
    {rest : List TschSlotframe} (ht : t.entries = rest ++ [sf])
    (hrest : ∀ sf ∈ rest, sf.handle = 1) (hn : n + 1 < maxSlotframes) :
    ((List.range' 1 (n + 1)).foldl (recreateSlotframe len) t).entries =
      sf :: emptySlotframes len (n + 1) := by
  induction n with
  | zero =>
    -- the first round removes the old slotframe 1
    have hold : t.entries.filter (·.handle ≠ 1) = [sf] := by
      rw [ht, List.filter_append, List.filter_eq_nil_iff.2 (by simpa using hrest)]
      simp [hsf]
    have := recreateSlotframe_entries (t := t) hlen 1 (by rw [hold]; simpa using hn)
    rw [hold] at this
    simpa [emptySlotframes] using this
  | succ n ih =>
    -- every later round finds no slotframe with its handle
    have hprev := ih (by omega)
    have hold : ((List.range' 1 (n + 1)).foldl (recreateSlotframe len) t).entries.filter
        (·.handle ≠ n + 2) = sf :: emptySlotframes len (n + 1) := by
      rw [hprev, List.filter_eq_self]
      intro sf' hsf'
      rcases List.mem_cons.1 hsf' with rfl | hmem
      · simp [hsf]
      · rcases List.mem_map.1 hmem with ⟨h, hh, rfl⟩
        have := (List.mem_range'_1.1 hh).2
        simp only [ne_eq, decide_eq_true_eq]
        omega
    have hnew := recreateSlotframe_entries
      (t := (List.range' 1 (n + 1)).foldl (recreateSlotframe len) t) hlen (n + 2)
      (by rw [hold]; simp [emptySlotframes]; omega)
    rw [hold, List.cons_append, ← emptySlotframes_succ] at hnew
    rw [range'_one_succ, List.foldl_append]
    exact hnew

end

/-! ## The links of the file -/

/-- The slotframes `1` up to `n` with some of the given links, each in its
slotframe and timeslot. -/
structure HasLinks (len n : ℕ) (ls : List (ℕ × TschLink)) (t : SlotframeList) : Prop where
  count : linkCount t ≤ ls.length + 1
  slotframe : ∀ h, 1 ≤ h → h ≤ n → ∃ links, t.get? h = some ⟨h, len, links⟩ ∧
    (∀ k l, links.get? k = some l → (h, l) ∈ ls ∧ l.timeslot = k ∧ l.channelOffset ≤ 15) ∧
    ∀ l, (h, l) ∈ ls → l.channelOffset ≤ 15 → (links.get? l.timeslot).isSome

theorem hasLinks_empty {t : SlotframeList} {len n : ℕ} {sf : TschSlotframe}
    (ht : t.entries = sf :: emptySlotframes len n) (hsf : sf.links.entries.length ≤ 1) :
    HasLinks len n [] t := by
  constructor
  · have hzero : (emptySlotframes len n).map (fun sf => sf.links.entries.length) =
        List.replicate n 0 := by
      rw [List.eq_replicate_iff]
      constructor
      · simp [emptySlotframes]
      · intro b hb
        rcases List.mem_map.1 hb with ⟨sf', hsf', rfl⟩
        rcases List.mem_map.1 hsf' with ⟨h, -, rfl⟩
        rfl
    unfold linkCount
    rw [ht, List.map_cons, List.sum_cons, hzero]
    simpa using hsf
  · intro h h1 hn
    refine ⟨Keyed.empty, ?_, by simp, by simp⟩
    refine Keyed.get?_eq_some_iff.2 ⟨?_, rfl⟩
    rw [ht]
    exact List.mem_cons_of_mem _ (List.mem_map.2 ⟨h, List.mem_range'_1.2 (by omega), rfl⟩)

/-- One round: the link takes its timeslot, or is refused for its channel. -/
theorem HasLinks.addLink {len n maxLinks : ℕ} {ls : List (ℕ × TschLink)} {t : SlotframeList}
    (ht : HasLinks len n ls t) {a : ℕ × TschLink} (ha : 1 ≤ a.1 ∧ a.1 ≤ n)
    (hslot : a.2.timeslot ≤ len - 1) (hpool : ls.length + 1 < maxLinks) :
    HasLinks len n (ls ++ [a]) (tschScheduleAddLink maxLinks t a.1 a.2) := by
  have hcount := ht.count
  constructor
  · have := linkCount_addLink_le maxLinks t a.1 a.2
    rw [List.length_append, List.length_singleton]
    omega
  · intro h h1 hn
    rcases ht.slotframe h h1 hn with ⟨links, hget, hsound, hcomplete⟩
    -- A channel offset of 16 or more is refused.
    by_cases hch : a.2.channelOffset ≤ 15
    · rcases ht.slotframe a.1 ha.1 ha.2 with ⟨links', hget', hsound', hcomplete'⟩
      rcases get?_addLink hget' hslot hch (by omega : linkCount t < maxLinks) with
        ⟨new, hnew, hall⟩
      by_cases hh : h = a.1
      · subst hh
        refine ⟨new, by rw [hall, if_pos rfl], ?_, ?_⟩
        · intro k l hl
          rw [hnew] at hl
          split_ifs at hl with hk
          · cases hl
            exact ⟨by simp, hk.symm, hch⟩
          · rcases hsound' k l hl with ⟨hmem, hrest⟩
            exact ⟨List.mem_append_left _ hmem, hrest⟩
        · intro l hl hlch
          rw [hnew]
          split_ifs with hk
          · rfl
          · rcases List.mem_append.1 hl with hl | hl
            · exact hcomplete' l hl hlch
            · exact absurd (congrArg (fun b : ℕ × TschLink => b.2.timeslot)
                (List.mem_singleton.1 hl)) hk
      · refine ⟨links, by rw [hall, if_neg hh, hget], ?_, ?_⟩
        · intro k l hl
          rcases hsound k l hl with ⟨hmem, hrest⟩
          exact ⟨List.mem_append_left _ hmem, hrest⟩
        · intro l hl hlch
          rcases List.mem_append.1 hl with hl | hl
          · exact hcomplete l hl hlch
          · exact absurd (congrArg Prod.fst (List.mem_singleton.1 hl)) hh
    · refine ⟨links, by rw [addLink_channel (by omega), hget], ?_, ?_⟩
      · intro k l hl
        rcases hsound k l hl with ⟨hmem, hrest⟩
        exact ⟨List.mem_append_left _ hmem, hrest⟩
      · intro l hl hlch
        rcases List.mem_append.1 hl with hl | hl
        · exact hcomplete l hl hlch
        · rw [← List.mem_singleton.1 hl] at hch
          exact absurd hlch hch

theorem addLinks_spec {len n maxLinks : ℕ} {ls : List (ℕ × TschLink)} {t : SlotframeList}
    (ht : HasLinks len n [] t) (hh : ∀ a ∈ ls, 1 ≤ a.1 ∧ a.1 ≤ n)
    (hslot : ∀ a ∈ ls, a.2.timeslot ≤ len - 1) (hpool : ls.length + 1 ≤ maxLinks) :
    HasLinks len n ls (addLinks maxLinks t ls) := by
  refine foldl_prefix (I := HasLinks len n) ht ?_
  intro pre a post t hl hpre
  have ha : a ∈ ls := by simp [hl]
  have hlen : pre.length + 1 < maxLinks := by
    rw [hl, List.length_append, List.length_cons] at hpool
    omega
  exact hpre.addLink (hh a ha) (hslot a ha) hlen

end MasterScheduler.Mote

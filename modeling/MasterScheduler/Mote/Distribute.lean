import MasterScheduler.Mote.Effects

/-!
# MasterScheduler.Mote.Distribute — the packets of the distributor

The distributor sends the first packet when the schedule is loaded and every
further one from the sent callback of the one before.

- `callbackInputScheduleSend_spec`: number and command of the next packet.
- `callbackInputScheduleSend_chunk`: its payload, if the flash can be read.
- `Distributes.numbers`: the numbers of all packets so far.
-/

namespace MasterScheduler.Mote

open Lib

section Send

variable {node : Node} {env : Env} {s : NodeState}

theorem callbackInputScheduleSend_last (hd : node.nodeId = node.distributor)
    {filled : FillResult × NodeState}
    (hfill : fillSchedulePacketFromFlash node.cfg (nextSchedulePacket node s)
      ((s.schedulePacketNumber + 1) % 256) env.read = filled) (h : filled.1 = .last) :
    callbackInputScheduleSend node env s =
      output env { finishSchedule node { filled.2 with
        schedulePackets := (s.schedulePacketNumber + 1) % 256 } with
          mrp.command := .scheduleEnd } 10 none := by
  subst hfill
  unfold callbackInputScheduleSend
  rw [if_neg (not_not.2 hd)]
  exact if_pos h

theorem callbackInputScheduleSend_more (hd : node.nodeId = node.distributor)
    {filled : FillResult × NodeState}
    (hfill : fillSchedulePacketFromFlash node.cfg (nextSchedulePacket node s)
      ((s.schedulePacketNumber + 1) % 256) env.read = filled) (h : filled.1 ≠ .last) :
    ∃ own, callbackInputScheduleSend node env s =
      output env { (fillSchedulePacketFromFlash node.cfg filled.2
        ((s.schedulePacketNumber + 1) % 256) env.reread).2 with ownPacketNumber := own } 10 none := by
  subst hfill
  unfold callbackInputScheduleSend
  rw [if_neg (not_not.2 hd)]
  dsimp only
  split
  · rename_i hlast
    exact absurd hlast h
  · split
    · exact ⟨_, rfl⟩
    · exact ⟨_, rfl⟩

/-- Number and command of the next packet, whatever the flash does. -/
theorem callbackInputScheduleSend_spec (env : Env) (s : NodeState)
    (hd : node.nodeId = node.distributor) :
    ∃ q : Packet,
      (callbackInputScheduleSend node env s).handed = s.handed ++ [(none, q)] ∧
      q.number = (s.schedulePacketNumber + 1) % 256 ∧
      q.command = (if (fillSchedulePacketFromFlash node.cfg s
        ((s.schedulePacketNumber + 1) % 256) env.read).1 = .last then .scheduleEnd
        else .schedule) ∧
      (callbackInputScheduleSend node env s).schedulePacketNumber =
        (s.schedulePacketNumber + 1) % 256 ∧
      (callbackInputScheduleSend node env s).flash = s.flash := by
  have hfst := fill_fst_congr node.cfg ((s.schedulePacketNumber + 1) % 256) env.read
    (show (nextSchedulePacket node s).flash = s.flash from rfl)
  have hframe := fill_frame node.cfg (nextSchedulePacket node s)
    ((s.schedulePacketNumber + 1) % 256) env.read
  by_cases h : (fillSchedulePacketFromFlash node.cfg (nextSchedulePacket node s)
      ((s.schedulePacketNumber + 1) % 256) env.read).1 = .last
  · rw [callbackInputScheduleSend_last hd rfl h, output_handed, output_schedulePacketNumber,
      output_flash]
    rw [← hfst, if_pos h, hframe]
    exact ⟨_, rfl, rfl, rfl, rfl, rfl⟩
  · obtain ⟨own, heq⟩ := callbackInputScheduleSend_more hd rfl h
    rw [heq, output_handed, output_schedulePacketNumber, output_flash]
    rw [fill_frame, ← hfst, if_neg h, hframe]
    exact ⟨_, rfl, rfl, rfl, rfl, rfl⟩

/-- The distributor with its next packet, number `k`, in the buffer. -/
structure Sends (node : Node) (k : ℕ) (s t : NodeState) : Prop where
  frame : t = { s with
    scheduleVersion := t.scheduleVersion
    schedulePackets := t.schedulePackets
    receivedPackets := setBit s.receivedPackets k
    scheduleReceived := t.scheduleReceived
    schedulePacketNumber := k
    ownPacketNumber := t.ownPacketNumber
    mrp := t.mrp
    payloadLen := t.payloadLen }
  number : t.mrp.number = k
  command : (t.mrp.command = .schedule ∧ t.scheduleVersion = s.scheduleVersion ∧
      t.schedulePackets = s.schedulePackets ∧ t.scheduleReceived = s.scheduleReceived) ∨
    (t.mrp.command = .scheduleEnd ∧ t.scheduleVersion = (s.scheduleVersion + 1) % 256 ∧
      t.schedulePackets = k ∧
      t.scheduleReceived = setBit1Byte s.scheduleReceived (node.nodeId - 1))

/-- All that the sent callback of a schedule packet changes. -/
theorem callbackInputScheduleSend_cases (env : Env) (s : NodeState)
    (hd : node.nodeId = node.distributor) :
    ∃ t, Sends node ((s.schedulePacketNumber + 1) % 256) s t ∧
      (t.mrp.command = .scheduleEnd ↔ (fillSchedulePacketFromFlash node.cfg s
        ((s.schedulePacketNumber + 1) % 256) env.read).1 = .last) ∧
      callbackInputScheduleSend node env s = output env t 10 none := by
  have hfst := fill_fst_congr node.cfg ((s.schedulePacketNumber + 1) % 256) env.read
    (show (nextSchedulePacket node s).flash = s.flash from rfl)
  have hframe := fill_frame node.cfg (nextSchedulePacket node s)
    ((s.schedulePacketNumber + 1) % 256) env.read
  rw [← hfst]
  by_cases h : (fillSchedulePacketFromFlash node.cfg (nextSchedulePacket node s)
      ((s.schedulePacketNumber + 1) % 256) env.read).1 = .last
  · refine ⟨_, ?_, ?_, callbackInputScheduleSend_last hd rfl h⟩
    · rw [hframe]
      exact ⟨rfl, rfl, .inr ⟨rfl, rfl, rfl, rfl⟩⟩
    · exact ⟨fun _ => h, fun _ => rfl⟩
  · rcases callbackInputScheduleSend_more hd rfl h with ⟨own, heq⟩
    refine ⟨_, ?_, ?_, heq⟩
    · rw [fill_frame, hframe]
      exact ⟨rfl, rfl, .inl ⟨rfl, rfl, rfl, rfl⟩⟩
    · rw [fill_frame, hframe]
      refine ⟨?_, fun hl => absurd hl h⟩
      intro hc
      cases hc

theorem outgoing_eq_of_handed {t : NodeState} {handed : List (Option NodeId × Packet)}
    {dest : Option NodeId} {q : Packet}
    (h : t.handed ++ [(dest, t.outgoing)] = handed ++ [(dest, q)]) (ht : t.handed = handed) :
    t.outgoing = q := by
  rw [ht] at h
  simpa using List.append_cancel_left h

/-- With a stored file, a packet inside the file carries its chunk, if one of the
two reads succeeds. -/
theorem callbackInputScheduleSend_payload {file : List UInt8} {q : Packet} {k : ℕ}
    (hd : node.nodeId = node.distributor) (hnum : (s.schedulePacketNumber + 1) % 256 = k)
    (h : s.flash.Stores file) (hk : 1 ≤ k)
    (hoff : (k - 1) * node.cfg.schedulePayloadSize ≤ file.length)
    (h255 : (chunk node.cfg.schedulePayloadSize file k).length ≠ 255)
    (hreads : env.read = .completed ∨ env.reread = .completed)
    (hq : (callbackInputScheduleSend node env s).handed = s.handed ++ [(none, q)]) :
    q.payload = chunk node.cfg.schedulePayloadSize file k := by
  subst hnum
  have hnext : (nextSchedulePacket node s).flash.Stores file := h
  have hframe := fill_frame node.cfg (nextSchedulePacket node s)
    ((s.schedulePacketNumber + 1) % 256) env.read
  by_cases hl : (fillSchedulePacketFromFlash node.cfg (nextSchedulePacket node s)
      ((s.schedulePacketNumber + 1) % 256) env.read).1 = .last
  · -- the last packet: only a read that succeeds can say so
    have hread : env.read = .completed := by
      rcases hc : env.read with _ | n
      · rfl
      · obtain ⟨m, hm⟩ := fill_failed node.cfg hnext hk hoff n
        rw [hc, hm] at hl
        cases hl
    have hout := outgoing_fill_chunk node.cfg hnext hk hoff h255
    rw [callbackInputScheduleSend_last hd rfl hl, output_handed, hread] at hq
    rw [← hout, ← outgoing_eq_of_handed hq (by rw [fill_frame]; rfl)]
    rfl
  · obtain ⟨own, heq⟩ := callbackInputScheduleSend_more hd rfl hl
    have hflash : (fillSchedulePacketFromFlash node.cfg (nextSchedulePacket node s)
        ((s.schedulePacketNumber + 1) % 256) env.read).2.flash.Stores file := by
      rw [hframe]
      exact h
    rw [heq, output_handed] at hq
    rw [← outgoing_eq_of_handed hq (by rw [fill_frame, hframe]; rfl)]
    -- The second read is what is sent; if it fails, the first one is still in the buffer.
    rcases hr : env.reread with _ | n
    · exact outgoing_fill_chunk node.cfg hflash hk hoff h255
    · refine outgoing_fill_failed node.cfg hflash hk hoff n ?_
      rw [hreads.resolve_right (by rw [hr]; simp)]
      exact outgoing_fill_chunk node.cfg hnext hk hoff h255

end Send

/-! ## The number of packets -/

/-- The packet the distributor takes for the last one of the file. -/
def IsLast (cfg : Config) (file : List UInt8) (k : ℕ) : Prop :=
  1 ≤ k ∧ (k - 1) * cfg.schedulePayloadSize ≤ file.length ∧
    file.length ≤ k * cfg.schedulePayloadSize ∧
    (chunk cfg.schedulePayloadSize file k).length ≠ 255

instance (cfg : Config) (file : List UInt8) (k : ℕ) : Decidable (IsLast cfg file k) :=
  inferInstanceAs (Decidable (_ ∧ _ ∧ _ ∧ _))

/-- The number of the end packet for `len` bytes in packets of `p` bytes. The
first packet never ends a file, and a full packet of 255 bytes reads as an error. -/
def packetCount (p len : ℕ) : ℕ :=
  if p ∣ len ∧ p ≠ 255 ∧ 2 * p ≤ len then len / p else len / p + 1

section Count

variable {cfg : Config} {file : List UInt8}

theorem isLast_iff (hp : 0 < cfg.schedulePayloadSize) (k : ℕ) :
    IsLast cfg file k ↔ 1 ≤ k ∧ (k = file.length / cfg.schedulePayloadSize + 1 ∨
      k = file.length / cfg.schedulePayloadSize ∧ cfg.schedulePayloadSize ∣ file.length ∧
        cfg.schedulePayloadSize ≠ 255) := by
  have hlt := schedulePayloadSize_lt cfg
  unfold IsLast
  rw [length_chunk]
  generalize cfg.schedulePayloadSize = p at *
  generalize file.length = len
  have hdiv := Nat.div_add_mod len p
  have hmod := Nat.mod_lt len hp
  rw [Nat.mul_comm] at hdiv
  constructor
  · rintro ⟨hk, hoff, hend, h255⟩
    have h1 : k - 1 ≤ len / p := (Nat.le_div_iff_mul_le hp).2 hoff
    have h2 : len / p ≤ k := Nat.div_le_of_le_mul (by rwa [Nat.mul_comm])
    refine ⟨hk, ?_⟩
    rcases Nat.lt_or_ge (len / p) k with hlt | hge
    · exact .inl (by omega)
    · obtain rfl : k = len / p := by omega
      have hdvd : len = len / p * p := by omega
      have hstep : (len / p - 1) * p + p = len / p * p := by
        rw [← Nat.succ_mul, Nat.succ_eq_add_one, Nat.sub_add_cancel hk]
      exact .inr ⟨rfl, ⟨len / p, by rw [Nat.mul_comm]; exact hdvd⟩, by omega⟩
  · rintro ⟨hk, rfl | ⟨rfl, hdvd, h255⟩⟩
    · have : (len / p + 1) * p = len / p * p + p := Nat.succ_mul _ _
      exact ⟨by omega, by simp only [Nat.add_sub_cancel]; omega, by omega,
        by simp only [Nat.add_sub_cancel]; omega⟩
    · have hstep : (len / p - 1) * p + p = len / p * p := by
        rw [← Nat.succ_mul, Nat.succ_eq_add_one, Nat.sub_add_cancel hk]
      rw [Nat.mod_eq_zero_of_dvd hdvd] at hdiv
      exact ⟨hk, by omega, by omega, by omega⟩

/-- The distributor reaches an end packet before its packet number wraps. -/
def Ends (p len : ℕ) : Prop := 0 < p ∧ p ≤ len ∧ packetCount p len ≤ 255

instance (p len : ℕ) : Decidable (Ends p len) := inferInstanceAs (Decidable (_ ∧ _ ∧ _))

theorem Ends.isLast (h : Ends cfg.schedulePayloadSize file.length) :
    2 ≤ packetCount cfg.schedulePayloadSize file.length ∧
      IsLast cfg file (packetCount cfg.schedulePayloadSize file.length) ∧
      ∀ j, 2 ≤ j → j < packetCount cfg.schedulePayloadSize file.length →
        ¬ IsLast cfg file j := by
  obtain ⟨hp, hle, -⟩ := h
  have h1 : 1 ≤ file.length / cfg.schedulePayloadSize := (Nat.le_div_iff_mul_le hp).2 (by omega)
  simp only [isLast_iff hp]
  unfold packetCount
  split_ifs with hfull
  · have h2 : 2 ≤ file.length / cfg.schedulePayloadSize := (Nat.le_div_iff_mul_le hp).2 hfull.2.2
    exact ⟨h2, ⟨h1, .inr ⟨rfl, hfull.1, hfull.2.1⟩⟩, fun j _ hj => by omega⟩
  · refine ⟨by omega, ⟨by omega, .inl rfl⟩, ?_⟩
    rintro j hj hlt ⟨-, rfl | ⟨rfl, hdvd, h255⟩⟩
    · exact absurd hlt (lt_irrefl _)
    · exact hfull ⟨hdvd, h255, (Nat.le_div_iff_mul_le hp).1 hj⟩

/-- Every packet up to the end packet starts inside the file. -/
theorem Ends.offset_le (h : Ends cfg.schedulePayloadSize file.length) {k : ℕ}
    (hk : k ≤ packetCount cfg.schedulePayloadSize file.length) :
    (k - 1) * cfg.schedulePayloadSize ≤ file.length := by
  rcases h.isLast with ⟨-, hlast, -⟩
  exact le_trans (Nat.mul_le_mul_right _ (by omega)) hlast.2.1

theorem length_chunk_ne_255 (h : cfg.schedulePayloadSize ≠ 255) (k : ℕ) :
    (chunk cfg.schedulePayloadSize file k).length ≠ 255 := by
  have hp := schedulePayloadSize_lt cfg
  rw [length_chunk]
  omega

theorem not_isLast_of_not_ends (h : ¬ Ends cfg.schedulePayloadSize file.length)
    (hpos : 0 < file.length) {j : ℕ} (h2 : 2 ≤ j) (h255 : j ≤ 255) : ¬ IsLast cfg file j := by
  intro hl
  rcases Nat.eq_zero_or_pos cfg.schedulePayloadSize with hp | hp
  · have := hl.2.2.1
    rw [hp] at this
    omega
  · rw [isLast_iff hp] at hl
    have h1 : 1 ≤ file.length / cfg.schedulePayloadSize := by omega
    have hle : cfg.schedulePayloadSize ≤ file.length := by
      simpa using (Nat.le_div_iff_mul_le hp).1 h1
    refine h ⟨hp, hle, ?_⟩
    unfold packetCount
    split_ifs with hfull
    · omega
    · rcases hl.2 with rfl | ⟨rfl, hdvd, hne⟩
      · exact h255
      · exact absurd ⟨hdvd, hne, (Nat.le_div_iff_mul_le hp).1 h2⟩ hfull

end Count

/-! ## All packets so far -/

/-- The distributor with a file in its flash, before the first packet. -/
structure Uploaded (node : Node) (file : List UInt8) (s : NodeState) : Prop where
  nodeId : node.nodeId = node.distributor
  flash : s.flash = storedFile file
  number : s.schedulePacketNumber = 1
  handed : s.handed = []

/-- The distributor from `s₀` on, after `m` packets: the schedule is loaded, and
each `CM_SCHEDULE` packet that was sent makes room for the next packet. -/
inductive Distributes (node : Node) (s₀ : NodeState) : ℕ → NodeState → Prop
  | loaded {env : Env} : env.read = .completed →
      Distributes node s₀ 1 (masterScheduleLoadedCallback node env s₀)
  | sent {env : Env} {m : ℕ} {s : NodeState} {q : Packet} : Distributes node s₀ m s →
      s.handed.getLast? = some (none, q) → q.command = .schedule →
      env.read = .completed → env.reread = .completed →
      Distributes node s₀ (m + 1) (callbackInputScheduleSend node env s)

/-- The command of the `i`-th packet; the first is never the end. -/
def sentCommand (cfg : Config) (file : List UInt8) (i : ℕ) : Command :=
  if 2 ≤ i ∧ IsLast cfg file (i % 256) then .scheduleEnd else .schedule

section Run

variable {node : Node} {file : List UInt8} {s₀ s : NodeState} {m : ℕ}

theorem masterScheduleLoadedCallback_spec (node : Node) (env : Env) (s : NodeState) :
    ∃ q : Packet, (masterScheduleLoadedCallback node env s).handed = s.handed ++ [(none, q)] ∧
      q.number = s.schedulePacketNumber ∧ q.command = .schedule ∧
      (masterScheduleLoadedCallback node env s).schedulePacketNumber = s.schedulePacketNumber ∧
      (masterScheduleLoadedCallback node env s).flash = s.flash := by
  unfold masterScheduleLoadedCallback
  dsimp only
  rw [output_handed, output_schedulePacketNumber, output_flash, fill_frame]
  exact ⟨_, rfl, rfl, rfl, rfl, rfl⟩

/-- All that the loaded callback changes. -/
theorem masterScheduleLoadedCallback_cases (node : Node) (env : Env) (s : NodeState) :
    ∃ t, Sends node s.schedulePacketNumber (handleStateChange s .scheduleDist) t ∧
      t.mrp.command = .schedule ∧
      masterScheduleLoadedCallback node env s = output env t 10 none := by
  refine ⟨_, ?_, ?_, rfl⟩
  · rw [fill_frame]
    exact ⟨rfl, rfl, .inl ⟨rfl, rfl, rfl, rfl⟩⟩
  · rw [fill_frame]
    rfl

/-- The first packet carries the first chunk, if the flash can be read. -/
theorem masterScheduleLoadedCallback_payload {env : Env} {q : Packet}
    (hnum : s.schedulePacketNumber = 1) (h : s.flash.Stores file)
    (h255 : (chunk node.cfg.schedulePayloadSize file 1).length ≠ 255)
    (hread : env.read = .completed)
    (hq : (masterScheduleLoadedCallback node env s).handed = s.handed ++ [(none, q)]) :
    q.payload = chunk node.cfg.schedulePayloadSize file 1 := by
  unfold masterScheduleLoadedCallback at hq
  dsimp only at hq
  rw [output_handed, hread] at hq
  rw [← outgoing_eq_of_handed hq (by rw [fill_frame]; rfl)]
  have hout := outgoing_fill_chunk (k := 1) node.cfg
    (s := { preparePacket node (handleStateChange s .scheduleDist) .schedule 1 with
      receivedPackets := setBit s.receivedPackets 1 }) h (le_refl 1) (by simp) h255
  rw [← hout, ← hnum]
  rfl

/-- After `m` packets: what was sent under which number, and where the distributor stands. -/
theorem Distributes.numbers (h₀ : Uploaded node file s₀) (hpos : 0 < file.length)
    (h : Distributes node s₀ m s) :
    1 ≤ m ∧ s.flash = storedFile file ∧ s.schedulePacketNumber = m % 256 ∧
      s.handed.map (fun x => (x.1, x.2.number, x.2.command)) =
        (List.range' 1 m).map (fun i => (none, i % 256, sentCommand node.cfg file i)) ∧
      ∀ j, 2 ≤ j → j < m → ¬ IsLast node.cfg file (j % 256) := by
  -- On the transmissions of the distributor.
  induction h with
  | @loaded env hread =>
    obtain ⟨q, hq, hnum, hcmd, hn, hf⟩ := masterScheduleLoadedCallback_spec node env s₀
    refine ⟨le_refl _, by rw [hf, h₀.flash], by rw [hn, h₀.number], ?_, fun j h2 h1 => by omega⟩
    rw [hq, h₀.handed]
    simp [hnum, hcmd, h₀.number, sentCommand]
  | @sent env m s q h hlast hcmd hread hreread ih =>
    obtain ⟨hm, hf, hn, hhanded, hnot⟩ := ih
    obtain ⟨q', hq', hnum', hcmd', hn', hf'⟩ :=
      callbackInputScheduleSend_spec env s h₀.nodeId
    rw [hn, Nat.mod_add_mod] at hnum' hcmd' hn'
    refine ⟨by omega, by rw [hf', hf], hn', ?_, fun j h2 hj => ?_⟩
    · rw [hq', List.map_append, hhanded, List.range'_concat, List.map_append]
      congr 1
      have hiff : (fillSchedulePacketFromFlash node.cfg s ((m + 1) % 256) .completed).1 = .last ↔
          IsLast node.cfg file ((m + 1) % 256) := fill_eq_last_iff node.cfg hf hpos
      have h2 : 2 ≤ m + 1 := by omega
      simp only [List.map_cons, List.map_nil, hnum', hcmd', hread, hiff, sentCommand, Nat.one_mul,
        Nat.add_comm 1 m, h2, true_and]
    · -- the packet before was no end packet
      rcases Nat.lt_or_ge j m with hj' | hj'
      · exact hnot j h2 hj'
      · obtain rfl : j = m := by omega
        intro hl
        have : (s.handed.map (fun x => (x.1, x.2.number, x.2.command))).getLast? =
            some (none, q.number, q.command) := by rw [List.getLast?_map, hlast]; rfl
        rw [hhanded, List.getLast?_map, List.getLast?_range', if_neg (by omega)] at this
        simp only [Option.map_some, Nat.add_sub_cancel_left, Option.some.injEq, Prod.mk.injEq,
          sentCommand, if_pos (And.intro h2 hl), hcmd] at this
        exact absurd this.2.2 (by decide)

/-- The outcomes of an event in which nothing goes wrong. -/
def faultlessEnv : Env where
  etxLink := 1000
  read := .completed
  reread := .completed
  write := .completed
  mac := .queued

theorem exists_distributes (h₀ : Uploaded node file s₀) (hpos : 0 < file.length) (m : ℕ)
    (hnot : ∀ j, 2 ≤ j → j ≤ m → ¬ IsLast node.cfg file (j % 256)) :
    ∃ s, Distributes node s₀ (m + 1) s := by
  induction m with
  | zero => exact ⟨_, .loaded (show faultlessEnv.read = .completed from rfl)⟩
  | succ m ih =>
    obtain ⟨s, hs⟩ := ih fun j h2 hj => hnot j h2 (by omega)
    obtain ⟨-, -, -, hhanded, -⟩ := hs.numbers h₀ hpos
    have hcmd : sentCommand node.cfg file (m + 1) = .schedule :=
      if_neg fun h => hnot (m + 1) h.1 (le_refl _) h.2
    have hlast : (s.handed.map (fun x => (x.1, x.2.number, x.2.command))).getLast? =
        some (none, (m + 1) % 256, .schedule) := by
      rw [hhanded, List.getLast?_map, List.getLast?_range', if_neg (by omega)]
      simp [hcmd]
    rw [List.getLast?_map, Option.map_eq_some_iff] at hlast
    obtain ⟨⟨dest, q⟩, hq, heq⟩ := hlast
    simp only [Prod.mk.injEq] at heq
    obtain ⟨rfl, -, hqcmd⟩ := heq
    exact ⟨_, .sent hs hq hqcmd (show faultlessEnv.read = .completed from rfl) rfl⟩

section Packets

variable (h₀ : Uploaded node file s₀) (hpos : 0 < file.length)
include h₀ hpos

/-- The packets of a distributor, by their index. -/
theorem Distributes.mem_handed {m : ℕ} {s : NodeState} (h : Distributes node s₀ m s)
    {x : Option NodeId × Packet} (hx : x ∈ s.handed) :
    ∃ i, 1 ≤ i ∧ i ≤ m ∧ x.2.number = i % 256 ∧ x.2.command = sentCommand node.cfg file i := by
  obtain ⟨-, -, -, hhanded, -⟩ := h.numbers h₀ hpos
  have := List.mem_map_of_mem (f := fun x => (x.1, x.2.number, x.2.command)) hx
  rw [hhanded, List.mem_map] at this
  obtain ⟨i, hi, heq⟩ := this
  simp only [Prod.mk.injEq] at heq
  rw [List.mem_range'_1] at hi
  exact ⟨i, hi.1, by omega, heq.2.1.symm, heq.2.2.symm⟩

theorem Distributes.exists_handed {m : ℕ} {s : NodeState} (h : Distributes node s₀ m s) {i : ℕ}
    (h1 : 1 ≤ i) (hm : i ≤ m) :
    ∃ x ∈ s.handed, x.2.number = i % 256 ∧ x.2.command = sentCommand node.cfg file i := by
  obtain ⟨-, -, -, hhanded, -⟩ := h.numbers h₀ hpos
  have : (none, i % 256, sentCommand node.cfg file i) ∈
      s.handed.map (fun x => (x.1, x.2.number, x.2.command)) := by
    rw [hhanded, List.mem_map]
    exact ⟨i, List.mem_range'_1.2 ⟨h1, by omega⟩, rfl⟩
  rw [List.mem_map] at this
  obtain ⟨x, hx, heq⟩ := this
  simp only [Prod.mk.injEq] at heq
  exact ⟨x, hx, heq.2.1, heq.2.2⟩

theorem Distributes.le_packetCount (hends : Ends node.cfg.schedulePayloadSize file.length)
    {m : ℕ} {s : NodeState} (h : Distributes node s₀ m s) :
    m ≤ packetCount node.cfg.schedulePayloadSize file.length := by
  obtain ⟨-, -, -, -, hnot⟩ := h.numbers h₀ hpos
  obtain ⟨h2, hlast, -⟩ := hends.isLast
  by_contra hlt
  have := hnot _ h2 (not_le.1 hlt)
  rw [Nat.mod_eq_of_lt (by have := hends.2.2; omega)] at this
  exact this hlast

/-- With a payload size the flash can read, every packet carries its chunk. -/
theorem Distributes.payloads (hends : Ends node.cfg.schedulePayloadSize file.length)
    (h255 : node.cfg.schedulePayloadSize ≠ 255) (h : Distributes node s₀ m s) :
    s.handed.map (fun x => x.2.payload) =
      (List.range' 1 m).map (chunk node.cfg.schedulePayloadSize file) := by
  induction h with
  | @loaded env hread =>
    rcases masterScheduleLoadedCallback_spec node env s₀ with ⟨q, hq, -, -, -, -⟩
    have hpay := masterScheduleLoadedCallback_payload h₀.number
      (h₀.flash ▸ storedFile_stores file) (length_chunk_ne_255 h255 1) hread hq
    rw [hq, h₀.handed]
    simp [hpay]
  | @sent env m s q h hlast hcmd hread hreread ih =>
    have hsent := Distributes.sent h hlast hcmd hread hreread
    have hle := hsent.le_packetCount h₀ hpos hends
    rcases h.numbers h₀ hpos with ⟨-, hf, hn, -, -⟩
    rcases callbackInputScheduleSend_spec env s h₀.nodeId with ⟨q', hq', -, -, -, -⟩
    have h255' := hends.2.2
    have hnum : (s.schedulePacketNumber + 1) % 256 = m + 1 := by
      rw [hn, Nat.mod_add_mod, Nat.mod_eq_of_lt (by omega)]
    have hpay := callbackInputScheduleSend_payload h₀.nodeId hnum (hf ▸ storedFile_stores file)
      (by omega) (hends.offset_le hle) (length_chunk_ne_255 h255 _) (.inl hread) hq'
    rw [hq', List.map_append, ih, List.range'_concat, List.map_append]
    simp [hpay, Nat.add_comm 1 m]

end Packets

end Run

end MasterScheduler.Mote

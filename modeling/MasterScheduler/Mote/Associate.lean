import MasterScheduler.Mote.RxPending
import MasterScheduler.Mote.Tsch

/-!
# MasterScheduler.Mote.Associate — joining on a beacon

`tsch_associate` takes timing, hopping sequence and schedule from a beacon. The
parser stores identifier, length and channels of a hopping sequence under
different conditions: the length also where the element does not have it, the
channels only where it does. What is installed is the length.

1. **Model**: `tsch_packet_parse_eb`, `tsch_associate`, `tsch_calculate_channel`.
2. **Elements**: `lastHopping`, the hopping sequence element that counts, and
   what it leaves in the record.
3. **Association**: `installs_iff`, when a usable sequence is installed.

The build is the one without the minimal schedule, without security and without
a check of the time.
-/

namespace MasterScheduler.Mote.Associate

open Lib Frame802154 Elements Hopping RxPending

/-! ## Model -/

structure Config where
  /-- `TSCH_WITH_SIXTOP`. -/
  sixtop : Bool
  /-- `NODE_ID_INDEX`. -/
  nodeIdIndex : ℕ
  linkaddrNodeAddr : Linkaddr
  /-- `MASTER_TSCH_DISTRIBUTOR`. -/
  distributor : UInt8
  /-- `MASTER_TSCH_COORDINATOR`. -/
  coordinator : UInt8
  /-- `IEEE802154_PANID`. -/
  panId : UInt16
  tschDefaultTimingUs : List UInt16
  /-- `US_TO_RTIMERTICKS`. -/
  usToRtimerticks : UInt16 → ℕ
  /-- `TSCH_SCHEDULE_MAX_LINKS`. -/
  maxLinks : ℕ

/-- The globals that are set; a sequence of `TSCH_HOPPING_SEQUENCE_MAX_LEN` entries. -/
structure Mac where
  tschCurrentAsn : Asn
  tschJoinPriority : UInt8
  tschTiming : List ℕ
  tschHoppingSequence : List UInt8
  tschHoppingSequenceLength : AsnDivisor
  slotframes : SlotframeList
  timeSource : Option Linkaddr
  tschRank : UInt8
  panId : UInt16
  tschIsAssociated : Bool
  tschIsPanSecured : Bool
  tschAssociationCount : ℕ

/-- `TSCH_DEFAULT_HOPPING_SEQUENCE`. -/
def tschDefaultHoppingSequence : List UInt8 := defaultHoppingSequence.map UInt8.ofNat

/-- `TSCH_MAX_JOIN_PRIORITY`. -/
def tschMaxJoinPriority : UInt8 := 32

/-- `tsch_packet_parse_eb` on a received frame: header, record of elements and the assignments
to it. A read behind the array of the frame ends it like a failure. -/
def tschPacketParseEb (sixtop : Bool) (c : InputPacket) :
    Option (Frame802154.Frame × Ies × List (Element × Write)) :=
  let frame := c.parse.1
  if c.parse.2 = 0 then none
  else if frame.fcf.frameVersion.val < ieee802154v2015.val ∨ frame.fcf.frameType ≠ beaconFrame then
    none
  else
    let ies := { Ies.zero with ieJoinPriority := 0xff }
    if frame.fcf.ieListPresent then
      let r := c.parseElements sixtop ies
      match r.result with
      | .error _ => none
      | .ok n =>
          -- The sum of the lengths has eight bits, and zero stands for a failure.
          if UInt8.ofNat c.ret + UInt8.ofNat n = 0 then none else some (frame, r.ies, r.log)
    else some (frame, ies, [])

/-- `memcpy` of the first `n` entries over an array. -/
def overwrite (src dst : List UInt8) (n : ℕ) : List UInt8 := src.take n ++ dst.drop n

/-- The part on the hopping sequence, or none if it is too long. -/
def installHoppingSequence (mac : Mac) (ies : Ies) : Option Mac :=
  if ies.ieChannelHoppingSequenceId = 0 then
    some { mac with
      tschHoppingSequence := overwrite tschDefaultHoppingSequence mac.tschHoppingSequence
        tschDefaultHoppingSequence.length
      tschHoppingSequenceLength := asnDivisorInit tschDefaultHoppingSequence.length }
  else if ies.ieHoppingSequenceLen.toNat ≤ tschHoppingSequenceMaxLen then
    some { mac with
      tschHoppingSequence := overwrite ies.ieHoppingSequenceList mac.tschHoppingSequence
        ies.ieHoppingSequenceLen.toNat
      tschHoppingSequenceLength := asnDivisorInit ies.ieHoppingSequenceLen.toNat }
  else none

/-- The timing of a slot, the default one for the identifier 0. -/
def timingOf (cfg : Config) (ies : Ies) : List ℕ :=
  (if ies.ieTschTimeslotId = 0 then cfg.tschDefaultTimingUs else ies.ieTschTimeslot).map
    cfg.usToRtimerticks

/-- The links of the one slotframe, after the old schedule is removed; none for too many. -/
def installSchedule (cfg : Config) (slotframes : SlotframeList) (sf : SlotframeAndLinks) :
    Option SlotframeList :=
  if sf.numSlotframes = 0 then some slotframes
  else if sf.numLinks.toNat ≤ frame802154eIeMaxLinks then
    some (addLinks cfg.maxLinks
      (tschScheduleAddSlotframe Keyed.empty sf.slotframeHandle.toNat sf.slotframeSize.toNat)
      ((sf.links.take sf.numLinks.toNat).map fun l =>
        (sf.slotframeHandle.toNat,
          { linkOptions := l.linkOptions.toNat, linkType := .advertising, addr := none,
            timeslot := l.timeslot.toNat, channelOffset := l.channelOffset.toNat })))
  else none

/-- The distributor is nobody to follow, and follows the coordinator only. -/
def wrongSender (cfg : Config) (srcAddr : Linkaddr) : Bool :=
  srcAddr.u8.getD cfg.nodeIdIndex 0 == cfg.distributor ||
    (cfg.linkaddrNodeAddr.u8.getD cfg.nodeIdIndex 0 == cfg.distributor &&
      srcAddr.u8.getD cfg.nodeIdIndex 0 != cfg.coordinator)

/-- `tsch_associate`: the value returned and the globals behind the call. `nbrAdded` is whether
`tsch_queue_add_nbr` finds an entry for the sender. -/
def tschAssociate (cfg : Config) (nbrAdded : Bool) (mac : Mac) (inputEb : InputPacket) :
    Bool × Mac :=
  match tschPacketParseEb cfg.sixtop inputEb with
  | none => (false, mac)
  | some (frame, ies, _) =>
      if wrongSender cfg frame.srcAddr then (false, mac)
      else
        let mac := { mac with
          tschCurrentAsn := ies.ieAsn, tschJoinPriority := ies.ieJoinPriority + 1 }
        if frame.fcf.securityEnabled then (false, mac)
        else if frame.srcPid ≠ cfg.panId then (false, mac)
        else if ies.ieJoinPriority = 0xff then (false, mac)
        else
          let mac := { mac with tschTiming := timingOf cfg ies }
          match installHoppingSequence mac ies with
          | none => (false, mac)
          | some mac =>
              match installSchedule cfg mac.slotframes ies.ieTschSlotframeAndLink with
              | none => (false, { mac with slotframes := Keyed.empty })
              | some slotframes =>
                  let mac := { mac with slotframes := slotframes }
                  if mac.tschJoinPriority < tschMaxJoinPriority ∧ nbrAdded then
                    (true, { mac with
                      timeSource := some frame.srcAddr
                      tschRank := ies.ieRank + 1
                      panId := frame.srcPid
                      tschIsAssociated := true
                      tschIsPanSecured := frame.fcf.securityEnabled
                      tschAssociationCount := mac.tschAssociationCount + 1 })
                  else (false, mac)

/-- The sequence that hopping goes through. -/
def Mac.sequence (mac : Mac) : List UInt8 :=
  mac.tschHoppingSequence.take mac.tschHoppingSequenceLength.val

/-- `tsch_calculate_channel`; none for a division by zero or a read behind the sequence. -/
def Mac.tschCalculateChannel (mac : Mac) (asn : Asn) (channelOffset : UInt8) : Option UInt8 :=
  let length := mac.tschHoppingSequenceLength
  if length.val = 0 then none
  else mac.sequence[(asnMod asn length + channelOffset.toNat) % length.val]?

/-! ## Elements -/

/-- A hopping sequence element, by what the parser takes from it. -/
inductive HoppingIe where
  /-- The identifier alone. -/
  | idOnly (id : UInt8)
  /-- The length of the element is not that of its sequence, which is not copied. -/
  | malformed (id : UInt8) (sequenceLen : UInt16)
  | sequence (id : UInt8) (channels : List UInt8)
deriving DecidableEq, Repr

def HoppingIe.id : HoppingIe → UInt8
  | idOnly id | malformed id _ | sequence id _ => id

/-- The assignments for hopping sequence elements. -/
def hoppingWrites (log : List (Element × Write)) : List Write :=
  (log.map Prod.snd).filter fun w => Element.channelHoppingSequence ∈ w.owners

/-- The element that assignments in reverse order begin with. -/
def HoppingIe.ofWrites : List Write → Option HoppingIe
  | .hoppingSequenceList channels :: .hoppingSequenceLen _ :: .hoppingSequenceId id :: _ =>
      some (.sequence id channels)
  | .hoppingSequenceLen n :: .hoppingSequenceId id :: _ => some (.malformed id n)
  | .hoppingSequenceId id :: _ => some (.idOnly id)
  | _ => none

/-- The last hopping sequence element of a frame. -/
def lastHopping (log : List (Element × Write)) : Option HoppingIe :=
  HoppingIe.ofWrites (hoppingWrites log).reverse

section Elements

variable {sixtop : Bool} {buf : List UInt8} {len : ℕ} {e : Element} {ws : List Write}

/-- No assignment is to a field of the hopping sequence. -/
def Silent (ws : List Write) : Prop := ∀ w ∈ ws, Element.channelHoppingSequence ∉ w.owners

/-- A step of the parser that succeeds without such an assignment. -/
def SilentStep (x : Except Stop (List Write)) : Prop := ∀ ws, x = .ok ws → Silent ws

/-- An element other than the hopping sequence is silent. -/
theorem silentStep_ok {w : Write} (h : Element.channelHoppingSequence ∉ w.owners) :
    SilentStep (.ok [w]) := by
  intro ws hws
  cases hws
  intro w' hw'
  rw [List.mem_singleton.mp hw']
  exact h

/-- A stop is silent. -/
theorem silentStep_error (stop : Stop) : SilentStep (.error stop) := nofun

/-- A read before a silent step leaves it silent. -/
theorem silentStep_bind {α : Type} {x : Except Stop α} {f : α → Except Stop (List Write)}
    (h : ∀ a, SilentStep (f a)) : SilentStep (x >>= f) := by
  cases x with
  | error stop => exact silentStep_error stop
  | ok a => exact h a

/-- Header IEs are silent. -/
theorem parseHeaderIe_silent (buf : List UInt8) (len : ℕ) (e : Element) :
    SilentStep (parseHeaderIe buf len e) := by
  unfold parseHeaderIe
  split
  · split
    · exact silentStep_bind fun _ => silentStep_ok (by simp [Write.owners])
    · exact silentStep_error _
  · exact silentStep_error _

/-- Elements of one byte are silent. -/
theorem parseByte_silent {field : UInt8 → Write}
    (h : ∀ b, Element.channelHoppingSequence ∉ (field b).owners) (buf : List UInt8) (len : ℕ) :
    SilentStep (parseByte field buf len) := by
  unfold parseByte
  split
  · exact silentStep_bind fun b => silentStep_ok (h b)
  · exact silentStep_error _

/-- The received schedules are silent. -/
theorem parseScheduleReceived_silent (buf : List UInt8) (len : ℕ) :
    SilentStep (parseScheduleReceived buf len) := by
  unfold parseScheduleReceived
  split
  · exact silentStep_bind fun _ => silentStep_ok (by simp [Write.owners])
  · exact silentStep_error _

/-- Slotframes and links are silent. -/
theorem parseSlotframeAndLink_silent (buf : List UInt8) (len : ℕ) :
    SilentStep (parseSlotframeAndLink buf len) := by
  unfold parseSlotframeAndLink
  split
  · refine silentStep_bind fun _ => silentStep_bind fun _ => ?_
    split
    · intro ws h
      cases h
      nofun
    · split
      · exact silentStep_bind fun _ => silentStep_bind fun _ => silentStep_bind fun _ =>
          silentStep_ok (by simp [Write.owners])
      · exact silentStep_error _
  · exact silentStep_error _

/-- Timeslots are silent. -/
theorem parseTimeslot_silent (buf : List UInt8) (len : ℕ) : SilentStep (parseTimeslot buf len) := by
  unfold parseTimeslot
  split
  · exact silentStep_bind fun _ => silentStep_ok (by simp [Write.owners])
  · split
    · refine silentStep_bind fun _ => silentStep_bind fun _ => ?_
      intro ws h
      cases h
      intro w hw
      simp only [List.mem_cons, List.not_mem_nil, or_false] at hw
      rcases hw with rfl | rfl <;> simp [Write.owners]
    · exact silentStep_error _

/-- Synchronisation is silent. -/
theorem parseSynchronization_silent (buf : List UInt8) (len : ℕ) :
    SilentStep (parseSynchronization buf len) := by
  unfold parseSynchronization
  split
  · exact silentStep_bind fun _ => silentStep_bind fun _ => silentStep_bind fun _ =>
      silentStep_bind fun _ => silentStep_bind fun _ => silentStep_bind fun _ =>
        silentStep_ok (by simp [Write.owners])
  · exact silentStep_error _

/-- Short sub-IEs are silent. -/
theorem parseMlmeShortIe_silent (buf : List UInt8) (len : ℕ) (e : Element) :
    SilentStep (parseMlmeShortIe buf len e) := by
  unfold parseMlmeShortIe
  split
  case h_1 => exact parseSlotframeAndLink_silent buf len
  case h_2 => exact parseSynchronization_silent buf len
  case h_3 => exact parseTimeslot_silent buf len
  case h_5 =>
    split
    · exact silentStep_bind fun _ => silentStep_ok (by simp [Write.owners])
    · exact silentStep_error _
  case h_9 =>
    split
    · exact silentStep_bind fun _ => silentStep_ok (by simp [Write.owners])
    · exact parseScheduleReceived_silent buf len
  case h_10 => exact parseScheduleReceived_silent buf len
  case h_11 => exact silentStep_error _
  all_goals exact parseByte_silent (fun _ => by simp [Write.owners]) buf len

/-- The assignments for a hopping sequence element. -/
def HoppingIe.writes : HoppingIe → List Write
  | idOnly id => [.hoppingSequenceId id]
  | malformed id n => [.hoppingSequenceId id, .hoppingSequenceLen n]
  | sequence id channels =>
      [.hoppingSequenceId id, .hoppingSequenceLen (UInt16.ofNat channels.length),
        .hoppingSequenceList channels]

/-- What the parser makes of a hopping sequence element, and when it takes the channels. -/
theorem parseMlmeLongIe_hopping (h : parseMlmeLongIe buf len .channelHoppingSequence = .ok ws) :
    ∃ hop : HoppingIe, ws = hop.writes ∧
      ∀ id channels, hop = .sequence id channels →
        channels.length ≤ tschHoppingSequenceMaxLen ∧ len = 12 + channels.length := by
  unfold parseMlmeLongIe at h
  dsimp only at h
  split at h
  case isFalse => cases h
  obtain ⟨id, -, h⟩ := bind_eq_ok.1 h
  split at h
  case isFalse =>
    cases h
    exact ⟨.idOnly id, rfl, nofun⟩
  obtain ⟨n, -, h⟩ := bind_eq_ok.1 h
  split at h
  case isFalse =>
    cases h
    exact ⟨.malformed id (UInt16.ofNat n), rfl, nofun⟩
  case isTrue hn =>
    obtain ⟨channels, hread, h⟩ := bind_eq_ok.1 h
    cases h
    have hlen : channels.length = n := by
      rw [← (forall₂_of_mapM hread).length_eq, List.length_range']
    refine ⟨.sequence id channels, by rw [HoppingIe.writes, hlen], ?_⟩
    intro id' channels' heq
    cases heq
    rw [hlen]
    exact hn

/-! ### The record along the loop -/

/-- What the last hopping sequence element has left in the record. -/
def Recorded (ies : Ies) : Option HoppingIe → Prop
  | none => ies.ieChannelHoppingSequenceId = 0
  | some (.idOnly id) | some (.malformed id _) => ies.ieChannelHoppingSequenceId = id
  | some (.sequence id channels) =>
      ies.ieChannelHoppingSequenceId = id ∧ ies.ieHoppingSequenceLen.toNat = channels.length ∧
        channels.length ≤ tschHoppingSequenceMaxLen ∧
        ies.ieHoppingSequenceList.take channels.length = channels

def Follows (p : Parser) : Prop := Recorded p.ies (lastHopping p.log)

/-- The writes of a hopping sequence among others. -/
theorem hoppingWrites_append (log : List (Element × Write)) (e : Element) (ws : List Write) :
    hoppingWrites (log ++ ws.map fun w => (e, w)) =
      hoppingWrites log ++ ws.filter fun w => Element.channelHoppingSequence ∈ w.owners := by
  unfold hoppingWrites
  rw [List.map_append, List.filter_append, List.map_map]
  congr 2
  exact List.map_id _

/-- An assignment to another field leaves those of the hopping sequence alone. -/
theorem assign_of_silent (ies : Ies) {w : Write} (h : Element.channelHoppingSequence ∉ w.owners) :
    (ies.assign w).ieChannelHoppingSequenceId = ies.ieChannelHoppingSequenceId ∧
      (ies.assign w).ieHoppingSequenceLen = ies.ieHoppingSequenceLen ∧
      (ies.assign w).ieHoppingSequenceList = ies.ieHoppingSequenceList := by
  cases w with
  | hoppingSequenceId | hoppingSequenceLen | hoppingSequenceList => simp [Write.owners] at h
  | _ => exact ⟨rfl, rfl, rfl⟩

/-- Silent writes leave the hopping sequence. -/
theorem foldl_assign_of_silent (ies : Ies) (h : Silent ws) :
    (ws.foldl Ies.assign ies).ieChannelHoppingSequenceId = ies.ieChannelHoppingSequenceId ∧
      (ws.foldl Ies.assign ies).ieHoppingSequenceLen = ies.ieHoppingSequenceLen ∧
      (ws.foldl Ies.assign ies).ieHoppingSequenceList = ies.ieHoppingSequenceList := by
  induction ws generalizing ies with
  | nil => exact ⟨rfl, rfl, rfl⟩
  | cons w ws ih =>
      obtain ⟨hid, hlen, hlist⟩ := assign_of_silent ies (h w (by simp))
      obtain ⟨ihid, ihlen, ihlist⟩ := ih (ies.assign w) fun w hw => h w (by simp [hw])
      exact ⟨ihid.trans hid, ihlen.trans hlen, ihlist.trans hlist⟩

/-- The record is kept in three fields. -/
theorem Recorded.congr {ies ies' : Ies} {hop : Option HoppingIe} (h : Recorded ies hop)
    (hid : ies'.ieChannelHoppingSequenceId = ies.ieChannelHoppingSequenceId)
    (hlen : ies'.ieHoppingSequenceLen = ies.ieHoppingSequenceLen)
    (hlist : ies'.ieHoppingSequenceList = ies.ieHoppingSequenceList) : Recorded ies' hop := by
  unfold Recorded at h ⊢
  rw [hid, hlen, hlist]
  exact h

variable {p : Parser}

/-- A silent element keeps the record. -/
theorem follows_store_silent (hp : Follows p) (h : Silent ws) : Follows (p.store e ws) := by
  have hlast : lastHopping (p.store e ws).log = lastHopping p.log := by
    have hfilter : ws.filter (fun w => Element.channelHoppingSequence ∈ w.owners) = [] := by
      rw [List.filter_eq_nil_iff]
      intro w hw
      simpa using h w hw
    have hlog := hoppingWrites_append p.log e ws
    rw [hfilter, List.append_nil] at hlog
    exact congrArg (fun ws => HoppingIe.ofWrites ws.reverse) hlog
  obtain ⟨hid, hlen, hlist⟩ := foldl_assign_of_silent p.ies h
  unfold Follows
  rw [hlast]
  exact hp.congr hid hlen hlist

/-- The assignments for a hopping sequence element make it the last one. -/
theorem follows_store_hopping {hop : HoppingIe}
    (h : ∀ id channels, hop = .sequence id channels → channels.length ≤ tschHoppingSequenceMaxLen) :
    Follows (p.store .channelHoppingSequence hop.writes) := by
  have hlog : hoppingWrites (p.store .channelHoppingSequence hop.writes).log =
      hoppingWrites p.log ++ hop.writes := by
    refine (hoppingWrites_append p.log .channelHoppingSequence hop.writes).trans ?_
    congr 1
    cases hop <;> rfl
  unfold Follows lastHopping
  rw [hlog, List.reverse_append]
  cases hop with
  | idOnly id => exact rfl
  | malformed id n => exact rfl
  | sequence id channels =>
      have hmax := h id channels rfl
      refine ⟨rfl, ?_, hmax, ?_⟩
      · change (UInt16.ofNat channels.length).toNat = _
        rw [UInt16.toNat_ofNat']
        unfold tschHoppingSequenceMaxLen at hmax
        omega
      · exact List.take_left

/-- A header IE keeps the record. -/
theorem headerStep_follows (hp : Follows p) (ieDesc : ℕ) : Follows (headerStep p ieDesc).1 := by
  have hoffset (n : UInt8) (e : Element) : Follows (p.store e [.payloadIeOffset n]) := by
    refine follows_store_silent hp ?_
    intro w hw
    rw [List.mem_singleton.mp hw]
    simp [Write.owners]
  unfold headerStep
  split
  · exact hp
  dsimp only
  split
  · split
    · exact hoffset _ _
    · exact hp
  · split
    · exact hoffset _ _
    · exact hp
  · split
    · exact hp
    · split
      case h_1 => exact hp
      case h_2 h => exact follows_store_silent hp (parseHeaderIe_silent _ _ _ _ h)
  · exact hp

/-- A payload IE keeps the record. -/
theorem payloadStep_follows (hp : Follows p) (ieDesc : ℕ) :
    Follows (payloadStep sixtop p ieDesc).1 := by
  unfold payloadStep
  split
  · exact hp
  dsimp only
  split
  · exact hp
  · split
    · exact hp
    · split
      · refine follows_store_silent hp ?_
        intro w hw
        rw [List.mem_singleton.mp hw]
        simp [Write.owners]
      · exact hp
  · split <;> exact hp
  · exact hp

/-- A sub-IE keeps the record, a hopping sequence makes a new one. -/
theorem mlmeStep_follows (hp : Follows p) (nested ieDesc : ℕ) :
    Follows (mlmeStep p nested ieDesc).1 := by
  have hstore {len : ℕ} {e : Element} {ws : List Write}
      (h : (if ieDesc / 32768 = 0 then parseMlmeShortIe p.buf len e
        else parseMlmeLongIe p.buf len e) = .ok ws) : Follows (p.store e ws) := by
    split at h
    · exact follows_store_silent hp (parseMlmeShortIe_silent _ _ _ _ h)
    · by_cases he : e = .channelHoppingSequence
      · subst he
        obtain ⟨hop, rfl, hwell⟩ := parseMlmeLongIe_hopping h
        exact follows_store_hopping fun id channels heq => (hwell id channels heq).1
      · -- The switch over long sub-elements has no other case.
        unfold parseMlmeLongIe at h
        split at h
        · exact absurd rfl he
        · cases h
  unfold mlmeStep
  split
  · exact hp
  split
  · exact hp
  split
  · exact hp
  case h_2 h =>
    dsimp only
    split
    · exact hstore h
    · split <;> exact hstore h

/-- Every element keeps the record. -/
theorem parseIe_follows (hp : Follows p) : Follows (parseIe sixtop p).1 := by
  unfold parseIe
  split
  · exact hp
  split
  · exact hp
  dsimp only
  have hadv : Follows (p.advance 2) := hp
  split
  · exact headerStep_follows hadv _
  · exact payloadStep_follows hadv _
  · exact mlmeStep_follows hadv _ _

/-- Behind the loop the record holds what the last hopping sequence element left. -/
theorem parseLoop_recorded (hp : Follows p) (fuel : ℕ) :
    Recorded (parseLoop sixtop fuel p).ies (lastHopping (parseLoop sixtop fuel p).log) := by
  induction fuel generalizing p with
  | zero => exact hp
  | succ fuel ih =>
      rw [parseLoop]
      split
      · unfold Parser.finish
        split
        · exact Recorded.congr hp rfl rfl rfl
        · exact hp
      · have hround : Follows (parseIe sixtop p).1 := parseIe_follows hp
        split
        case h_1 p' len heq =>
          rw [heq] at hround
          exact @ih (p'.advance len) hround
        case h_2 p' result heq =>
          rw [heq] at hround
          exact hround

/-- A parsed beacon has its last hopping sequence. -/
theorem tschPacketParseEb_recorded {c : InputPacket} {frame : Frame802154.Frame} {ies : Ies}
    {log : List (Element × Write)} (h : tschPacketParseEb sixtop c = some (frame, ies, log)) :
    Recorded ies (lastHopping log) := by
  unfold tschPacketParseEb at h
  dsimp only at h
  split at h
  · cases h
  split at h
  · cases h
  split at h
  case isTrue =>
    split at h
    · cases h
    · split at h
      · cases h
      · cases h
        apply parseLoop_recorded
        exact rfl
  case isFalse =>
    cases h
    exact rfl

end Elements

/-! ## Association -/

/-- The last hopping sequence element of a beacon. -/
def beaconHopping (sixtop : Bool) (c : InputPacket) : Option HoppingIe :=
  (tschPacketParseEb sixtop c).bind fun r => lastHopping r.2.2

/-- The identifier of the hopping sequence, which is 0 without an element. -/
def hoppingId (hop : Option HoppingIe) : UInt8 := (hop.map HoppingIe.id).getD 0

/-- A usable sequence is installed: the default one for the identifier 0, else the channels of
the element, which has to be well-formed; and every slot finds its channel in it. -/
structure Installs (hop : Option HoppingIe) (mac : Mac) : Prop where
  length_pos : 1 ≤ mac.tschHoppingSequenceLength.val
  length_le : mac.tschHoppingSequenceLength.val ≤ tschHoppingSequenceMaxLen
  sequence_eq : hoppingId hop = 0 ∧ mac.sequence = tschDefaultHoppingSequence ∨
    hoppingId hop ≠ 0 ∧ ∃ id, hop = some (.sequence id mac.sequence)
  channel (asn : Asn) (channelOffset : UInt8) :
    ∃ channel ∈ mac.sequence, mac.tschCalculateChannel asn channelOffset = some channel

/-- The beacon asks for the default sequence, or brings one that is not empty. -/
def Brings (hop : Option HoppingIe) : Prop :=
  hoppingId hop = 0 ∨ ∃ id channels, hop = some (.sequence id channels) ∧ channels ≠ []

section Association

variable {mac mac' : Mac} {hop : Option HoppingIe} {ies : Ies}

/-- A channel of the sequence is calculated. -/
theorem channel_of_length (hpos : 1 ≤ mac.tschHoppingSequenceLength.val)
    (hlen : mac.sequence.length = mac.tschHoppingSequenceLength.val) (asn : Asn)
    (channelOffset : UInt8) :
    ∃ channel ∈ mac.sequence, mac.tschCalculateChannel asn channelOffset = some channel := by
  have hlt : (asnMod asn mac.tschHoppingSequenceLength + channelOffset.toNat) %
      mac.tschHoppingSequenceLength.val < mac.sequence.length := by
    rw [hlen]
    exact Nat.mod_lt _ hpos
  unfold Mac.tschCalculateChannel
  dsimp only
  rw [if_neg (by omega), List.getElem?_eq_getElem hlt]
  exact ⟨_, List.getElem_mem hlt, rfl⟩

/-- What was overwritten. -/
theorem take_overwrite {src dst : List UInt8} {n : ℕ} (h : n ≤ src.length) :
    (overwrite src dst n).take n = src.take n := by
  have hlen : (src.take n).length = n := List.length_take_of_le h
  unfold overwrite
  rw [List.take_append_of_le_length hlen.ge, List.take_take, min_self]

/-- The default sequence is installed when the identity is 0. -/
theorem installs_default (hid : hoppingId hop = 0)
    (hseq : mac.tschHoppingSequence = overwrite tschDefaultHoppingSequence mac'.tschHoppingSequence
      tschDefaultHoppingSequence.length)
    (hlength : mac.tschHoppingSequenceLength = asnDivisorInit tschDefaultHoppingSequence.length) :
    Installs hop mac := by
  have hsequence : mac.sequence = tschDefaultHoppingSequence := by
    unfold Mac.sequence
    rw [hseq, hlength]
    exact (take_overwrite le_rfl).trans List.take_length
  have hval : mac.tschHoppingSequenceLength.val = 4 := by rw [hlength]; rfl
  refine ⟨by omega, ?_, .inl ⟨hid, hsequence⟩, ?_⟩
  · rw [hval]
    decide
  · refine channel_of_length (by omega) ?_
    rw [hsequence, hval]
    rfl

/-- The identity of the hopping sequence. -/
theorem recorded_id (h : Recorded ies hop) : ies.ieChannelHoppingSequenceId = hoppingId hop := by
  cases hop with
  | none => exact h
  | some hop =>
      cases hop with
      | idOnly id => exact h
      | malformed id n => exact h
      | sequence id channels => exact h.1

/-- The channels of an element that brings them are what is installed. -/
theorem sequence_of_recorded {id : UInt8} {channels dst : List UInt8}
    (h : Recorded ies (some (.sequence id channels)))
    (hseq : mac.tschHoppingSequence = overwrite ies.ieHoppingSequenceList dst
      ies.ieHoppingSequenceLen.toNat)
    (hlength : mac.tschHoppingSequenceLength = asnDivisorInit ies.ieHoppingSequenceLen.toNat) :
    mac.sequence = channels ∧ mac.tschHoppingSequenceLength.val = channels.length := by
  obtain ⟨-, hlen, -, htake⟩ := h
  have hroom : channels.length ≤ ies.ieHoppingSequenceList.length := by
    have hmin := congrArg List.length htake
    rw [List.length_take] at hmin
    omega
  have hval : mac.tschHoppingSequenceLength.val = channels.length := by
    rw [hlength, hlen]
    rfl
  refine ⟨?_, hval⟩
  rw [Mac.sequence, hval, hseq, hlen, take_overwrite hroom, htake]

/-- A beacon that is associated on has passed the part on the hopping sequence. -/
theorem tschAssociate_true {cfg : Config} {nbrAdded : Bool} {c : InputPacket}
    (h : tschAssociate cfg nbrAdded mac c = (true, mac')) :
    ∃ frame ies log mac₀ mac₁, tschPacketParseEb cfg.sixtop c = some (frame, ies, log) ∧
      installHoppingSequence mac₀ ies = some mac₁ ∧
      mac'.tschHoppingSequence = mac₁.tschHoppingSequence ∧
      mac'.tschHoppingSequenceLength = mac₁.tschHoppingSequenceLength := by
  unfold tschAssociate at h
  split at h
  · cases h
  case h_2 frame ies log hparse =>
    dsimp only at h
    split at h
    · cases h
    split at h
    · cases h
    split at h
    · cases h
    split at h
    · cases h
    split at h
    · cases h
    case h_2 mac₁ hinstall =>
      split at h
      · cases h
      split at h
      · cases h
        exact ⟨frame, ies, log, _, mac₁, hparse, hinstall, rfl, rfl⟩
      · cases h

/-- What a node that has associated hops through is usable exactly if the beacon brought it. -/
theorem installs_iff (cfg : Config) (nbrAdded : Bool) (mac mac' : Mac) (c : InputPacket)
    (h : tschAssociate cfg nbrAdded mac c = (true, mac')) :
    Installs (beaconHopping cfg.sixtop c) mac' ↔ Brings (beaconHopping cfg.sixtop c) := by
  obtain ⟨frame, ies, log, mac₀, mac₁, hparse, hinstall, hseq, hlength⟩ := tschAssociate_true h
  have hrecorded := tschPacketParseEb_recorded hparse
  -- The beacon is judged by the last hopping sequence that was parsed, which is the recorded one.
  have hhop : beaconHopping cfg.sixtop c = lastHopping log := by
    rw [beaconHopping, hparse]
    rfl
  rw [hhop]
  have hid := recorded_id hrecorded
  unfold installHoppingSequence at hinstall
  split at hinstall
  -- Identity 0 installs the default sequence, whatever was recorded.
  case isTrue hzero =>
    cases hinstall
    constructor
    · intro _
      exact .inl (hid ▸ hzero)
    · intro _
      exact installs_default (hid ▸ hzero) hseq hlength
  -- Any other identity installs what was recorded.
  case isFalse hzero =>
    split at hinstall
    case isFalse => cases hinstall
    case isTrue hmax =>
      cases hinstall
      have hne : hoppingId (lastHopping log) ≠ 0 := hid ▸ hzero
      constructor
      · intro hinstalls
        obtain ⟨hno, -⟩ | ⟨-, id, hsome⟩ := hinstalls.sequence_eq
        · exact absurd hno hne
        · refine .inr ⟨id, mac'.sequence, hsome, ?_⟩
          rw [hsome] at hrecorded
          have hval := (sequence_of_recorded hrecorded hseq hlength).2
          have hpos := hinstalls.length_pos
          intro hnil
          rw [hnil] at hval
          rw [hval] at hpos
          exact absurd hpos (by decide)
      · rintro (hno | ⟨id, channels, hsome, hchannels⟩)
        · exact absurd hno hne
        rw [hsome] at hrecorded
        obtain ⟨hsequence, hval⟩ := sequence_of_recorded hrecorded hseq hlength
        have hpos : 1 ≤ mac'.tschHoppingSequenceLength.val := by
          rw [hval]
          exact List.length_pos_iff.mpr hchannels
        refine ⟨hpos, ?_, .inr ⟨hne, id, ?_⟩, ?_⟩
        · rw [hval]
          exact hrecorded.2.2.1
        · rw [hsequence]
          exact hsome
        · refine channel_of_length hpos ?_
          rw [hsequence, hval]

end Association

/-! ## Two beacons -/

/-- The build of the nodes in the simulator. -/
def simulated : Config where
  sixtop := false
  nodeIdIndex := 0
  linkaddrNodeAddr := ⟨[5, 0, 0, 0, 0, 0, 0, 0], rfl⟩
  distributor := 7
  coordinator := 1
  panId := 0x4bb4
  tschDefaultTimingUs := List.replicate tschTsElementsCount 0
  usToRtimerticks := UInt16.toNat
  maxLinks := 32

/-- A node that has not joined. -/
def outside : Mac where
  tschCurrentAsn := ⟨0, 0⟩
  tschJoinPriority := 0xff
  tschTiming := []
  tschHoppingSequence := List.replicate tschHoppingSequenceMaxLen 0
  tschHoppingSequenceLength := ⟨0, 0⟩
  slotframes := Keyed.empty
  timeSource := none
  tschRank := 255
  panId := 0
  tschIsAssociated := false
  tschIsPanSecured := false
  tschAssociationCount := 0

/-- The header of a beacon of the coordinator: version 2015, a long source address and no
destination; the list of header elements ends behind it. -/
def beaconHeader : List UInt8 :=
  [0x00, 0xe2, 1, 0xb4, 0x4b, 0, 0, 0, 0, 0, 0, 0, 1, 0x00, 0x3f]

/-- A container with the synchronization element and these sub-elements. -/
def beaconPayload (subies : List UInt8) : List UInt8 :=
  le16 (8 + subies.length + 0x8800) ++ [0x06, 0x1a, 9, 0, 0, 0, 0, 0] ++ subies

/-- A received beacon of at most 96 bytes. -/
def receivedBeacon (subies : List UInt8)
    (h : (beaconHeader ++ beaconPayload subies).length ≤ tschPacketMaxLen) : InputPacket where
  payload := fun i => (beaconHeader ++ beaconPayload subies).getD i 0
  rxAsn := ⟨9, 0⟩
  len := (beaconHeader ++ beaconPayload subies).length
  rssi := -60
  channel := 26
  len_le := h
  frame := shortElement.frame

/-- A hopping sequence with identifier 1 and the given channels. -/
def hoppingSubie (channels : List UInt8) : List UInt8 :=
  createMlmeLongIeDescriptor .channelHoppingSequence (12 + channels.length) ++
    [1, 0, 0, 0, 0, 0, 0, 0] ++ le16 channels.length ++ channels ++ [0, 0]

def emptyHopping : InputPacket := receivedBeacon (hoppingSubie []) (by decide)

def twoChannels : InputPacket := receivedBeacon (hoppingSubie [15, 26]) (by decide)

/-- A beacon with two channels is accepted. -/
theorem tschAssociate_twoChannels :
    (tschAssociate simulated true outside twoChannels).1 = true := by
  decide

/-- An empty sequence passes every check and makes the length zero. -/
theorem emptyHopping_not_installs :
    (tschAssociate simulated true outside emptyHopping).1 = true ∧
      (tschAssociate simulated true outside emptyHopping).2.tschHoppingSequenceLength.val = 0 ∧
      ¬ Installs (beaconHopping false emptyHopping)
        (tschAssociate simulated true outside emptyHopping).2 := by
  have hval :
      (tschAssociate simulated true outside emptyHopping).2.tschHoppingSequenceLength.val = 0 := by
    decide
  refine ⟨by decide, hval, fun h => ?_⟩
  have hpos := h.length_pos
  rw [hval] at hpos
  exact absurd hpos (by decide)

/-- Its sequence is the one installed. -/
theorem installs_iff_twoChannels :
    tschAssociate simulated true outside twoChannels =
        (true, (tschAssociate simulated true outside twoChannels).2) ∧
      (Installs (beaconHopping false twoChannels)
          (tschAssociate simulated true outside twoChannels).2 ↔
        Brings (beaconHopping false twoChannels)) := by
  have h : tschAssociate simulated true outside twoChannels =
      (true, (tschAssociate simulated true outside twoChannels).2) :=
    Prod.ext tschAssociate_twoChannels rfl
  exact ⟨h, installs_iff simulated true outside _ twoChannels h⟩

end MasterScheduler.Mote.Associate

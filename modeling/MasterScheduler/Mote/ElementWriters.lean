import MasterScheduler.Mote.ElementBytes

/-!
# MasterScheduler.Mote.ElementWriters — the writers and the room they are given

Every `frame80215e_create_ie_*` is handed the number of bytes free at its
place. A writer checks it against a length of its own and then stores its
bytes, so it is told by three numbers: the room it asks for, the bytes it
stores and the length it returns.

- `call_contained`: a failing writer stores nothing, the others stay in the
  room they are given and inside of the length they return.
- `call_escapes`: the three kinds of call for which this fails.

The writer of the 6top element returns a length that counts the content, which
its caller has stored behind the descriptor before.
-/

namespace MasterScheduler.Mote.Elements

open Lib Memory

/-! ## The functions -/

/-- The drift in twelve bits and the flag of a negative acknowledgment. -/
def timeSyncField (ies : Ies) : ℕ :=
  (ies.ieTimeCorrection % 4096).toNat + if ies.ieIsNack = 0 then 0 else 32768

/-- `frame80215e_create_ie_header_ack_nack_time_correction`. -/
def createIeHeaderAckNackTimeCorrection (ies : Ies) : Writer := fun m buf len =>
  if 4 ≤ len then
    some (m.write buf (createHeaderIeDescriptor .ackNackTimeCorrection 2 ++
      le16 (timeSyncField ies)), 4)
  else none

/-- The functions `frame80215e_create_ie_*`. -/
inductive CreateIe where
  | headerAckNackTimeCorrection
  | headerListTermination1
  | headerListTermination2
  | payloadListTermination
  | ietf
  | mlme
  | tschSynchronization
  | tschSlotframeAndLink
  | tschTimeslot
  | tschChannelHoppingSequence
  | overhearing
  | tschNeighborDiscovery
  | tschRank
  | timeSource
  | scheduleVersion
  | schedulePackets
  | scheduleReceived (arrayLen : UInt8)
deriving DecidableEq, Repr

namespace CreateIe

def writer : CreateIe → Ies → Writer
  | headerAckNackTimeCorrection, ies => createIeHeaderAckNackTimeCorrection ies
  | headerListTermination1, _ => createIeHeaderListTermination1
  | headerListTermination2, _ => createIeHeaderListTermination2
  | payloadListTermination, _ => createIePayloadListTermination
  | ietf, ies => createIeIetf ies
  | mlme, ies => createIeMlme ies
  | tschSynchronization, ies => createIeTschSynchronization ies
  | tschSlotframeAndLink, ies => createIeTschSlotframeAndLink ies
  | tschTimeslot, ies => createIeTschTimeslot ies
  | tschChannelHoppingSequence, ies => createIeTschChannelHoppingSequence ies
  | overhearing, ies => createIeOverhearing ies
  | tschNeighborDiscovery, ies => createIeTschNeighborDiscovery ies
  | tschRank, ies => createIeTschRank ies
  | timeSource, ies => createIeTimeSource ies
  | scheduleVersion, ies => createIeScheduleVersion ies
  | schedulePackets, ies => createIeSchedulePackets ies
  | scheduleReceived arrayLen, ies => createIeScheduleReceived ies arrayLen.toNat

/-- The memory behind a call and the value it returns; no record is `NULL`. -/
def call (f : CreateIe) (ies : Option Ies) (m : Memory) (buf len : ℕ) : Memory × ℤ :=
  match ies with
  | none => (m, -1)
  | some ies =>
      match f.writer ies m buf len with
      | some (m', n) => (m', n)
      | none => (m, -1)

end CreateIe

/-! ## What a writer stores -/

/-- A writer that succeeds had `need` bytes of room, stores these bytes and returns `n`. -/
def Stores (w : Writer) (need : ℕ) (bytes : List UInt8) (n : ℕ) : Prop :=
  ∀ m buf len r, w m buf len = some r → need ≤ len ∧ r = (m.write buf bytes, n)

section Stores

variable {e : Element} {need n : ℕ} {content bytes : List UInt8} {ies : Ies}

/-- The shape of the writers without a second check. -/
theorem stores_of_room {w : Writer}
    (h : ∀ m buf len, w m buf len = if need ≤ len then some (m.write buf bytes, n) else none) :
    Stores w need bytes n := by
  intro m buf len r hr
  rw [h] at hr
  split at hr
  case isTrue hroom =>
    cases hr
    exact ⟨hroom, rfl⟩
  case isFalse => cases hr

theorem createMlmeShortIe_stores : Stores (createMlmeShortIe e need content) need
    (createMlmeShortIeDescriptor e content.length ++ content) (2 + content.length) := by
  intro m buf len r hr
  rw [createMlmeShortIe] at hr
  split at hr
  case isTrue => cases hr
  case isFalse hroom =>
    cases hr
    exact ⟨not_lt.mp hroom, rfl⟩

theorem createIeTschSlotframeAndLink_stores :
    ∃ bytes : List UInt8, Stores (createIeTschSlotframeAndLink ies) bytes.length bytes
      bytes.length := by
  refine ⟨createMlmeShortIeDescriptor .tschSlotframeAndLink
    (slotframeContent ies.ieTschSlotframeAndLink).length ++
      slotframeContent ies.ieTschSlotframeAndLink, ?_⟩
  intro m buf len r hr
  rw [createIeTschSlotframeAndLink] at hr
  split at hr
  case isTrue => cases hr
  case isFalse hno =>
    -- The check bounds the slotframes by one, so the loop stores what the length announces.
    rw [not_or, not_or, not_lt, not_lt, not_lt] at hno
    have hlen := length_slotframeContent hno.1
    cases hr
    rw [← hlen] at hno ⊢
    have htotal : (createMlmeShortIeDescriptor .tschSlotframeAndLink
        (slotframeContent ies.ieTschSlotframeAndLink).length ++
          slotframeContent ies.ieTschSlotframeAndLink).length =
        2 + (slotframeContent ies.ieTschSlotframeAndLink).length := by
      rw [List.length_append]
      rfl
    rw [htotal]
    exact ⟨hno.2.2, rfl⟩

theorem length_timeslotContent :
    (timeslotContent ies).length = if ies.ieTschTimeslotId = 0 then 1 else 25 := by
  rw [timeslotContent, List.length_cons]
  split
  · rfl
  · rw [length_flatMap_le16]
    rfl

theorem createIeTschChannelHoppingSequence_stores :
    Stores (createIeTschChannelHoppingSequence ies) (2 + hoppingLen ies)
      (createMlmeLongIeDescriptor .channelHoppingSequence (hoppingLen ies) ++ hoppingContent ies)
      (2 + hoppingLen ies) := by
  intro m buf len r hr
  rw [createIeTschChannelHoppingSequence] at hr
  split at hr
  case isTrue => cases hr
  dsimp only at hr
  rw [← hoppingLen] at hr
  split at hr
  case isTrue hroom =>
    cases hr
    exact ⟨hroom, rfl⟩
  case isFalse => cases hr

end Stores

/-! ## Containment -/

/-- Every byte that changed is one of the `n` from `buf` on. -/
def ChangedWithin (m m' : Memory) (buf n : ℕ) : Prop := ∀ i, m' i ≠ m i → buf ≤ i ∧ i < buf + n

theorem changedWithin_write {m : Memory} {buf n : ℕ} {bytes : List UInt8}
    (h : bytes.length ≤ n) : ChangedWithin m (m.write buf bytes) buf n := by
  intro i hi
  constructor
  · by_contra hlt
    exact hi (write_below (not_le.mp hlt))
  · by_contra hle
    exact hi (write_above (by omega))

namespace CreateIe

/-- The writers of one byte. -/
def oneByte : CreateIe → Bool
  | overhearing | tschRank | timeSource | scheduleVersion => true
  | _ => false

/-- How the room, the number of bytes stored and the length of a writer compare. Three kinds
stand apart: the 6top element, the elements of one byte, whose check is one short, and the
sequence with the identifier 0, whose length is short. -/
def Fits (f : CreateIe) (ies : Ies) (need stored n : ℕ) : Prop :=
  if f = ietf then need = 2 ∧ stored = 2 ∧ n = 2 + ies.sixtopIeContentLen.toNat
  else
    (n ≤ need ∨ f.oneByte ∧ need = 2 ∧ n = 3) ∧
      (stored ≤ n ∨ f = tschChannelHoppingSequence ∧ ies.ieChannelHoppingSequenceId = 0)

variable {f : CreateIe} {ies : Ies} {need n : ℕ} {bytes : List UInt8}

theorem fits_of_le (hf : f ≠ ietf) (hroom : n ≤ need) (hstored : bytes.length ≤ n) :
    f.Fits ies need bytes.length n := by
  rw [Fits, if_neg hf]
  exact ⟨.inl hroom, .inl hstored⟩

theorem fits_of_oneByte (hone : f.oneByte) {e : Element} {b : UInt8} :
    f.Fits ies 2 (createMlmeShortIeDescriptor e 1 ++ [b]).length 3 := by
  have hf : f ≠ ietf := by
    rintro rfl
    cases hone
  rw [Fits, if_neg hf]
  exact ⟨.inr ⟨hone, rfl, rfl⟩, .inl (le_refl 3)⟩

theorem writer_stores (f : CreateIe) (ies : Ies) :
    ∃ need bytes n, Stores (f.writer ies) need bytes n ∧ f.Fits ies need bytes.length n := by
  cases f with
  | headerAckNackTimeCorrection =>
      exact ⟨4, _, 4, stores_of_room fun _ _ _ => rfl, fits_of_le (by decide) le_rfl le_rfl⟩
  | headerListTermination1 | headerListTermination2 | payloadListTermination | mlme =>
      exact ⟨2, _, 2, stores_of_room fun _ _ _ => rfl, fits_of_le (by decide) le_rfl le_rfl⟩
  | ietf =>
      refine ⟨2, _, _, stores_of_room fun _ _ _ => rfl, ?_⟩
      rw [Fits, if_pos rfl]
      exact ⟨rfl, rfl, rfl⟩
  | tschSynchronization =>
      exact ⟨8, _, 8, createMlmeShortIe_stores, fits_of_le (by decide) le_rfl le_rfl⟩
  | tschSlotframeAndLink =>
      obtain ⟨bytes, hbytes⟩ := @createIeTschSlotframeAndLink_stores ies
      exact ⟨_, bytes, _, hbytes, fits_of_le (by decide) le_rfl le_rfl⟩
  | tschTimeslot =>
      refine ⟨_, _, _, createMlmeShortIe_stores, fits_of_le (by decide) ?_ ?_⟩
      · exact Nat.add_le_add_left length_timeslotContent.le 2
      · rw [List.length_append]
        rfl
  | tschChannelHoppingSequence =>
      refine ⟨_, _, _, createIeTschChannelHoppingSequence_stores, ?_⟩
      rw [Fits, if_neg (by decide)]
      refine ⟨.inl le_rfl, ?_⟩
      -- The sequence is stored for every identifier, counted only for the others than 0.
      by_cases hid : ies.ieChannelHoppingSequenceId = 0
      · exact .inr ⟨rfl, hid⟩
      · left
        rw [List.length_append, length_hoppingContent, hoppingLen, if_neg hid]
        exact le_rfl
  | overhearing | tschRank | timeSource | scheduleVersion =>
      exact ⟨2, _, 3, createMlmeShortIe_stores, fits_of_oneByte rfl⟩
  | tschNeighborDiscovery | schedulePackets =>
      exact ⟨4, _, 4, createMlmeShortIe_stores, fits_of_le (by decide) le_rfl le_rfl⟩
  | scheduleReceived arrayLen =>
      refine ⟨2 + arrayLen.toNat, _, _, createMlmeShortIe_stores, fits_of_le (by intro h; cases h) ?_ ?_⟩
      · simp
      · rw [List.length_append]
        rfl

/-- A call fails without a trace, or a writer has stored its bytes. -/
theorem call_cases (f : CreateIe) (ies : Option Ies) (m : Memory) (buf len : ℕ) :
    f.call ies m buf len = (m, -1) ∨
      ∃ ies' need bytes n, ies = some ies' ∧ f.Fits ies' need bytes.length n ∧ need ≤ len ∧
        f.call ies m buf len = (m.write buf bytes, (n : ℤ)) := by
  cases ies with
  | none => exact .inl rfl
  | some ies =>
      obtain ⟨need, bytes, n, hstores, hfits⟩ := f.writer_stores ies
      cases hw : f.writer ies m buf len with
      | none => exact .inl (by rw [call, hw])
      | some r =>
          obtain ⟨hroom, rfl⟩ := hstores m buf len r hw
          exact .inr ⟨ies, need, bytes, n, rfl, hfits, hroom, by rw [call, hw]⟩

/-- What is asked of a call: nothing is stored by one that fails, and one that succeeds
returns a length that fits the room and covers all it stored. -/
def Contained (f : CreateIe) (ies : Option Ies) (m : Memory) (buf len : ℕ) : Prop :=
  (0 ≤ (f.call ies m buf len).2 →
    (f.call ies m buf len).2 ≤ len ∧
      ChangedWithin m (f.call ies m buf len).1 buf (f.call ies m buf len).2.toNat) ∧
  ((f.call ies m buf len).2 = -1 → (f.call ies m buf len).1 = m)

/-- A 6top element around four bytes of content, a rank with two free bytes, and the default
hopping sequence with all of its channels. -/
theorem call_escapes :
    ¬ Contained .ietf (some { Ies.zero with sixtopIeContentLen := 4 }) (fun _ => 0) 0 2 ∧
    ¬ Contained .tschRank (some Ies.zero) (fun _ => 0) 0 2 ∧
    ¬ Contained .tschChannelHoppingSequence
      (some { Ies.zero with
        ieHoppingSequenceLen := 4, ieHoppingSequenceList := [15, 20, 25, 26] })
      (fun _ => 0) 0 3 := by
  refine ⟨fun h => ?_, fun h => ?_, fun h => ?_⟩
  · exact absurd (h.1 (by decide)).1 (by decide)
  · exact absurd (h.1 (by decide)).1 (by decide)
  · exact absurd ((h.1 (by decide)).2 12 (by decide)) (by decide)

theorem call_contained (f : CreateIe) (ies : Option Ies) (m : Memory) (buf len : ℕ) :
    ((f.call ies m buf len).2 = -1 → (f.call ies m buf len).1 = m) ∧
    (0 ≤ (f.call ies m buf len).2 →
      (f = ietf → 2 ≤ len ∧ ChangedWithin m (f.call ies m buf len).1 buf 2 ∧
        ∃ ies', ies = some ies' ∧
          (f.call ies m buf len).2 = 2 + (ies'.sixtopIeContentLen.toNat : ℤ)) ∧
      (f ≠ ietf → ¬ (f.oneByte ∧ len = 2) → (f.call ies m buf len).2 ≤ len) ∧
      (f ≠ ietf →
        ¬ (f = tschChannelHoppingSequence ∧
          ies.map (·.ieChannelHoppingSequenceId) = some 0) →
        ChangedWithin m (f.call ies m buf len).1 buf (f.call ies m buf len).2.toNat)) := by
  obtain hcall | ⟨ies', need, bytes, n, rfl, hfits, hroom, hcall⟩ :=
    f.call_cases ies m buf len
  · rw [hcall]
    exact ⟨fun _ => rfl, fun h => absurd (show (0 : ℤ) ≤ -1 from h) (by decide)⟩
  rw [hcall]
  refine ⟨fun h => absurd h (by dsimp only; omega), fun _ => ⟨?_, ?_, ?_⟩⟩
  · intro hf
    rw [Fits, if_pos hf] at hfits
    obtain ⟨hneed, hstored, hn⟩ := hfits
    refine ⟨by omega, changedWithin_write hstored.le, ies', rfl, ?_⟩
    rw [hn]
    exact Nat.cast_add 2 _
  · intro hf hone
    rw [Fits, if_neg hf] at hfits
    obtain hle | ⟨hbyte, hneed, hn⟩ := hfits.1
    · exact Int.ofNat_le.mpr (hle.trans hroom)
    -- The check passes with two free bytes; with any more, the three of the element fit.
    · have hlen : len ≠ 2 := fun h => hone ⟨hbyte, h⟩
      dsimp only
      omega
  · intro hf hzero
    rw [Fits, if_neg hf] at hfits
    obtain hle | ⟨rfl, hid⟩ := hfits.2
    · exact changedWithin_write hle
    · exact absurd ⟨rfl, by rw [← hid]; rfl⟩ hzero

end CreateIe

end MasterScheduler.Mote.Elements

import MasterScheduler.Mote.SicslowpanSafety

/-!
# MasterScheduler.Mote.SicslowpanDrop — frames whose header cannot be decoded

`uncompress_hdr_iphc` says nothing about its errors, so `input` goes on with what the header
lengths are at that time. A frame that is not a fragment is passed on, a first fragment keeps its
context.

1. **Headers**: which headers cannot be decoded, where the others end, and how many bytes they
   give.
2. **Runs**: what `input` returns, whatever it touches.
3. **Length field**: what stands there after the headers and the payload.
4. **Result**.
-/

namespace MasterScheduler.Mote.Sicslowpan

open Lib Traced Frame802154

/-! ## Headers -/

/-- A chain of extension headers in some rounds, from a position and a number of bytes on: whether
one more header is compressed, the position behind the chain and the bytes it gives. There is
nothing for a chain with an unknown header. -/
def chain (pb : Memory) : ℕ → Bool → ℕ → ℕ → Option (Bool × ℕ × ℕ)
  | 0, nhc, p, u => some (nhc, p, u)
  | n + 1, nhc, p, u =>
    if nhc ∧ pb p &&& nhcMask = nhcExtHdr then
      match protoOfEid ((pb p &&& 0x0e) >>> 1) with
      | none => none
      | some _ => chain pb n (pb p &&& 0x01 ≠ 0) (p + extFixed (pb p) + extLen pb p)
          ((u + extSize (extLen pb p)) % 256)
    else some (nhc, p, u)

/-- The chain behind the addresses of a header. -/
def extChain (pb : Memory) (hdr : ℕ) : Option (Bool × ℕ × ℕ) :=
  chain pb packetbufSize (pb hdr &&& iphcNhC ≠ 0) (nextPos pb hdr) iphLen

/-- Where a header ends, and how many bytes it gives, both in eight bits. -/
def headerLengths (pb : Memory) (hdr : ℕ) : Option (ℕ × ℕ) :=
  (extChain pb hdr).map fun e =>
    if e.1 ∧ pb e.2.1 &&& nhcUdpMask = nhcUdpId then
      ((e.2.1 + udpBytes pb e.2.1) % 256, (e.2.2 + 8) % 256)
    else (e.2.1 % 256, e.2.2)

/-- Context-based multicast, which is not implemented. -/
def ContextMulticast (f : Frame) (hdr : ℕ) : Prop :=
  f.pb (hdr + 1) &&& iphcM ≠ 0 ∧ f.pb (hdr + 1) &&& iphcDac ≠ 0

/-- The position of the dispatch byte, behind the fragmentation header if there is one. -/
def Frame.hdr (f : Frame) : ℕ := dispatchPos f.pb (if f.IsFirst then 4 else 0)

/-- The frame has a compressed header. -/
def Frame.HasIphc (f : Frame) : Prop :=
  ¬ f.IsNext ∧ ¬ UnknownPage f.pb (if f.IsFirst then 4 else 0) ∧
    f.pb f.hdr &&& 0xe0 = dispatchIphc

/-- The frame has a compressed header that cannot be decoded. -/
def Undecodable (env : Env) (f : Frame) : Prop :=
  f.HasIphc ∧ (SrcUnknown env f f.hdr ∨ DestUnknown env f f.hdr ∨ ContextMulticast f f.hdr ∨
    extChain f.pb f.hdr = none)

section Fragments

variable {c b : ℕ}

/-- The contexts and the buffers that are in use are as they were, and the others are not in
use: a length of zero marks them. -/
structure SameFragments (s s' : State c b) : Prop where
  infoLen : ∀ i, (s'.fragInfo i).len = (s.fragInfo i).len
  info : ∀ i, 0 < (s.fragInfo i).len → s'.fragInfo i = s.fragInfo i
  bufLen : ∀ j, (s'.fragBuf j).len = (s.fragBuf j).len
  buf : ∀ j, 0 < (s.fragBuf j).len → s'.fragBuf j = s.fragBuf j

/-- What a frame is to leave: nothing of a header that cannot be decoded, and a length field that
is right in what is passed on without fragments. -/
def Clean (env : Env) (f : Frame) (s : State c b) (r : State c b × Option ℕ) : Prop :=
  (Undecodable env f → r.2 = none ∧ SameFragments s r.1) ∧
    (¬ f.IsFirst → ¬ f.IsNext → ∀ len ∈ r.2, get16 r.1.uipBuf 4 + iphLen = len)

/-- A first fragment that cannot be decoded takes no context: no datagram has run out of time, and
it has no size or all contexts are in use. -/
def TakesNone (env : Env) (f : Frame) (s : State c b) : Prop :=
  (∀ i, ¬ s.Expired env i) ∧ (get16 f.pb 0 % 2048 = 0 ∨ ∀ i, 0 < (s.fragInfo i).len)

end Fragments

/-- The length field is right behind a header with these lengths. A header whose bytes are counted
as none lets the payload stand in its place. -/
def LengthRight (f : Frame) (lengths : ℕ × ℕ) : Prop :=
  lengths.1 ≤ f.datalen →
    if lengths.2 = 0 then get16 f.pb (lengths.1 + 4) + iphLen = f.datalen - lengths.1
    else iphLen ≤ lengths.2 + (f.datalen - lengths.1)

/-- What a frame with a compressed header that is no fragment needs: the header can be decoded and
gives the right length, or it is one of context-based multicast and ends behind the frame. -/
def IphcRight (env : Env) (f : Frame) : Prop :=
  ¬ SrcUnknown env f f.hdr ∧ ¬ DestUnknown env f f.hdr ∧ ∃ lengths ∈ headerLengths f.pb f.hdr,
    (ContextMulticast f f.hdr → f.datalen < lengths.1) ∧ LengthRight f lengths

/-- What a frame with an uncompressed header needs: it ends before the header does, or its length
field is right. -/
def Ipv6Right (f : Frame) : Prop :=
  f.datalen < f.hdr + 1 + iphLen ∨ get16 f.pb (f.hdr + 1 + 4) + iphLen + f.hdr + 1 = f.datalen

/-- The frames that are handled cleanly. -/
def HandledCleanly {c b : ℕ} (env : Env) (f : Frame) (s : State c b) : Prop :=
  (f.IsFirst → Undecodable env f → TakesNone env f s) ∧
    (¬ f.IsFirst → (f.HasIphc → IphcRight env f) ∧
      (¬ f.IsNext → ¬ UnknownPage f.pb 0 → f.pb f.hdr = 0x41 → Ipv6Right f))

section Chain

variable {env : Env} {f : Frame} {pb buf : Memory} {hdr ipLen : ℕ}

/-- The loop over the extension headers, against their layout. -/
theorem uncompressExtHdrs_of_chain_none : ∀ {n : ℕ} {w : HdrWalk}, w.uncompHdrLen < 256 →
    chain pb n w.nhc w.hc06Ptr w.uncompHdrLen = none →
    ∃ w', uncompressExtHdrs pb n w = .error w' ∧ w'.uncompHdrLen < 256 := by
  intro n
  induction n with
  | zero => exact fun _ h => nomatch h
  | succ n ih =>
    intro w hlt h
    rw [chain] at h
    by_cases hext : w.nhc ∧ pb w.hc06Ptr &&& nhcMask = nhcExtHdr
    · rw [if_pos hext] at h
      rw [uncompressExtHdrs, if_pos hext]
      cases hproto : protoOfEid ((pb w.hc06Ptr &&& 0x0e) >>> 1) with
      | none =>
        obtain ⟨w', herror, hsame⟩ := uncompressExtHdr_error (w := w) hproto
        rw [herror]
        exact ⟨w', rfl, hsame.trans_lt hlt⟩
      | some proto =>
        obtain ⟨w', hok, hstep⟩ := uncompressExtHdr_ok (w := w) hproto
        rw [hproto] at h
        dsimp only at h
        rw [← hstep.nhc, ← hstep.hc06Ptr, ← hstep.uncompHdrLen] at h
        rw [hok]
        refine ih ?_ h
        rw [hstep.uncompHdrLen]
        exact Nat.mod_lt _ (by decide)
    · rw [if_neg hext] at h
      cases h

/-- A chain of extension headers with an end is expanded up to it. -/
theorem uncompressExtHdrs_of_chain_some {e : Bool × ℕ × ℕ} : ∀ {n : ℕ} {w : HdrWalk},
    chain pb n w.nhc w.hc06Ptr w.uncompHdrLen = some e →
    ∃ w', uncompressExtHdrs pb n w = .ok w' ∧ (w'.nhc, w'.hc06Ptr, w'.uncompHdrLen) = e := by
  intro n
  induction n with
  | zero => exact fun {w} h => ⟨w, rfl, Option.some.inj h⟩
  | succ n ih =>
    intro w h
    rw [chain] at h
    rw [uncompressExtHdrs]
    by_cases hext : w.nhc ∧ pb w.hc06Ptr &&& nhcMask = nhcExtHdr
    · rw [if_pos hext] at h ⊢
      cases hproto : protoOfEid ((pb w.hc06Ptr &&& 0x0e) >>> 1) with
      | none =>
        rw [hproto] at h
        cases h
      | some proto =>
        obtain ⟨w', hok, hstep⟩ := uncompressExtHdr_ok (w := w) hproto
        rw [hproto] at h
        dsimp only at h
        rw [← hstep.nhc, ← hstep.hc06Ptr, ← hstep.uncompHdrLen] at h
        rw [hok]
        exact ih h
    · rw [if_neg hext] at h ⊢
      exact ⟨w, rfl, Option.some.inj h⟩

/-- Extension headers are whole multiples of 8 bytes. -/
theorem extSize_mod (len : ℕ) : extSize len % 8 = 0 := by
  unfold extSize
  split_ifs <;> omega

/-- So is a chain of them. -/
theorem chain_mod {e : Bool × ℕ × ℕ} : ∀ {n : ℕ} {nhc : Bool} {p u : ℕ}, u % 8 = 0 → u < 256 →
    chain pb n nhc p u = some e → e.2.2 % 8 = 0 ∧ e.2.2 < 256 := by
  intro n
  induction n with
  | zero =>
    rintro nhc p u hmod hlt ⟨⟩
    exact ⟨hmod, hlt⟩
  | succ n ih =>
    intro nhc p u hmod hlt h
    rw [chain] at h
    split_ifs at h
    · cases hproto : protoOfEid ((pb p &&& 0x0e) >>> 1) with
      | none =>
        rw [hproto] at h
        cases h
      | some proto =>
        rw [hproto] at h
        refine ih ?_ (Nat.mod_lt _ (by decide)) h
        have := extSize_mod (extLen pb p)
        omega
    · cases h
      exact ⟨hmod, hlt⟩

/-- The number of bytes that a header gives is a multiple of eight. -/
theorem headerLengths_mod {lengths : ℕ × ℕ} (h : headerLengths pb hdr = some lengths) :
    lengths.2 % 8 = 0 ∧ lengths.2 < 256 := by
  obtain ⟨e, he, rfl⟩ := Option.map_eq_some_iff.mp h
  obtain ⟨hmod, hlt⟩ := chain_mod (by decide) (by decide) he
  split_ifs
  · exact ⟨by dsimp only; omega, Nat.mod_lt _ (by decide)⟩
  · exact ⟨hmod, hlt⟩

/-- The length that was written. -/
theorem get16_write_be16 {n : ℕ} : get16 (buf.write 4 (be16 n)) 4 = n % 65536 := by
  simp only [get16, word, be16, Memory.write]
  simp [UInt8.toNat_ofNat']
  omega

variable (buf ipLen) in
/-- A header whose contexts are known is decompressed up to the chain behind the addresses. -/
theorem uncompressHdrIphc_next (hsrc : ¬ SrcUnknown env f hdr) (hdest : ¬ DestUnknown env f hdr) :
    ∃ w : HdrWalk, (w.nhc, w.hc06Ptr, w.uncompHdrLen) =
        (decide (f.pb hdr &&& iphcNhC ≠ 0), nextPos f.pb hdr, iphLen) ∧
      uncompressHdrIphc env.contexts f.pb f.datalen f.sender f.receiver hdr buf ipLen =
        uncompressNext f.pb f.datalen ipLen hdr w := by
  obtain ⟨buf', heq⟩ := uncompressHdrIphc_known buf ipLen hsrc
  obtain ⟨dest, hsome⟩ := Option.ne_none_iff_exists'.mp fun hnone =>
    hdest (uncompressDest_none_iff buf' (p := destPos f.pb hdr) |>.mp hnone)
  refine ⟨firstHdr f.pb hdr buf' dest, ?_, ?_⟩
  · rw [firstHdr, uncompressDest_snd hsome]
    rfl
  · rw [heq, hsome]

variable (buf ipLen) in
/-- An unknown header ends the decompression where it started. -/
theorem uncompressHdrIphc_unknown (hsrc : ¬ SrcUnknown env f hdr) (hdest : ¬ DestUnknown env f hdr)
    (hnone : extChain f.pb hdr = none) :
    let u := uncompressHdrIphc env.contexts f.pb f.datalen f.sender f.receiver hdr buf ipLen
    u.packetbufHdrLen = hdr ∧ u.uncompHdrLen < 256 := by
  obtain ⟨w, hw, heq⟩ := uncompressHdrIphc_next buf ipLen hsrc hdest
  simp only [Prod.mk.injEq] at hw
  obtain ⟨hnhc, hptr, hlen⟩ := hw
  have hchain : chain f.pb packetbufSize w.nhc w.hc06Ptr w.uncompHdrLen = none := by
    rw [hnhc, hptr, hlen]
    exact hnone
  obtain ⟨w', herror, hlt⟩ :=
    uncompressExtHdrs_of_chain_none (by rw [hlen]; decide) hchain
  intro u
  have hu : u = ⟨w'.buf, hdr, w'.uncompHdrLen⟩ := by
    rw [show u = _ from heq, uncompressNext, herror]
  rw [hu]
  exact ⟨rfl, hlt⟩

variable (buf) in
/-- A header that is decoded to its end has the lengths of its layout and a length field. -/
theorem uncompressHdrIphc_decoded {lengths : ℕ × ℕ} (hsrc : ¬ SrcUnknown env f hdr)
    (hdest : ¬ DestUnknown env f hdr) (hsome : headerLengths f.pb hdr = some lengths) :
    let u := uncompressHdrIphc env.contexts f.pb f.datalen f.sender f.receiver hdr buf 0
    u.lengths = lengths ∧
      get16 u.buf 4 = (f.datalen + 65536 - lengths.1 + lengths.2 - iphLen) % 65536 := by
  obtain ⟨w, hw, heq⟩ := uncompressHdrIphc_next buf 0 hsrc hdest
  simp only [Prod.mk.injEq] at hw
  obtain ⟨hnhc, hptr, hlen⟩ := hw
  obtain ⟨e, he, hlengths⟩ := Option.map_eq_some_iff.mp hsome
  have hchain : chain f.pb packetbufSize w.nhc w.hc06Ptr w.uncompHdrLen = some e := by
    rw [hnhc, hptr, hlen]
    exact he
  obtain ⟨w', hok, rfl⟩ := uncompressExtHdrs_of_chain_some hchain
  intro u
  have hu : u = ⟨(uncompressUdp f.pb f.datalen 0 w').buf.write 4
      (be16 (f.datalen + 65536 - (uncompressUdp f.pb f.datalen 0 w').hc06Ptr % 256 +
        (uncompressUdp f.pb f.datalen 0 w').uncompHdrLen - iphLen)),
      (uncompressUdp f.pb f.datalen 0 w').hc06Ptr % 256,
      (uncompressUdp f.pb f.datalen 0 w').uncompHdrLen⟩ := by
    rw [show u = _ from heq, uncompressNext, hok]
    rfl
  have hsame : ((uncompressUdp f.pb f.datalen 0 w').hc06Ptr % 256,
      (uncompressUdp f.pb f.datalen 0 w').uncompHdrLen) = lengths := by
    rw [← hlengths]
    dsimp only
    by_cases hudp : w'.nhc = true ∧ f.pb w'.hc06Ptr &&& nhcUdpMask = nhcUdpId
    · obtain ⟨hend, hgives⟩ :=
        uncompressUdp_lengths f.datalen 0 hudp.1 hudp.2
      rw [if_pos hudp, hend, hgives]
    · rw [if_neg hudp, uncompressUdp, if_neg hudp]
  rw [hu]
  refine ⟨hsame, ?_⟩
  rw [get16_write_be16, ← hsame]

end Chain

/-! ## Runs -/

section Runs

variable {env : Env} {f : Frame} {t : Target} {hdr n : ℕ} {buf : Memory} {w : HdrWalk}

/-- A program ends, whatever it touches. -/
def Gives {α : Type} (x : Traced Access α) (a : α) : Prop := Traced.Ends (fun _ => True) x a

/-- The expansion of an extension header ends, whatever it touches. -/
theorem fine_touchExtHdr_true : Fine (fun _ => True) (touchExtHdr f.pb t w) := by
  unfold touchExtHdr touchInline
  dsimp only
  cases protoOfEid ((f.pb w.hc06Ptr &&& 0x0e) >>> 1) <;> simp

/-- So does that of a chain. -/
theorem fine_touchExtHdrs_true : ∀ {n : ℕ} {w : HdrWalk},
    Fine (fun _ => True) (touchExtHdrs f.pb t n w) := by
  intro n
  induction n with
  | zero => exact fine_pure
  | succ n ih =>
    intro w
    rw [touchExtHdrs]
    split_ifs
    · rw [fine_touch_bind, fine_bind_unit]
      refine ⟨trivial, fine_touchExtHdr_true, ?_⟩
      cases uncompressExtHdr f.pb w with
      | ok w => exact ih
      | error w => exact fine_pure
    · simp
    · exact fine_pure

/-- So does that of a UDP header. -/
theorem fine_touchUdp_true : Fine (fun _ => True) (touchUdp f.pb t w) := by
  unfold touchUdp touchInline
  dsimp only
  split_ifs <;> simp

/-- So does that of the next header. -/
theorem fine_touchNext_true : Fine (fun _ => True) (touchNext f.pb t w) := by
  rw [touchNext, fine_bind_unit]
  refine ⟨fine_touchExtHdrs_true, ?_⟩
  cases uncompressExtHdrs f.pb packetbufSize w with
  | error w => exact fine_pure
  | ok w =>
    rw [fine_bind_unit]
    exact ⟨fine_touchUdp_true, fine_touch.mpr trivial⟩

/-- So does that of an IPHC header. -/
theorem fine_touchHdrIphc_true : Fine (fun _ => True) (touchHdrIphc env f t hdr buf) := by
  have hfields : Fine (fun _ => True) (touchFields f.pb t hdr buf) := by
    unfold touchFields touchInline
    simp
  rw [touchHdrIphc, fine_bind_unit]
  refine ⟨hfields, ?_⟩
  dsimp only
  rw [fine_touch_bind]
  refine ⟨trivial, ?_⟩
  cases uncompressSrc env.contexts f.pb hdr (f.pb (hdr + 1)) f.sender
    (uncompressFields f.pb hdr buf).2 with
  | none => exact fine_pure
  | some src =>
    unfold touchInline touchDest
    simp only [fine_touch_bind, true_and]
    cases uncompressDest env.contexts f.pb hdr (f.pb (hdr + 1)) f.receiver
      ((uncompressFields f.pb hdr buf).1.write 8 src.1) src.2 with
    | none => exact fine_pure
    | some dest =>
      unfold touchInline
      simp only [fine_touch_bind, true_and]
      exact fine_touchNext_true

variable (env hdr buf) in
/-- So does that of all headers. -/
theorem fine_touchHeaders_true : Fine (fun _ => True) (touchHeaders env f t hdr buf) := by
  have hpos : (if Paged f.pb hdr then hdr + 1 else hdr) = dispatchPos f.pb hdr := rfl
  unfold touchHeaders
  simp only [paged_eq, decide_eq_true_eq, hpos]
  rw [fine_touch_bind]
  refine ⟨trivial, ?_⟩
  by_cases hpage : Paged f.pb hdr ∧ 1 < (f.pb hdr &&& 0x0f).toNat
  · rw [if_pos hpage]
    exact fine_pure
  · rw [if_neg hpage, fine_touch_bind]
    refine ⟨trivial, ?_⟩
    split_ifs
    · exact fine_touchHdrIphc_true
    · simp
    · exact fine_pure

/-- The headers give what `inputHeaders` says. -/
theorem gives_readHeaders {fragSize : ℕ} : Gives (readHeaders env f t hdr buf fragSize)
    (inputHeaders env.contexts f.pb f.datalen f.sender f.receiver hdr buf fragSize) := by
  obtain ⟨u, hu⟩ := fine_touchHeaders_true env hdr buf (f := f) (t := t)
  exact ends_bind.mpr ⟨u, hu, ends_pure.mpr rfl⟩

/-- What `copyPayload` returns. -/
def withPayload (f : Frame) (u : Uncompressed) : Memory × Option ℕ :=
  if f.datalen < u.packetbufHdrLen ∨
      uipBufferSize < u.uncompHdrLen + (f.datalen - u.packetbufHdrLen) then (u.buf, none)
  else
    (u.buf.write u.uncompHdrLen (f.pb.read u.packetbufHdrLen (f.datalen - u.packetbufHdrLen)),
      some (u.uncompHdrLen + (f.datalen - u.packetbufHdrLen)))

/-- The payload follows the headers. -/
theorem gives_copyPayload (u : Uncompressed) : Gives (copyPayload f t u) (withPayload f u) := by
  unfold copyPayload withPayload
  by_cases hshort : f.datalen < u.packetbufHdrLen
  · rw [if_pos hshort, if_pos (.inl hshort)]
    exact ends_pure.mpr rfl
  · dsimp only
    rw [if_neg hshort]
    by_cases hroom : uipBufferSize < u.uncompHdrLen + (f.datalen - u.packetbufHdrLen)
    · rw [if_pos hroom, if_pos (.inr hroom)]
      exact ends_pure.mpr rfl
    · rw [if_neg hroom, if_neg (not_or.mpr ⟨hshort, hroom⟩)]
      exact ends_bind.mpr ⟨(), ends_touch.mpr trivial,
        ends_bind.mpr ⟨(), ends_touch.mpr trivial, ends_pure.mpr rfl⟩⟩

variable {c b : ℕ} {s : State c b}

variable (env) in
/-- A frame that is no fragment. -/
theorem gives_inputWhole : Gives (inputWhole env f s)
    (match inputHeaders env.contexts f.pb f.datalen f.sender f.receiver 0 s.uipBuf 0 with
      | none => (s, none)
      | some u => ({ s with uipBuf := (withPayload f u).1 }, (withPayload f u).2)) := by
  refine ends_bind.mpr ⟨_, gives_readHeaders, ?_⟩
  cases inputHeaders env.contexts f.pb f.datalen f.sender f.receiver 0 s.uipBuf 0 with
  | none => exact ends_pure.mpr rfl
  | some u => exact ends_bind.mpr ⟨_, gives_copyPayload u, ends_pure.mpr rfl⟩

/-- A context whose data and lengths of the first fragment may have changed. -/
structure Filled (s s' : State c b) (found : Option (Fin c)) : Prop where
  fragBuf : s'.fragBuf = s.fragBuf
  others : ∀ i ∉ found, s'.fragInfo i = s.fragInfo i
  len : ∀ i, (s'.fragInfo i).len = (s.fragInfo i).len
  reassTimer : ∀ i, (s'.fragInfo i).reassTimer = (s.fragInfo i).reassTimer

/-- Nothing has changed. -/
theorem Filled.refl (s : State c b) (found : Option (Fin c)) : Filled s s found :=
  ⟨rfl, fun _ _ => rfl, fun _ => rfl, fun _ => rfl⟩

/-- The context of the fragment has changed. -/
theorem filled_setInfo {i : Fin c} {info : FragInfo} (hlen : info.len = (s.fragInfo i).len)
    (htimer : info.reassTimer = (s.fragInfo i).reassTimer) :
    Filled s (s.setInfo i info) (some i) := by
  refine ⟨rfl, fun k hk => ?_, fun k => ?_, fun k => ?_⟩
  · refine setInfo_ne ?_
    rintro rfl
    exact hk rfl
  · by_cases hk : k = i
    · rw [hk, setInfo_self, hlen]
    · rw [setInfo_ne hk]
  · by_cases hk : k = i
    · rw [hk, setInfo_self, htimer]
    · rw [setInfo_ne hk]

/-- The outcome of a first fragment, which must find a context. -/
theorem gives_inputFirst_of_match {s'' : State c b}
    (h : Gives (match s.addFirst env f (get16 f.pb 2) (get16 f.pb 0 % 2048) with
      | (s, none) => pure (s, none)
      | (s, some i) => do
        let info := s.fragInfo i
        let u ← readHeaders env f .firstFrag 4 info.firstFrag (get16 f.pb 0 % 2048)
        match u with
        | none => pure (s, none)
        | some u => do
          let (firstFrag, len) ← copyPayload f .firstFrag u
          let info := { info with firstFrag }
          match len with
          | none => pure (s.setInfo i info, none)
          | some len =>
            if 0 < get16 f.pb 0 % 2048 then
              pure (s.setInfo i { info with reassembledLen := len, firstFragLen := len }, none)
            else pure (s.setInfo i info, none) : Traced Access (State c b × Option ℕ)) (s'', none)) :
    Gives (inputFirst env f s) (s'', none) :=
  ends_bind.mpr ⟨(), ends_touch.mpr trivial, ends_bind.mpr ⟨(), ends_touch.mpr trivial,
    ends_bind.mpr ⟨_, ends_pure.mpr rfl, h⟩⟩⟩

/-- A first fragment is not passed on, and keeps what `add_fragment` did. -/
theorem gives_inputFirst {s' : State c b} {found : Option (Fin c)}
    (hadd : s.addFirst env f (get16 f.pb 2) (get16 f.pb 0 % 2048) = (s', found)) :
    ∃ s'', Gives (inputFirst env f s) (s'', none) ∧ Filled s' s'' found := by
  have hreads {s'' : State c b} := @gives_inputFirst_of_match env f c b s s''
  rw [hadd] at hreads
  -- The fragment finds a context, or it is dropped.
  cases found with
  | none => exact ⟨s', hreads (ends_pure.mpr rfl), .refl s' none⟩
  | some i =>
    cases hheaders : inputHeaders env.contexts f.pb f.datalen f.sender f.receiver 4
      (s'.fragInfo i).firstFrag (get16 f.pb 0 % 2048) with
    | none =>
      refine ⟨s', hreads (ends_bind.mpr ⟨none, ?_, ends_pure.mpr rfl⟩), .refl s' (some i)⟩
      rw [← hheaders]
      exact gives_readHeaders
    | some u =>
      have hread : Gives (readHeaders env f .firstFrag 4 (s'.fragInfo i).firstFrag
          (get16 f.pb 0 % 2048)) (some u) := by
        rw [← hheaders]
        exact gives_readHeaders
      cases hpayload : withPayload f u with
      | mk firstFrag len =>
        have hcopy : Gives (copyPayload f .firstFrag u) (firstFrag, len) := by
          rw [← hpayload]
          exact gives_copyPayload u
        cases len with
        | none =>
          exact ⟨_, hreads (ends_bind.mpr ⟨_, hread, ends_bind.mpr ⟨_, hcopy, ends_pure.mpr rfl⟩⟩),
            filled_setInfo rfl rfl⟩
        | some len =>
          by_cases hsize : 0 < get16 f.pb 0 % 2048
          · refine ⟨s'.setInfo i { s'.fragInfo i with
                firstFrag, reassembledLen := len, firstFragLen := len },
              hreads (ends_bind.mpr ⟨_, hread, ends_bind.mpr ⟨_, hcopy, ?_⟩⟩), filled_setInfo rfl rfl⟩
            dsimp only
            rw [if_pos hsize]
            exact ends_pure.mpr rfl
          · refine ⟨s'.setInfo i { s'.fragInfo i with firstFrag },
              hreads (ends_bind.mpr ⟨_, hread, ends_bind.mpr ⟨_, hcopy, ?_⟩⟩), filled_setInfo rfl rfl⟩
            dsimp only
            rw [if_neg hsize]
            exact ends_pure.mpr rfl

/-- One program after another ends. -/
theorem fine_bind_true {α β : Type} {x : Traced Access α} {g : α → Traced Access β}
    (hx : Fine (fun _ => True) x) (hg : ∀ a, Fine (fun _ => True) (g a)) :
    Fine (fun _ => True) (x >>= g) := by
  rwa [fine_bind_of_fine hg]

/-- Storing a fragment ends. -/
theorem fine_storeFragment_true {s : State c b} {i : Fin c} {offset : UInt8} {hdr : ℕ} :
    Fine (fun _ => True) (s.storeFragment f i offset hdr) := by
  unfold State.storeFragment
  cases (List.finRange b).find? fun j => (s.fragBuf j).len = 0 <;> simp

/-- Copying the stored fragments ends. -/
theorem fine_copyBufs_true {i : Fin c} : ∀ {js : List (Fin b)} {s : State c b},
    Fine (fun _ => True) (State.copyBufs i js s) := by
  intro js
  induction js with
  | nil => exact fine_pure
  | cons j js ih =>
    intro s
    rw [State.copyBufs]
    split_ifs
    · exact fine_touch_bind.mpr ⟨trivial, ih⟩
    · exact ih

/-- Adding a later fragment ends. -/
theorem fine_addNext_true {tag : ℕ} {offset : UInt8} :
    Fine (fun _ => True) (s.addNext env f tag offset hdr) := by
  unfold State.addNext State.storeOrTimeout
  cases s.findContext f tag with
  | none => exact fine_pure
  | some i =>
    refine fine_bind_true (fine_bind_true fine_storeFragment_true ?_) ?_
    · rintro ⟨s, len⟩
      cases len with
      | none =>
        dsimp only
        split_ifs
        · exact fine_storeFragment_true
        · exact fine_pure
      | some len => exact fine_pure
    · rintro ⟨s, len⟩
      dsimp only
      split_ifs <;> exact fine_pure

/-- Adding a fragment ends. -/
theorem fine_addFragment_true {tag fragSize : ℕ} {offset : UInt8} :
    Fine (fun _ => True) (s.addFragment env f tag fragSize offset hdr) := by
  unfold State.addFragment
  split_ifs
  · exact fine_pure
  · exact fine_addNext_true

variable (env) in
/-- A later fragment ends. -/
theorem fine_inputNext_true : Fine (fun _ => True) (inputNext env f s) := by
  unfold inputNext
  dsimp only
  refine fine_touch_bind.mpr ⟨trivial, fine_touch_bind.mpr ⟨trivial, fine_touch_bind.mpr
    ⟨trivial, fine_bind_true fine_addFragment_true ?_⟩⟩⟩
  rintro ⟨s, found⟩
  cases found with
  | none => exact fine_pure
  | some i =>
    dsimp only
    split_ifs
    any_goals exact fine_pure
    refine fine_bind_true ?_ fun _ => fine_pure
    exact fine_touch_bind.mpr ⟨trivial, fine_bind_true fine_copyBufs_true fun _ => fine_pure⟩

end Runs

/-! A first fragment that takes a context, seen from the contexts. -/

section First

variable {c b : ℕ} {env : Env} {f : Frame} {s s' s'' : State c b} {i k : Fin c} {tag fragSize : ℕ}

variable (env) in
/-- What a round of the loop for a first fragment does. -/
theorem findFree_len (r : State c b × Option (Fin c)) (hr : ∀ i ∈ r.2, (r.1.fragInfo i).len = 0) :
    (∀ i ∈ (State.findFree env r k).2, ((State.findFree env r k).1.fragInfo i).len = 0) ∧
      (∀ i, (r.1.fragInfo i).len = 0 → ((State.findFree env r k).1.fragInfo i).len = 0) := by
  have hkeep : ∀ i, (r.1.fragInfo i).len = 0 →
      ((State.findFree env r k).1.fragInfo i).len = 0 := by
    intro i hi
    simp only [State.findFree]
    split_ifs
    · by_cases hik : i = k
      · rw [hik, clearFragments_info_len]
      · rw [clearFragments_info_ne hik, hi]
    · exact hi
  refine ⟨fun i hi => ?_, hkeep⟩
  by_cases hfound : r.2 = none ∧ ((State.findFree env r k).1.fragInfo k).len = 0
  · have hik : (State.findFree env r k).2 = some k := if_pos hfound
    rw [hik] at hi
    rw [← Option.some.inj hi]
    exact hfound.2
  · have hsame : (State.findFree env r k).2 = r.2 := if_neg hfound
    exact hkeep i (hr i (hsame ▸ hi))

/-- The loop clears what has expired and changes nothing else. -/
theorem findFree_loop (env : Env) : ∀ (is : List (Fin c)) (r : State c b × Option (Fin c)),
    (∀ i ∈ r.2, (r.1.fragInfo i).len = 0) →
    (∀ i ∈ (is.foldl (State.findFree env) r).2,
        ((is.foldl (State.findFree env) r).1.fragInfo i).len = 0) ∧
      (∀ i, (r.1.fragInfo i).len = 0 →
        ((is.foldl (State.findFree env) r).1.fragInfo i).len = 0) ∧
      (∀ k ∈ is, r.1.Expired env k →
        ((is.foldl (State.findFree env) r).1.fragInfo k).len = 0) ∧
      ((∀ k ∈ is, ¬ r.1.Expired env k) → (is.foldl (State.findFree env) r).1 = r.1) := by
  intro is
  induction is with
  | nil => exact fun r h => ⟨h, fun _ h => h, fun _ h => (nomatch h), fun _ => rfl⟩
  | cons k is ih =>
    intro r hr
    rw [List.foldl_cons]
    obtain ⟨hround, hkeep⟩ := findFree_len env (k := k) r hr
    obtain ⟨hfound, hrest, hexpired, hsame⟩ := ih (State.findFree env r k) hround
    refine ⟨hfound, fun i hi => hrest i (hkeep i hi), fun i hi hexp => ?_, fun hno => ?_⟩
    · by_cases hik : i = k
      · refine hrest i ?_
        simp only [State.findFree]
        rw [← hik, if_pos hexp, clearFragments_info_len]
      · refine hexpired i (List.mem_of_ne_of_mem hik hi) ?_
        simp only [State.findFree]
        split_ifs
        · exact (expired_clearFragments hik).mpr hexp
        · exact hexp
    · have hround : (State.findFree env r k).1 = r.1 := if_neg (hno k List.mem_cons_self)
      rw [hsame ?_, hround]
      intro i hi
      rw [hround]
      exact hno i (List.mem_cons_of_mem k hi)

/-- What a first fragment does to the contexts when it takes one. -/
theorem addFirst_some (h : s.addFirst env f tag fragSize = (s', some i)) :
    (∀ k ≠ i, s.Expired env k → (s'.fragInfo k).len = 0) ∧ (s'.fragInfo i).len = fragSize ∧
      (s'.fragInfo i).reassTimer = ⟨env.clockTime % env.clockRange, env.reassTime⟩ ∧
      ((∀ k, ¬ s.Expired env k) → (s.fragInfo i).len = 0 ∧ s'.fragBuf = s.fragBuf ∧
        ∀ k ≠ i, s'.fragInfo k = s.fragInfo k) := by
  obtain ⟨hfound, _, hexpired, hsame⟩ := findFree_loop env (List.finRange c) (s, none)
    fun _ h => nomatch h
  unfold State.addFirst at h
  cases hloop : (List.finRange c).foldl (State.findFree env) (s, none) with
  | mk s₁ found =>
    rw [hloop] at h hfound hexpired hsame
    cases found with
    | none => cases h
    | some j =>
      obtain ⟨rfl, hj⟩ := Prod.mk.inj h
      obtain rfl := Option.some.inj hj
      refine ⟨fun k hk hexp => ?_, ?_, ?_, fun hno => ?_⟩
      · rw [setInfo_ne hk]
        exact hexpired k (List.mem_finRange k) hexp
      · rw [setInfo_self]
      · rw [setInfo_self]
      · obtain rfl := hsame fun k _ => hno k
        exact ⟨hfound j rfl, rfl, fun k hk => setInfo_ne hk⟩

/-- A timer that was just set has not expired. -/
theorem not_timerExpired_now (env : Env) :
    ¬ timerExpired env ⟨env.clockTime % env.clockRange, env.reassTime⟩ := by
  have hsince : since env.clockRange (env.clockTime + 1) (env.clockTime % env.clockRange) = 1 := by
    rw [since_mod_right, since_add_self env.one_lt_clockRange]
  have hpos := env.reassTime_pos
  unfold timerExpired
  dsimp only
  rw [hsince]
  omega

/-- A first fragment leaves the contexts as they were just when it takes none. -/
theorem same_iff_takesNone {found : Option (Fin c)}
    (hadd : s.addFirst env f tag (get16 f.pb 0 % 2048) = (s', found))
    (hfill : Filled s' s'' found) : SameFragments s s'' ↔ TakesNone env f s := by
  -- A first fragment that opens a context has changed the fragments.
  by_cases hopen : s.Open env
  · obtain ⟨s₁, i, hsome⟩ := addFirst_open tag (get16 f.pb 0 % 2048) (f := f) hopen
    obtain ⟨rfl, rfl⟩ := Prod.mk.inj (hadd.symm.trans hsome)
    obtain ⟨hexpired, hlen, htimer, hno⟩ := addFirst_some hsome
    constructor
    · intro hsame
      have hnone : ∀ k, ¬ s.Expired env k := by
        intro k hexp
        by_cases hk : k = i
        · have heq := hsame.info k hexp.1
          have hset := hfill.reassTimer k
          rw [heq, hk, htimer] at hset
          rw [hk] at hexp
          refine not_timerExpired_now env ?_
          rw [← hset]
          exact hexp.2
        · have hzero := hexpired k hk hexp
          rw [← hfill.len k, hsame.infoLen k] at hzero
          exact hexp.1.ne' hzero
      refine ⟨hnone, .inl ?_⟩
      rw [← hlen, ← hfill.len i, hsame.infoLen i]
      exact (hno hnone).1
    · rintro ⟨hnone, hsize⟩
      obtain ⟨hfree, hbuf, hothers⟩ := hno hnone
      have hzero : get16 f.pb 0 % 2048 = 0 := by
        rcases hsize with hzero | hall
        · exact hzero
        · exact absurd hfree (hall i).ne'
      have hinfo : ∀ k ≠ i, s''.fragInfo k = s.fragInfo k := fun k hk =>
        (hfill.others k fun h => hk (Option.some.inj h).symm).trans (hothers k hk)
      refine ⟨fun k => ?_, fun k hk => ?_, fun j => ?_, fun j _ => ?_⟩
      · by_cases hk : k = i
        · rw [hk, hfill.len i, hlen, hzero, hfree]
        · rw [hinfo k hk]
      · refine hinfo k ?_
        rintro rfl
        exact hk.ne' hfree
      · rw [hfill.fragBuf, hbuf]
      · rw [hfill.fragBuf, hbuf]
  · rw [addFirst_closed hopen] at hadd
    obtain ⟨rfl, rfl⟩ := Prod.mk.inj hadd
    have hbusy : ∀ k, s.Busy env k := fun k => by
      by_contra hk
      exact hopen (open_iff.mpr ⟨k, hk⟩)
    refine iff_of_true ⟨hfill.len, fun k _ => hfill.others k (fun h => nomatch h), ?_, ?_⟩
      ⟨fun k => (hbusy k).2, .inr fun k => (hbusy k).1⟩
    · intro j
      rw [hfill.fragBuf]
    · intro j _
      rw [hfill.fragBuf]

end First

/-! ## Length field -/

section Length

variable {c b : ℕ} {env : Env} {f : Frame} {s : State c b} {u : Uncompressed}

/-- A frame of this size always fits `uip_buf`. -/
theorem withPayload_short (h : f.datalen < u.packetbufHdrLen) : withPayload f u = (u.buf, none) :=
  if_pos (.inl h)

/-- The payload follows the expanded headers. -/
theorem withPayload_long (hlt : u.uncompHdrLen < 256) (h : u.packetbufHdrLen ≤ f.datalen) :
    withPayload f u =
      (u.buf.write u.uncompHdrLen (f.pb.read u.packetbufHdrLen (f.datalen - u.packetbufHdrLen)),
        some (u.uncompHdrLen + (f.datalen - u.packetbufHdrLen))) := by
  have hdatalen : f.datalen ≤ 128 := f.datalen_le
  refine if_neg ?_
  unfold uipBufferSize
  omega

/-- A frame that is passed on whole. -/
def passOn (s : State c b) (f : Frame) (u : Uncompressed) : State c b × Option ℕ :=
  ({ s with uipBuf := (withPayload f u).1 }, (withPayload f u).2)

/-- Where the header cannot be decoded the frame has to end before the header. -/
theorem clean_undecodable_iff (h : Undecodable env f) (hlt : u.uncompHdrLen < 256) :
    Clean env f s (passOn s f u) ↔ f.datalen < u.packetbufHdrLen := by
  by_cases hlen : f.datalen < u.packetbufHdrLen
  · have hshort := withPayload_short hlen
    simp only [hlen, iff_true]
    unfold Clean passOn
    rw [hshort]
    refine ⟨fun _ => ⟨rfl, fun _ => rfl, fun _ _ => rfl, fun _ => rfl, fun _ _ => rfl⟩, ?_⟩
    exact fun _ _ _ h => nomatch h
  · simp only [hlen, iff_false]
    rintro ⟨hclean, _⟩
    have hnone := (hclean h).1
    unfold passOn at hnone
    rw [withPayload_long hlt (Nat.le_of_not_lt hlen)] at hnone
    cases hnone

/-- A whole frame is clean when its length is that of its headers and payload. -/
theorem clean_decodable_iff (hfirst : ¬ f.IsFirst) (hnext : ¬ f.IsNext)
    (h : ¬ Undecodable env f) (hlt : u.uncompHdrLen < 256) :
    Clean env f s (passOn s f u) ↔ (u.packetbufHdrLen ≤ f.datalen →
      get16 (u.buf.write u.uncompHdrLen
        (f.pb.read u.packetbufHdrLen (f.datalen - u.packetbufHdrLen))) 4 + iphLen =
          u.uncompHdrLen + (f.datalen - u.packetbufHdrLen)) := by
  unfold Clean passOn
  simp only [h, hfirst, hnext, false_implies, true_and, not_false_eq_true, forall_const]
  by_cases hlen : f.datalen < u.packetbufHdrLen
  · rw [withPayload_short hlen]
    exact iff_of_true (fun _ h => nomatch h) fun hle => absurd hle (Nat.not_le.mpr hlen)
  · have hle := Nat.le_of_not_lt hlen
    rw [withPayload_long hlt hle]
    simp only [hle, forall_const, Option.mem_some_iff, forall_eq']

/-- The length field behind the headers and the payload. -/
theorem get16_payload (hmod : u.uncompHdrLen % 8 = 0) :
    (get16 (u.buf.write u.uncompHdrLen
        (f.pb.read u.packetbufHdrLen (f.datalen - u.packetbufHdrLen))) 4 + iphLen =
          u.uncompHdrLen + (f.datalen - u.packetbufHdrLen)) ↔
      if u.uncompHdrLen = 0 then
        get16 f.pb (u.packetbufHdrLen + 4) + iphLen = f.datalen - u.packetbufHdrLen
      else get16 u.buf 4 + iphLen = u.uncompHdrLen + (f.datalen - u.packetbufHdrLen) := by
  split_ifs with hzero
  · rw [hzero, Nat.zero_add]
    by_cases hlong : 5 < f.datalen - u.packetbufHdrLen
    · have hbyte : ∀ i < 6, u.buf.write 0 (f.pb.read u.packetbufHdrLen
          (f.datalen - u.packetbufHdrLen)) i = f.pb (u.packetbufHdrLen + i) := by
        intro i hi
        rw [Memory.write, if_pos (Nat.zero_le i), Nat.sub_zero, Memory.getElem?_read (by omega)]
        rfl
      rw [get16, hbyte 5 (by decide), hbyte 4 (by decide)]
      rfl
    · refine iff_of_false ?_ ?_ <;> unfold iphLen <;> omega
  · have hbelow : ∀ i < 6, u.buf.write u.uncompHdrLen (f.pb.read u.packetbufHdrLen
        (f.datalen - u.packetbufHdrLen)) i = u.buf i := fun i hi =>
      Memory.write_below (by omega)
    rw [get16, hbelow 5 (by decide), hbelow 4 (by decide)]
    rfl

variable {hdr : ℕ}

/-- The headers of a whole frame start at its dispatch byte. -/
theorem hdr_whole (hfirst : ¬ f.IsFirst) : f.hdr = dispatchPos f.pb 0 := by
  rw [Frame.hdr, if_neg hfirst]

/-- A compressed header. -/
theorem clean_iphc_iff (hfirst : ¬ f.IsFirst) (hnext : ¬ f.IsNext) (hiphc : f.HasIphc) :
    Clean env f s (passOn s f (uncompressHdrIphc env.contexts f.pb f.datalen f.sender f.receiver
      f.hdr s.uipBuf 0)) ↔ IphcRight env f := by
  have hpos := f.datalen_pos
  have hle : f.hdr ≤ 1 := by
    rw [hdr_whole hfirst]
    exact le_dispatchPos.2
  unfold IphcRight
  -- An address without its context is a reason to drop the frame.
  by_cases hsrc : SrcUnknown env f f.hdr
  · have hlen := uncompressHdrIphc_srcUnknown s.uipBuf 0 hsrc
    obtain ⟨hend, hgives⟩ := Prod.mk.inj hlen
    rw [clean_undecodable_iff ⟨hiphc, .inl hsrc⟩ (by rw [hgives]; decide), hend]
    simp only [hsrc, not_true_eq_false, false_and, iff_false]
    omega
  by_cases hdest : DestUnknown env f f.hdr
  · obtain ⟨buf', heq⟩ := uncompressHdrIphc_known s.uipBuf 0 hsrc
    rw [(uncompressDest_none_iff _).mpr hdest] at heq
    rw [heq, clean_undecodable_iff ⟨hiphc, .inr (.inl hdest)⟩ (Nat.zero_lt_succ _)]
    simp only [hdest, not_true_eq_false, false_and, and_false, iff_false]
    omega
  simp only [hsrc, hdest, not_false_eq_true, true_and]
  -- The headers have lengths when all of them are known.
  cases hlengths : headerLengths f.pb f.hdr with
  | none =>
    have hnone := Option.map_eq_none_iff.mp hlengths
    obtain ⟨hend, hlt⟩ := uncompressHdrIphc_unknown s.uipBuf 0 hsrc hdest hnone
    rw [clean_undecodable_iff ⟨hiphc, .inr (.inr (.inr hnone))⟩ hlt, hend]
    refine iff_of_false (by omega) ?_
    rintro ⟨_, h, _⟩
    cases h
  | some lengths =>
    obtain ⟨hu, hfield⟩ := uncompressHdrIphc_decoded s.uipBuf hsrc hdest hlengths
    obtain ⟨hmod, hlt⟩ := headerLengths_mod hlengths
    generalize uncompressHdrIphc env.contexts f.pb f.datalen f.sender f.receiver f.hdr s.uipBuf 0 = u
      at hu hfield ⊢
    subst hu
    simp only [Option.mem_some_iff, exists_eq_left']
    by_cases hmulti : ContextMulticast f f.hdr
    · rw [clean_undecodable_iff ⟨hiphc, .inr (.inr (.inl hmulti))⟩ hlt]
      simp only [hmulti, forall_const]
      refine ⟨fun h => ⟨h, fun hle => absurd hle (Nat.not_le.mpr h)⟩, fun h => h.1⟩
    · have hdecodable : ¬ Undecodable env f := by
        rintro ⟨_, h | h | h | h⟩
        · exact hsrc h
        · exact hdest h
        · exact hmulti h
        · rw [headerLengths, h] at hlengths
          cases hlengths
      rw [clean_decodable_iff hfirst hnext hdecodable hlt]
      simp only [hmulti, false_implies, true_and]
      unfold LengthRight
      refine forall_congr' fun hle => ?_
      rw [get16_payload hmod, hfield]
      have hdatalen : f.datalen ≤ 128 := f.datalen_le
      unfold Uncompressed.lengths at *
      dsimp only at *
      split_ifs
      · rfl
      · unfold iphLen
        omega

/-- A header that is not compressed. -/
theorem clean_ipv6_iff (hfirst : ¬ f.IsFirst) (hnext : ¬ f.IsNext)
    (hipv6 : f.pb f.hdr = 0x41) :
    Clean env f s (passOn s f ⟨s.uipBuf.write 0 (f.pb.read (f.hdr + 1) iphLen),
      f.hdr + 1 + iphLen, iphLen⟩) ↔ Ipv6Right f := by
  have hdecodable : ¬ Undecodable env f := fun h => iphc_ne_ipv6 hipv6 h.1.2.2
  rw [clean_decodable_iff hfirst hnext hdecodable (by decide : iphLen < 256)]
  unfold Ipv6Right
  dsimp only
  by_cases hshort : f.datalen < f.hdr + 1 + iphLen
  · simp only [hshort, true_or, iff_true]
    omega
  · have hle := Nat.le_of_not_lt hshort
    have hbyte : ∀ i < 6, s.uipBuf.write 0 (f.pb.read (f.hdr + 1) iphLen) i =
        f.pb (f.hdr + 1 + i) := by
      intro i hi
      rw [Memory.write, if_pos (Nat.zero_le i), Nat.sub_zero,
        Memory.getElem?_read (by unfold iphLen; omega)]
      rfl
    have hread : get16 (s.uipBuf.write 0 (f.pb.read (f.hdr + 1) iphLen)) 4 =
        get16 f.pb (f.hdr + 1 + 4) := by
      rw [get16, hbyte 5 (by decide), hbyte 4 (by decide)]
      rfl
    have hpayload := get16_payload (f := f) (u := ⟨s.uipBuf.write 0 (f.pb.read (f.hdr + 1) iphLen),
      f.hdr + 1 + iphLen, iphLen⟩) (show iphLen % 8 = 0 by decide)
    dsimp only at hpayload
    simp only [hle, forall_const, hshort, false_or]
    refine hpayload.trans ?_
    rw [if_neg (by decide : ¬ iphLen = 0), hread]
    unfold iphLen at *
    omega

end Length

/-! ## Result -/

/-- A first fragment. -/
theorem clean_first_iff {c b : ℕ} {env : Env} {f : Frame} {s : State c b} (hfirst : f.IsFirst) :
    (∃ r, Gives (inputFirst env f s) r ∧ Clean env f s r) ↔
      (Undecodable env f → TakesNone env f s) := by
  cases hadd : s.addFirst env f (get16 f.pb 2) (get16 f.pb 0 % 2048) with
  | mk s' found =>
    obtain ⟨s'', hgives, hfill⟩ := gives_inputFirst hadd
    rw [← same_iff_takesNone hadd hfill]
    constructor
    · rintro ⟨r, hr, hclean⟩ h
      obtain rfl := hgives.unique hr
      exact (hclean.1 h).2
    · exact fun h => ⟨_, hgives, fun hno => ⟨rfl, h hno⟩, fun hno => absurd hfirst hno⟩

/-- A frame that is no fragment. -/
theorem clean_whole_iff {c b : ℕ} {env : Env} {f : Frame} {s : State c b}
    (hfirst : ¬ f.IsFirst) (hnext : ¬ f.IsNext) :
    (∃ r, Gives (inputWhole env f s) r ∧ Clean env f s r) ↔ (f.HasIphc → IphcRight env f) ∧
      (¬ UnknownPage f.pb 0 → f.pb f.hdr = 0x41 → Ipv6Right f) := by
  have hgives := gives_inputWhole env (f := f) (s := s)
  have hpos : f.hdr = dispatchPos f.pb 0 := hdr_whole hfirst
  have hhas : f.HasIphc ↔ ¬ UnknownPage f.pb 0 ∧ f.pb f.hdr &&& 0xe0 = dispatchIphc := by
    rw [Frame.HasIphc, if_neg hfirst]
    exact and_iff_right hnext
  have hvalue : ∀ {r}, Gives (inputWhole env f s) r →
      ((∃ r, Gives (inputWhole env f s) r ∧ Clean env f s r) ↔ Clean env f s r) := by
    intro r hr
    constructor
    · rintro ⟨r', hr', hclean⟩
      rwa [hr.unique hr']
    · exact fun h => ⟨r, hr, h⟩
  have hdropped : ¬ f.HasIphc → Clean env f s (s, none) := fun hno =>
    ⟨fun h => absurd h.1 hno, fun _ _ _ h => nomatch h⟩
  rw [inputHeaders_eq, ← hpos] at hgives
  -- Each reason to drop the frame is checked in the order of the code.
  by_cases hpage : UnknownPage f.pb 0
  · rw [if_pos hpage] at hgives
    have hno : ¬ f.HasIphc := fun h => (hhas.mp h).1 hpage
    rw [hvalue hgives]
    simp only [hno, hpage, false_implies, not_true_eq_false, and_self, iff_true]
    exact hdropped hno
  by_cases hiphc : f.pb f.hdr &&& 0xe0 = dispatchIphc
  · rw [if_neg hpage, if_pos hiphc] at hgives
    have hyes := hhas.mpr ⟨hpage, hiphc⟩
    rw [hvalue hgives]
    refine (clean_iphc_iff hfirst hnext hyes).trans ?_
    simp only [hyes, forall_const]
    exact (and_iff_left fun _ hipv6 => absurd hiphc (iphc_ne_ipv6 hipv6)).symm
  have hno : ¬ f.HasIphc := fun h => hiphc (hhas.mp h).2
  by_cases hipv6 : f.pb f.hdr = 0x41
  · rw [if_neg hpage, if_neg hiphc, if_pos hipv6] at hgives
    rw [hvalue hgives]
    refine (clean_ipv6_iff hfirst hnext hipv6).trans ?_
    simp only [hno, hpage, hipv6, false_implies, not_false_eq_true, forall_const, true_and]
  · rw [if_neg hpage, if_neg hiphc, if_neg hipv6] at hgives
    rw [hvalue hgives]
    simp only [hno, hipv6, false_implies, implies_true, and_self, iff_true]
    exact hdropped hno

/-- A header that cannot be decoded leaves nothing, and a packet that is passed on whole has the
right length, just for these frames. -/
theorem sicslowpan_input_clean_iff {c b : ℕ} (env : Env) (f : Frame) (s : State c b) :
    (∃ r, Gives (input env f s) r ∧ Clean env f s r) ↔ HandledCleanly env f s := by
  have hinput : ∀ r, Gives (input env f s) r ↔ Gives
      (if f.IsFirst then inputFirst env f s else if f.IsNext then inputNext env f s
        else inputWhole env f s) r := by
    intro r
    constructor
    · intro h
      obtain ⟨_, _, h⟩ := ends_bind.mp h
      exact h
    · exact fun h => ends_bind.mpr ⟨(), ends_touch.mpr trivial, h⟩
  simp only [hinput]
  unfold HandledCleanly
  split_ifs with hfirst hnext
  · simp only [clean_first_iff hfirst, hfirst, not_true_eq_false, forall_const, false_implies,
      and_true]
  · have hno : ¬ f.HasIphc := fun h => h.1 hnext
    obtain ⟨r, hr⟩ := fine_inputNext_true env (f := f) (s := s)
    simp only [hfirst, hno, hnext, false_implies, not_true_eq_false, and_true, implies_true, iff_true]
    exact ⟨r, hr, fun h => absurd h.1 hno, fun _ h => absurd hnext h⟩
  · simp only [clean_whole_iff hfirst hnext, hfirst, hnext, false_implies, not_false_eq_true,
      forall_const, true_and]

/-- A frame of two bytes: a compressed header whose source address has an unknown context. -/
def unknownContext : Frame where
  pb i := if i = 0 then 0x7a else if i = 1 then 0x50 else 0
  datalen := 2
  datalen_pos := Nat.two_pos
  datalen_le := by decide
  sender := linkaddrNull
  receiver := linkaddrNull

/-- Its two bytes are passed on as a packet. -/
theorem unknown_context : ¬ ∀ (env : Env) (f : Frame) (s : State 0 0),
    ∃ r, Gives (input env f s) r ∧ Clean env f s r := by
  intro h
  obtain ⟨r, hr, hclean⟩ := h ⟨⟨[], by simp, by simp⟩, 0, 65536, 64, by decide, by decide⟩
    unknownContext ⟨fun i => i.elim0, fun j => j.elim0, fun _ => 0⟩
  unfold input at hr
  rw [if_neg (by decide), if_neg (by decide)] at hr
  obtain ⟨_, _, hr⟩ := ends_bind.mp hr
  have hright := (clean_whole_iff (by decide) (by decide)).mp ⟨r, hr, hclean⟩
  have hiphc : unknownContext.HasIphc := ⟨by decide, by decide, by decide⟩
  exact (hright.1 hiphc).1 ⟨by decide, by decide, rfl⟩

end MasterScheduler.Mote.Sicslowpan

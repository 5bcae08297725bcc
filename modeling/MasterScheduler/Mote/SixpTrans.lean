import MasterScheduler.Lib.Transition
import MasterScheduler.Mote.SixpPkt

/-!
# MasterScheduler.Mote.SixpTrans — 6P transactions

The transactions of `sixp.c` and `sixp-trans.c`: a pool of slots, a list of the
slots in use, a timer for each, and the packets at the MAC, which hold pointers
into the pool. A transaction is told apart from an earlier one in the same slot
by the number of its allocation, which the code does not have.

- `transaction_identity`: one transaction for a peer and the order of its
  states in every run, and whose transaction a callback of the MAC is for where
  no slot is given out that a packet still points to.
-/

namespace MasterScheduler.Mote.SixpTrans

open Lib Frame802154 SixpPkt

/-! ## Transactions -/

/-- `sixp_trans_state_t`. -/
inductive TransState where
  | unavailable
  | init
  | requestSent
  | requestReceived
  | responseSent
  | responseReceived
  | confirmationSent
  | confirmationReceived
  | terminating
deriving DecidableEq, Repr

/-- What the timer of a transaction calls. -/
inductive Timer where
  | handleTransTimeout
  | processTrans
deriving DecidableEq, Repr

/-- `sixp_trans_t`. The callback stands for its function and argument. -/
structure Trans where
  /-- The number of the allocation. -/
  id : ℕ
  peerAddr : Linkaddr
  seqno : UInt8
  cmd : UInt8
  state : TransState
  mode : TransMode
  callback : Option ℕ
  timer : Option Timer

/-- `sixp_nbr_t`. -/
structure Nbr where
  nextSeqno : UInt8
  gen : UInt8

/-- A packet at the MAC: the pointer for its callback, and the transaction it was sent for. -/
structure Packet where
  slot : ℕ
  id : ℕ
deriving DecidableEq, Repr

/-- A callback that was invoked: the transaction of the packet, the transaction the callback
belongs to, and the callback. -/
structure Invocation where
  packetId : ℕ
  transId : ℕ
  callback : ℕ
  success : Bool
deriving DecidableEq, Repr

structure State where
  /-- The memory of the pool. -/
  slots : ℕ → Trans
  /-- `trans_list`; these are the slots `memb_alloc` has given out. -/
  transList : List ℕ
  nbrs : Linkaddr → Option Nbr
  packets : List Packet
  /-- The number of the next allocation. -/
  nextId : ℕ
  /-- The callbacks invoked so far. -/
  invoked : List Invocation

/-- What a build fixes: `SIXTOP_MAX_TRANSACTIONS` and the scheduling functions. -/
structure Config where
  maxTransactions : ℕ
  sfids : List UInt8

/-- The memory of a slot before its first transaction. -/
def Trans.zero : Trans where
  id := 0
  peerAddr := linkaddrNull
  seqno := 0
  cmd := 0
  state := .unavailable
  mode := .twoStep
  callback := none
  timer := none

def State.init : State where
  slots := fun _ => Trans.zero
  transList := []
  nbrs := fun _ => none
  packets := []
  nextId := 1
  invoked := []

def State.setTrans (s : State) (k : ℕ) (trans : Trans) : State :=
  { s with slots := Function.update s.slots k trans }

/-- The transitions `sixp_trans_transit_state` lets pass. -/
def Transits (mode : TransMode) (old new : TransState) : Bool :=
  match old, new with
  | _, .terminating | .init, .requestSent | .init, .requestReceived
  | .requestReceived, .responseSent | .requestSent, .responseReceived => true
  | .responseSent, .confirmationReceived | .responseReceived, .confirmationSent =>
      mode = .threeStep
  | _, _ => false

/-- `sixp_trans_transit_state`; the processing timer is set for at once. -/
def transitState (trans : Trans) (new : TransState) : Option Trans :=
  if Transits trans.mode trans.state new then
    some { trans with state := new, timer := some .processTrans }
  else none

/-- A transition, and the end of the transaction if it is refused. -/
def transitOrTerminate (trans : Trans) (new : TransState) : Trans :=
  (transitState trans new).getD { trans with state := .terminating, timer := some .processTrans }

/-- `sixp_trans_find`. -/
def State.find (s : State) (peerAddr : Linkaddr) : Option ℕ :=
  s.transList.find? fun k => (s.slots k).peerAddr = peerAddr

/-- `memb_alloc`: the first slot that is not in use. -/
def State.membAlloc (config : Config) (s : State) : Option ℕ :=
  (List.range config.maxTransactions).find? fun k => k ∉ s.transList

/-- `sixp_trans_alloc`. -/
def State.alloc (config : Config) (s : State) (pkt : Pkt) (peerAddr : Linkaddr) :
    Option (ℕ × State) :=
  if pkt.sfid ∉ config.sfids then none
  else if s.find peerAddr ≠ none then none
  else
    match s.membAlloc config with
    | none => none
    | some k =>
        let trans : Trans :=
          { id := s.nextId, peerAddr := peerAddr, seqno := pkt.seqno, cmd := pkt.code,
            state := .init, mode := determineTransMode pkt, callback := none,
            timer := some .handleTransTimeout }
        some (k, { s.setTrans k trans with
          transList := s.transList ++ [k], nextId := s.nextId + 1 })

/-! ## Events -/

/-- The arguments of `sixp_output`. `nbrAlloc` says whether the neighbor table has room. -/
structure Output where
  type : PktType
  code : UInt8
  sfid : UInt8
  body : List UInt8
  destAddr : Linkaddr
  callback : Option ℕ
  nbrAlloc : Bool

/-- What can happen. A packet leaves the MAC with its status, in any order and after any time;
`dropped` is one that leaves without a callback. Other modules may change the neighbor table. -/
inductive Event where
  | output (args : Output)
  | macCallback (i : ℕ) (ok : Bool)
  | dropped (i : ℕ)
  | input (buf : List UInt8) (srcAddr : Linkaddr)
  | timer (k : ℕ)
  | nbrTable (nbrs : Linkaddr → Option Nbr)

/-- `SIXP_INITIAL_SEQUENCE_NUMBER`, and generation 0. -/
def Nbr.new : Nbr := ⟨0, 0⟩

/-- `sixp_nbr_increment_next_seqno`. -/
def Nbr.increment (nbr : Nbr) : Nbr :=
  { nbr with nextSeqno := if 0x0f < nbr.nextSeqno + 1 then 0 else nbr.nextSeqno + 1 }

/-- The state the transaction must be in for a packet that is not a request. -/
def requiredState : PktType → TransState
  | .response => .requestReceived
  | .confirmation => .responseReceived
  | _ => .unavailable

/-- The transaction `sixp_output` goes on with: none for a request. -/
def State.outputTrans (s : State) (args : Output) : Option (Option ℕ) :=
  match args.type, s.find args.destAddr with
  | .request, none => some none
  | .response, some k | .confirmation, some k =>
      if (s.slots k).state = requiredState args.type then some (some k) else none
  | _, _ => none

/-- The neighbor of the peer, allocated where `sixp_output` needs one. -/
def State.outputNbr (s : State) (args : Output) (slot : Option ℕ) : Option (Option Nbr) :=
  let needed : Bool :=
    match slot with
    | none => true
    | some k => args.type = .response ∧ args.code = rcSuccess ∧
        ((s.slots k).cmd = cmdAdd ∨ (s.slots k).cmd = cmdDelete)
  match s.nbrs args.destAddr with
  | some nbr => some (some nbr)
  | none => if needed then if args.nbrAlloc then some (some Nbr.new) else none else some none

/-- The packet of a transaction goes to the MAC with a pointer to the transaction. -/
def State.send (s : State) (k : ℕ) (callback : Option ℕ) : State :=
  { s.setTrans k { s.slots k with callback := callback } with
    packets := s.packets ++ [⟨k, (s.slots k).id⟩] }

/-- `sixp_output`. A call that fails may have allocated a neighbor, or used a sequence number. -/
def State.output (config : Config) (s : State) (args : Output) : State :=
  match s.outputTrans args with
  | none => s
  | some slot =>
      match s.outputNbr args slot with
      | none => s
      | some nbr =>
          let seqno :=
            match slot with
            | some k => (s.slots k).seqno
            | none => (nbr.getD Nbr.new).nextSeqno
          let gen := (nbr.map Nbr.gen).getD 0
          let nbr := if slot = none then nbr.map Nbr.increment else nbr
          let s := { s with nbrs := Function.update s.nbrs args.destAddr nbr }
          let pkt : Pkt := ⟨args.type, args.code, args.sfid, seqno, gen, args.body⟩
          if (create pkt Framer.emptyPacketbuf).isNone then s
          else
            match slot with
            | some k => s.send k args.callback
            | none =>
                match s.alloc config pkt args.destAddr with
                | none => s
                | some (k, s) => s.send k args.callback

/-- The state `mac_callback` goes for, or nothing for an unexpected one. -/
def callbackState (ok : Bool) : TransState → Option TransState
  | .init => some (if ok then .requestSent else .terminating)
  | .requestReceived => some (if ok then .responseSent else .requestReceived)
  | .responseReceived => some (if ok then .confirmationSent else .responseReceived)
  | state => if ok then none else some state

/-- `mac_callback` on what the slot holds. -/
def macCallback (packetId : ℕ) (ok : Bool) (trans : Trans) : Trans × List Invocation :=
  match callbackState ok trans.state with
  | none => (trans, [])
  | some new =>
      match if new = trans.state then some trans else transitState trans new with
      | none => ({ trans with state := .terminating, timer := some .processTrans }, [])
      | some trans' =>
          ({ trans' with callback := none },
            match trans'.callback with
            | none => []
            | some callback => [⟨packetId, trans'.id, callback, ok⟩])

def State.macCallback (s : State) (p : Packet) (ok : Bool) : State :=
  let r := SixpTrans.macCallback p.id ok (s.slots p.slot)
  { s.setTrans p.slot r.1 with invoked := s.invoked ++ r.2 }

/-- The check of the schedule generation. -/
def State.validGeneration (s : State) (pkt : Pkt) (srcAddr : Linkaddr) : Bool :=
  pkt.code = cmdClear ∨ pkt.gen = ((s.nbrs srcAddr).map Nbr.gen).getD 0

/-- `sixp_input`. The errors sent back have no callback. -/
def State.input (config : Config) (s : State) (buf : List UInt8) (srcAddr : Linkaddr) : State :=
  match parse buf with
  | none => s
  | some pkt =>
      if pkt.sfid ∉ config.sfids then s
      else if !s.validGeneration pkt srcAddr then s
      else
        match pkt.type, s.find srcAddr with
        | .request, none =>
            match s.alloc config pkt srcAddr with
            | none => s
            | some (k, s) => s.setTrans k (transitOrTerminate (s.slots k) .requestReceived)
        | .response, some k =>
            if (s.slots k).seqno = pkt.seqno then
              s.setTrans k (transitOrTerminate (s.slots k) .responseReceived)
            else s
        | .confirmation, some k =>
            if (s.slots k).seqno = pkt.seqno then
              s.setTrans k (transitOrTerminate (s.slots k) .confirmationReceived)
            else s
        | _, _ => s

/-- `process_trans` on a transaction that is not terminating. -/
def processTrans (trans : Trans) : Trans :=
  match trans.state, trans.mode with
  | .responseSent, .twoStep | .responseReceived, .twoStep | .confirmationSent, _
  | .confirmationReceived, _ =>
      { trans with state := .terminating, timer := some .processTrans }
  | _, _ => { trans with timer := some .handleTransTimeout }

/-- The timer of a slot expires. -/
def State.expire (s : State) (k : ℕ) : Option State :=
  match (s.slots k).timer with
  | none => none
  | some .handleTransTimeout =>
      some (s.setTrans k { s.slots k with state := .terminating, timer := some .processTrans })
  | some .processTrans =>
      if (s.slots k).state = .terminating then
        some { s.setTrans k { s.slots k with timer := none } with
          transList := s.transList.erase k }
      else some (s.setTrans k (processTrans (s.slots k)))

def step (config : Config) (s : State) : Event → Option State
  | .output args => some (s.output config args)
  | .macCallback i ok =>
      s.packets[i]?.map fun p => { s with packets := s.packets.eraseIdx i }.macCallback p ok
  | .dropped i => s.packets[i]?.map fun _ => { s with packets := s.packets.eraseIdx i }
  | .input buf srcAddr => some (s.input config buf srcAddr)
  | .timer k => s.expire k
  | .nbrTable nbrs => some { s with nbrs := nbrs }

/-! ## What has to hold -/

/-- No peer has two transactions. -/
def OnePerPeer (s : State) : Prop :=
  ∀ j ∈ s.transList, ∀ k ∈ s.transList, (s.slots j).peerAddr = (s.slots k).peerAddr → j = k

/-- The order of the states of a transaction. -/
inductive Moves (mode : TransMode) : TransState → TransState → Prop
  | requestSent : Moves mode .init .requestSent
  | responseReceived : Moves mode .requestSent .responseReceived
  | confirmationSent (h : mode = .threeStep) : Moves mode .responseReceived .confirmationSent
  | requestReceived : Moves mode .init .requestReceived
  | responseSent : Moves mode .requestReceived .responseSent
  | confirmationReceived (h : mode = .threeStep) : Moves mode .responseSent .confirmationReceived
  | terminating (state : TransState) : Moves mode state .terminating

/-- A transaction over one step: the same transaction in the same state or one step further. -/
structure Trans.Follows (t t' : Trans) : Prop where
  id_eq : t'.id = t.id
  peerAddr_eq : t'.peerAddr = t.peerAddr
  mode_eq : t'.mode = t.mode
  state : t'.state = t.state ∨ Moves t.mode t.state t'.state

/-- The transactions over one step. One that is freed was terminating; a new one is in its first
state, or has received its request. -/
structure Follows (s s' : State) : Prop where
  old : ∀ k ∈ s.transList, k ∈ s'.transList ∧ (s.slots k).Follows (s'.slots k) ∨
    k ∉ s'.transList ∧ (s.slots k).state = .terminating
  new : ∀ k ∈ s'.transList, k ∉ s.transList → (s'.slots k).id = s.nextId ∧
    ((s'.slots k).state = .init ∨ Moves (s'.slots k).mode .init (s'.slots k).state)

/-- A callback of the MAC changes no transaction but the one of its packet. -/
def Own (s : State) (e : Event) (s' : State) : Prop :=
  ∀ i ok p, e = .macCallback i ok → s.packets[i]? = some p →
    s'.transList = s.transList ∧
      ∀ k ∈ s.transList, (s.slots k).id ≠ p.id → s'.slots k = s.slots k

/-- An event that may allocate a transaction. -/
def Event.Allocates : Event → Prop
  | .output args => args.type = .request
  | .input buf _ => ∃ pkt, parse buf = some pkt ∧ pkt.type = .request
  | _ => False

/-- No packet at the MAC points to the slot that is about to be given out. -/
def Clean (config : Config) (s : State) (e : Event) : Prop :=
  e.Allocates → ∀ k, s.membAlloc config = some k → ∀ p ∈ s.packets, p.slot ≠ k

/-! ## What a step can do -/

section Steps

variable {config : Config} {s s' : State} {e : Event} {t t' : Trans} {k : ℕ}
  {peerAddr : Linkaddr} {pkt : Pkt}

/-- Nothing happens. -/
theorem Trans.Follows.refl (t : Trans) : t.Follows t := ⟨rfl, rfl, rfl, .inl rfl⟩

/-- Every transaction may go to its end. -/
theorem follows_terminating (t : Trans) :
    t.Follows { t with state := .terminating, timer := some .processTrans } :=
  ⟨rfl, rfl, rfl, .inr (.terminating _)⟩

/-- The transitions of the table are the moves allowed. -/
theorem moves_of_transits {mode : TransMode} {old new : TransState}
    (h : Transits mode old new = true) : Moves mode old new := by
  cases old <;> cases new <;> first
    | exact .terminating _
    | exact .requestSent
    | exact .responseReceived
    | exact .requestReceived
    | exact .responseSent
    | exact .confirmationSent (of_decide_eq_true h)
    | exact .confirmationReceived (of_decide_eq_true h)
    | cases h

/-- A transition follows the table. -/
theorem transitState_follows {new : TransState} (h : transitState t new = some t') :
    t.Follows t' := by
  unfold transitState at h
  split at h
  case isTrue htransits =>
    cases h
    exact ⟨rfl, rfl, rfl, .inr (moves_of_transits htransits)⟩
  case isFalse => cases h

/-- A transition that is refused ends the transaction. -/
theorem transitOrTerminate_follows (t : Trans) (new : TransState) :
    t.Follows (transitOrTerminate t new) := by
  unfold transitOrTerminate
  cases h : transitState t new with
  | none => exact follows_terminating t
  | some t' => exact transitState_follows h

/-- So does the process of a transaction. -/
theorem processTrans_follows (t : Trans) : t.Follows (processTrans t) := by
  unfold processTrans
  split
  case h_5 => exact ⟨rfl, rfl, rfl, .inl rfl⟩
  all_goals exact follows_terminating t

/-- So does the callback of its packet. -/
theorem macCallback_follows (packetId : ℕ) (ok : Bool) (t : Trans) :
    t.Follows (macCallback packetId ok t).1 := by
  unfold macCallback
  split
  · exact .refl t
  split
  · exact follows_terminating t
  case h_2 t' htransit =>
    split at htransit
    · cases htransit
      exact ⟨rfl, rfl, rfl, .inl rfl⟩
    · rcases transitState_follows htransit with ⟨hid, hpeer, hmode, hstate⟩
      exact ⟨hid, hpeer, hmode, hstate⟩

/-- The callback that is invoked is the one in the slot. -/
theorem macCallback_invoked {packetId : ℕ} {ok : Bool} {c : Invocation}
    (h : c ∈ (macCallback packetId ok t).2) : c.packetId = packetId ∧ c.transId = t.id := by
  unfold macCallback at h
  split at h
  · cases h
  split at h
  · cases h
  case h_2 t' htransit =>
    have hid : t'.id = t.id := by
      split at htransit
      · cases htransit
        rfl
      · exact (transitState_follows htransit).id_eq
    split at h
    · cases h
    · rw [List.mem_singleton] at h
      rw [h]
      exact ⟨rfl, hid⟩

/-- A slot that is not in use. -/
structure Idle (t : Trans) : Prop where
  timer_eq : t.timer = none
  state : t.state = .terminating ∨ t.state = .unavailable

/-- A stale callback leaves the state and the timer of an idle slot alone. -/
theorem macCallback_idle {packetId : ℕ} {ok : Bool} (h : Idle t) :
    Idle (macCallback packetId ok t).1 := by
  rcases t with ⟨id, peerAddr, seqno, cmd, state, mode, callback, timer⟩
  rcases h with ⟨htimer, hstate⟩
  dsimp only at htimer hstate
  subst htimer
  rcases hstate with rfl | rfl <;> cases ok <;>
    exact ⟨rfl, by first | exact .inl rfl | exact .inr rfl⟩

/-- The transaction that is found is one with the peer. -/
theorem find_eq_some (h : s.find peerAddr = some k) :
    k ∈ s.transList ∧ (s.slots k).peerAddr = peerAddr := by
  have hpeer := List.find?_some h
  exact ⟨List.mem_of_find?_eq_some h, of_decide_eq_true hpeer⟩

/-- No transaction with the peer was found. -/
theorem find_eq_none (h : s.find peerAddr = none) : ∀ j ∈ s.transList,
    (s.slots j).peerAddr ≠ peerAddr := by
  intro j hj heq
  exact absurd (decide_eq_true heq) (List.find?_eq_none.mp h j hj)

/-- A slot that is allocated is free. -/
theorem membAlloc_eq_some (h : s.membAlloc config = some k) : k ∉ s.transList := by
  have hfree := List.find?_some h
  exact of_decide_eq_true hfree

/-- A new transaction has the next identity and is not used yet. -/
theorem alloc_eq_some (h : s.alloc config pkt peerAddr = some (k, s')) :
    s.membAlloc config = some k ∧ s.find peerAddr = none ∧
      ∃ t : Trans, t.id = s.nextId ∧ t.peerAddr = peerAddr ∧ t.state = .init ∧
        s' = { s.setTrans k t with transList := s.transList ++ [k], nextId := s.nextId + 1 } := by
  unfold State.alloc at h
  split at h
  · cases h
  split at h
  · cases h
  case isFalse hfind =>
    split at h
    · cases h
    case h_2 j hj =>
      cases h
      exact ⟨hj, not_not.mp hfind, _, rfl, rfl, rfl, rfl⟩

/-- The effects of a step. -/
inductive Effect (config : Config) (s : State) (e : Event) (s' : State) : Prop
  | quiet (hslots : s'.slots = s.slots) (hlist : s'.transList = s.transList)
      (hnext : s'.nextId = s.nextId) (hinvoked : s'.invoked = s.invoked)
      (hpackets : ∀ p ∈ s'.packets, p ∈ s.packets)
  | touch (k : ℕ) (t : Trans) (hk : k ∈ s.transList) (ht : (s.slots k).Follows t)
      (hslots : s'.slots = Function.update s.slots k t) (hlist : s'.transList = s.transList)
      (hnext : s'.nextId = s.nextId) (hinvoked : s'.invoked = s.invoked)
      (hpackets : ∀ p ∈ s'.packets, p ∈ s.packets ∨ p = ⟨k, (s.slots k).id⟩)
  | alloc (k : ℕ) (t : Trans) (he : e.Allocates) (hk : s.membAlloc config = some k)
      (hpeer : ∀ j ∈ s.transList, (s.slots j).peerAddr ≠ t.peerAddr) (hid : t.id = s.nextId)
      (hstate : t.state = .init ∨ Moves t.mode .init t.state)
      (hslots : s'.slots = Function.update s.slots k t) (hlist : s'.transList = s.transList ++ [k])
      (hnext : s'.nextId = s.nextId + 1) (hinvoked : s'.invoked = s.invoked)
      (hpackets : ∀ p ∈ s'.packets, p ∈ s.packets ∨ p = ⟨k, s.nextId⟩)
  | free (k : ℕ) (hstate : (s.slots k).state = .terminating)
      (hslots : s'.slots = Function.update s.slots k { s.slots k with timer := none })
      (hlist : s'.transList = s.transList.erase k) (hnext : s'.nextId = s.nextId)
      (hinvoked : s'.invoked = s.invoked) (hpackets : ∀ p ∈ s'.packets, p ∈ s.packets)
  | callback (p : Packet) (ok : Bool) (hp : p ∈ s.packets)
      (hslots : s'.slots =
        Function.update s.slots p.slot (macCallback p.id ok (s.slots p.slot)).1)
      (hlist : s'.transList = s.transList) (hnext : s'.nextId = s.nextId)
      (hinvoked : s'.invoked = s.invoked ++ (macCallback p.id ok (s.slots p.slot)).2)
      (hpackets : ∀ q ∈ s'.packets, q ∈ s.packets)

/-- A step that writes one transaction. -/
theorem effect_setTrans {new : Trans} (hk : k ∈ s.transList) (ht : (s.slots k).Follows new) :
    Effect config s e (s.setTrans k new) :=
  .touch k new hk ht rfl rfl rfl rfl fun _ hp => .inl hp

/-- A packet is sent for a listed transaction. Only a request may have none. -/
theorem outputTrans_eq_some {args : Output} {slot : Option ℕ}
    (h : s.outputTrans args = some slot) :
    match slot with
    | none => args.type = .request
    | some k => k ∈ s.transList := by
  unfold State.outputTrans at h
  split at h
  case h_1 htype _ =>
    cases h
    exact htype
  case h_2 hfind =>
    split at h
    · cases h
      exact (find_eq_some hfind).1
    · cases h
  case h_3 hfind =>
    split at h
    · cases h
      exact (find_eq_some hfind).1
    · cases h
  · cases h

/-- Sending adds a packet with its callback. -/
theorem effect_send (hk : k ∈ s.transList) (callback : Option ℕ) :
    Effect config s e (s.send k callback) := by
  refine .touch k { s.slots k with callback := callback } hk ⟨rfl, rfl, rfl, .inl rfl⟩ rfl rfl rfl
    rfl fun p hp => ?_
  exact (List.mem_append.mp hp).imp id List.mem_singleton.mp

/-- The neighbor table is no part of an effect. -/
theorem Effect.of_nbrs {nbrs : Linkaddr → Option Nbr}
    (h : Effect config { s with nbrs := nbrs } e s') : Effect config s e s' := by
  cases h with
  | quiet hslots hlist hnext hinvoked hpackets =>
    exact .quiet hslots hlist hnext hinvoked hpackets
  | touch k t hk ht hslots hlist hnext hinvoked hpackets =>
    exact .touch k t hk ht hslots hlist hnext hinvoked hpackets
  | alloc k t he hk hpeer hid hstate hslots hlist hnext hinvoked hpackets =>
    exact .alloc k t he hk hpeer hid hstate hslots hlist hnext hinvoked hpackets
  | free k hstate hslots hlist hnext hinvoked hpackets =>
    exact .free k hstate hslots hlist hnext hinvoked hpackets
  | callback p ok hp hslots hlist hnext hinvoked hpackets =>
    exact .callback p ok hp hslots hlist hnext hinvoked hpackets

/-- A new transaction and the packet it is made for. -/
theorem effect_alloc_send (he : e.Allocates) (h : s.alloc config pkt peerAddr = some (k, s'))
    (callback : Option ℕ) : Effect config s e (s'.send k callback) := by
  rcases alloc_eq_some h with ⟨hmemb, hfind, t, hid, rfl, hstate, rfl⟩
  have hslot : Function.update s.slots k t k = t := Function.update_self _ _ _
  refine .alloc k { t with callback := callback } he hmemb (find_eq_none hfind) hid (.inl hstate)
    ?_ rfl rfl rfl ?_
  · change Function.update (Function.update s.slots k t) k
      { Function.update s.slots k t k with callback := callback } = _
    rw [hslot, Function.update_idem]
  · intro p hp
    change p ∈ s.packets ++ [⟨k, (Function.update s.slots k t k).id⟩] at hp
    rw [hslot, hid] at hp
    exact (List.mem_append.mp hp).imp id List.mem_singleton.mp

/-- The effect of an output. -/
theorem effect_output {args : Output} (he : e = .output args) :
    Effect config s e (s.output config args) := by
  unfold State.output
  split
  · exact .quiet rfl rfl rfl rfl fun _ hp => hp
  case h_2 slot hslot =>
    have hcase := outputTrans_eq_some hslot
    split
    · exact .quiet rfl rfl rfl rfl fun _ hp => hp
    case h_2 nbr _ =>
      cases slot with
      | some k =>
        dsimp only
        split
        · exact .quiet rfl rfl rfl rfl fun _ hp => hp
        · refine Effect.of_nbrs (effect_send ?_ args.callback)
          exact hcase
      | none =>
        dsimp only
        split
        · exact .quiet rfl rfl rfl rfl fun _ hp => hp
        split
        · exact .quiet rfl rfl rfl rfl fun _ hp => hp
        case h_2 k s₁ halloc =>
          exact Effect.of_nbrs (effect_alloc_send (he ▸ hcase) halloc args.callback)

/-- The effect of an input. -/
theorem effect_input {buf : List UInt8} {srcAddr : Linkaddr} (he : e = .input buf srcAddr) :
    Effect config s e (s.input config buf srcAddr) := by
  have hquiet : Effect config s e s := .quiet rfl rfl rfl rfl fun _ hp => hp
  unfold State.input
  split
  · exact hquiet
  case h_2 pkt hparse =>
    split
    · exact hquiet
    split
    · exact hquiet
    split
    case h_1 htype _ =>
      split
      · exact hquiet
      case h_2 k s₁ halloc =>
        -- a new transaction, which has received its request
        rcases alloc_eq_some halloc with ⟨hmemb, hfind, t, hid, rfl, hstate, rfl⟩
        have hslot : Function.update s.slots k t k = t := Function.update_self _ _ _
        have hnew : t.Follows (transitOrTerminate t .requestReceived) :=
          transitOrTerminate_follows t _
        refine .alloc k (transitOrTerminate t .requestReceived) (he ▸ ⟨pkt, hparse, htype⟩) hmemb
          ?_ (hnew.id_eq.trans hid) ?_ ?_ rfl rfl rfl fun p hp => .inl hp
        · rw [hnew.peerAddr_eq]
          exact find_eq_none hfind
        · rw [hnew.mode_eq, ← hstate]
          exact hnew.state
        · change Function.update (Function.update s.slots k t) k
            (transitOrTerminate (Function.update s.slots k t k) .requestReceived) = _
          rw [hslot, Function.update_idem]
    case h_2 k _ hfind =>
      split
      · exact effect_setTrans (find_eq_some hfind).1 (transitOrTerminate_follows _ _)
      · exact hquiet
    case h_3 k _ hfind =>
      split
      · exact effect_setTrans (find_eq_some hfind).1 (transitOrTerminate_follows _ _)
      · exact hquiet
    · exact hquiet

/-- The effect of an expired timer. -/
theorem effect_expire (hidle : ∀ k, k ∉ s.transList → Idle (s.slots k))
    (h : s.expire k = some s') : Effect config s e s' := by
  have hk : (s.slots k).timer ≠ none → k ∈ s.transList := by
    intro htimer
    by_contra hk
    exact htimer (hidle k hk).timer_eq
  unfold State.expire at h
  split at h
  · cases h
  case h_2 htimer =>
    cases h
    exact effect_setTrans (hk (by rw [htimer]; simp)) (follows_terminating _)
  case h_3 htimer =>
    split at h
    case isTrue hstate =>
      cases h
      exact .free k hstate rfl rfl rfl rfl fun _ hp => hp
    case isFalse =>
      cases h
      exact effect_setTrans (hk (by rw [htimer]; simp)) (processTrans_follows _)

/-- The effect of every event. -/
theorem effect_step (hidle : ∀ k, k ∉ s.transList → Idle (s.slots k))
    (h : step config s e = some s') : Effect config s e s' := by
  cases e with
  | output args =>
    cases h
    exact effect_output rfl
  | macCallback i ok =>
    rcases Option.map_eq_some_iff.mp h with ⟨p, hp, rfl⟩
    exact .callback p ok (List.mem_of_getElem? hp) rfl rfl rfl rfl fun q hq =>
      List.mem_of_mem_eraseIdx hq
  | dropped i =>
    rcases Option.map_eq_some_iff.mp h with ⟨p, hp, rfl⟩
    exact .quiet rfl rfl rfl rfl fun q hq => List.mem_of_mem_eraseIdx hq
  | input buf srcAddr =>
    cases h
    exact effect_input rfl
  | timer k => exact effect_expire hidle h
  | nbrTable nbrs =>
    cases h
    exact .quiet rfl rfl rfl rfl fun _ hp => hp

end Steps

/-! ## Runs -/

section Runs

variable {config : Config} {s s' : State} {e : Event} {t : Trans} {k : ℕ}

/-- What holds in every run. -/
structure Inv (s : State) : Prop where
  nodup : s.transList.Nodup
  onePerPeer : OnePerPeer s
  idle : ∀ k, k ∉ s.transList → Idle (s.slots k)

/-- No transaction at first. -/
theorem inv_init : Inv State.init :=
  ⟨List.nodup_nil, fun _ hj => absurd hj List.not_mem_nil, fun _ _ => ⟨rfl, .inr rfl⟩⟩

/-- A slot whose transaction stays the same one. -/
theorem Inv.update (h : Inv s) (hk : k ∈ s.transList ∨ Idle t) (hpeer : t.peerAddr =
    (s.slots k).peerAddr) (hslots : s'.slots = Function.update s.slots k t)
    (hlist : s'.transList = s.transList) : Inv s' := by
  have hpeers : ∀ j, (s'.slots j).peerAddr = (s.slots j).peerAddr := by
    intro j
    rw [hslots]
    by_cases hj : j = k
    · rw [hj, Function.update_self, hpeer]
    · rw [Function.update_of_ne hj]
  refine ⟨hlist ▸ h.nodup, ?_, ?_⟩
  · intro i hi j hj hij
    rw [hlist] at hi hj
    rw [hpeers, hpeers] at hij
    exact h.onePerPeer i hi j hj hij
  · intro j hj
    rw [hlist] at hj
    rw [hslots]
    by_cases hjk : j = k
    · rw [hjk, Function.update_self]
      rcases hk with hk | hidle
      · exact absurd (hjk ▸ hk) hj
      · exact hidle
    · rw [Function.update_of_ne hjk]
      exact h.idle j hj

/-- The effects keep the invariant. -/
theorem Inv.effect (h : Inv s) (heffect : Effect config s e s') : Inv s' := by
  -- One case for each effect: only a new transaction needs its peer to be free.
  cases heffect with
  | quiet hslots hlist _ _ _ =>
    refine ⟨hlist ▸ h.nodup, ?_, ?_⟩
    · rw [OnePerPeer, hslots, hlist]
      exact h.onePerPeer
    · rw [hslots, hlist]
      exact h.idle
  | touch k t hk ht hslots hlist _ _ _ => exact h.update (.inl hk) ht.peerAddr_eq hslots hlist
  | callback p ok _ hslots hlist _ _ _ =>
    refine h.update ?_ (macCallback_follows p.id ok _).peerAddr_eq hslots hlist
    by_cases hk : p.slot ∈ s.transList
    · exact .inl hk
    · exact .inr (macCallback_idle (h.idle _ hk))
  | free k hstate hslots hlist _ _ _ =>
    have hpeers : ∀ j, (s'.slots j).peerAddr = (s.slots j).peerAddr := by
      intro j
      rw [hslots]
      by_cases hj : j = k
      · rw [hj, Function.update_self]
      · rw [Function.update_of_ne hj]
    refine ⟨hlist ▸ h.nodup.erase k, ?_, ?_⟩
    · intro i hi j hj hij
      rw [hlist] at hi hj
      rw [hpeers, hpeers] at hij
      exact h.onePerPeer i (List.mem_of_mem_erase hi) j (List.mem_of_mem_erase hj) hij
    · intro j hj
      rw [hslots]
      by_cases hjk : j = k
      · rw [hjk, Function.update_self]
        exact ⟨rfl, .inl hstate⟩
      · rw [Function.update_of_ne hjk]
        rw [hlist] at hj
        exact h.idle j fun hmem => hj ((List.mem_erase_of_ne hjk).mpr hmem)
  | alloc k t _ hk hpeer _ _ hslots hlist _ _ _ =>
    have hnew := membAlloc_eq_some hk
    have hold : ∀ j ∈ s.transList, s'.slots j = s.slots j := by
      intro j hj
      rw [hslots, Function.update_of_ne]
      rintro rfl
      exact hnew hj
    have hself : s'.slots k = t := by rw [hslots, Function.update_self]
    refine ⟨?_, ?_, ?_⟩
    · rw [hlist]
      exact List.nodup_append.mpr ⟨h.nodup, List.nodup_singleton k, fun a ha b hb => by
        rw [List.mem_singleton.mp hb]
        rintro rfl
        exact hnew ha⟩
    · intro i hi j hj hij
      rw [hlist, List.mem_append, List.mem_singleton] at hi hj
      rcases hi with hi | rfl <;> rcases hj with hj | rfl
      · rw [hold i hi, hold j hj] at hij
        exact h.onePerPeer i hi j hj hij
      · rw [hold i hi, hself] at hij
        exact absurd hij (hpeer i hi)
      · rw [hold j hj, hself] at hij
        exact absurd hij.symm (hpeer j hj)
      · rfl
    · intro j hj
      rw [hlist, List.mem_append, List.mem_singleton, not_or] at hj
      rw [hslots, Function.update_of_ne hj.2]
      exact h.idle j hj.1

/-- Every event keeps the invariant. -/
theorem step_inv (h : Inv s) (hstep : step config s e = some s') : Inv s' :=
  h.effect (effect_step h.idle hstep)

/-- Every event follows the table. -/
theorem step_follows (h : Inv s) (hstep : step config s e = some s') : Follows s s' := by
  have hupdate : ∀ {k t}, (s.slots k).Follows t → s'.slots = Function.update s.slots k t →
      s'.transList = s.transList → Follows s s' := by
    intro k t ht hslots hlist
    refine ⟨fun j hj => .inl ⟨hlist ▸ hj, ?_⟩, fun j hj hnew => absurd (hlist ▸ hj) hnew⟩
    rw [hslots]
    by_cases hjk : j = k
    · rw [hjk, Function.update_self]
      exact ht
    · rw [Function.update_of_ne hjk]
      exact .refl _
  -- A slot is free, or it follows the table.
  cases effect_step h.idle hstep with
  | quiet hslots hlist _ _ _ =>
    refine ⟨fun j hj => .inl ⟨hlist ▸ hj, ?_⟩, fun j hj hnew => absurd (hlist ▸ hj) hnew⟩
    rw [hslots]
    exact .refl _
  | touch k t _ ht hslots hlist _ _ _ => exact hupdate ht hslots hlist
  | callback p ok _ hslots hlist _ _ _ =>
    exact hupdate (macCallback_follows p.id ok _) hslots hlist
  | free k hstate hslots hlist _ _ _ =>
    refine ⟨fun j hj => ?_, fun j hj hnew => ?_⟩
    · by_cases hjk : j = k
      · right
        rw [hjk, hlist]
        exact ⟨fun hmem => (List.Nodup.mem_erase_iff h.nodup).mp hmem |>.1 rfl, hstate⟩
      · left
        rw [hslots, Function.update_of_ne hjk, hlist]
        exact ⟨(List.mem_erase_of_ne hjk).mpr hj, .refl _⟩
    · rw [hlist] at hj
      exact absurd (List.mem_of_mem_erase hj) hnew
  | alloc k t _ hk _ hid hstate hslots hlist _ _ _ =>
    refine ⟨fun j hj => .inl ⟨?_, ?_⟩, fun j hj hnew => ?_⟩
    · rw [hlist]
      exact List.mem_append_left _ hj
    · rw [hslots, Function.update_of_ne]
      · exact .refl _
      · rintro rfl
        exact membAlloc_eq_some hk hj
    · rw [hlist, List.mem_append, List.mem_singleton] at hj
      rcases hj with hj | rfl
      · exact absurd hj hnew
      · rw [hslots, Function.update_self]
        exact ⟨hid, hstate⟩

/-- What holds where no slot is given out that a packet points to: a packet points to its own
transaction, and every callback was invoked for its own packet. -/
structure Owned (s : State) : Prop where
  packets : ∀ p ∈ s.packets, (s.slots p.slot).id = p.id
  invoked : ∀ c ∈ s.invoked, c.packetId = c.transId

/-- No packet at first. -/
theorem owned_init : Owned State.init :=
  ⟨fun _ h => absurd h List.not_mem_nil, fun _ h => absurd h List.not_mem_nil⟩

/-- A clean event keeps the packets with their transactions. -/
theorem step_owned (h : Inv s) (howned : Owned s) (hclean : Clean config s e)
    (hstep : step config s e = some s') : Owned s' := by
  have hids : ∀ {k t}, t.id = (s.slots k).id → s'.slots = Function.update s.slots k t →
      ∀ j, (s'.slots j).id = (s.slots j).id := by
    intro k t ht hslots j
    rw [hslots]
    by_cases hj : j = k
    · rw [hj, Function.update_self, ht]
    · rw [Function.update_of_ne hj]
  -- A packet is owned as long as its transaction keeps the slot.
  cases effect_step h.idle hstep with
  | quiet hslots _ _ hinvoked hpackets =>
    refine ⟨fun p hp => ?_, hinvoked ▸ howned.invoked⟩
    rw [hslots]
    exact howned.packets p (hpackets p hp)
  | touch k t _ ht hslots _ _ hinvoked hpackets =>
    refine ⟨fun p hp => ?_, hinvoked ▸ howned.invoked⟩
    rw [hids ht.id_eq hslots]
    rcases hpackets p hp with hp | rfl
    · exact howned.packets p hp
    · rfl
  | free k _ hslots _ _ hinvoked hpackets =>
    refine ⟨fun p hp => ?_, hinvoked ▸ howned.invoked⟩
    have hid : ({ s.slots k with timer := none } : Trans).id = (s.slots k).id := rfl
    rw [hids hid hslots]
    exact howned.packets p (hpackets p hp)
  | callback p ok hp hslots _ _ hinvoked hpackets =>
    refine ⟨fun q hq => ?_, fun c hc => ?_⟩
    · rw [hids (macCallback_follows p.id ok _).id_eq hslots]
      exact howned.packets q (hpackets q hq)
    · rw [hinvoked, List.mem_append] at hc
      rcases hc with hc | hc
      · exact howned.invoked c hc
      · rcases macCallback_invoked hc with ⟨hpacket, htrans⟩
        rw [hpacket, htrans, howned.packets p hp]
  | alloc k t he hk _ hid _ hslots _ _ hinvoked hpackets =>
    refine ⟨fun p hp => ?_, hinvoked ▸ howned.invoked⟩
    rw [hslots]
    rcases hpackets p hp with hp | rfl
    · rw [Function.update_of_ne (hclean he k hk p hp)]
      exact howned.packets p hp
    · rw [Function.update_self, hid]

/-- A callback touches the transaction of its packet only. -/
theorem step_own (howned : Owned s) (hstep : step config s e = some s') : Own s e s' := by
  rintro i ok p rfl hp
  rcases Option.map_eq_some_iff.mp hstep with ⟨q, hq, rfl⟩
  rw [hp, Option.some.injEq] at hq
  subst hq
  refine ⟨rfl, fun k _ hid => Function.update_of_ne ?_ _ _⟩
  rintro rfl
  exact hid (howned.packets p (List.mem_of_getElem? hp))

end Runs

/-- In every run there is one transaction for a peer, and every step leaves a transaction in its
state or takes it one step along its order. Where no slot is given out that a packet at the MAC
still points to, a callback of the MAC changes, and invokes the callback of, the transaction of its
packet only. -/
theorem transaction_identity (config : Config) (s : State)
    (h : Run (step config) (fun _ _ => True) State.init s) :
    OnePerPeer s ∧ (∀ e s', step config s e = some s' → Follows s s') ∧
      (Run (step config) (Clean config) State.init s →
        (∀ c ∈ s.invoked, c.packetId = c.transId) ∧
          ∀ e s', step config s e = some s' → Own s e s') := by
  have hinv : Inv s := h.invariant (fun _ _ _ h _ hstep => step_inv h hstep) inv_init
  refine ⟨hinv.onePerPeer, fun e s' hstep => step_follows hinv hstep, fun hclean => ?_⟩
  have howned : Inv s ∧ Owned s := by
    refine @Run.invariant _ _ _ _ _ _ (fun s => Inv s ∧ Owned s) ?_ hclean ⟨inv_init, owned_init⟩
    rintro s e t ⟨hinv, howned⟩ hclean hstep
    exact ⟨step_inv hinv hstep, step_owned hinv howned hclean hstep⟩
  exact ⟨howned.2.invoked, fun e s' hstep => step_own howned.2 hstep⟩

/-- One slot and one scheduling function. -/
def smallConfig : Config := ⟨1, [0xf0]⟩

/-- A peer by its first byte. -/
def peer (b : UInt8) : Linkaddr := ⟨[b, 0, 0, 0, 0, 0, 0, 0], rfl⟩

/-- A CLEAR request. -/
def clearTo (b : UInt8) (callback : ℕ) : Event :=
  .output ⟨.request, cmdClear, 0xf0, [0, 0], peer b, some callback, true⟩

/-- A request that is sent and confirmed. -/
theorem transaction_identity_request : ∃ s,
    Run (step smallConfig) (Clean smallConfig) State.init s ∧ (s.slots 0).state = .requestSent ∧
      s.invoked ≠ [] ∧ ∀ c ∈ s.invoked, c.packetId = c.transId := by
  rcases Option.isSome_iff_exists.mp
    (show (step smallConfig State.init (clearTo 1 7)).isSome by decide) with ⟨s₁, h₁⟩
  have hany : ((step smallConfig State.init (clearTo 1 7)).bind fun s =>
      step smallConfig s (.macCallback 0 true)).any
      (fun s => (s.slots 0).state = .requestSent ∧ s.invoked ≠ []) = true := by decide
  rw [h₁, Option.bind_some] at hany
  rcases (Option.any_eq_true_iff_get _ _).mp hany with ⟨hsome, hs⟩
  rcases of_decide_eq_true hs with ⟨hstate, hinvoked⟩
  have hquiet : Clean smallConfig s₁ (.macCallback 0 true) := fun h => False.elim h
  have hrun : Run (step smallConfig) (Clean smallConfig) State.init _ :=
    .tail (.tail (.refl _) (fun _ _ _ _ hp => absurd hp List.not_mem_nil) h₁) hquiet
      (Option.some_get hsome).symm
  have hany : Run (step smallConfig) (fun _ _ => True) State.init _ :=
    .tail (.tail (.refl _) trivial h₁) trivial (Option.some_get hsome).symm
  have hclean := (transaction_identity smallConfig _ hany).2.2 hrun
  exact ⟨_, hrun, hstate, hinvoked, hclean.1⟩

/-- A request times out, its slot goes to a request to another peer, and then its packet leaves
the MAC: the other request is taken for sent, and its callback is invoked. -/
theorem stale_callback : ∃ s, Run (step smallConfig) (fun _ _ => True) State.init s ∧
    ∃ c ∈ s.invoked, c.packetId ≠ c.transId :=
  exists_run_of_runEvents (step smallConfig) (fun _ _ => True) State.init
    [clearTo 1 7, .timer 0, .timer 0, clearTo 2 8, .macCallback 0 true]
    (fun s => ∃ c ∈ s.invoked, c.packetId ≠ c.transId) (by decide)

end MasterScheduler.Mote.SixpTrans

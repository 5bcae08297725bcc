import Mathlib.Algebra.Order.Ring.Nat
import Mathlib.Data.Fintype.Card
import MasterScheduler.Lib.Ring
import MasterScheduler.Lib.Transition
import MasterScheduler.Lib.Traversal

/-!
# MasterScheduler.Mote.Process — the process kernel of `process.c`

Processes are in a list, and events are in a queue. A thread of a process runs
until it returns; meanwhile it starts and ends other processes, posts events,
and calls other threads, so that calls of threads are nested.

1. **Model**: the kernel, and the machine that runs it: `main` is what
   `process_run` is doing, `stack` are the calls of threads, the last one first.
2. **Invariant**: the list ends, its processes have the state that the stack
   says, and the queue holds what was posted.
3. **Steps**: one lemma for every function.
4. **Runs**: `process_sound`. No thread is entered while it runs, provided that
   a thread which runs, or is about to end, is not ended by another one.

Every process has a thread, and threads do not call `process_run`.
-/

namespace MasterScheduler.Mote.Process

open Lib

/-! ## Model -/

/-- `PROCESS_STATE_NONE`, `PROCESS_STATE_RUNNING` and `PROCESS_STATE_CALLED`. -/
inductive ProcessState
  | none
  | running
  | called
deriving DecidableEq

/-- `PROCESS_EVENT_INIT`, `_POLL`, `_EXIT`, `_EXITED`, and the other events. -/
inductive ProcessEvent
  | init
  | poll
  | exit
  | exited
  | other (n : ℕ)
deriving DecidableEq

section Model

variable {P D : Type}

/-- `process_data_t`. -/
inductive ProcessData (P D : Type)
  | null
  | process (p : P)
  | user (d : D)
deriving DecidableEq

/-- `struct event_data`; a broadcast has no receiver. -/
structure EventData (P D : Type) where
  ev : ProcessEvent
  data : ProcessData P D
  p : Option P
deriving DecidableEq

/-- The variables, and the fields of the processes. -/
structure Kernel (P D : Type) where
  processList : Option P
  next : P → Option P
  state : P → ProcessState
  needspoll : P → Bool
  processCurrent : Option P
  pollRequested : Bool
  events : ℕ → EventData P D
  fevent : ℕ
  nevents : ℕ

/-- Where a loop over the list is: at the test, or behind the call for a process. -/
inductive Position (P : Type)
  | test (q : Option P)
  | behind (q : P)
deriving DecidableEq

/-- What is to be done when what is above it has returned. -/
inductive Frame (P D : Type)
  /-- `call_process`: the thread runs. -/
  | thread (p : P) (ev : ProcessEvent) (data : ProcessData P D)
  /-- `process_post_synch`: the current process is set back. -/
  | synch (caller : Option P)
  /-- The loop of `exit_process`. -/
  | exiting (p : P) (fromprocess oldCurrent : Option P) (position : Position P)
  /-- `exit_process`: the thread that ends runs. -/
  | exitThread (p : P) (oldCurrent : Option P)

/-- The functions that `process_run` calls. -/
inductive Loop (P D : Type)
  /-- The loop of `do_poll`. -/
  | poll (position : Position P)
  /-- The loop of `do_event` for a broadcast. -/
  | broadcast (ev : ProcessEvent) (data : ProcessData P D) (position : Position P)
  /-- In this loop, behind `do_poll`. -/
  | deliver (ev : ProcessEvent) (data : ProcessData P D) (q : P)
  /-- `process_run` behind `do_poll`. -/
  | doEvent

/-- The kernel at work, with the events that were accepted and those that were taken. -/
structure Machine (P D : Type) where
  kernel : Kernel P D
  main : List (Loop P D)
  stack : List (Frame P D)
  posted : List (EventData P D)
  taken : List (EventData P D)

inductive Action (P D : Type)
  | processPost (e : EventData P D)
  | processStart (p : P) (data : ProcessData P D)
  | processExit (p : P)
  | processPostSynch (p : P) (ev : ProcessEvent) (data : ProcessData P D)
  /-- `process_poll`, which interrupts call. -/
  | processPoll (p : P)
  /-- A thread returns `PT_EXITED` or `PT_ENDED`, or another value. -/
  | returns (ended : Bool)
  /-- `process_run` is called. -/
  | processRun
  /-- The kernel goes on. -/
  | tick

def Kernel.setState (k : Kernel P D) [DecidableEq P] (p : P) (s : ProcessState) : Kernel P D :=
  { k with state := Function.update k.state p s }

/-- `process_init`. -/
def processInit (k : Kernel P D) : Kernel P D :=
  { k with nevents := 0, fevent := 0, processCurrent := none, processList := none }

variable [DecidableEq P] [Fintype P] (numEvents : ℕ)

/-- More rounds than the list has nodes. -/
def rounds (P : Type) [Fintype P] : ℕ := Fintype.card P + 1

/-- The loop over `process_list` that looks for a process. -/
def Kernel.listed (k : Kernel P D) (p : P) : Option Bool :=
  contains k.next p (rounds P) k.processList

/-- The end of `exit_process`. -/
def Kernel.unlink (k : Kernel P D) (p : P) : Option (Kernel P D) :=
  if k.processList = some p then some { k with processList := k.next p }
  else (before k.next p (rounds P) k.processList).map fun
    | some q => { k with next := Function.update k.next q (k.next p) }
    | none => k

/-- `process_poll`. -/
def processPoll (k : Kernel P D) (p : P) : Kernel P D :=
  if k.state p = .running ∨ k.state p = .called then
    { k with needspoll := Function.update k.needspoll p true, pollRequested := true }
  else k

/-- `call_process`. -/
def callProcess (m : Machine P D) (p : P) (ev : ProcessEvent) (data : ProcessData P D) :
    Machine P D :=
  if m.kernel.state p = .running then
    { m with
      kernel := { m.kernel.setState p .called with processCurrent := some p }
      stack := .thread p ev data :: m.stack }
  else m

/-- `exit_process` behind its loop. -/
def endProcess (m : Machine P D) (p : P) (oldCurrent : Option P) : Option (Machine P D) :=
  (m.kernel.unlink p).map fun k => { m with kernel := { k with processCurrent := oldCurrent } }

/-- `exit_process`. -/
def exitProcess (m : Machine P D) (p : P) (fromprocess : Option P) : Option (Machine P D) :=
  (m.kernel.listed p).bind fun listed =>
    if listed = false then some m
    else if m.kernel.state p ≠ .none then
      some { m with
        kernel := m.kernel.setState p .none
        stack := .exiting p fromprocess m.kernel.processCurrent (.test m.kernel.processList) ::
          m.stack }
    else endProcess m p m.kernel.processCurrent

/-- `process_post_synch`. -/
def processPostSynch (m : Machine P D) (p : P) (ev : ProcessEvent) (data : ProcessData P D) :
    Machine P D :=
  callProcess { m with stack := .synch m.kernel.processCurrent :: m.stack } p ev data

/-- `process_start`. -/
def processStart (m : Machine P D) (p : P) (data : ProcessData P D) : Option (Machine P D) :=
  (m.kernel.listed p).map fun listed =>
    if listed then m
    else
      let k := { m.kernel with
        next := Function.update m.kernel.next p m.kernel.processList
        processList := some p }
      processPostSynch { m with kernel := k.setState p .running } p .init data

/-- `process_post`, with `PROCESS_ERR_OK` for true and `PROCESS_ERR_FULL` for false. The sum of the
positions is cut to a byte. -/
def processPost (m : Machine P D) (e : EventData P D) : Bool × Machine P D :=
  let k := m.kernel
  if k.nevents = numEvents then (false, m)
  else
    let snum := (k.fevent + k.nevents) % 256 % numEvents
    (true, { m with
      kernel := { k with events := Function.update k.events snum e, nevents := k.nevents + 1 }
      posted := m.posted ++ [e] })

/-- `do_poll`. -/
def doPoll (m : Machine P D) : Machine P D :=
  { m with
    kernel := { m.kernel with pollRequested := false }
    main := .poll (.test m.kernel.processList) :: m.main }

/-- `do_event`. -/
def doEvent (m : Machine P D) : Machine P D :=
  let k := m.kernel
  if 0 < k.nevents then
    let e := k.events k.fevent
    let k := { k with fevent := (k.fevent + 1) % numEvents, nevents := k.nevents - 1 }
    let m := { m with kernel := k, taken := m.taken ++ [e] }
    match e.p with
    | none => { m with main := .broadcast e.ev e.data (.test k.processList) :: m.main }
    | some receiver =>
      let k := if e.ev = .init then k.setState receiver .running else k
      callProcess { m with kernel := k } receiver e.ev e.data
  else m

/-- `process_run`. -/
def processRun (m : Machine P D) : Machine P D :=
  let m := { m with main := [.doEvent] }
  if m.kernel.pollRequested then doPoll m else m

/-- The kernel goes on with the call that has returned last, if a thread called it. -/
def tickStack (m : Machine P D) : List (Frame P D) → Option (Machine P D)
  | .synch caller :: rest =>
    some { m with kernel := { m.kernel with processCurrent := caller }, stack := rest }
  | .exiting p fromprocess oldCurrent (.test (some q)) :: rest =>
    let m := { m with stack := .exiting p fromprocess oldCurrent (.behind q) :: rest }
    some (if p ≠ q then callProcess m q .exited (.process p) else m)
  | .exiting p fromprocess oldCurrent (.test none) :: rest =>
    if fromprocess ≠ some p then
      some { m with
        kernel := { m.kernel with processCurrent := some p }
        stack := .exitThread p oldCurrent :: rest }
    else endProcess { m with stack := rest } p oldCurrent
  | .exiting p fromprocess oldCurrent (.behind q) :: rest =>
    some { m with stack := .exiting p fromprocess oldCurrent (.test (m.kernel.next q)) :: rest }
  | _ => none

/-- The kernel goes on with `process_run`. -/
def tickMain (m : Machine P D) : List (Loop P D) → Option (Machine P D)
  | [] => none
  | .poll (.test none) :: main => some { m with main := main }
  | .poll (.test (some q)) :: main =>
    let m := { m with main := .poll (.behind q) :: main }
    some (if m.kernel.needspoll q then
      let k := { m.kernel.setState q .running with
        needspoll := Function.update m.kernel.needspoll q false }
      callProcess { m with kernel := k } q .poll .null
    else m)
  | .poll (.behind q) :: main => some { m with main := .poll (.test (m.kernel.next q)) :: main }
  | .broadcast _ _ (.test none) :: main => some { m with main := main }
  | .broadcast ev data (.test (some q)) :: main =>
    let m := { m with main := .deliver ev data q :: main }
    some (if m.kernel.pollRequested then doPoll m else m)
  | .deliver ev data q :: main =>
    some (callProcess { m with main := .broadcast ev data (.behind q) :: main } q ev data)
  | .broadcast ev data (.behind q) :: main =>
    some { m with main := .broadcast ev data (.test (m.kernel.next q)) :: main }
  | .doEvent :: main => some (doEvent numEvents { m with main := main })

/-- A thread runs, or the program between two calls of `process_run`. -/
def Machine.atWork (m : Machine P D) : Bool :=
  match m.stack with
  | .thread _ _ _ :: _ | .exitThread _ _ :: _ => true
  | [] => m.main.isEmpty
  | _ => false

/-- A thread returns. -/
def returnThread (m : Machine P D) (ended : Bool) : List (Frame P D) → Option (Machine P D)
  | .thread p ev _ :: rest =>
    let m := { m with stack := rest }
    if ended = true ∨ ev = .exit then exitProcess m p (some p)
    else some { m with kernel := m.kernel.setState p .running }
  | .exitThread p oldCurrent :: rest => endProcess { m with stack := rest } p oldCurrent
  | _ => none

def step (m : Machine P D) : Action P D → Option (Machine P D)
  | .processPost e => if m.atWork then some (processPost numEvents m e).2 else none
  | .processStart p data => if m.atWork then processStart m p data else none
  | .processExit p => if m.atWork then exitProcess m p m.kernel.processCurrent else none
  | .processPostSynch p ev data => if m.atWork then some (processPostSynch m p ev data) else none
  | .processPoll p => some { m with kernel := processPoll m.kernel p }
  | .returns ended => returnThread m ended m.stack
  | .processRun => if m.stack.isEmpty && m.main.isEmpty then some (processRun m) else none
  | .tick => if m.stack.isEmpty then tickMain numEvents m m.main else tickStack m m.stack

/-- `process_init` before any process was started. -/
def Machine.initial (k : Kernel P D) : Machine P D :=
  ⟨processInit { k with state := fun _ => .none }, [], [], [], []⟩

/-- A process is ended when its thread does not run, and it is not being ended; that a process is
started is not posted as an event. -/
def Orderly (m : Machine P D) : Action P D → Prop
  | .processExit p => m.kernel.state p = .running ∨ m.kernel.listed p = some false
  | .processPost e => e.ev ≠ .init
  | _ => True

end Model

/-! ## Invariant -/

section Invariant

variable {P D : Type}

/-- The process of a call, and its state meanwhile. -/
def Frame.status : Frame P D → Option (P × ProcessState)
  | .thread p _ _ => some (p, .called)
  | .exiting p _ _ _ | .exitThread p _ => some (p, .none)
  | .synch _ => none

def Frame.process (f : Frame P D) : Option P := f.status.map Prod.fst

/-- The processes that are being called or ended. -/
def busy (stack : List (Frame P D)) : List P := (stack.filterMap Frame.status).map Prod.fst

/-- The list, and the states of its processes. One process may be in any state. -/
structure Listed (k : Kernel P D) (stack : List (Frame P D)) (l : List P) (hole : Option P) :
    Prop where
  chain : Chain k.next k.processList l
  unlisted : ∀ p, p ∉ l → k.state p = .none
  inStack : ∀ x ∈ stack.filterMap Frame.status, x.1 ∈ l ∧ k.state x.1 = x.2
  idle : ∀ p ∈ l, p ∉ busy stack → hole ≠ some p → k.state p = .running
  nodup : (busy stack).Nodup
  hole : ∀ p, hole = some p → p ∈ l ∧ p ∉ busy stack

/-- The current process is the one whose thread runs, and will be where others return. -/
def CurrentOk : List (Frame P D) → Option P → Prop
  | [], _ => True
  | .thread p _ _ :: rest, c => c = some p ∧ ∀ c', CurrentOk rest c'
  | .exitThread p oldCurrent :: rest, c => c = some p ∧ CurrentOk rest oldCurrent
  | .synch caller :: rest, _ => CurrentOk rest caller
  | .exiting _ _ oldCurrent _ :: rest, _ => CurrentOk rest oldCurrent

/-- A loop of `do_poll` goes on in the list. -/
def Loop.Ready (k : Kernel P D) (l : List P) : Loop P D → Prop
  | .poll (.test q) => ∀ r, q = some r → r ∈ l
  | .poll (.behind q) => ∀ r, k.next q = some r → r ∈ l
  | _ => True

/-- Another function than `do_poll`. -/
def Loop.Plain : Loop P D → Prop
  | .poll _ => False
  | _ => True

/-- The process that was called by a loop. -/
def Loop.Calls (p : Option P) : Loop P D → Prop
  | .poll (.behind q) | .broadcast _ _ (.behind q) => p = some q
  | _ => False

/-- The process of the first call. -/
def bottom (stack : List (Frame P D)) : Option P := stack.getLast?.bind Frame.process

/-- `do_poll` interrupts one function at most. -/
inductive Nested : List (Loop P D) → Prop
  | idle : Nested []
  | single (x : Loop P D) : Nested [x]
  | poll (position : Position P) {x : Loop P D} (h : x.Plain) : Nested [.poll position, x]

/-- Only `do_poll` interrupts a function. -/
theorem Nested.alone {x : Loop P D} {main : List (Loop P D)} (h : Nested (x :: main))
    (hx : x.Plain) : main = [] := by
  cases h with
  | single => rfl
  | poll => cases hx

/-- Only the loop of `do_poll` asks anything of the list. -/
theorem Loop.Plain.ready {k : Kernel P D} {l : List P} {x : Loop P D} (hx : x.Plain) :
    x.Ready k l := by
  cases x with
  | poll => cases hx
  | broadcast | deliver | doEvent => exact trivial

structure MainOk (k : Kernel P D) (main : List (Loop P D)) (stack : List (Frame P D))
    (l : List P) : Prop where
  ready : stack = [] → ∀ x ∈ main.head?, x.Ready k l
  calls : stack ≠ [] → ∀ x ∈ main.head?, x.Calls (bottom stack)
  nested : Nested main

structure QueueOk (numEvents : ℕ) (m : Machine P D) : Prop where
  first : m.kernel.fevent < numEvents
  count : m.kernel.nevents ≤ numEvents
  pending : m.posted = m.taken ++
    window m.kernel.events numEvents m.kernel.fevent m.kernel.nevents
  proper : ∀ e ∈ m.posted, e.ev ≠ .init

structure Inv (numEvents : ℕ) (m : Machine P D) (l : List P) : Prop where
  listed : Listed m.kernel m.stack l none
  current : CurrentOk m.stack m.kernel.processCurrent
  main : MainOk m.kernel m.main m.stack l
  queue : QueueOk numEvents m

/-! ### The list -/

variable [DecidableEq P] {k k' : Kernel P D} {stack stack' : List (Frame P D)} {l l' : List P}
  {hole : Option P} {p q : P} {s : ProcessState} {f : Frame P D} {main : List (Loop P D)}

namespace Listed

/-- A process that is neither called nor ended may take any state. -/
theorem vacant (h : Listed k stack l none) (hp : k.state p = .running) :
    Listed k stack l (some p) where
  chain := h.chain
  unlisted := h.unlisted
  inStack := h.inStack
  idle r hr hbusy _ := h.idle r hr hbusy nofun
  nodup := h.nodup
  hole r hr := by
    obtain rfl := Option.some.inj hr
    constructor
    · by_contra hnot
      rw [h.unlisted p hnot] at hp
      cases hp
    · intro hbusy
      obtain ⟨x, hx, rfl⟩ := List.mem_map.mp hbusy
      obtain ⟨f, -, hf⟩ := List.mem_filterMap.mp hx
      rw [(h.inStack x hx).2] at hp
      cases f <;> cases hf <;> cases hp

omit [DecidableEq P] in
theorem ne_of_not_mem (h : Listed k stack l (some p)) {r : P} (hr : r ∉ l) : r ≠ p := by
  rintro rfl
  exact hr (h.hole r rfl).1

omit [DecidableEq P] in
theorem ne_of_mem_stack (h : Listed k stack l (some p)) {x : P × ProcessState}
    (hx : x ∈ stack.filterMap Frame.status) : x.1 ≠ p := by
  intro heq
  exact (h.hole p rfl).2 (heq ▸ List.mem_map_of_mem hx)

/-- It is called, or its end begins. -/
theorem occupy (h : Listed k stack l (some p)) (hf : f.status = some (p, s)) :
    Listed (k.setState p s) (f :: stack) l none where
  chain := h.chain
  unlisted r hr := by
    exact (Function.update_of_ne (h.ne_of_not_mem hr) _ _).trans (h.unlisted r hr)
  inStack x hx := by
    rw [List.filterMap_cons_some hf, List.mem_cons] at hx
    rcases hx with rfl | hx
    · exact ⟨(h.hole p rfl).1, Function.update_self ..⟩
    · obtain ⟨hmem, hstate⟩ := h.inStack x hx
      exact ⟨hmem, (Function.update_of_ne (h.ne_of_mem_stack hx) _ _).trans hstate⟩
  idle r hr hbusy _ := by
    rw [busy, List.filterMap_cons_some hf, List.map_cons, List.mem_cons, not_or] at hbusy
    have hne : some p ≠ some r := fun heq => hbusy.1 (Option.some.inj heq).symm
    exact (Function.update_of_ne hbusy.1 _ _).trans (h.idle r hr hbusy.2 hne)
  nodup := by
    rw [busy, List.filterMap_cons_some hf, List.map_cons]
    exact List.nodup_cons.mpr ⟨(h.hole p rfl).2, h.nodup⟩
  hole r hr := by cases hr

omit [DecidableEq P] in
/-- What was done to a process is over. -/
theorem vacate (h : Listed k (f :: stack) l none) (hf : f.status = some (p, s)) :
    Listed k stack l (some p) ∧ k.state p = s := by
  have hbusy : busy (f :: stack) = p :: busy stack := by
    rw [busy, List.filterMap_cons_some hf, List.map_cons, busy]
  have hnodup := h.nodup
  rw [hbusy, List.nodup_cons] at hnodup
  have hin := h.inStack
  rw [List.filterMap_cons_some hf] at hin
  obtain ⟨hmem, hstate⟩ := hin (p, s) List.mem_cons_self
  refine ⟨⟨h.chain, h.unlisted, fun x hx => hin x (List.mem_cons_of_mem _ hx), ?_, hnodup.2, ?_⟩,
    hstate⟩
  · intro r hr hnot hne
    refine h.idle r hr ?_ nofun
    rw [hbusy, List.mem_cons, not_or]
    exact ⟨fun heq => hne (heq ▸ rfl), hnot⟩
  · rintro r ⟨⟩
    exact ⟨hmem, hnodup.1⟩

/-- The thread waits for the next event. -/
theorem wait (h : Listed k stack l (some p)) : Listed (k.setState p .running) stack l none where
  chain := h.chain
  unlisted r hr := by
    exact (Function.update_of_ne (h.ne_of_not_mem hr) _ _).trans (h.unlisted r hr)
  inStack x hx := by
    obtain ⟨hmem, hstate⟩ := h.inStack x hx
    exact ⟨hmem, (Function.update_of_ne (h.ne_of_mem_stack hx) _ _).trans hstate⟩
  idle r hr hbusy _ := by
    by_cases hrp : r = p
    · subst hrp
      exact Function.update_self ..
    · exact (Function.update_of_ne hrp _ _).trans
        (h.idle r hr hbusy fun heq => hrp (Option.some.inj heq).symm)
  nodup := h.nodup
  hole r hr := by cases hr

/-- A process that is not in the list is put in front. -/
theorem start (h : Listed k stack l none) (hp : p ∉ l) :
    Listed (({ k with
      next := Function.update k.next p k.processList
      processList := some p } : Kernel P D).setState p .running) stack (p :: l) none where
  chain := h.chain.push hp
  unlisted r hr := by
    rw [List.mem_cons, not_or] at hr
    exact (Function.update_of_ne hr.1 _ _).trans (h.unlisted r hr.2)
  inStack x hx := by
    obtain ⟨hmem, hstate⟩ := h.inStack x hx
    exact ⟨List.mem_cons_of_mem p hmem,
      (Function.update_of_ne (ne_of_mem_of_not_mem hmem hp) _ _).trans hstate⟩
  idle r hr hbusy _ := by
    by_cases hrp : r = p
    · subst hrp
      exact Function.update_self ..
    · exact (Function.update_of_ne hrp _ _).trans
        (h.idle r ((List.mem_cons.mp hr).resolve_left hrp) hbusy nofun)
  nodup := h.nodup
  hole r hr := by cases hr

omit [DecidableEq P] in
/-- The list is shorter than the rounds of a loop. -/
theorem length_lt [Fintype P] (h : Listed k stack l hole) : l.length < rounds P :=
  Nat.lt_succ_of_le h.chain.nodup.length_le_card

/-- The loop that looks for a process. -/
theorem listed_eq [Fintype P] (h : Listed k stack l hole) (p : P) :
    k.listed p = some (decide (p ∈ l)) := contains_ends h.chain h.length_lt

end Listed

/-- What the end of `exit_process` does. -/
theorem unlink_cases [Fintype P] (h : Chain k.next k.processList l) (hp : p ∈ l)
    (hunlink : k.unlink p = some k') :
    (∃ post, l = p :: post ∧ k' = { k with processList := k.next p }) ∨
      ∃ pre q post, l = pre ++ q :: p :: post ∧
        k' = { k with next := Function.update k.next q (k.next p) } := by
  rw [Kernel.unlink] at hunlink
  cases l with
  | nil => cases hp
  | cons r l =>
    by_cases hr : r = p
    · subst hr
      rw [if_pos h.1] at hunlink
      exact .inl ⟨l, rfl, (Option.some.inj hunlink).symm⟩
    · have hhead : k.processList ≠ some p := by
        rw [h.1]
        exact fun heq => hr (Option.some.inj heq)
      rw [if_neg hhead] at hunlink
      obtain ⟨o, ho, heq⟩ := Option.map_eq_some_iff.mp hunlink
      rcases before_eq_some h ho with ⟨pre, q, post, hl, rfl⟩ | ⟨rfl, hnot⟩
      · exact .inr ⟨pre, q, post, hl, heq.symm⟩
      · exact absurd ((List.mem_cons.mp hp).resolve_left (Ne.symm hr)) hnot

omit [DecidableEq P] in
/-- The nodes behind a node of the list are in the list. -/
theorem Listed.next_mem (h : Listed k stack l hole) (hp : p ∈ l) (hq : k.next p = some q) :
    q ∈ l := by
  obtain ⟨pre, post, rfl⟩ := List.append_of_mem hp
  have hbehind : Chain k.next (k.next p) post := h.chain.suffix
  rw [hbehind.head_eq] at hq
  exact List.mem_append_right _ (List.mem_cons_of_mem _ (List.mem_of_head? hq))

/-- A process is taken from the list, or was not in it. -/
theorem unlink_isSome [Fintype P] (h : Chain k.next k.processList l) (p : P) :
    (k.unlink p).isSome := by
  rw [Kernel.unlink]
  split
  · rfl
  · obtain ⟨r, hr⟩ := before_ends (x := p) h (Nat.lt_succ_of_le h.nodup.length_le_card)
    rw [rounds, hr]
    rfl

/-- A process that has ended is taken out of the list, and its link stays. -/
theorem Listed.unlink [Fintype P] (h : Listed k stack l (some p)) (hp : k.state p = .none)
    (hunlink : k.unlink p = some k') :
    Listed k' stack (l.erase p) none ∧ k'.next p = k.next p ∧
      ∀ r, k.next p = some r → r ∈ l.erase p := by
  obtain ⟨hmem, hbusy⟩ := h.hole p rfl
  have hnodup := h.chain.nodup
  have hstate : k'.state = k.state := by
    rcases unlink_cases h.chain hmem hunlink with ⟨_, -, rfl⟩ | ⟨_, _, _, -, rfl⟩ <;> rfl
  -- The process is the head of the list, or behind another one.
  have hchain : Chain k'.next k'.processList (l.erase p) ∧ k'.next p = k.next p ∧
      ∀ r, k.next p = some r → r ∈ l.erase p := by
    rcases unlink_cases h.chain hmem hunlink with ⟨post, rfl, rfl⟩ | ⟨pre, q, post, rfl, rfl⟩
    · rw [List.erase_cons_head]
      refine ⟨h.chain.2, rfl, fun r hr => ?_⟩
      rw [h.chain.2.head_eq] at hr
      exact List.mem_of_head? hr
    · have hpre : p ∉ pre ++ [q] := by
        intro hin
        rw [List.append_cons] at hnodup
        exact (List.nodup_append.mp hnodup).2.2 p hin p List.mem_cons_self rfl
      have herase : (pre ++ q :: p :: post).erase p = pre ++ q :: post := by
        rw [List.append_cons, List.erase_append_right _ hpre, List.erase_cons_head,
          ← List.append_cons]
      have hne : p ≠ q := by
        rintro rfl
        exact hpre (by simp)
      have hbehind := h.chain.suffix.2
      rw [herase]
      refine ⟨h.chain.unlink, Function.update_of_ne hne _ _, fun r hr => ?_⟩
      rw [hbehind.head_eq] at hr
      exact List.mem_append_right _ (List.mem_cons_of_mem _ (List.mem_of_head? hr))
  refine ⟨⟨hchain.1, fun r hr => ?_, fun x hx => ?_, fun r hr hnot _ => ?_, h.nodup, nofun⟩,
    hchain.2⟩
  · rw [hstate]
    by_cases hrp : r = p
    · rw [hrp, hp]
    · exact h.unlisted r fun hin => hr ((List.mem_erase_of_ne hrp).mpr hin)
  · obtain ⟨hin, hx'⟩ := h.inStack x hx
    have hne : x.1 ≠ p := fun heq => hbusy (heq ▸ List.mem_map_of_mem hx)
    exact ⟨(List.mem_erase_of_ne hne).mpr hin, by rw [hstate, hx']⟩
  · rw [hstate]
    obtain ⟨hne, hin⟩ := hnodup.mem_erase_iff.mp hr
    exact h.idle r hin hnot fun heq => hne (Option.some.inj heq).symm

omit [DecidableEq P] in
/-- Processes and list stay, so do the statuses of the frames. -/
theorem Listed.congr (h : Listed k stack l hole)
    (hstack : stack'.filterMap Frame.status = stack.filterMap Frame.status) :
    Listed k stack' l hole where
  chain := h.chain
  unlisted := h.unlisted
  inStack := hstack ▸ h.inStack
  idle p hp hbusy := h.idle p hp (by rwa [busy, hstack] at hbusy)
  nodup := by
    rw [busy, hstack]
    exact h.nodup
  hole p hp := by
    rw [busy, hstack]
    exact h.hole p hp

/-! ### The loops -/

omit [DecidableEq P] in
/-- A call leaves the first one where it is. -/
theorem bottom_cons (f : Frame P D) (hne : stack ≠ []) : bottom (f :: stack) = bottom stack := by
  obtain ⟨g, stack, rfl⟩ := List.exists_cons_of_ne_nil hne
  rw [bottom, List.getLast?_cons_cons, bottom]

namespace MainOk

omit [DecidableEq P] in
/-- A call within a call, or between two calls of `process_run`. -/
theorem call (h : MainOk k main stack l) (hwork : stack ≠ [] ∨ main = []) (f : Frame P D) :
    MainOk k' main (f :: stack) l' where
  ready hnil := by cases hnil
  calls _ x hx := by
    rcases hwork with hne | rfl
    · rw [bottom_cons f hne]
      exact h.calls hne x hx
    · cases hx
  nested := h.nested

omit [DecidableEq P] in
/-- What is done in a call changes. -/
theorem exchange (h : MainOk k main (f :: stack) l) {g : Frame P D} (hg : g.process = f.process) :
    MainOk k' main (g :: stack) l' where
  ready hnil := by cases hnil
  calls _ x hx := by
    have hcalls := h.calls (List.cons_ne_nil f stack) x hx
    by_cases hne : stack = []
    · subst hne
      rw [show bottom [g] = bottom [f] from hg]
      exact hcalls
    · rw [bottom_cons g hne]
      rwa [bottom_cons f hne] at hcalls
  nested := h.nested

omit [DecidableEq P] in
/-- A call returns. -/
theorem returns (h : MainOk k main (f :: stack) l)
    (hnext : ∀ p, f.process = some p → ∀ r, k'.next p = some r → r ∈ l') :
    MainOk k' main stack l' where
  ready hnil x hx := by
    subst hnil
    have hcalls := h.calls (List.cons_ne_nil f []) x hx
    cases x with
    | poll position =>
      cases position with
      | test q => cases hcalls
      | behind q => exact hnext q hcalls
    | broadcast | deliver | doEvent => exact trivial
  calls hne x hx := by
    have hcalls := h.calls (List.cons_ne_nil f stack) x hx
    rwa [bottom_cons f hne] at hcalls
  nested := h.nested

end MainOk

end Invariant

/-! ## Steps -/

section Steps

variable {P D : Type} {numEvents : ℕ} {m m' : Machine P D}
  {k k' : Kernel P D} {l : List P} {p : P} {ev : ProcessEvent} {data : ProcessData P D}
  {e : EventData P D} {f : Frame P D}

/-- A function that leaves the queue as it is. -/
theorem QueueOk.same (h : QueueOk numEvents m) (hevents : m'.kernel.events = m.kernel.events)
    (hfirst : m'.kernel.fevent = m.kernel.fevent) (hcount : m'.kernel.nevents = m.kernel.nevents)
    (hposted : m'.posted = m.posted) (htaken : m'.taken = m.taken) : QueueOk numEvents m' where
  first := hfirst ▸ h.first
  count := hcount ▸ h.count
  pending := by
    rw [hposted, htaken, hevents, hfirst, hcount]
    exact h.pending
  proper := hposted ▸ h.proper

/-- No loop is interrupted while a thread runs. -/
theorem Machine.atWork_cases (h : m.atWork = true) : m.stack ≠ [] ∨ m.main = [] := by
  rw [Machine.atWork] at h
  split at h
  · next heq => exact .inl (by rw [heq]; exact List.cons_ne_nil _ _)
  · next heq => exact .inl (by rw [heq]; exact List.cons_ne_nil _ _)
  · exact .inr (List.isEmpty_iff.mp h)
  · cases h

namespace Inv

/-- No process at first. -/
theorem initial (hpos : 0 < numEvents) (k : Kernel P D) :
    Inv numEvents (Machine.initial k) [] where
  listed := ⟨rfl, fun _ _ => rfl, nofun, nofun, List.nodup_nil, nofun⟩
  current := trivial
  main := ⟨nofun, fun h => absurd rfl h, .idle⟩
  queue := ⟨hpos, Nat.zero_le _, rfl, nofun⟩

/-- A posted event keeps the invariant. -/
theorem processPost (h : Inv numEvents m l) (hle : numEvents ≤ 128) (he : e.ev ≠ .init) :
    Inv numEvents (processPost numEvents m e).2 l := by
  rw [Process.processPost]
  split
  · exact h
  · next hne =>
    have hfirst := h.queue.first
    have hcount : m.kernel.nevents < numEvents := lt_of_le_of_ne h.queue.count hne
    have hcut : (m.kernel.fevent + m.kernel.nevents) % 256 =
        m.kernel.fevent + m.kernel.nevents := Nat.mod_eq_of_lt (by omega)
    refine ⟨{ h.listed with }, h.current, { h.main with }, hfirst, hcount, ?_, ?_⟩
    · dsimp only
      rw [hcut, window_push hcount, h.queue.pending, List.append_assoc]
    · intro x hx
      rcases List.mem_append.mp hx with hx | hx
      · exact h.queue.proper x hx
      · rw [List.mem_singleton.mp hx]
        exact he

/-- `process_run` goes on. -/
theorem goOn (h : Inv numEvents m l) (hstack : m.stack = []) (main : List (Loop P D))
    (hready : ∀ x ∈ main.head?, x.Ready m.kernel l) (hnested : Nested main) :
    Inv numEvents { m with main := main } l :=
  ⟨h.listed, h.current, ⟨fun _ => hready, fun hne => absurd hstack hne, hnested⟩,
    h.queue.same rfl rfl rfl rfl rfl⟩

/-- The poll of all processes keeps the invariant. -/
theorem doPoll (h : Inv numEvents m l) (hstack : m.stack = [])
    (hnested : Nested (.poll (.test m.kernel.processList) :: m.main)) :
    Inv numEvents (doPoll m) l := by
  have hready : ∀ x ∈ (Loop.poll (D := D) (.test m.kernel.processList) :: m.main).head?,
      x.Ready m.kernel l := by
    intro x hx
    cases hx
    intro r hr
    rw [h.listed.chain.head_eq] at hr
    exact List.mem_of_head? hr
  have hpoll := h.goOn hstack _ hready hnested
  exact ⟨{ hpoll.listed with }, hpoll.current, { hpoll.main with },
    hpoll.queue.same rfl rfl rfl rfl rfl⟩

/-- The main loop keeps the invariant. -/
theorem processRun (h : Inv numEvents m l) (hstack : m.stack = []) :
    Inv numEvents (processRun m) l := by
  have hrun := h.goOn hstack [.doEvent] (fun x hx => by
    cases hx
    exact trivial) (.single _)
  rw [Process.processRun]
  dsimp only
  split
  · exact hrun.doPoll hstack (.poll _ trivial)
  · exact hrun

variable [DecidableEq P]

/-- A request for a poll keeps the invariant. -/
theorem processPoll (h : Inv numEvents m l) (p : P) :
    Inv numEvents { m with kernel := processPoll m.kernel p } l := by
  rw [Process.processPoll]
  split
  · exact ⟨{ h.listed with }, h.current, ⟨h.main.ready, h.main.calls, h.main.nested⟩,
      h.queue.same rfl rfl rfl rfl rfl⟩
  · exact h

/-- A thread is called by the kernel, or by a thread. -/
theorem callProcess (h : Inv numEvents m l) (hcurrent : ∀ c, CurrentOk m.stack c)
    (hmain : m.stack = [] → ∀ x ∈ m.main.head?, x.Calls (some p)) :
    Inv numEvents (callProcess m p ev data) l := by
  rw [Process.callProcess]
  split
  · next hstate =>
    have hlisted := (h.listed.vacant hstate).occupy (f := .thread p ev data) rfl
    refine ⟨{ hlisted with }, ⟨rfl, hcurrent⟩, ⟨nofun, fun _ x hx => ?_, h.main.nested⟩,
      h.queue.same rfl rfl rfl rfl rfl⟩
    by_cases hne : m.stack = []
    · dsimp only
      rw [hne]
      exact hmain hne x hx
    · exact bottom_cons (.thread p ev data) hne ▸ h.main.calls hne x hx
  · exact h

/-- A synchronous event keeps the invariant. -/
theorem processPostSynch (h : Inv numEvents m l) (hwork : m.stack ≠ [] ∨ m.main = []) :
    Inv numEvents (processPostSynch m p ev data) l := by
  refine callProcess ⟨h.listed.congr rfl, h.current, h.main.call hwork _,
    h.queue.same rfl rfl rfl rfl rfl⟩ (fun _ => h.current) nofun

/-- `do_event` takes the first event. -/
theorem doEvent (h : Inv numEvents m l) (hstack : m.stack = []) (hmain : m.main = []) :
    Inv numEvents (doEvent numEvents m) l := by
  rw [Process.doEvent]
  split
  · next hpos =>
    set e := m.kernel.events m.kernel.fevent with he
    obtain ⟨n, hn⟩ : ∃ n, m.kernel.nevents = n + 1 := ⟨m.kernel.nevents - 1, by omega⟩
    have hpending := h.queue.pending
    rw [hn, window_pop h.queue.first, ← he] at hpending
    have hproper : e.ev ≠ .init := h.queue.proper e (by rw [hpending]; simp)
    -- The event is taken from the queue first.
    have htaken : Inv numEvents { m with
        kernel := { m.kernel with
          fevent := (m.kernel.fevent + 1) % numEvents
          nevents := m.kernel.nevents - 1 }
        taken := m.taken ++ [e] } l := by
      refine ⟨{ h.listed with }, h.current, { h.main with }, ?_, ?_, ?_, h.queue.proper⟩
      · exact Nat.mod_lt _ (Nat.zero_lt_of_lt h.queue.first)
      · exact (Nat.sub_le _ 1).trans h.queue.count
      · rw [hpending, hn, Nat.add_sub_cancel, List.append_assoc, List.singleton_append]
    dsimp only
    -- It goes to all processes, or to one.
    split
    · -- a broadcast
      refine htaken.goOn hstack _ ?_ ?_
      · intro x hx
        cases hx
        exact trivial
      · rw [hmain]
        exact .single _
    · rw [if_neg hproper]
      refine htaken.callProcess ?_ ?_
      · intro c
        dsimp only
        rw [hstack]
        exact trivial
      · intro _ x hx
        dsimp only at hx
        rw [hmain] at hx
        cases hx
  · exact h

/-- `process_run` goes on, between two calls of threads. -/
theorem tickMain (h : Inv numEvents m l) (hstack : m.stack = [])
    (htick : tickMain numEvents m m.main = some m') : Inv numEvents m' l := by
  have hwork : ∀ {m : Machine P D}, m.stack = [] → ∀ c, CurrentOk m.stack c := by
    intro m hnil c
    rw [hnil]
    exact trivial
  obtain ⟨k, main, stack, posted, taken⟩ := m
  obtain rfl : stack = [] := hstack
  have hnested : Nested main := h.main.nested
  -- One case for each loop of the kernel.
  cases main with
  | nil => cases htick
  | cons x main =>
    have hready : x.Ready k l := h.main.ready rfl x rfl
    have hrest : (∀ y ∈ main.head?, y.Ready k l) ∧ Nested main := by
      cases hnested with
      | single => exact ⟨nofun, .idle⟩
      | poll _ hy =>
        refine ⟨fun y hmem => ?_, .single _⟩
        cases hmem
        exact hy.ready
    cases x with
    | poll position =>
      have hchange : ∀ position, Nested (.poll position :: main) := by
        intro position
        cases hnested with
        | single => exact .single _
        | poll _ hy => exact .poll _ hy
      cases position with
      | behind q =>
        cases htick
        refine h.goOn rfl _ (fun x hx => ?_) (hchange _)
        cases hx
        exact hready
      | test o =>
        cases o with
        | none =>
          cases htick
          exact h.goOn rfl _ hrest.1 hrest.2
        | some q =>
          have hq : q ∈ l := hready q rfl
          have hbehind := h.goOn rfl (.poll (.behind q) :: main) (fun x hx => by
            cases hx
            exact fun r hr => h.listed.next_mem hq hr) (hchange _)
          have hstate : k.state q = .running := h.listed.idle q hq nofun nofun
          rw [Process.tickMain, Option.some.injEq] at htick
          subst htick
          dsimp only
          split
          · -- the state is what it was
            have hwait := (h.listed.vacant hstate).wait
            refine callProcess (m := ⟨_, _, [], posted, taken⟩) ⟨{ hwait with }, trivial,
              { hbehind.main with }, hbehind.queue.same rfl rfl rfl rfl rfl⟩ (hwork rfl) ?_
            rintro - x hx
            cases hx
            exact rfl
          · exact hbehind
    | broadcast ev data position =>
      obtain rfl : main = [] := hnested.alone trivial
      cases position with
      | behind q =>
        cases htick
        refine h.goOn rfl _ (fun x hx => ?_) (.single _)
        cases hx
        exact trivial
      | test o =>
        cases o with
        | none =>
          cases htick
          exact h.goOn rfl _ hrest.1 hrest.2
        | some q =>
          have hdeliver := h.goOn rfl [.deliver ev data q] (fun x hx => by
            cases hx
            exact trivial) (.single _)
          rw [Process.tickMain, Option.some.injEq] at htick
          subst htick
          dsimp only
          split
          · exact hdeliver.doPoll rfl (.poll _ trivial)
          · exact hdeliver
    | deliver ev data q =>
      obtain rfl : main = [] := hnested.alone trivial
      have hbehind := h.goOn rfl [.broadcast ev data (.behind q)] (fun x hx => by
        cases hx
        exact trivial) (.single _)
      cases htick
      refine hbehind.callProcess (hwork rfl) ?_
      rintro - x hx
      cases hx
      exact rfl
    | doEvent =>
      obtain rfl : main = [] := hnested.alone trivial
      cases htick
      exact (h.goOn rfl _ hrest.1 hrest.2).doEvent rfl rfl

variable [Fintype P]

/-- A start keeps the invariant. -/
theorem processStart (h : Inv numEvents m l) (hwork : m.stack ≠ [] ∨ m.main = [])
    (hstart : processStart m p data = some m') : ∃ l', Inv numEvents m' l' := by
  rw [Process.processStart, h.listed.listed_eq, Option.map_some] at hstart
  by_cases hp : p ∈ l
  · rw [if_pos (decide_eq_true hp)] at hstart
    cases hstart
    exact ⟨l, h⟩
  · rw [if_neg (by simpa using hp)] at hstart
    cases hstart
    refine ⟨p :: l, processPostSynch ⟨h.listed.start hp, h.current, ?_,
      h.queue.same rfl rfl rfl rfl rfl⟩ hwork⟩
    refine ⟨fun hnil x hx => ?_, h.main.calls, h.main.nested⟩
    rw [hwork.resolve_left (not_not.mpr hnil)] at hx
    cases hx

/-- The frame of the exit of a listed process. -/
theorem exitProcess_eq {stack : List (Frame P D)} {hole : Option P}
    (h : Listed m.kernel stack l hole) (hp : p ∈ l) (hstate : m.kernel.state p ≠ .none)
    (fromprocess : Option P) :
    exitProcess m p fromprocess = some { m with
      kernel := m.kernel.setState p .none
      stack := .exiting p fromprocess m.kernel.processCurrent (.test m.kernel.processList) ::
        m.stack } := by
  rw [exitProcess, h.listed_eq, Option.bind_some, decide_eq_true hp, if_neg (by decide),
    if_pos hstate]

/-- The exit keeps the invariant, of a process that runs or of one outside the list. -/
theorem processExit (h : Inv numEvents m l) (hwork : m.stack ≠ [] ∨ m.main = [])
    (horderly : m.kernel.state p = .running ∨ m.kernel.listed p = some false)
    (hexit : exitProcess m p m.kernel.processCurrent = some m') : Inv numEvents m' l := by
  rcases horderly with hstate | hlisted
  · have hvacant := h.listed.vacant hstate
    rw [exitProcess_eq hvacant (hvacant.hole p rfl).1 (by rw [hstate]; nofun)] at hexit
    cases hexit
    exact ⟨hvacant.occupy rfl, h.current, h.main.call hwork _, h.queue.same rfl rfl rfl rfl rfl⟩
  · rw [exitProcess, hlisted] at hexit
    cases hexit
    exact h

/-- A process is taken out of the list. -/
theorem endProcess {stack : List (Frame P D)} {oldCurrent : Option P}
    (hlisted : Listed m.kernel stack l (some p)) (hstate : m.kernel.state p = .none)
    (hcurrent : CurrentOk stack oldCurrent) (hmain : MainOk m.kernel m.main (f :: stack) l)
    (hf : f.process = some p) (hqueue : QueueOk numEvents m)
    (hend : endProcess { m with stack := stack } p oldCurrent = some m') :
    Inv numEvents m' (l.erase p) := by
  obtain ⟨k, hunlink, rfl⟩ := Option.map_eq_some_iff.mp hend
  obtain ⟨hlisted', hlink, hnext⟩ := hlisted.unlink hstate hunlink
  refine ⟨{ hlisted' with }, hcurrent, hmain.returns fun q hq r hr => ?_, ?_⟩
  · obtain rfl := Option.some.inj (hf.symm.trans hq)
    exact hnext r (hlink ▸ hr)
  · rcases unlink_cases hlisted.chain (hlisted.hole p rfl).1 hunlink with
      ⟨_, -, rfl⟩ | ⟨_, _, _, -, rfl⟩
    · exact hqueue.same rfl rfl rfl rfl rfl
    · exact hqueue.same rfl rfl rfl rfl rfl

/-- A thread returns. -/
theorem returnThread (h : Inv numEvents m l) {ended : Bool}
    (hreturn : returnThread m ended m.stack = some m') : ∃ l', Inv numEvents m' l' := by
  obtain ⟨k, main, stack, posted, taken⟩ := m
  cases stack with
  | nil => cases hreturn
  | cons f rest =>
    cases f with
    | synch | exiting => cases hreturn
    | exitThread p oldCurrent =>
      obtain ⟨hlisted, hstate⟩ := h.listed.vacate rfl
      exact ⟨l.erase p, endProcess hlisted hstate h.current.2 h.main rfl
        (h.queue.same rfl rfl rfl rfl rfl) hreturn⟩
    | thread p ev data =>
      obtain ⟨hlisted, hstate⟩ := h.listed.vacate rfl
      obtain ⟨hmem, -⟩ := hlisted.hole p rfl
      rw [Process.returnThread] at hreturn
      dsimp only at hreturn hlisted hstate
      split at hreturn
      · rw [exitProcess_eq hlisted hmem (by rw [hstate]; nofun)] at hreturn
        cases hreturn
        exact ⟨l, hlisted.occupy rfl, h.current.2 _, h.main.exchange rfl,
          h.queue.same rfl rfl rfl rfl rfl⟩
      · cases hreturn
        refine ⟨l, hlisted.wait, h.current.2 _, h.main.returns fun q hq r hr => ?_,
          h.queue.same rfl rfl rfl rfl rfl⟩
        obtain rfl := Option.some.inj hq
        exact h.listed.next_mem hmem hr

/-- The kernel goes on with a call that has returned. -/
theorem tickStack (h : Inv numEvents m l) (htick : tickStack m m.stack = some m') :
    ∃ l', Inv numEvents m' l' := by
  obtain ⟨k, main, stack, posted, taken⟩ := m
  cases stack with
  | nil => cases htick
  | cons f rest =>
    -- One case for each frame; a thread that runs takes no step of the kernel.
    cases f with
    | thread | exitThread => cases htick
    | synch caller =>
      cases htick
      have hlisted : Listed k rest l none := h.listed.congr rfl
      exact ⟨l, { hlisted with }, h.current, h.main.returns nofun,
        h.queue.same rfl rfl rfl rfl rfl⟩
    | exiting p fromprocess oldCurrent position =>
      cases position with
      | behind q =>
        cases htick
        exact ⟨l, h.listed.congr rfl, h.current, h.main.exchange rfl,
          h.queue.same rfl rfl rfl rfl rfl⟩
      | test o =>
        cases o with
        | some q =>
          have hbehind : Inv numEvents
              ⟨k, main, .exiting p fromprocess oldCurrent (.behind q) :: rest, posted, taken⟩ l :=
            ⟨h.listed.congr rfl, h.current, h.main.exchange rfl, h.queue.same rfl rfl rfl rfl rfl⟩
          rw [Process.tickStack, Option.some.injEq] at htick
          subst htick
          split
          · exact ⟨l, hbehind.callProcess (fun _ => h.current) nofun⟩
          · exact ⟨l, hbehind⟩
        | none =>
          rw [Process.tickStack] at htick
          split at htick
          · -- the thread is called with the exit event
            cases htick
            have hlisted : Listed k (.exitThread p oldCurrent :: rest) l none := h.listed.congr rfl
            exact ⟨l, { hlisted with }, ⟨rfl, h.current⟩, h.main.exchange rfl,
              h.queue.same rfl rfl rfl rfl rfl⟩
          · obtain ⟨hlisted, hstate⟩ := h.listed.vacate rfl
            exact ⟨l.erase p, endProcess hlisted hstate h.current h.main rfl
              (h.queue.same rfl rfl rfl rfl rfl) htick⟩

/-- Every step keeps the invariant. -/
theorem step (h : Inv numEvents m l) (hle : numEvents ≤ 128) {a : Action P D}
    (hok : Orderly m a) (hstep : step numEvents m a = some m') : ∃ l', Inv numEvents m' l' := by
  cases a with
  | processPoll p =>
    cases hstep
    exact ⟨l, h.processPoll p⟩
  | returns ended => exact h.returnThread hstep
  | processRun =>
    obtain ⟨hidle, hrun⟩ := Option.ite_none_right_eq_some.mp hstep
    cases hrun
    exact ⟨l, h.processRun (List.isEmpty_iff.mp (Bool.and_eq_true_iff.mp hidle).1)⟩
  | tick =>
    rw [Process.step] at hstep
    split at hstep
    · next hnil => exact ⟨l, h.tickMain (List.isEmpty_iff.mp hnil) hstep⟩
    · exact h.tickStack hstep
  | processPost e =>
    obtain ⟨-, hpost⟩ := Option.ite_none_right_eq_some.mp hstep
    cases hpost
    exact ⟨l, h.processPost hle hok⟩
  | processStart p data =>
    obtain ⟨hwork, hstart⟩ := Option.ite_none_right_eq_some.mp hstep
    exact h.processStart (Machine.atWork_cases hwork) hstart
  | processExit p =>
    obtain ⟨hwork, hexit⟩ := Option.ite_none_right_eq_some.mp hstep
    exact ⟨l, h.processExit (Machine.atWork_cases hwork) hok hexit⟩
  | processPostSynch p ev data =>
    obtain ⟨hwork, hpost⟩ := Option.ite_none_right_eq_some.mp hstep
    cases hpost
    exact ⟨l, h.processPostSynch (Machine.atWork_cases hwork)⟩

end Inv

end Steps

/-! ## Runs -/

section Runs

variable {P D : Type}

/-- The process whose thread is called. -/
def Frame.runs : Frame P D → Option P
  | .thread p _ _ | .exitThread p _ => some p
  | _ => none

def threads (stack : List (Frame P D)) : List P := stack.filterMap Frame.runs

/-- The process that `exit_process` ends. -/
def Frame.ends : Frame P D → Option P
  | .exiting p _ _ _ | .exitThread p _ => some p
  | _ => none

/-- A thread that runs is that of a process called or ended. -/
theorem threads_sublist (stack : List (Frame P D)) : (threads stack).Sublist (busy stack) := by
  induction stack with
  | nil => exact .slnil
  | cons f stack ih =>
    cases f with
    | thread | exitThread => exact ih.cons_cons _
    | exiting => exact ih.cons _
    | synch => exact ih

variable [DecidableEq P] [Fintype P] {numEvents : ℕ} {m : Machine P D} {l : List P}

/-- What holds after every step. -/
structure Sound (numEvents : ℕ) (m : Machine P D) : Prop where
  /-- The list ends, and so do the loops over it. -/
  list : ∃ l, Chain m.kernel.next m.kernel.processList l ∧
    ∀ p, m.kernel.listed p = some (decide (p ∈ l)) ∧ (m.kernel.unlink p).isSome
  /-- No thread is called while it runs. -/
  once : (threads m.stack).Nodup
  /-- A process is called while its thread runs in `call_process`. -/
  called : ∀ p, m.kernel.state p = .called ↔ ∃ ev data, .thread p ev data ∈ m.stack
  /-- A process of the list has no state while `exit_process` ends it, also when its thread is called
  with `PROCESS_EVENT_EXIT` there. -/
  ending : ∀ p, (m.kernel.listed p = some true ∧ m.kernel.state p = .none) ↔
    ∃ f ∈ m.stack, f.ends = some p
  /-- The current process is the one whose thread runs. -/
  current : ∀ f p, m.stack.head? = some f → f.runs = some p → m.kernel.processCurrent = some p
  /-- The other processes of the list are running, and no others: all of them between two calls. -/
  running : ∀ p, m.kernel.state p = .running ↔
    m.kernel.listed p = some true ∧ ∀ f ∈ m.stack, f.process ≠ some p
  /-- Events are taken in the order in which they were posted, and none is lost. -/
  queue : m.posted = m.taken ++
    window m.kernel.events numEvents m.kernel.fevent m.kernel.nevents
  count : m.kernel.nevents ≤ numEvents
  /-- The kernel never waits for itself. -/
  progress : m.atWork = false → (step numEvents m .tick).isSome

namespace Inv

omit [DecidableEq P] [Fintype P] in
/-- What is done to a process says its state. -/
theorem state_of_mem (h : Inv numEvents m l) {f : Frame P D} (hf : f ∈ m.stack) {p : P}
    {s : ProcessState} (hstatus : f.status = some (p, s)) : p ∈ l ∧ m.kernel.state p = s :=
  h.listed.inStack (p, s) (List.mem_filterMap.mpr ⟨f, hf, hstatus⟩)

omit [DecidableEq P] [Fintype P] in
/-- A process is running, outside the list, or in a call that says its state. -/
theorem state_cases (h : Inv numEvents m l) (p : P) :
    (p ∉ l ∧ m.kernel.state p = .none) ∨
      (p ∈ l ∧ m.kernel.state p = .running ∧ ∀ f ∈ m.stack, f.process ≠ some p) ∨
      ∃ f ∈ m.stack, f.status = some (p, m.kernel.state p) := by
  by_cases hmem : p ∈ l
  · by_cases hbusy : p ∈ busy m.stack
    · obtain ⟨x, hx, rfl⟩ := List.mem_map.mp hbusy
      obtain ⟨f, hf, hstatus⟩ := List.mem_filterMap.mp hx
      rw [(h.listed.inStack x hx).2]
      exact .inr (.inr ⟨f, hf, hstatus⟩)
    · refine .inr (.inl ⟨hmem, h.listed.idle p hmem hbusy nofun, fun f hf hp => hbusy ?_⟩)
      obtain ⟨x, hx, rfl⟩ := Option.map_eq_some_iff.mp hp
      exact List.mem_map_of_mem (List.mem_filterMap.mpr ⟨f, hf, hx⟩)
  · exact .inl ⟨hmem, h.listed.unlisted p hmem⟩

omit [DecidableEq P] [Fintype P] in
/-- A process is called when its thread is on the stack. -/
theorem called_iff (h : Inv numEvents m l) (p : P) :
    m.kernel.state p = .called ↔ ∃ ev data, .thread p ev data ∈ m.stack := by
  constructor
  · intro hstate
    rcases h.state_cases p with ⟨-, hnone⟩ | ⟨-, hrunning, -⟩ | ⟨f, hf, hstatus⟩
    · rw [hstate] at hnone
      cases hnone
    · rw [hstate] at hrunning
      cases hrunning
    · rw [hstate] at hstatus
      cases f with
      | thread q ev data =>
        cases hstatus
        exact ⟨ev, data, hf⟩
      | exiting | exitThread | synch => cases hstatus
  · rintro ⟨ev, data, hf⟩
    exact (h.state_of_mem hf rfl).2

/-- A process that is being ended has a frame that ends it. -/
theorem ending_iff (h : Inv numEvents m l) (p : P) :
    (m.kernel.listed p = some true ∧ m.kernel.state p = .none) ↔
      ∃ f ∈ m.stack, f.ends = some p := by
  rw [h.listed.listed_eq, Option.some.injEq, decide_eq_true_iff]
  constructor
  · rintro ⟨hmem, hstate⟩
    rcases h.state_cases p with ⟨hnot, -⟩ | ⟨-, hrunning, -⟩ | ⟨f, hf, hstatus⟩
    · exact absurd hmem hnot
    · rw [hstate] at hrunning
      cases hrunning
    · rw [hstate] at hstatus
      refine ⟨f, hf, ?_⟩
      cases f with
      | exiting | exitThread =>
        cases hstatus
        rfl
      | thread | synch => cases hstatus
  · rintro ⟨f, hf, hp⟩
    have hstatus : f.status = some (p, .none) := by
      cases f with
      | exiting | exitThread =>
        cases hp
        rfl
      | thread | synch => cases hp
    exact h.state_of_mem hf hstatus

/-- The other processes of the list run. -/
theorem running_iff (h : Inv numEvents m l) (p : P) :
    m.kernel.state p = .running ↔
      m.kernel.listed p = some true ∧ ∀ f ∈ m.stack, f.process ≠ some p := by
  rw [h.listed.listed_eq, Option.some.injEq, decide_eq_true_iff]
  constructor
  · intro hstate
    rcases h.state_cases p with ⟨-, hnone⟩ | ⟨hmem, -, hfree⟩ | ⟨f, -, hstatus⟩
    · rw [hstate] at hnone
      cases hnone
    · exact ⟨hmem, hfree⟩
    · -- what is done to a process takes it out of this state
      rw [hstate] at hstatus
      cases f <;> cases hstatus
  · rintro ⟨hmem, hfree⟩
    rcases h.state_cases p with ⟨hnot, -⟩ | ⟨-, hrunning, -⟩ | ⟨f, hf, hstatus⟩
    · exact absurd hmem hnot
    · exact hrunning
    · exact absurd (Option.map_eq_some_iff.mpr ⟨_, hstatus, rfl⟩) (hfree f hf)

/-- The kernel goes on until it waits for an event. -/
theorem progress (h : Inv numEvents m l) (hwork : m.atWork = false) :
    (Process.step numEvents m .tick).isSome := by
  obtain ⟨k, main, stack, posted, taken⟩ := m
  cases stack with
  | nil =>
    cases main with
    | nil => cases hwork
    | cons x main =>
      cases x with
      | deliver | doEvent => rfl
      | poll position | broadcast _ _ position =>
        cases position with
        | behind q => rfl
        | test o => cases o <;> rfl
  | cons f rest =>
    cases f with
    | thread | exitThread => cases hwork
    | synch => rfl
    | exiting p fromprocess oldCurrent position =>
      cases position with
      | behind q => rfl
      | test o =>
        cases o with
        | some q => rfl
        | none =>
          show (Process.tickStack _ (.exiting p fromprocess oldCurrent (.test none) :: rest)).isSome
          rw [Process.tickStack]
          split
          · rfl
          · rw [Process.endProcess, Option.isSome_map]
            exact unlink_isSome h.listed.chain p

/-- What the invariant says of a machine. -/
theorem sound (h : Inv numEvents m l) : Sound numEvents m where
  list := ⟨l, h.listed.chain, fun p => ⟨h.listed.listed_eq p, unlink_isSome h.listed.chain p⟩⟩
  once := h.listed.nodup.sublist (threads_sublist m.stack)
  called := h.called_iff
  ending := h.ending_iff
  current f p hf hp := by
    obtain ⟨rest, hstack⟩ := List.head?_eq_some_iff.mp hf
    have hcurrent := h.current
    rw [hstack] at hcurrent
    cases f with
    | thread | exitThread =>
      cases hp
      exact hcurrent.1
    | synch | exiting => cases hp
  running := h.running_iff
  queue := h.queue.pending
  count := h.queue.count
  progress := h.progress

end Inv

/-- No thread is called while it runs, no event is lost, and the kernel goes on. -/
theorem process_sound {k : Kernel P D} (hpos : 0 < numEvents) (hle : numEvents ≤ 128)
    (hrun : Run (step numEvents) Orderly (Machine.initial k) m) : Sound numEvents m := by
  obtain ⟨l, hinv⟩ : ∃ l, Inv numEvents m l :=
    hrun.invariant (I := fun m => ∃ l, Inv numEvents m l)
      (fun _ _ _ ⟨_, h⟩ hok hstep => h.step hle hok hstep) ⟨[], .initial hpos k⟩
  exact hinv.sound

instance (m : Machine P D) : ∀ a, Decidable (Orderly m a)
  | .processExit _ => inferInstanceAs (Decidable (_ ∨ _))
  | .processPost _ => inferInstanceAs (Decidable (_ ≠ _))
  | .processStart _ _ | .processPostSynch _ _ _ | .processPoll _ | .returns _ | .processRun
  | .tick => isTrue trivial

/-- Two processes. -/
def pair : Kernel (Fin 2) Unit where
  processList := none
  next _ := none
  state _ := .none
  needspoll _ := false
  processCurrent := none
  pollRequested := false
  events _ := ⟨.other 0, .null, none⟩
  fevent := 0
  nevents := 0

/-- Both are started, and get an event; the second one ends the first one. -/
theorem process_sound_pair : ∃ m, Run (step 4) Orderly (Machine.initial pair) m ∧
    (m.stack.isEmpty ∧ m.main.isEmpty ∧ m.kernel.nevents = 1 ∧ m.kernel.state 0 = .none) ∧
      Sound 4 m := by
  obtain ⟨m, hrun, hm⟩ := exists_run_of_runEvents (step 4) Orderly (Machine.initial pair)
    [.processStart 0 .null, .returns false, .tick, .processStart 1 .null, .returns false, .tick,
      .processPost ⟨.other 5, .null, none⟩, .processPost ⟨.other 6, .null, some 0⟩, .processRun,
      .tick, .tick, .tick, .processExit 0, .tick, .tick, .tick, .tick, .tick, .returns false,
      .returns false, .tick, .tick]
    (fun m => m.stack.isEmpty ∧ m.main.isEmpty ∧ m.kernel.nevents = 1 ∧ m.kernel.state 0 = .none)
    (by decide +kernel)
  exact ⟨m, hrun, hm, process_sound (by decide) (by decide) hrun⟩

/-- A process that ends itself with `process_exit` runs on, out of the list, when its thread goes
on to wait. -/
theorem exited_runs : ∃ m, Run (step 4) (fun _ _ => True) (Machine.initial pair) m ∧
    m.stack.isEmpty ∧ m.kernel.listed 0 = some false ∧ m.kernel.state 0 = .running :=
  exists_run_of_runEvents (step 4) (fun _ _ => True) (Machine.initial pair)
    [.processStart 0 .null, .processExit 0, .tick, .tick, .tick, .returns false, .tick]
    (fun m => m.stack.isEmpty ∧ m.kernel.listed 0 = some false ∧ m.kernel.state 0 = .running)
    (by decide +kernel)

end Runs

end MasterScheduler.Mote.Process

import MasterScheduler.Mote.Process

/-!
# MasterScheduler.Mote.ProcessLoops — who is called by the loops of `process.c`

`do_event` and `do_poll` go over the list of processes and follow the link of
the process they have called, while threads put processes in front of the list
and take others out of it.

1. **Records**: what is written down of the loops.
2. **Change**: what a step does to the list, and to a loop that is under way.
3. **Broadcasts**: `broadcast_sound`. The event gets to every process once, in
   the order of the list, or the process has ended. A process that ends may not
   be started again before the broadcast is over.
4. **Polls**: `sleep_sound`. When `process_run` returns zero, nothing is to be done.
-/

namespace MasterScheduler.Mote.Process

open Lib

variable {P D : Type}

/-! ## Records -/

/-- The machine, and a record of its loops. -/
structure Watched (P D : Type) where
  machine : Machine P D
  /-- The list, when the last event was taken. -/
  targets : List P
  /-- The processes that were called with this event as a broadcast. -/
  got : List P
  /-- Since the process was put in the list, a poll was asked for that did not come yet. -/
  waiting : P → Bool

/-- `process_nevents`, which `process_run` returns. -/
def processNevents (k : Kernel P D) : ℕ := k.nevents + k.pollRequested.toNat

variable [DecidableEq P]

section Records

variable [Fintype P]

def noteLoop (w : Watched P D) : List (Loop P D) → Watched P D
  | .doEvent :: _ =>
    let k := w.machine.kernel
    { w with targets := nodes k.next (rounds P) k.processList, got := [] }
  | .deliver _ _ q :: _ =>
    if w.machine.kernel.state q = .running then { w with got := w.got ++ [q] } else w
  | .poll (.test (some q)) :: _ =>
    if w.machine.kernel.needspoll q then
      { w with waiting := Function.update w.waiting q false }
    else w
  | _ => w

/-- What is written down of a step. -/
def note (w : Watched P D) : Action P D → Watched P D
  | .tick => if w.machine.stack.isEmpty then noteLoop w w.machine.main else w
  | .processPoll p =>
    if w.machine.kernel.state p ≠ .none then
      { w with waiting := Function.update w.waiting p true }
    else w
  | .processStart p _ =>
    if w.machine.kernel.listed p = some false then
      { w with waiting := Function.update w.waiting p false }
    else w
  | _ => w

def watchedStep (numEvents : ℕ) (w : Watched P D) (a : Action P D) : Option (Watched P D) :=
  (step numEvents w.machine a).map fun m => { note w a with machine := m }

def Watched.initial (k : Kernel P D) : Watched P D := ⟨.initial k, [], [], fun _ => false⟩

/-- Where the loop of a broadcast is. -/
def Loop.broadcasts : Loop P D → Option (Position P)
  | .broadcast _ _ position => some position
  | .deliver _ _ q => some (.test (some q))
  | _ => none

/-- The loop of a broadcast, which a loop of `do_poll` may interrupt. -/
def broadcasting (main : List (Loop P D)) : Option (Position P) :=
  main.getLast?.bind Loop.broadcasts

def Action.starts : Action P D → Option P
  | .processStart p _ => some p
  | _ => none

/-- A process that has ended is not started again while a broadcast goes over the list. -/
def Lasting (w : Watched P D) (a : Action P D) : Prop :=
  Orderly w.machine a ∧ ∀ p ∈ a.starts, (broadcasting w.machine.main).isSome →
    p ∈ w.targets → w.machine.kernel.listed p ≠ some false

instance (w : Watched P D) (a : Action P D) : Decidable (Lasting w a) :=
  inferInstanceAs (Decidable (_ ∧ ∀ p ∈ a.starts, _))

end Records

/-! ## Change -/

/-- The process that a loop is at, or has called. -/
def Position.node : Position P → Option P
  | .test o => o
  | .behind q => some q

/-- This process, and those that are still to come. -/
def Position.whole : Position P → List P → List P
  | .test _, path => path
  | .behind q, path => q :: path

/-- A loop has these processes before it. -/
def Ahead (next : P → Option P) (l : List P) (position : Position P) (path : List P) : Prop :=
  Traversal next l position.node (position.whole path)

section Change

variable {next next' : P → Option P} {a a' : Option P} {l l' path : List P}
  {position : Position P} {p q : P}

theorem Ahead.start (h : Chain next a l) : Ahead next l (.test a) l := Traversal.start h

theorem Ahead.congr (h : Ahead next l position path) (hnext : next' = next) :
    Ahead next' l position path := by rwa [hnext]

theorem Ahead.goOn (h : Ahead next l (.behind q) path) : Ahead next l (.test (next q)) path :=
  Traversal.tail h |>.2

/-- The loop calls the process it is at. -/
theorem Ahead.call (h : Ahead next l (.test (some q)) path) :
    ∃ rest, path = q :: rest ∧ Ahead next l (.behind q) rest := by
  cases path with
  | nil => cases h.chain
  | cons r rest =>
    obtain rfl : q = r := Option.some.inj h.chain.1
    exact ⟨rest, rfl, h⟩

theorem Ahead.ends (h : Ahead next l (.test none) path) : path = [] := by
  cases path with
  | nil => rfl
  | cons => cases h.chain.1

/-- The list changes while a loop is under way. -/
theorem Ahead.edit (h : Ahead next l position path) (hl : Chain next a l)
    (hedit : Edit next a l next' a' l') (hnew : ∀ x ∈ position.whole path, x ∈ l' → x ∈ l) :
    ∃ path', Ahead next' l' position path' ∧ path'.Sublist path ∧
      ∀ z ∈ path, z ∈ l' → z ∈ path' := by
  obtain ⟨whole, hpath, hsub, hkeep, hhead⟩ := Traversal.edit h hl hedit hnew
  cases position with
  | test o => exact ⟨whole, hpath, hsub, hkeep⟩
  | behind q =>
    obtain ⟨path', rfl⟩ := List.head?_eq_some_iff.mp hhead
    refine ⟨path', hpath, List.cons_sublist_cons.mp hsub, fun z hz hmem => ?_⟩
    refine (List.mem_cons.mp (hkeep z (List.mem_cons_of_mem q hz) hmem)).resolve_left ?_
    rintro rfl
    exact (List.nodup_cons.mp h.nodup).1 hz

end Change

/-- A step that the loops of `process_run` do not take. -/
structure Quiet (m m' : Machine P D) : Prop where
  main : m'.main = m.main
  needspoll : m'.kernel.needspoll = m.kernel.needspoll
  pollRequested : m'.kernel.pollRequested = m.kernel.pollRequested

/-- What a step does to the list. -/
def Relinks (k k' : Kernel P D) (l l' : List P) : Prop :=
  Edit k.next k.processList l k'.next k'.processList l'

section Step

variable {numEvents : ℕ} {m m' : Machine P D} {k k' : Kernel P D} {l l' : List P} {p : P}
  {ev : ProcessEvent} {data : ProcessData P D} {a : Action P D}

theorem Relinks.same (hnext : k'.next = k.next) (hlist : k'.processList = k.processList) :
    Relinks k k' l l := by
  rw [Relinks, hnext, hlist]
  exact .same l

theorem callProcess_quiet (m : Machine P D) (p : P) (ev : ProcessEvent) (data : ProcessData P D) :
    Quiet m (callProcess m p ev data) ∧
    (callProcess m p ev data).kernel.next = m.kernel.next ∧
      (callProcess m p ev data).kernel.processList = m.kernel.processList := by
  rw [callProcess]
  split
  · exact ⟨⟨rfl, rfl, rfl⟩, rfl, rfl⟩
  · exact ⟨⟨rfl, rfl, rfl⟩, rfl, rfl⟩

theorem doEvent_kept (numEvents : ℕ) (m : Machine P D) :
    (doEvent numEvents m).kernel.next = m.kernel.next ∧
    (doEvent numEvents m).kernel.processList = m.kernel.processList ∧
    (doEvent numEvents m).kernel.needspoll = m.kernel.needspoll ∧
    (doEvent numEvents m).kernel.pollRequested = m.kernel.pollRequested ∧
    ((doEvent numEvents m).main = m.main ∨ ∃ ev data,
      (doEvent numEvents m).main = .broadcast ev data (.test m.kernel.processList) :: m.main) := by
  rw [doEvent]
  split
  · dsimp only
    split
    · exact ⟨rfl, rfl, rfl, rfl, .inr ⟨_, _, rfl⟩⟩
    · split
      · obtain ⟨hquiet, hnext, hlist⟩ := callProcess_quiet (P := P) (D := D) _ _ _ _
        exact ⟨hnext, hlist, hquiet.needspoll, hquiet.pollRequested, .inl hquiet.main⟩
      · obtain ⟨hquiet, hnext, hlist⟩ := callProcess_quiet (P := P) (D := D) _ _ _ _
        exact ⟨hnext, hlist, hquiet.needspoll, hquiet.pollRequested, .inl hquiet.main⟩
  · exact ⟨rfl, rfl, rfl, rfl, .inl rfl⟩

variable [Fintype P]

theorem endProcess_quiet {stack : List (Frame P D)} {oldCurrent : Option P}
    (hchain : Chain m.kernel.next m.kernel.processList l) (hp : p ∈ l)
    (hend : endProcess { m with stack := stack } p oldCurrent = some m') :
    ∃ l', Quiet m m' ∧ Relinks m.kernel m'.kernel l l' ∧ ∀ x ∈ l', x ∈ l := by
  obtain ⟨k, hunlink, rfl⟩ := Option.map_eq_some_iff.mp hend
  rcases unlink_cases hchain hp hunlink with ⟨post, rfl, rfl⟩ | ⟨pre, q, post, rfl, rfl⟩
  · exact ⟨post, ⟨rfl, rfl, rfl⟩, .first p post, fun x hx => List.mem_cons_of_mem p hx⟩
  · refine ⟨pre ++ q :: post, ⟨rfl, rfl, rfl⟩, .unlink pre post q p, fun x hx => ?_⟩
    simp only [List.mem_append, List.mem_cons] at hx ⊢
    tauto

/-- Threads, and the kernel that they call, leave the loops of `process_run` alone. -/
theorem step_relinks (h : Inv numEvents m l) (hok : Orderly m a)
    (hstep : step numEvents m a = some m') (hpoll : ∀ p, a ≠ .processPoll p)
    (hrun : a ≠ .processRun) (htick : a = .tick → m.stack ≠ []) :
    ∃ l', Quiet m m' ∧ Relinks m.kernel m'.kernel l l' ∧
      ∀ x ∈ l', x ∉ l → ∃ data, a = .processStart x data := by
  have hsame : ∀ {m'}, Quiet m m' ∧ Relinks m.kernel m'.kernel l l → ∃ l', Quiet m m' ∧
      Relinks m.kernel m'.kernel l l' ∧ ∀ x ∈ l', x ∉ l → ∃ data, a = .processStart x data :=
    fun hquiet => ⟨l, hquiet.1, hquiet.2, fun x hx hnot => absurd hx hnot⟩
  have hends : ∀ {m'}, (∃ l', Quiet m m' ∧ Relinks m.kernel m'.kernel l l' ∧ ∀ x ∈ l', x ∈ l) →
      ∃ l', Quiet m m' ∧ Relinks m.kernel m'.kernel l l' ∧
        ∀ x ∈ l', x ∉ l → ∃ data, a = .processStart x data := by
    rintro m' ⟨l', hquiet, hedit, hsub⟩
    exact ⟨l', hquiet, hedit, fun x hx hnot => absurd (hsub x hx) hnot⟩
  -- Of all actions only starts and exits change the list; a start is at its head.
  cases a with
  | processPoll p => exact absurd rfl (hpoll p)
  | processRun => exact absurd rfl hrun
  | processPost e =>
    obtain ⟨-, hpost⟩ := Option.ite_none_right_eq_some.mp hstep
    cases hpost
    apply hsame
    rw [processPost]
    split
    · exact ⟨⟨rfl, rfl, rfl⟩, .same rfl rfl⟩
    · exact ⟨⟨rfl, rfl, rfl⟩, .same rfl rfl⟩
  | processPostSynch p ev data =>
    obtain ⟨-, hpost⟩ := Option.ite_none_right_eq_some.mp hstep
    cases hpost
    obtain ⟨hquiet, hnext, hlist⟩ := callProcess_quiet
      { m with stack := .synch m.kernel.processCurrent :: m.stack } p ev data
    exact hsame ⟨⟨hquiet.main, hquiet.needspoll, hquiet.pollRequested⟩, .same hnext hlist⟩
  | processStart p data =>
    obtain ⟨-, hstart⟩ := Option.ite_none_right_eq_some.mp hstep
    rw [processStart, h.listed.listed_eq, Option.map_some, Option.some.injEq] at hstart
    subst hstart
    by_cases hp : p ∈ l
    · rw [if_pos (decide_eq_true hp)]
      exact hsame ⟨⟨rfl, rfl, rfl⟩, .same rfl rfl⟩
    · rw [if_neg (by simpa using hp)]
      set k : Kernel P D := ({ m.kernel with
        next := Function.update m.kernel.next p m.kernel.processList
        processList := some p } : Kernel P D).setState p .running with hk
      obtain ⟨hquiet, hnext, hlist⟩ := callProcess_quiet
        { m with kernel := k, stack := .synch k.processCurrent :: m.stack } p .init data
      refine ⟨p :: l, ⟨hquiet.main, hquiet.needspoll, hquiet.pollRequested⟩, ?_,
        fun x hx hnot => ?_⟩
      · rw [Relinks, processPostSynch, hnext, hlist]
        exact .push hp
      · rw [(List.mem_cons.mp hx).resolve_right hnot]
        exact ⟨data, rfl⟩
  | processExit p =>
    obtain ⟨-, hexit⟩ := Option.ite_none_right_eq_some.mp hstep
    apply hsame
    rcases hok with hstate | hlisted
    · have hvacant := h.listed.vacant hstate
      rw [Inv.exitProcess_eq hvacant (hvacant.hole p rfl).1 (by rw [hstate]; intro hnone; cases hnone)] at hexit
      cases hexit
      exact ⟨⟨rfl, rfl, rfl⟩, .same rfl rfl⟩
    · rw [exitProcess, hlisted] at hexit
      cases hexit
      exact ⟨⟨rfl, rfl, rfl⟩, .same rfl rfl⟩
  | returns ended =>
    rw [step] at hstep
    obtain ⟨k, main, stack, posted, taken⟩ := m
    cases stack with
    | nil => cases hstep
    | cons f rest =>
      cases f with
      | synch | exiting => cases hstep
      | exitThread p oldCurrent =>
        obtain ⟨hlisted, -⟩ := h.listed.vacate rfl
        exact hends (endProcess_quiet h.listed.chain (hlisted.hole p rfl).1 hstep)
      | thread p ev data =>
        obtain ⟨hlisted, hstate⟩ := h.listed.vacate rfl
        apply hsame
        rw [returnThread] at hstep
        dsimp only at hstep hlisted hstate
        split at hstep
        · rw [Inv.exitProcess_eq hlisted (hlisted.hole p rfl).1 (by rw [hstate]; intro hnone; cases hnone)] at hstep
          cases hstep
          exact ⟨⟨rfl, rfl, rfl⟩, .same rfl rfl⟩
        · cases hstep
          exact ⟨⟨rfl, rfl, rfl⟩, .same rfl rfl⟩
  | tick =>
    rw [step, if_neg (fun hnil => htick rfl (List.isEmpty_iff.mp hnil))] at hstep
    obtain ⟨k, main, stack, posted, taken⟩ := m
    cases stack with
    | nil => cases hstep
    | cons f rest =>
      cases f with
      | thread | exitThread => cases hstep
      | synch caller =>
        cases hstep
        exact hsame ⟨⟨rfl, rfl, rfl⟩, .same rfl rfl⟩
      | exiting p fromprocess oldCurrent position =>
        cases position with
        | behind q =>
          cases hstep
          exact hsame ⟨⟨rfl, rfl, rfl⟩, .same rfl rfl⟩
        | test o =>
          cases o with
          | some q =>
            rw [tickStack, Option.some.injEq] at hstep
            subst hstep
            apply hsame
            split
            · obtain ⟨hquiet, hnext, hlist⟩ := callProcess_quiet
                ⟨k, main, .exiting p fromprocess oldCurrent (.behind q) :: rest, posted, taken⟩ q
                .exited (.process p)
              exact ⟨⟨hquiet.main, hquiet.needspoll, hquiet.pollRequested⟩, .same hnext hlist⟩
            · exact ⟨⟨rfl, rfl, rfl⟩, .same rfl rfl⟩
          | none =>
            rw [tickStack] at hstep
            split at hstep
            · cases hstep
              exact hsame ⟨⟨rfl, rfl, rfl⟩, .same rfl rfl⟩
            · obtain ⟨hlisted, -⟩ := h.listed.vacate rfl
              exact hends (endProcess_quiet h.listed.chain (hlisted.hole p rfl).1 hstep)

theorem step_quiet (h : Inv numEvents m l) (hle : numEvents ≤ 128) (hok : Orderly m a)
    (hstep : step numEvents m a = some m') (hpoll : ∀ p, a ≠ .processPoll p)
    (hrun : a ≠ .processRun) (htick : a = .tick → m.stack ≠ []) :
    ∃ l', Inv numEvents m' l' ∧ Quiet m m' ∧ Relinks m.kernel m'.kernel l l' ∧
      ∀ x ∈ l', x ∉ l → ∃ data, a = .processStart x data := by
  obtain ⟨l', hquiet, hedit, hnew⟩ := step_relinks h hok hstep hpoll hrun htick
  obtain ⟨l'', hinv⟩ := h.step hle hok hstep
  obtain rfl := (hedit.chain h.listed.chain).unique hinv.listed.chain
  exact ⟨l', hinv, hquiet, hedit, hnew⟩

end Step

/-! ## Broadcasts -/

section Broadcasts

variable {numEvents : ℕ} {w w' : Watched P D} {m m' : Machine P D} {l l' : List P}
  {a : Action P D}

/-- A broadcast that is under way, or was the last one. -/
structure Served (w : Watched P D) (l : List P) : Prop where
  distinct : w.targets.Nodup
  once : w.got.Sublist w.targets
  loop : ∀ position, broadcasting w.machine.main = some position →
    ∃ path, Ahead w.machine.kernel.next l position path ∧ (w.got ++ path).Sublist w.targets ∧
      (∀ p ∈ position.whole path, p ∈ w.targets) ∧ ∀ p ∈ w.targets, p ∈ l → p ∈ w.got ++ path

omit [DecidableEq P] in
theorem broadcasting_poll {position : Position P} {main : List (Loop P D)} :
    broadcasting (.poll position :: main) = broadcasting main := by
  cases main with
  | nil => rfl
  | cons x main => rw [broadcasting, List.getLast?_cons_cons, broadcasting]

theorem noteLoop_poll [Fintype P] {position : Position P} {main : List (Loop P D)} :
    (noteLoop w (.poll position :: main)).targets = w.targets ∧
      (noteLoop w (.poll position :: main)).got = w.got := by
  cases position with
  | behind q => exact ⟨rfl, rfl⟩
  | test o =>
    cases o with
    | none => exact ⟨rfl, rfl⟩
    | some q =>
      rw [noteLoop]
      split <;> exact ⟨rfl, rfl⟩

namespace Served

/-- A step that leaves the broadcast alone. -/
theorem mono (h : Served w l) (htargets : w'.targets = w.targets) (hgot : w'.got = w.got)
    (hnext : w'.machine.kernel.next = w.machine.kernel.next)
    (hloop : ∀ position, broadcasting w'.machine.main = some position →
      broadcasting w.machine.main = some position) : Served w' l where
  distinct := htargets ▸ h.distinct
  once := by
    rw [hgot, htargets]
    exact h.once
  loop position hposition := by
    rw [hgot, htargets, hnext]
    exact h.loop position (hloop position hposition)

/-- The list changes. -/
theorem relinks (h : Served w l) (hl : Chain w.machine.kernel.next w.machine.kernel.processList l)
    (htargets : w'.targets = w.targets) (hgot : w'.got = w.got)
    (hmain : w'.machine.main = w.machine.main)
    (hedit : Relinks w.machine.kernel w'.machine.kernel l l')
    (hnew : ∀ x ∈ l', x ∉ l → (broadcasting w.machine.main).isSome → x ∉ w.targets) :
    Served w' l' where
  distinct := htargets ▸ h.distinct
  once := by
    rw [hgot, htargets]
    exact h.once
  loop position hposition := by
    rw [hmain] at hposition
    obtain ⟨path, hahead, hsub, hwhole, hall⟩ := h.loop position hposition
    have hsome : (broadcasting w.machine.main).isSome := by
      rw [hposition]
      rfl
    have hold : ∀ x ∈ w.targets, x ∈ l' → x ∈ l := by
      intro x hx hmem
      by_contra hnot
      exact hnew x hmem hnot hsome hx
    obtain ⟨path', hahead', hsub', hkeep⟩ := hahead.edit hl hedit fun x hx => hold x (hwhole x hx)
    rw [hgot, htargets]
    refine ⟨path', hahead', (hsub'.append_left _).trans hsub, fun p hp => hwhole p ?_,
      fun p hp hmem => ?_⟩
    · cases position with
      | test o => exact hsub'.subset hp
      | behind q =>
        rcases List.mem_cons.mp hp with rfl | hp
        · exact List.mem_cons_self
        · exact List.mem_cons_of_mem q (hsub'.subset hp)
    · rcases List.mem_append.mp (hall p hp (hold p hp hmem)) with hp | hp
      · exact List.mem_append_left _ hp
      · exact List.mem_append_right _ (hkeep p hp hmem)

variable [Fintype P]

/-- The loops of `process_run` go on. -/
theorem tickMain (h : Served w l) (hinv : Inv numEvents w.machine l)
    (hstack : w.machine.stack = [])
    (htick : tickMain numEvents w.machine w.machine.main = some m') :
    Served { noteLoop w w.machine.main with machine := m' } l := by
  obtain ⟨⟨k, main, stack, posted, taken⟩, targets, got, waiting⟩ := w
  obtain rfl : stack = [] := hstack
  have hnested : Nested main := hinv.main.nested
  -- Only the loop of a broadcast delivers; the others leave targets and receivers.
  cases main with
  | nil => cases htick
  | cons x main =>
    cases x with
    | poll position =>
      have hkept : m'.kernel.next = k.next ∧ broadcasting m'.main = broadcasting main := by
        cases position with
        | behind q =>
          cases htick
          exact ⟨rfl, broadcasting_poll⟩
        | test o =>
          cases o with
          | none =>
            cases htick
            exact ⟨rfl, rfl⟩
          | some q =>
            rw [Process.tickMain, Option.some.injEq] at htick
            subst htick
            dsimp only
            split
            · obtain ⟨hquiet, hnext, -⟩ := callProcess_quiet (P := P) (D := D) _ _ _ _
              refine ⟨hnext, ?_⟩
              rw [hquiet.main]
              exact broadcasting_poll
            · exact ⟨rfl, broadcasting_poll⟩
      refine h.mono noteLoop_poll.1 noteLoop_poll.2 hkept.1 fun position hposition => ?_
      rw [broadcasting_poll, ← hkept.2]
      exact hposition
    | broadcast ev data position =>
      obtain rfl : main = [] := hnested.alone trivial
      cases position with
      | behind q =>
        cases htick
        obtain ⟨path, hahead, hsub, hwhole, hall⟩ := h.loop _ rfl
        refine ⟨h.distinct, h.once, fun position hposition => ?_⟩
        cases hposition
        exact ⟨path, hahead.goOn, hsub, fun p hp => hwhole p (List.mem_cons_of_mem q hp), hall⟩
      | test o =>
        cases o with
        | none =>
          cases htick
          exact h.mono rfl rfl rfl fun _ hposition => by cases hposition
        | some q =>
          rw [Process.tickMain, Option.some.injEq] at htick
          subst htick
          dsimp only
          split
          · exact h.mono rfl rfl rfl fun _ hposition => hposition
          · exact h.mono rfl rfl rfl fun _ hposition => hposition
    | deliver ev data q =>
      obtain rfl : main = [] := hnested.alone trivial
      obtain ⟨path, hahead, hsub, hwhole, hall⟩ := h.loop _ rfl
      obtain ⟨rest, rfl, hbehind⟩ := hahead.call
      cases htick
      obtain ⟨hquiet, hnext, -⟩ := callProcess_quiet
        ⟨k, [.broadcast ev data (.behind q)], [], posted, taken⟩ q ev data
      have hposition : ∀ {position}, broadcasting (callProcess
          ⟨k, [.broadcast ev data (.behind q)], [], posted, taken⟩ q ev data).main =
            some position → position = .behind q := by
        intro position hposition
        rw [hquiet.main] at hposition
        exact (Option.some.inj hposition).symm
      rw [noteLoop]
      split
      · -- the process is called
        have hsub' : (got ++ [q] ++ rest).Sublist targets := by rwa [← List.append_cons]
        refine ⟨h.distinct, (List.sublist_append_left _ _).trans hsub', fun _ hbehind' => ?_⟩
        obtain rfl := hposition hbehind'
        refine ⟨rest, hbehind.congr hnext, hsub', hwhole, fun p hp hmem => ?_⟩
        rw [← List.append_cons]
        exact hall p hp hmem
      · -- it has ended while other processes were polled
        next hstate =>
        refine ⟨h.distinct, h.once, fun _ hbehind' => ?_⟩
        obtain rfl := hposition hbehind'
        have hskip := (List.sublist_cons_self q rest).append_left got
        refine ⟨rest, hbehind.congr hnext, hskip.trans hsub, hwhole, fun p hp hmem => ?_⟩
        have hne : p ≠ q := by
          rintro rfl
          exact hstate (hinv.listed.idle p hmem List.not_mem_nil (Option.some_ne_none p).symm)
        have hin := hall p hp hmem
        simp only [List.mem_append, List.mem_cons, hne, false_or] at hin ⊢
        exact hin
    | doEvent =>
      obtain rfl : main = [] := hnested.alone trivial
      cases htick
      obtain ⟨hnext, -, -, -, hmain⟩ := doEvent_kept numEvents ⟨k, [], [], posted, taken⟩
      have htargets : nodes k.next (rounds P) k.processList = l :=
        nodes_eq hinv.listed.chain hinv.listed.length_lt
      rw [noteLoop]
      refine ⟨?_, List.nil_sublist _, fun position hposition => ?_⟩
      · dsimp only
        rw [htargets]
        exact hinv.listed.chain.nodup
      · dsimp only at hposition ⊢
        rw [hnext, htargets]
        rcases hmain with hmain | ⟨ev, data, hmain⟩
        · rw [hmain] at hposition
          cases hposition
        · rw [hmain] at hposition
          cases hposition
          exact ⟨l, .start hinv.listed.chain, .refl _, fun p hp => hp, fun p hp _ => hp⟩

end Served

variable [Fintype P]

theorem note_kept (hloop : a = .tick → w.machine.stack ≠ []) :
    (note w a).targets = w.targets ∧ (note w a).got = w.got ∧
      ((∀ p, a ≠ .processPoll p) → ∀ p, (note w a).waiting p = true → w.waiting p = true) := by
  cases a with
  | tick =>
    have hnonempty : ¬w.machine.stack.isEmpty = true :=
      fun hnil => hloop rfl (List.isEmpty_iff.mp hnil)
    rw [note, if_neg hnonempty]
    exact ⟨rfl, rfl, fun _ _ hp => hp⟩
  | processPoll q =>
    rw [note]
    split
    · exact ⟨rfl, rfl, fun hpoll => absurd rfl (hpoll q)⟩
    · exact ⟨rfl, rfl, fun hpoll => absurd rfl (hpoll q)⟩
  | processStart q data =>
    rw [note]
    split
    · refine ⟨rfl, rfl, fun _ p hp => ?_⟩
      dsimp only at hp
      by_cases hpq : p = q
      · subst hpq
        rw [Function.update_self] at hp
        cases hp
      · rwa [Function.update_of_ne hpq] at hp
    · exact ⟨rfl, rfl, fun _ _ hp => hp⟩
  | processPost | processExit | processPostSynch | returns | processRun =>
    exact ⟨rfl, rfl, fun _ _ hp => hp⟩

/-- Every step keeps what is known of the broadcast. -/
theorem Served.step (h : Served w l) (hinv : Inv numEvents w.machine l) (hle : numEvents ≤ 128)
    (hok : Lasting w a) (hstep : watchedStep numEvents w a = some w') :
    ∃ l', Inv numEvents w'.machine l' ∧ Served w' l' := by
  obtain ⟨m', hm, rfl⟩ := Option.map_eq_some_iff.mp hstep
  -- A round of a loop is looked at by itself, for it is the loop that delivers.
  by_cases hloop : a = .tick ∧ w.machine.stack = []
  · obtain ⟨rfl, hstack⟩ := hloop
    rw [Process.step, if_pos (List.isEmpty_iff.mpr hstack)] at hm
    rw [note, if_pos (List.isEmpty_iff.mpr hstack)]
    exact ⟨l, hinv.tickMain hstack hm, h.tickMain hinv hstack hm⟩
  obtain ⟨htargets, hgot, -⟩ := note_kept (w := w) fun htick hnil => hloop ⟨htick, hnil⟩
  by_cases hpoll : ∃ p, a = .processPoll p
  · obtain ⟨p, rfl⟩ := hpoll
    cases hm
    refine ⟨l, hinv.processPoll p, h.mono htargets hgot ?_ fun _ hposition => hposition⟩
    dsimp only
    rw [processPoll]
    split <;> rfl
  by_cases hrun : a = .processRun
  · subst hrun
    obtain ⟨hidle, hrun⟩ := Option.ite_none_right_eq_some.mp hm
    cases hrun
    have hstack := List.isEmpty_iff.mp (Bool.and_eq_true_iff.mp hidle).1
    refine ⟨l, hinv.processRun hstack, h.mono rfl rfl ?_ fun position hposition => ?_⟩
    · dsimp only
      rw [processRun]
      dsimp only
      split <;> rfl
    · dsimp only at hposition
      rw [processRun] at hposition
      dsimp only at hposition
      split at hposition <;> cases hposition
  · obtain ⟨l', hinv', hquiet, hedit, hnew⟩ := step_quiet hinv hle hok.1 hm
      (fun p hp => hpoll ⟨p, hp⟩) hrun fun htick hnil => hloop ⟨htick, hnil⟩
    refine ⟨l', hinv', h.relinks hinv.listed.chain htargets hgot hquiet.main hedit ?_⟩
    intro x hx hnot hsome hmem
    obtain ⟨data, rfl⟩ := hnew x hx hnot
    refine hok.2 x rfl hsome hmem ?_
    rw [hinv.listed.listed_eq, decide_eq_false hnot]

/-- Nobody gets a broadcast twice, or before one that is in front of it, and at the end of the loop
everybody has got it who has not ended. -/
theorem broadcast_sound {k : Kernel P D} (hpos : 0 < numEvents) (hle : numEvents ≤ 128)
    (hrun : Run (watchedStep numEvents) Lasting (.initial k) w) :
    w.targets.Nodup ∧ w.got.Sublist w.targets ∧
      (broadcasting w.machine.main = some (.test none) →
        ∀ p ∈ w.targets, w.machine.kernel.listed p = some true → p ∈ w.got) := by
  obtain ⟨l, hinv, hserved⟩ : ∃ l, Inv numEvents w.machine l ∧ Served w l :=
    hrun.invariant (I := fun w => ∃ l, Inv numEvents w.machine l ∧ Served w l)
      (fun _ _ _ ⟨_, hinv, h⟩ hok hstep => h.step hinv hle hok hstep)
      ⟨[], .initial hpos k, List.nodup_nil, .refl _, nofun⟩
  refine ⟨hserved.distinct, hserved.once, fun hend p hp hlisted => ?_⟩
  obtain ⟨path, hahead, -, -, hall⟩ := hserved.loop _ hend
  rw [hinv.listed.listed_eq, Option.some.injEq, decide_eq_true_iff] at hlisted
  have hgot := hall p hp hlisted
  rwa [hahead.ends, List.append_nil] at hgot

end Broadcasts

/-- Three processes. -/
def three : Kernel (Fin 3) Unit where
  processList := none
  next _ := none
  state _ := .none
  needspoll _ := false
  processCurrent := none
  pollRequested := false
  events _ := ⟨.other 0, .null, none⟩
  fevent := 0
  nevents := 0

/-- They are started, and a broadcast is taken out of the queue. -/
def threeActions : List (Action (Fin 3) Unit) :=
  [.processStart 0 .null, .returns false, .tick, .processStart 1 .null, .returns false, .tick,
    .processStart 2 .null, .returns false, .tick, .processPost ⟨.other 5, .null, none⟩,
    .processRun, .tick]

/-- The last process of the list is polled before the broadcast, and ends the first one. -/
def threeEnds : List (Action (Fin 3) Unit) :=
  threeActions ++ [.processPoll 0, .tick, .tick, .tick, .tick, .tick, .tick, .processExit 2, .tick,
    .tick, .tick, .returns false, .tick, .tick, .tick, .tick, .returns false, .returns false,
    .tick, .tick, .tick, .tick, .tick, .tick, .returns false, .tick, .tick, .tick, .returns false,
    .tick]

theorem broadcast_sound_three : ∃ w, Run (watchedStep 4) Lasting (.initial three) w ∧
    (broadcasting w.machine.main = some (.test none) ∧ w.targets = [2, 1, 0] ∧ w.got = [1, 0]) ∧
      w.targets.Nodup ∧ w.got.Sublist w.targets ∧
        (broadcasting w.machine.main = some (.test none) →
          ∀ p ∈ w.targets, w.machine.kernel.listed p = some true → p ∈ w.got) := by
  obtain ⟨w, hrun, hw⟩ := exists_run_of_runEvents (watchedStep 4) Lasting (.initial three)
    threeEnds (fun w => broadcasting w.machine.main = some (.test none) ∧
      w.targets = [2, 1, 0] ∧ w.got = [1, 0]) (by decide +kernel)
  exact ⟨w, hrun, hw, broadcast_sound (by decide) (by decide) hrun⟩

/-! ## Polls -/

section Polls

variable {numEvents : ℕ} {w w' : Watched P D} {m m' : Machine P D} {l l' : List P}
  {a : Action P D} {p q : P}

/-- The loop of `do_poll` has this process before it. -/
def PollAhead (m : Machine P D) (l : List P) (p : P) : Prop :=
  ∃ position rest path, m.main = .poll position :: rest ∧
    Ahead m.kernel.next l position path ∧ p ∈ path

structure Polls (w : Watched P D) (l : List P) : Prop where
  asked : ∀ p, w.waiting p = true → w.machine.kernel.needspoll p = true
  ahead : ∀ p ∈ l, w.waiting p = true →
    w.machine.kernel.pollRequested = true ∨ PollAhead w.machine l p

omit [DecidableEq P] in
/-- Where a process is called first, it is in the list. -/
theorem Listed.bottom_mem {k : Kernel P D} {stack : List (Frame P D)} {hole : Option P}
    (h : Listed k stack l hole) (hq : bottom stack = some q) : q ∈ l := by
  obtain ⟨f, hf, hprocess⟩ := Option.bind_eq_some_iff.mp hq
  obtain ⟨x, hx, rfl⟩ := Option.map_eq_some_iff.mp hprocess
  exact (h.inStack x (List.mem_filterMap.mpr ⟨f, List.mem_of_getLast? hf, hx⟩)).1

namespace Polls

/-- Outside of the loop nobody waits unless a poll is requested. -/
theorem requested (h : Polls w l) (hidle : ∀ position, .poll position ∉ w.machine.main.head?)
    (hp : p ∈ l) (hwaiting : w.waiting p = true) : w.machine.kernel.pollRequested = true := by
  rcases h.ahead p hp hwaiting with hrequested | ⟨position, rest, path, hmain, -⟩
  · exact hrequested
  · refine absurd ?_ (hidle position)
    rw [hmain]
    rfl

/-- A step outside of the loop. -/
theorem keep (h : Polls w l) (hidle : ∀ position, .poll position ∉ w.machine.main.head?)
    (hwaiting : w'.waiting = w.waiting)
    (hneeds : w'.machine.kernel.needspoll = w.machine.kernel.needspoll)
    (hrequested : w'.machine.kernel.pollRequested = w.machine.kernel.pollRequested) :
    Polls w' l := by
  refine ⟨?_, fun p hp hw => .inl ?_⟩
  · rw [hwaiting, hneeds]
    exact h.asked
  · rw [hrequested]
    exact h.requested hidle hp (hwaiting ▸ hw)

/-- The loop begins. -/
theorem doPoll (hasked : ∀ p, w.waiting p = true → m.kernel.needspoll p = true)
    (hl : Chain m.kernel.next m.kernel.processList l) :
    Polls { w with machine := doPoll m } l :=
  ⟨hasked, fun _ hp _ => .inr ⟨_, _, l, rfl, .start hl, hp⟩⟩

/-- Threads start and end processes. -/
theorem relinks (h : Polls w l) (hinv : Inv numEvents w.machine l)
    (hwaiting : ∀ p, w'.waiting p = true → w.waiting p = true)
    (hquiet : Quiet w.machine w'.machine)
    (hedit : Relinks w.machine.kernel w'.machine.kernel l l')
    (hnew : ∀ x ∈ l', x ∉ l → w'.waiting x = false ∧
      (w.machine.stack ≠ [] ∨ w.machine.main = [])) : Polls w' l' where
  asked p hp := by
    rw [hquiet.needspoll]
    exact h.asked p (hwaiting p hp)
  ahead p hp hw := by
    have hmem : p ∈ l := by
      by_contra hnot
      rw [(hnew p hp hnot).1] at hw
      cases hw
    rcases h.ahead p hmem (hwaiting p hw) with
      hrequested | ⟨position, rest, path, hmain, hahead, hin⟩
    · left
      rw [hquiet.pollRequested]
      exact hrequested
    · right
      obtain ⟨path', hahead', -, hkeep⟩ := hahead.edit hinv.listed.chain hedit fun x hx hxl => by
        by_contra hnot
        have hstack : w.machine.stack ≠ [] := by
          rcases (hnew x hxl hnot).2 with hstack | hnil
          · exact hstack
          · rw [hnil] at hmain
            cases hmain
        have hcalls := hinv.main.calls hstack (.poll position) (by rw [hmain]; rfl)
        cases position with
        | test o => cases hcalls
        | behind q =>
          -- the thread of `q` runs, and what is behind `q` is in the list
          have hq : q ∈ l := hinv.listed.bottom_mem hcalls
          rcases List.mem_cons.mp hx with rfl | hx
          · exact hnot hq
          · exact hnot (hinv.listed.chain.subset_of_mem hq hahead.chain.2 hx)
      exact ⟨position, rest, path', hquiet.main.trans hmain, hahead', hkeep p hin hp⟩

variable [Fintype P]

/-- The loops of `process_run` go on. -/
theorem tickMain (h : Polls w l) (hinv : Inv numEvents w.machine l)
    (hstack : w.machine.stack = [])
    (htick : tickMain numEvents w.machine w.machine.main = some m') :
    Polls { noteLoop w w.machine.main with machine := m' } l := by
  obtain ⟨⟨k, main, stack, posted, taken⟩, targets, got, waiting⟩ := w
  obtain rfl : stack = [] := hstack
  -- Only the loop of `do_poll` clears a request, and that of the process it calls.
  cases main with
  | nil => cases htick
  | cons x main =>
    cases x with
    | poll position =>
      have hpath : ∀ p ∈ l, waiting p = true → k.pollRequested = true ∨
          ∃ path, Ahead k.next l position path ∧ p ∈ path := by
        intro p hp hw
        rcases h.ahead p hp hw with hrequested | ⟨_, _, path, hmain, hahead, hin⟩
        · exact .inl hrequested
        · cases hmain
          exact .inr ⟨path, hahead, hin⟩
      cases position with
      | behind q =>
        cases htick
        refine ⟨h.asked, fun p hp hw => ?_⟩
        rcases hpath p hp hw with hrequested | ⟨path, hahead, hin⟩
        · exact .inl hrequested
        · exact .inr ⟨_, _, path, rfl, hahead.goOn, hin⟩
      | test o =>
        cases o with
        | none =>
          cases htick
          refine ⟨h.asked, fun p hp hw => .inl ?_⟩
          rcases hpath p hp hw with hrequested | ⟨path, hahead, hin⟩
          · exact hrequested
          · rw [hahead.ends] at hin
            cases hin
        | some q =>
          have hbehind : ∀ p ∈ l, waiting p = true → p ≠ q → k.pollRequested = true ∨
              ∃ rest, Ahead k.next l (.behind q) rest ∧ p ∈ rest := by
            intro p hp hw hne
            rcases hpath p hp hw with hrequested | ⟨path, hahead, hin⟩
            · exact .inl hrequested
            · obtain ⟨rest, rfl, hrest⟩ := hahead.call
              exact .inr ⟨rest, hrest, (List.mem_cons.mp hin).resolve_left hne⟩
          rw [Process.tickMain, Option.some.injEq] at htick
          subst htick
          dsimp only
          rw [noteLoop]
          split
          · -- the process is called
            obtain ⟨hquiet, hnext, -⟩ := callProcess_quiet ⟨{ k.setState q .running with
              needspoll := Function.update k.needspoll q false }, .poll (.behind q) :: main, [],
              posted, taken⟩ q .poll .null
            have hother : ∀ {p}, Function.update waiting q false p = true →
                p ≠ q ∧ waiting p = true := by
              intro p hw
              have hne : p ≠ q := by
                rintro rfl
                rw [Function.update_self] at hw
                cases hw
              exact ⟨hne, by rwa [Function.update_of_ne hne] at hw⟩
            refine ⟨fun p hw => ?_, fun p hp hw => ?_⟩
            · obtain ⟨hne, hw⟩ := hother hw
              rw [hquiet.needspoll]
              exact (Function.update_of_ne hne ..).trans (h.asked p hw)
            · obtain ⟨hne, hw⟩ := hother hw
              rcases hbehind p hp hw hne with hrequested | ⟨rest, hrest, hin⟩
              · exact .inl (hquiet.pollRequested.trans hrequested)
              · exact .inr ⟨_, _, rest, hquiet.main, hrest.congr hnext, hin⟩
          · next hneeds =>
            refine ⟨h.asked, fun p hp hw => ?_⟩
            have hne : p ≠ q := by
              rintro rfl
              exact hneeds (h.asked p hw)
            rcases hbehind p hp hw hne with hrequested | ⟨rest, hrest, hin⟩
            · exact .inl hrequested
            · exact .inr ⟨_, _, rest, rfl, hrest, hin⟩
    | broadcast ev data position =>
      cases position with
      | behind q =>
        cases htick
        exact h.keep (fun _ hpoll => by cases hpoll) rfl rfl rfl
      | test o =>
        cases o with
        | none =>
          cases htick
          exact h.keep (fun _ hpoll => by cases hpoll) rfl rfl rfl
        | some q =>
          rw [Process.tickMain, Option.some.injEq] at htick
          subst htick
          dsimp only
          split
          · exact doPoll h.asked hinv.listed.chain
          · exact h.keep (fun _ hpoll => by cases hpoll) rfl rfl rfl
    | deliver ev data q =>
      cases htick
      obtain ⟨hquiet, -⟩ := callProcess_quiet
        ⟨k, .broadcast ev data (.behind q) :: main, [], posted, taken⟩ q ev data
      refine h.keep (fun _ hpoll => by cases hpoll) ?_ hquiet.needspoll hquiet.pollRequested
      rw [noteLoop]
      split <;> rfl
    | doEvent =>
      cases htick
      obtain ⟨-, -, hneeds, hrequested, -⟩ := doEvent_kept numEvents ⟨k, main, [], posted, taken⟩
      exact h.keep (fun _ hpoll => by cases hpoll) rfl hneeds hrequested

/-- An interrupt asks for a poll. -/
theorem processPoll (h : Polls w l) (p : P) : Polls { note w (.processPoll p) with
    machine := { w.machine with kernel := processPoll w.machine.kernel p } } l := by
  rw [note, Process.processPoll]
  by_cases hstate : w.machine.kernel.state p = .none
  · have hneither : ¬(w.machine.kernel.state p = .running ∨
        w.machine.kernel.state p = .called) := by
      rw [hstate]
      decide
    rw [if_neg (not_not.mpr hstate), if_neg hneither]
    exact h
  · have heither : w.machine.kernel.state p = .running ∨ w.machine.kernel.state p = .called := by
      generalize w.machine.kernel.state p = s at hstate
      cases s with
      | none => exact absurd rfl hstate
      | running => exact .inl rfl
      | called => exact .inr rfl
    rw [if_pos hstate, if_pos heither]
    refine ⟨fun q hw => ?_, fun _ _ _ => .inl rfl⟩
    dsimp only at hw ⊢
    by_cases hq : q = p
    · subst hq
      exact Function.update_self ..
    · rw [Function.update_of_ne hq] at hw ⊢
      exact h.asked q hw

/-- Every step keeps what is known of the polls. -/
theorem step (h : Polls w l) (hinv : Inv numEvents w.machine l) (hle : numEvents ≤ 128)
    (hok : Orderly w.machine a) (hstep : watchedStep numEvents w a = some w') :
    ∃ l', Inv numEvents w'.machine l' ∧ Polls w' l' := by
  obtain ⟨m', hm, rfl⟩ := Option.map_eq_some_iff.mp hstep
  -- A round of a loop is looked at by itself, for it is the loop that clears requests.
  by_cases hloop : a = .tick ∧ w.machine.stack = []
  · obtain ⟨rfl, hstack⟩ := hloop
    rw [Process.step, if_pos (List.isEmpty_iff.mpr hstack)] at hm
    rw [note, if_pos (List.isEmpty_iff.mpr hstack)]
    exact ⟨l, hinv.tickMain hstack hm, h.tickMain hinv hstack hm⟩
  by_cases hpoll : ∃ p, a = .processPoll p
  · obtain ⟨p, rfl⟩ := hpoll
    cases hm
    exact ⟨l, hinv.processPoll p, h.processPoll p⟩
  by_cases hrun : a = .processRun
  · subst hrun
    obtain ⟨hidle, hrun⟩ := Option.ite_none_right_eq_some.mp hm
    cases hrun
    obtain ⟨hstack, hmain⟩ := Bool.and_eq_true_iff.mp hidle
    refine ⟨l, hinv.processRun (List.isEmpty_iff.mp hstack), ?_⟩
    rw [processRun]
    dsimp only
    split
    · exact doPoll (w := w) h.asked hinv.listed.chain
    · refine h.keep (fun position hhead => ?_) rfl rfl rfl
      rw [List.isEmpty_iff.mp hmain] at hhead
      cases hhead
  · obtain ⟨l', hinv', hquiet, hedit, hnew⟩ := step_quiet hinv hle hok hm
      (fun p hp => hpoll ⟨p, hp⟩) hrun fun htick hnil => hloop ⟨htick, hnil⟩
    obtain ⟨-, -, hwaiting⟩ := note_kept (w := w) fun htick hnil => hloop ⟨htick, hnil⟩
    refine ⟨l', hinv', h.relinks hinv (hwaiting fun p hp => hpoll ⟨p, hp⟩) hquiet hedit ?_⟩
    intro x hx hnot
    obtain ⟨data, rfl⟩ := hnew x hx hnot
    have hlisted : w.machine.kernel.listed x = some false := by
      rw [hinv.listed.listed_eq, decide_eq_false hnot]
    rw [note, if_pos hlisted]
    exact ⟨Function.update_self .., Machine.atWork_cases (Option.ite_none_right_eq_some.mp hm).1⟩

end Polls

variable [Fintype P]

/-- When `process_run` says that nothing is left to be done, all events were taken, and no process
waits for a poll. -/
theorem sleep_sound {k : Kernel P D} (hpos : 0 < numEvents) (hle : numEvents ≤ 128)
    (hrun : Run (watchedStep numEvents) (fun w => Orderly w.machine) (.initial k) w)
    (hmain : w.machine.main = []) (hzero : processNevents w.machine.kernel = 0) :
    w.machine.posted = w.machine.taken ∧
      ∀ p, w.machine.kernel.listed p = some true → w.waiting p = false := by
  obtain ⟨l, hinv, hpolls⟩ : ∃ l, Inv numEvents w.machine l ∧ Polls w l :=
    hrun.invariant (I := fun w => ∃ l, Inv numEvents w.machine l ∧ Polls w l)
      (fun _ _ _ ⟨_, hinv, h⟩ hok hstep => h.step hinv hle hok hstep)
      ⟨[], .initial hpos k, nofun, nofun⟩
  obtain ⟨hnevents, hrequested⟩ := Nat.add_eq_zero_iff.mp hzero
  constructor
  · rw [hinv.queue.pending, hnevents]
    exact List.append_nil _
  · intro p hp
    rw [hinv.listed.listed_eq, Option.some.injEq, decide_eq_true_iff] at hp
    by_contra hw
    have hpoll := hpolls.requested (by rw [hmain]; nofun) hp (Bool.eq_true_of_not_eq_false hw)
    rw [hpoll] at hrequested
    cases hrequested

theorem sleep_sound_three : ∃ w,
    Run (watchedStep 4) (fun w => Orderly w.machine) (.initial three) w ∧
    (w.machine.main.isEmpty ∧ w.machine.posted.length = 1 ∧ w.machine.kernel.needspoll 0 = false) ∧
      w.machine.posted = w.machine.taken ∧
        ∀ p, w.machine.kernel.listed p = some true → w.waiting p = false := by
  obtain ⟨w, hrun, ⟨hmain, hzero⟩, hw⟩ := exists_run_of_runEvents (watchedStep 4)
    (fun w => Orderly w.machine) (.initial three) (threeEnds ++ [.tick])
    (fun w => (w.machine.main.isEmpty ∧ processNevents w.machine.kernel = 0) ∧
      w.machine.posted.length = 1 ∧ w.machine.kernel.needspoll 0 = false) (by decide +kernel)
  exact ⟨w, hrun, ⟨hmain, hw⟩,
    sleep_sound (by decide) (by decide) hrun (List.isEmpty_iff.mp hmain) hzero⟩

end Polls

end MasterScheduler.Mote.Process

import MasterScheduler.Mote.Etimer

/-!
# MasterScheduler.Mote.Ctimer — callback timers

A callback timer of `ctimer.c` is an event timer that `ctimer_process` owns, and an
entry of `ctimer_list`. The event of the timer waits in the queue of the kernel;
when it is dispatched, the process looks for the timer on the list by its address
and calls it back.

1. **Model**: the functions of `ctimer.c` and the queue.
2. **Histories**: the most recent arming of every timer.
3. **Invariant**: a listed timer whose event timer is off the list has expired.
4. **Result**: no callback is early, unless a timer is armed while an event of an
   earlier arming is still in the queue.

The model starts after `ctimer_init`. A callback runs after the step that calls it;
what it calls are further steps.
-/

namespace MasterScheduler.Mote.Ctimer

open Lib Etimer

variable {T P C F D : Type} [DecidableEq T] [DecidableEq C]

/-! ## Model -/

/-- What does not change: the range of the clock, the size of the queue
(`PROCESS_CONF_NUMEVENTS`), the event timer inside a callback timer and `ctimer_process`. -/
structure System (T P C : Type) where
  range : ℕ
  range_pos : 0 < range
  numEvents : ℕ
  etimer : C ↪ T
  ctimerProcess : P

/-- An event in the queue, with its receiver (null for a broadcast): `PROCESS_EVENT_TIMER` with a
timer, or another one. -/
inductive Queued (T P : Type)
  | timer (receiver : Option P) (data : T)
  | other (receiver : Option P)

/-- The variables of `ctimer.c`, the members of the callback timers, and what they rest on. -/
structure State (T P C F D : Type) where
  timers : Etimer.State T P
  ctimerList : List C
  p : C → Option P
  f : C → Option F
  ptr : C → D
  events : List (Queued T P)

/-- A call of `c->f(c->ptr)` in the context of `c->p`. -/
structure Invocation (P C F D : Type) where
  c : C
  f : F
  ptr : D
  context : Option P

variable (S : System T P C) (n : ℕ)

/-- `ctimer_set_with_process`. -/
def ctimerSetWithProcess (s : State T P C F D) (c : C) (t : ℕ) (f : Option F) (ptr : D)
    (p : Option P) : Option (State T P C F D) :=
  (etimerSet S.range n s.timers S.ctimerProcess (S.etimer c) t).map fun timers =>
    { s with
      timers
      ctimerList := listAdd s.ctimerList c
      p := Function.update s.p c p
      f := Function.update s.f c f
      ptr := Function.update s.ptr c ptr }

/-- `ctimer_set`, called by a process. -/
def ctimerSet (s : State T P C F D) (c : C) (t : ℕ) (f : Option F) (ptr : D)
    (current : Option P) : Option (State T P C F D) :=
  ctimerSetWithProcess S n s c t f ptr current

/-- `ctimer_reset`. -/
def ctimerReset (s : State T P C F D) (c : C) : Option (State T P C F D) :=
  (etimerReset S.range n s.timers S.ctimerProcess (S.etimer c)).map fun timers =>
    { s with timers, ctimerList := listAdd s.ctimerList c }

/-- `ctimer_restart`. -/
def ctimerRestart (s : State T P C F D) (c : C) : Option (State T P C F D) :=
  (etimerRestart S.range n s.timers S.ctimerProcess (S.etimer c)).map fun timers =>
    { s with timers, ctimerList := listAdd s.ctimerList c }

/-- `ctimer_stop`. -/
def ctimerStop (s : State T P C F D) (c : C) : Option (State T P C F D) :=
  (etimerStop S.range n s.timers (S.etimer c)).map fun timers =>
    { s with timers, ctimerList := s.ctimerList.erase c }

/-- `ctimer_process` with `PROCESS_EVENT_TIMER`. -/
def ctimerProcess (s : State T P C F D) (data : T) :
    State T P C F D × Option (Invocation P C F D) :=
  match s.ctimerList.find? (fun c => S.etimer c = data) with
  | none => (s, none)
  | some c =>
    ({ s with ctimerList := s.ctimerList.erase c },
      (s.f c).map fun f => { c, f, ptr := s.ptr c, context := s.p c })

/-- A poll of `etimer_process`. Its posts are accepted as long as the queue is not full. -/
def poll (s : State T P C F D) : Option (State T P C F D) :=
  (processPoll S.range n (fun k => s.events.length + k < S.numEvents) s.timers).map fun r =>
    { s with
      timers := r.1
      events := s.events ++ r.2.map fun q => .timer q.1 q.2 }

/-- `process_post` of another event. -/
def post (s : State T P C F D) (receiver : Option P) : State T P C F D :=
  if s.events.length < S.numEvents then { s with events := s.events ++ [.other receiver] } else s

/-- The kernel takes the next event from the queue. -/
def dispatch [DecidableEq P] (s : State T P C F D) : State T P C F D × Option (Invocation P C F D) :=
  match s.events with
  | [] => (s, none)
  | .timer receiver data :: events =>
    let s := { s with events }
    if receiver = none ∨ receiver = some S.ctimerProcess then ctimerProcess S s data
    else (s, none)
  | .other _ :: events => ({ s with events }, none)

/-- What another module does with its own event timers. -/
def others [DecidableEq P] (s : Etimer.State T P) : Etimer.Event T P → Option (Etimer.State T P)
  | .set current et interval => etimerSet S.range n s current et interval
  | .resetWithNewInterval current et interval =>
    etimerResetWithNewInterval S.range n s current et interval
  | .reset current et => etimerReset S.range n s current et
  | .restart current et => etimerRestart S.range n s current et
  | .adjust et timediff => etimerAdjust S.range n s et timediff
  | .stop et => etimerStop S.range n s et
  | .exit p => processExited n s p
  | .start _ | .tick | .poll _ => some s

/-! ## Histories -/

/-- The calls, and what happens around them. -/
inductive Event (T P C F D : Type)
  | set (c : C) (t : ℕ) (f : Option F) (ptr : D) (p : Option P)
  | reset (c : C)
  | restart (c : C)
  | stop (c : C)
  | others (e : Etimer.Event T P)
  | post (receiver : Option P)
  | tick
  | poll
  | dispatch

/-- The state, the start and the interval of the most recent arming of every timer, and whether
the timer was neither called back nor stopped since. -/
structure History (T P C F D : Type) where
  state : State T P C F D
  start : C → ℕ
  interval : C → ℕ
  armed : C → Bool

/-- The history at the start. -/
def History.initial (ptr : C → D) : History T P C F D where
  state := ⟨.initial, [], fun _ => none, fun _ => none, ptr, []⟩
  start := fun _ => 0
  interval := fun _ => 0
  armed := fun _ => false

/-- A timer is armed. -/
def arm (h : History T P C F D) (c : C) (start interval : ℕ)
    (s : Option (State T P C F D)) : Option (History T P C F D) :=
  s.map fun s =>
    { state := s
      start := Function.update h.start c start
      interval := Function.update h.interval c interval
      armed := Function.update h.armed c true }

/-- A step, with the bound for its loops. -/
def step [DecidableEq P] (h : History T P C F D) (e : ℕ × Event T P C F D) :
    Option (History T P C F D) :=
  match e.2 with
  | .set c t f ptr p =>
    arm h c h.state.timers.clock t (ctimerSetWithProcess S e.1 h.state c t f ptr p)
  | .reset c =>
    arm h c (h.start c + h.interval c) (h.interval c) (ctimerReset S e.1 h.state c)
  | .restart c => arm h c h.state.timers.clock (h.interval c) (ctimerRestart S e.1 h.state c)
  | .stop c =>
    (ctimerStop S e.1 h.state c).map fun s =>
      { h with state := s, armed := Function.update h.armed c false }
  | .others e' =>
    (others S e.1 h.state.timers e').map fun timers =>
      { h with state := { h.state with timers } }
  | .post receiver => some { h with state := post S h.state receiver }
  | .tick =>
    some { h with state := { h.state with timers := Etimer.tick S.range h.state.timers } }
  | .poll => (poll S e.1 h.state).map fun s => { h with state := s }
  | .dispatch =>
    let r := dispatch S h.state
    -- a timer that leaves the list with a dispatch is called back
    some { h with state := r.1, armed := fun c => h.armed c && decide (c ∈ r.1.ctimerList) }

/-- Timers are reset after they have expired; other modules use timers and processes of their
own. -/
def Proper (h : History T P C F D) : Event T P C F D → Prop
  | .reset c => h.start c + h.interval c ≤ h.state.timers.clock
  | .others e =>
    match e with
    | .set _ et _ | .resetWithNewInterval _ et _ | .reset _ et | .restart _ et | .adjust et _
    | .stop et => ∀ c, S.etimer c ≠ et
    | .exit p => p ≠ S.ctimerProcess
    | .start _ | .tick | .poll _ => True
  | _ => True

/-- No event of the timer is in the queue. -/
def Unposted (s : State T P C F D) (c : C) : Prop :=
  ∀ receiver, Queued.timer receiver (S.etimer c) ∉ s.events

/-- A timer is armed only when no event of it is in the queue. -/
def Fresh (h : History T P C F D) : Event T P C F D → Prop
  | .set c _ _ _ _ => Unposted S h.state c
  | .reset c => Unposted S h.state c
  | .restart c => Unposted S h.state c
  | _ => True

/-! ## Invariant -/

section Invariant

variable {S : System T P C} {n : ℕ} {h h' : History T P C F D} {l : List T}
  {s : State T P C F D} {c x : C}

/-- What holds between two steps: a listed timer whose event timer is off the list has expired,
and a timer whose event timer is on the list has no event in the queue. -/
structure Inv (S : System T P C) (h : History T P C F D) (l : List T) : Prop where
  shape : Shape h.state.timers l
  nodup : h.state.ctimerList.Nodup
  listed : ∀ c, c ∈ h.state.ctimerList ↔ h.armed c = true
  start : ∀ c, h.state.timers.start (S.etimer c) ≡ h.start c [MOD S.range]
  interval : ∀ c, h.state.timers.interval (S.etimer c) = h.interval c
  past : ∀ c, h.start c ≤ h.state.timers.clock
  owned : ∀ c, S.etimer c ∈ l → h.state.timers.p (S.etimer c) = some S.ctimerProcess
  unposted : ∀ c, S.etimer c ∈ l → Unposted S h.state c
  elapsed : ∀ c, h.armed c = true → S.etimer c ∉ l →
    h.start c + h.interval c ≤ h.state.timers.clock

omit [DecidableEq T] [DecidableEq C] in
theorem inv_initial (ptr : C → D) : Inv S (History.initial ptr : History T P C F D) [] := by
  constructor
  · exact ⟨rfl, fun t ht => absurd ht List.not_mem_nil⟩
  · exact List.nodup_nil
  · intro c
    change c ∈ [] ↔ false = true
    simp
  · exact fun _ => rfl
  · exact fun _ => rfl
  · exact fun _ => le_rfl
  · exact fun c hc => absurd hc List.not_mem_nil
  · exact fun c hc => absurd hc List.not_mem_nil
  · exact fun c hc => absurd hc Bool.false_ne_true

omit [DecidableEq T] [DecidableEq C] in
/-- A timer that `timer_expired` reports has expired. -/
theorem Inv.expired (hinv : Inv S h l)
    (hc : timerExpired S.range h.state.timers (S.etimer c) = true) :
    h.start c + h.interval c ≤ h.state.timers.clock := by
  simp only [timerExpired, clockTime, since_mod_left, decide_eq_true_eq] at hc
  rw [hinv.interval c, since_congr rfl (hinv.start c)] at hc
  have hpast := hinv.past c
  have hle := since_le_sub S.range_pos hpast
  have hmod := Nat.mod_le (since S.range h.state.timers.clock (h.start c) + 1) S.range
  omega

/-- A timer is armed while no event of it is in the queue. -/
theorem Inv.arm {t₀ timers : Etimer.State T P} {s' : State T P C F D} {start interval : ℕ}
    (hinv : Inv S h l) (hr : Retimed h.state.timers t₀ (S.etimer c))
    (hstart : t₀.start (S.etimer c) ≡ start [MOD S.range])
    (hinterval : t₀.interval (S.etimer c) = interval) (hpast : start ≤ h.state.timers.clock)
    (hfresh : Unposted S h.state c)
    (ht : addTimer S.range n t₀ S.ctimerProcess (S.etimer c) = some timers)
    (hs' : s'.timers = timers ∧ s'.ctimerList = listAdd h.state.ctimerList c ∧
      s'.events = h.state.events) :
    ∃ l', Inv S
      { state := s'
        start := Function.update h.start c start
        interval := Function.update h.interval c interval
        armed := Function.update h.armed c true } l' := by
  obtain ⟨htimers, hlist, hevents⟩ := hs'
  -- The timer is armed in the module below; here the ctimer is listed with it.
  obtain ⟨l', hshape, hmem, hsame, _, hp, _⟩ := addTimer_spec (hr.shape hinv.shape) ht
  rw [← htimers] at hshape hsame hp
  have hne : ∀ {x}, x ≠ c → S.etimer x ≠ S.etimer c := fun hx => S.etimer.injective.ne hx
  -- The other timers stay listed as they were.
  have hback : ∀ {x}, x ≠ c → (S.etimer x ∈ l' ↔ S.etimer x ∈ l) := by
    intro x hx
    rw [hmem, or_iff_right (hne hx)]
  have hclock : s'.timers.clock = h.state.timers.clock := hsame.clock.trans hr.clock
  refine ⟨l', hshape, ?_, ?_, ?_, ?_, ?_, ?_, ?_, ?_⟩
  · rw [hlist]
    exact listAdd_nodup hinv.nodup
  · intro x
    change x ∈ s'.ctimerList ↔ Function.update h.armed c true x = true
    rw [hlist, mem_listAdd, hinv.listed x]
    by_cases hx : x = c
    · simp [hx]
    · simp [hx]
  · intro x
    change s'.timers.start (S.etimer x) ≡ Function.update h.start c start x [MOD S.range]
    rw [hsame.start]
    by_cases hx : x = c
    · rw [hx, Function.update_self]
      exact hstart
    · rw [Function.update_of_ne hx, hr.start _ (hne hx)]
      exact hinv.start x
  · intro x
    change s'.timers.interval (S.etimer x) = Function.update h.interval c interval x
    rw [hsame.interval]
    by_cases hx : x = c
    · rw [hx, Function.update_self]
      exact hinterval
    · rw [Function.update_of_ne hx, hr.interval _ (hne hx)]
      exact hinv.interval x
  · intro x
    change Function.update h.start c start x ≤ s'.timers.clock
    rw [hclock]
    by_cases hx : x = c
    · rw [hx, Function.update_self]
      exact hpast
    · rw [Function.update_of_ne hx]
      exact hinv.past x
  · intro x hxl
    change s'.timers.p (S.etimer x) = some S.ctimerProcess
    rw [hp]
    by_cases hx : x = c
    · rw [hx, Function.update_self]
    · rw [Function.update_of_ne (hne hx), hr.p]
      exact hinv.owned x ((hback hx).mp hxl)
  · intro x hxl
    have hx : Unposted S h.state x := by
      by_cases hx : x = c
      · rw [hx]
        exact hfresh
      · exact hinv.unposted x ((hback hx).mp hxl)
    intro receiver
    change _ ∉ s'.events
    rw [hevents]
    exact hx receiver
  · intro x harmed hxl
    have hx : x ≠ c := by
      rintro rfl
      exact hxl ((hmem _).mpr (.inl rfl))
    simp only [Function.update_of_ne hx] at harmed ⊢
    rw [hclock]
    exact hinv.elapsed x harmed fun hmem' => hxl ((hback hx).mpr hmem')

theorem Inv.stop {timers : Etimer.State T P} (hinv : Inv S h l)
    (ht : etimerStop S.range n h.state.timers (S.etimer c) = some timers) :
    ∃ l', Inv S
      { h with
        state := { h.state with timers, ctimerList := h.state.ctimerList.erase c }
        armed := Function.update h.armed c false } l' := by
  -- The stopped timer is in neither list, the others in both.
  obtain ⟨l', hshape, hmem, hsame, _, hp, _⟩ := etimerStop_spec hinv.shape ht
  have hsub : ∀ {x}, S.etimer x ∈ l' → x ≠ c ∧ S.etimer x ∈ l := by
    intro x hx
    obtain ⟨hne, hxl⟩ := (hmem _).mp hx
    exact ⟨fun h => hne (congrArg _ h), hxl⟩
  refine ⟨l', hshape, hinv.nodup.erase c, ?_, ?_, ?_, ?_, ?_, ?_, ?_⟩
  · intro x
    change x ∈ h.state.ctimerList.erase c ↔ Function.update h.armed c false x = true
    rw [hinv.nodup.mem_erase_iff, hinv.listed x]
    by_cases hx : x = c
    · simp [hx]
    · simp [hx]
  · intro x
    change timers.start (S.etimer x) ≡ h.start x [MOD S.range]
    rw [hsame.start]
    exact hinv.start x
  · intro x
    change timers.interval (S.etimer x) = h.interval x
    rw [hsame.interval]
    exact hinv.interval x
  · intro x
    change h.start x ≤ timers.clock
    rw [hsame.clock]
    exact hinv.past x
  · intro x hx
    obtain ⟨hxc, hxl⟩ := hsub hx
    change timers.p (S.etimer x) = some S.ctimerProcess
    rw [hp, Function.update_of_ne (S.etimer.injective.ne hxc)]
    exact hinv.owned x hxl
  · exact fun x hx => hinv.unposted x (hsub hx).2
  · intro x harmed hxl
    have hx : x ≠ c := by
      rintro rfl
      simp at harmed
    simp only [Function.update_of_ne hx] at harmed ⊢
    change h.start x + h.interval x ≤ timers.clock
    rw [hsame.clock]
    refine hinv.elapsed x harmed fun hmem' => hxl ((hmem _).mpr ⟨?_, hmem'⟩)
    exact S.etimer.injective.ne hx

omit [DecidableEq T] [DecidableEq C] in
/-- Nothing changes about the callback timers. -/
theorem Inv.untouched {timers : Etimer.State T P} {l' : List T} (hinv : Inv S h l)
    (hshape : Shape timers l') (hmem : ∀ c, S.etimer c ∈ l' ↔ S.etimer c ∈ l)
    (hclock : h.state.timers.clock ≤ timers.clock)
    (hstart : ∀ c, timers.start (S.etimer c) = h.state.timers.start (S.etimer c))
    (hinterval : ∀ c, timers.interval (S.etimer c) = h.state.timers.interval (S.etimer c))
    (hp : ∀ c, timers.p (S.etimer c) = h.state.timers.p (S.etimer c)) :
    Inv S { h with state := { h.state with timers } } l' := by
  refine ⟨hshape, hinv.nodup, hinv.listed, ?_, ?_, ?_, ?_, ?_, ?_⟩
  · intro c
    change timers.start (S.etimer c) ≡ h.start c [MOD S.range]
    rw [hstart]
    exact hinv.start c
  · intro c
    change timers.interval (S.etimer c) = h.interval c
    rw [hinterval]
    exact hinv.interval c
  · exact fun c => (hinv.past c).trans hclock
  · intro c hc
    change timers.p (S.etimer c) = some S.ctimerProcess
    rw [hp]
    exact hinv.owned c ((hmem c).mp hc)
  · exact fun c hc => hinv.unposted c ((hmem c).mp hc)
  · exact fun c harmed hc => (hinv.elapsed c harmed fun hcl => hc ((hmem c).mpr hcl)).trans hclock

omit [DecidableEq C] in
/-- Another module arms a timer of its own. -/
theorem Inv.foreign {t₀ timers : Etimer.State T P} {et : T} {current : P} (hinv : Inv S h l)
    (het : ∀ c, S.etimer c ≠ et) (hr : Retimed h.state.timers t₀ et)
    (ht : addTimer S.range n t₀ current et = some timers) :
    ∃ l', Inv S { h with state := { h.state with timers } } l' := by
  obtain ⟨l', hshape, hmem, hsame, _, hp, _⟩ := addTimer_spec (hr.shape hinv.shape) ht
  refine ⟨l', hinv.untouched hshape ?_ ?_ ?_ ?_ ?_⟩
  · intro c
    rw [hmem, or_iff_right (het c)]
  · rw [hsame.clock, hr.clock]
  · intro c
    rw [hsame.start, hr.start _ (het c)]
  · intro c
    rw [hsame.interval, hr.interval _ (het c)]
  · intro c
    rw [hp, Function.update_of_ne (het c), hr.p]

omit [DecidableEq C] in
/-- A poll posts the events of timers that have expired. -/
theorem Inv.poll (hinv : Inv S h l) (hs : poll S n h.state = some s) :
    ∃ l', Inv S { h with state := s } l' := by
  obtain ⟨r, hr, rfl⟩ := Option.map_eq_some_iff.mp hs
  -- An expired timer leaves the list of the etimers with a posted event, but not this list.
  obtain ⟨l', hpolled⟩ := processPoll_spec hinv.shape hr
  have hsame := hpolled.same
  refine ⟨l', hpolled.shape, hinv.nodup, hinv.listed, ?_, ?_, ?_, ?_, ?_, ?_⟩
  · intro c
    change r.1.start (S.etimer c) ≡ h.start c [MOD S.range]
    rw [hsame.start]
    exact hinv.start c
  · intro c
    change r.1.interval (S.etimer c) = h.interval c
    rw [hsame.interval]
    exact hinv.interval c
  · intro c
    change h.start c ≤ r.1.clock
    rw [hsame.clock]
    exact hinv.past c
  · intro c hc
    obtain ⟨hcl, hnot⟩ := (hpolled.left _).mp hc
    change r.1.p (S.etimer c) = some S.ctimerProcess
    rw [hpolled.owners, if_neg hnot]
    exact hinv.owned c hcl
  · intro c hc receiver hmem
    obtain ⟨hcl, hnot⟩ := (hpolled.left _).mp hc
    rcases List.mem_append.mp hmem with hmem | hmem
    · exact hinv.unposted c hcl receiver hmem
    · obtain ⟨q, hq, heq⟩ := List.mem_map.mp hmem
      injection heq with _ heq
      exact hnot (List.mem_map.mpr ⟨q, hq, heq⟩)
  · intro c harmed hc
    change h.start c + h.interval c ≤ r.1.clock
    rw [hsame.clock]
    by_cases hcl : S.etimer c ∈ l
    · -- the event of the timer was posted right now
      have hposted : S.etimer c ∈ r.2.map Prod.snd := by
        by_contra hnot
        exact hc ((hpolled.left _).mpr ⟨hcl, hnot⟩)
      obtain ⟨q, hq, heq⟩ := List.mem_map.mp hposted
      have hexp := (hpolled.expired q hq).2.1
      rw [heq] at hexp
      exact hinv.expired hexp
    · exact hinv.elapsed c harmed hcl

omit [DecidableEq T] in
/-- Fewer events in the queue, and fewer timers to call back. -/
theorem Inv.drop {events : List (Queued T P)} {cs : List C} (hinv : Inv S h l)
    (hevents : ∀ e ∈ events, e ∈ h.state.events) (hnodup : cs.Nodup)
    (hcs : ∀ c ∈ cs, c ∈ h.state.ctimerList) :
    Inv S
      { h with
        state := { h.state with events, ctimerList := cs }
        armed := fun c => h.armed c && decide (c ∈ cs) } l := by
  refine ⟨hinv.shape, hnodup, ?_, hinv.start, hinv.interval, hinv.past, hinv.owned, ?_, ?_⟩
  · intro c
    simp only [Bool.and_eq_true, decide_eq_true_eq, ← hinv.listed c]
    exact ⟨fun hc => ⟨hcs c hc, hc⟩, And.right⟩
  · exact fun c hc receiver hmem => hinv.unposted c hc receiver (hevents _ hmem)
  · intro c harmed
    simp only [Bool.and_eq_true] at harmed
    exact hinv.elapsed c harmed.1

variable [DecidableEq P]

/-- What a dispatch does to the queue and the list, and which timer it calls back. -/
theorem dispatch_spec (s : State T P C F D) :
    ∃ events cs, (dispatch S s).1 = { s with events, ctimerList := cs } ∧
      (∀ e ∈ events, e ∈ s.events) ∧ (cs = s.ctimerList ∨ ∃ c, cs = s.ctimerList.erase c) ∧
      ∀ i, (dispatch S s).2 = some i →
        i.c ∈ s.ctimerList ∧ ∃ receiver, Queued.timer receiver (S.etimer i.c) ∈ s.events := by
  obtain ⟨timers, ctimerList, p, f, ptr, events⟩ := s
  cases events with
  | nil => exact ⟨[], ctimerList, rfl, fun e he => he, .inl rfl, fun i hi => nomatch hi⟩
  | cons e es =>
    have hsub : ∀ x ∈ es, x ∈ e :: es := fun x hx => List.mem_cons_of_mem e hx
    cases e with
    | other receiver => exact ⟨es, ctimerList, rfl, hsub, .inl rfl, fun i hi => nomatch hi⟩
    | timer receiver data =>
      by_cases hr : receiver = none ∨ receiver = some S.ctimerProcess
      · simp only [dispatch, if_pos hr, ctimerProcess]
        cases hfind : ctimerList.find? (fun c => S.etimer c = data) with
        | none => exact ⟨es, ctimerList, rfl, hsub, .inl rfl, fun i hi => nomatch hi⟩
        | some c =>
          refine ⟨es, ctimerList.erase c, rfl, hsub, .inr ⟨c, rfl⟩, ?_⟩
          intro i hi
          obtain ⟨g, _, rfl⟩ := Option.map_eq_some_iff.mp hi
          have hdata : S.etimer c = data := by simpa using List.find?_some hfind
          refine ⟨List.mem_of_find?_eq_some hfind, receiver, ?_⟩
          rw [hdata]
          exact List.mem_cons_self
      · simp only [dispatch, if_neg hr]
        exact ⟨es, ctimerList, rfl, hsub, .inl rfl, fun i hi => nomatch hi⟩

/-- Every step that arms no timer with an event in the queue. -/
theorem Inv.step {e : ℕ × Event T P C F D} (hinv : Inv S h l) (hproper : Proper S h e.2)
    (hfresh : Fresh S h e.2) (hs : step S h e = some h') : ∃ l', Inv S h' l' := by
  obtain ⟨n, e⟩ := e
  -- The four functions arm or stop a ctimer; `others` works on timers of other processes.
  cases e with
  | set c t f ptr p =>
    obtain ⟨s, hs', rfl⟩ := Option.map_eq_some_iff.mp hs
    obtain ⟨timers, ht, rfl⟩ := Option.map_eq_some_iff.mp hs'
    refine hinv.arm (retimed_set h.state.timers (S.etimer c) t) ?_ ?_ le_rfl hfresh ht
      ⟨rfl, rfl, rfl⟩
    · simp only [timerSet, Function.update_self]
      exact Nat.mod_modEq _ _
    · exact Function.update_self ..
  | reset c =>
    obtain ⟨s, hs', rfl⟩ := Option.map_eq_some_iff.mp hs
    obtain ⟨timers, ht, rfl⟩ := Option.map_eq_some_iff.mp hs'
    refine hinv.arm (retimed_reset h.state.timers (S.etimer c)) ?_ (hinv.interval c) hproper
      hfresh ht ⟨rfl, rfl, rfl⟩
    simp only [timerReset, Function.update_self, hinv.interval c]
    exact (Nat.mod_modEq _ _).trans ((hinv.start c).add_right _)
  | restart c =>
    obtain ⟨s, hs', rfl⟩ := Option.map_eq_some_iff.mp hs
    obtain ⟨timers, ht, rfl⟩ := Option.map_eq_some_iff.mp hs'
    refine hinv.arm (retimed_restart h.state.timers (S.etimer c)) ?_ (hinv.interval c) le_rfl
      hfresh ht ⟨rfl, rfl, rfl⟩
    simp only [timerRestart, Function.update_self]
    exact Nat.mod_modEq _ _
  | stop c =>
    obtain ⟨s, hs', rfl⟩ := Option.map_eq_some_iff.mp hs
    obtain ⟨timers, ht, rfl⟩ := Option.map_eq_some_iff.mp hs'
    exact hinv.stop ht
  | others e =>
    obtain ⟨timers, ht, rfl⟩ := Option.map_eq_some_iff.mp hs
    cases e with
    | set current et interval =>
      exact hinv.foreign hproper (retimed_set h.state.timers et interval) ht
    | resetWithNewInterval current et interval =>
      exact hinv.foreign hproper (retimed_resetWithNewInterval h.state.timers et interval) ht
    | reset current et => exact hinv.foreign hproper (retimed_reset h.state.timers et) ht
    | restart current et => exact hinv.foreign hproper (retimed_restart h.state.timers et) ht
    | adjust et timediff =>
      have heq := updateTime_eq ht
      refine ⟨l, hinv.untouched ?_ (fun _ => Iff.rfl) ?_ ?_ ?_ ?_⟩
      · rw [heq]
        exact ⟨hinv.shape.chain, hinv.shape.owned⟩
      · rw [heq]
        rfl
      · intro c
        rw [heq]
        exact Function.update_of_ne (hproper c) _ _
      · intro c
        rw [heq]
        rfl
      · intro c
        rw [heq]
        rfl
    | stop et =>
      obtain ⟨l', hshape, hmem, hsame, _, hp, _⟩ := etimerStop_spec hinv.shape ht
      refine ⟨l', hinv.untouched hshape ?_ hsame.clock.ge ?_ ?_ ?_⟩
      · intro c
        rw [hmem, and_iff_right (hproper c)]
      · exact fun c => congrFun hsame.start _
      · exact fun c => congrFun hsame.interval _
      · intro c
        rw [hp, Function.update_of_ne (hproper c)]
    | exit p =>
      obtain ⟨hshape, heq⟩ := processExited_spec hinv.shape ht
      refine ⟨_, hinv.untouched hshape ?_ ?_ ?_ ?_ ?_⟩
      · intro c
        rw [List.mem_filter, and_iff_left_iff_imp]
        intro hc
        rw [hinv.owned c hc]
        simpa using fun hp => hproper hp.symm
      all_goals rw [heq]
      all_goals exact fun _ => rfl
    | start p | tick | poll accept =>
      obtain rfl := Option.some.inj ht
      exact ⟨l, hinv⟩
  | post receiver =>
    obtain rfl := Option.some.inj hs
    simp only [post]
    split
    · refine ⟨l, hinv.shape, hinv.nodup, hinv.listed, hinv.start, hinv.interval, hinv.past,
        hinv.owned, ?_, hinv.elapsed⟩
      intro c hc r hmem
      rcases List.mem_append.mp hmem with hmem | hmem
      · exact hinv.unposted c hc r hmem
      · cases List.mem_singleton.mp hmem
    · exact ⟨l, hinv⟩
  | tick =>
    obtain rfl := Option.some.inj hs
    rw [tick_eq]
    exact ⟨l, hinv.untouched ⟨hinv.shape.chain, hinv.shape.owned⟩ (fun _ => Iff.rfl)
      (Nat.le_succ _) (fun _ => rfl) (fun _ => rfl) fun _ => rfl⟩
  | poll =>
    obtain ⟨s, hs', rfl⟩ := Option.map_eq_some_iff.mp hs
    exact hinv.poll hs'
  | dispatch =>
    obtain rfl := Option.some.inj hs
    obtain ⟨events, cs, heq, hevents, hcs, _⟩ := dispatch_spec (S := S) h.state
    rw [heq]
    refine ⟨l, hinv.drop hevents ?_ ?_⟩
    · rcases hcs with rfl | ⟨c, rfl⟩
      · exact hinv.nodup
      · exact hinv.nodup.erase c
    · intro c hc
      rcases hcs with rfl | ⟨c', rfl⟩
      · exact hc
      · exact List.mem_of_mem_erase hc

end Invariant

/-! ## Result -/

variable [DecidableEq P] {S : System T P C} {h : History T P C F D} {ptr : C → D}

/-- A callback belongs to an arming that was neither called back nor stopped since, and whose
interval has elapsed. -/
def Sound (S : System T P C) (h : History T P C F D) : Prop :=
  ∀ i, (dispatch S h.state).2 = some i →
    h.armed i.c = true ∧ h.start i.c + h.interval i.c ≤ h.state.timers.clock

theorem Inv.sound {l : List T} (hinv : Inv S h l) : Sound S h := by
  intro i hi
  obtain ⟨_, _, _, _, _, hcalled⟩ := dispatch_spec (S := S) h.state
  obtain ⟨hlisted, receiver, hposted⟩ := hcalled i hi
  have harmed := (hinv.listed i.c).mp hlisted
  refine ⟨harmed, hinv.elapsed i.c harmed ?_⟩
  intro hl
  exact hinv.unposted i.c hl receiver hposted

/-- In every run in which no timer is armed while an event of it is in the queue, every callback
is in order. -/
theorem callbacks_sound_of_run
    (hrun : Run (step S) (fun h e => Proper S h e.2 ∧ Fresh S h e.2) (History.initial ptr) h) :
    Sound S h := by
  have hinv : ∃ l, Inv S h l := by
    apply hrun.invariant (I := fun h => ∃ l, Inv S h l)
    · rintro h e h₁ ⟨l, hinv⟩ ⟨hproper, hfresh⟩ hs
      exact hinv.step hproper hfresh hs
    · exact ⟨[], inv_initial ptr⟩
  obtain ⟨l, hinv⟩ := hinv
  exact hinv.sound

instance [Fintype C] (e : Etimer.Event T P) (h : History T P C F D) :
    Decidable (Proper S h (.others e)) :=
  match e with
  | .set _ _ _ | .resetWithNewInterval _ _ _ | .reset _ _ | .restart _ _ | .adjust _ _
  | .stop _ => inferInstanceAs (Decidable (∀ _, _))
  | .exit _ => inferInstanceAs (Decidable (_ ≠ _))
  | .start _ | .tick | .poll _ => inferInstanceAs (Decidable True)

instance [Fintype C] (h : History T P C F D) (e : Event T P C F D) : Decidable (Proper S h e) :=
  match e with
  | .reset _ => inferInstanceAs (Decidable (_ ≤ _))
  | .others e => inferInstanceAs (Decidable (Proper S h (.others e)))
  | .set _ _ _ _ _ | .restart _ | .stop _ | .post _ | .tick | .poll | .dispatch =>
    inferInstanceAs (Decidable True)

/-- Whether an event is one of a timer. -/
def Queued.isTimer (t : T) : Queued T P → Bool
  | .timer _ data => decide (data = t)
  | .other _ => false

omit [DecidableEq C] [DecidableEq P] in
theorem unposted_iff (s : State T P C F D) (c : C) :
    Unposted S s c ↔ ∀ e ∈ s.events, e.isTimer (S.etimer c) = false := by
  constructor
  · intro h e he
    cases e with
    | timer receiver data =>
      rw [Queued.isTimer, decide_eq_false_iff_not]
      rintro rfl
      exact h receiver he
    | other receiver => rfl
  · intro h receiver hmem
    have hfalse := h _ hmem
    rw [Queued.isTimer, decide_eq_false_iff_not] at hfalse
    exact hfalse rfl

instance (s : State T P C F D) (c : C) : Decidable (Unposted S s c) :=
  decidable_of_iff' _ (unposted_iff s c)

instance (h : History T P C F D) (e : Event T P C F D) : Decidable (Fresh S h e) :=
  match e with
  | .set c _ _ _ _ | .reset c | .restart c => inferInstanceAs (Decidable (Unposted S h.state c))
  | .stop _ | .others _ | .post _ | .tick | .poll | .dispatch => inferInstanceAs (Decidable True)

theorem sixteen_pos : 0 < 16 := by decide

/-- Two callback timers, and `ctimer_process`. -/
def twoTimers : System (Fin 2) Unit (Fin 2) := ⟨16, sixteen_pos, 4, Function.Embedding.refl _, ()⟩

/-- A timer expires, another one is stopped while its event is in the queue. -/
theorem callbacks_sound_of_run_stopped : ∃ h : History (Fin 2) Unit (Fin 2) Unit Unit,
    ((dispatch twoTimers h.state).2.map Invocation.c = some 0 ∧ h.armed 1 = false ∧
      h.state.events.length = 2) ∧ Sound twoTimers h := by
  obtain ⟨h, hrun, hstate⟩ := exists_run_of_runEvents (step twoTimers)
    (fun h e => Proper twoTimers h e.2 ∧ Fresh twoTimers h e.2) (History.initial fun _ => ())
    [(9, .set 0 1 (some ()) () none), (9, .set 1 1 (some ()) () none), (9, .tick), (9, .poll),
      (9, .dispatch), (9, .reset 1), (9, .tick), (9, .poll), (9, .stop 1)]
    (fun h => (dispatch twoTimers h.state).2.map Invocation.c = some 0 ∧ h.armed 1 = false ∧
      h.state.events.length = 2)
    (by decide +kernel)
  exact ⟨h, hstate, callbacks_sound_of_run hrun⟩

/-- A timer that is set again while its event is in the queue is called back at once. -/
theorem early_callback : ∃ h : History (Fin 2) Unit (Fin 2) Unit Unit,
    Run (step twoTimers) (fun h e => Proper twoTimers h e.2) (History.initial fun _ => ()) h ∧
      ¬ Sound twoTimers h := by
  obtain ⟨h, hrun, hcalled, hearly⟩ := exists_run_of_runEvents (step twoTimers)
    (fun h e => Proper twoTimers h e.2) (History.initial fun _ => ())
    [(9, .set 0 1 (some ()) () none), (9, .tick), (9, .poll), (9, .set 0 7 (some ()) () none)]
    (fun h : History (Fin 2) Unit (Fin 2) Unit Unit =>
      (dispatch twoTimers h.state).2.map Invocation.c = some 0 ∧
        h.state.timers.clock < h.start 0 + h.interval 0)
    (by decide +kernel)
  refine ⟨h, hrun, ?_⟩
  intro hsound
  obtain ⟨i, hi, hc⟩ := Option.map_eq_some_iff.mp hcalled
  have hle := (hsound i hi).2
  rw [hc] at hle
  omega

end MasterScheduler.Mote.Ctimer

import MasterScheduler.Lib.Chain
import MasterScheduler.Lib.Clock
import MasterScheduler.Lib.Transition
import Mathlib.Data.Fintype.Basic

/-!
# MasterScheduler.Mote.Etimer — the list of event timers

`etimer.c` keeps the armed timers on a singly linked list and the time of the
next expiration next to it. A platform looks at that time with every tick and
requests a poll of `etimer_process`, which posts the events of the timers that
have expired.

1. **Model**: the list, its operations, the process, the tick.
2. **Histories**: who armed which timer.
3. **Specifications**: what each function does to the list.
4. **Invariant**: the list, and the next expiration.
5. **Result**: no timer is overlooked, unless `etimer_adjust` lets one expire
   without a poll or the clock comes around a timer whose event is not accepted.

Loops over the list take a bound on their rounds. The clock counts modulo `M`;
a call happens between two ticks.
-/

namespace MasterScheduler.Mote.Etimer

open Lib

/-! ## Model -/

variable {T P : Type} [DecidableEq T]

/-- The variables of `etimer.c` and the members of the timers. -/
structure State (T P : Type) where
  /-- The ticks since the start. -/
  clock : ℕ
  start : T → ℕ
  interval : T → ℕ
  p : T → Option P
  next : T → Option T
  timerlist : Option T
  nextExpiration : ℕ
  /-- `needspoll` of `etimer_process`. -/
  needspoll : Bool

/-- The state at the start. -/
def State.initial : State T P where
  clock := 0
  start := fun _ => 0
  interval := fun _ => 0
  p := fun _ => none
  next := fun _ => none
  timerlist := none
  nextExpiration := 0
  needspoll := false

variable (M : ℕ)

/-- `clock_time`. -/
def clockTime (s : State T P) : ℕ := s.clock % M

/-- `timer_expired`. -/
def timerExpired (s : State T P) (t : T) : Bool :=
  s.interval t < (since M (clockTime M s) (s.start t) + 1) % M

/-- The distance to the expiration of a timer, as `update_time` computes it. -/
def tdist (s : State T P) (t : T) : ℕ := since M (s.start t + s.interval t) (clockTime M s)

/-- The loop of `update_time`, with the least distance so far. -/
def nearest (s : State T P) : ℕ → Option T → ℕ → Option ℕ
  | 0, _, _ => none
  | _ + 1, none, d => some d
  | n + 1, some t, d => nearest s n (s.next t) (if tdist M s t < d then tdist M s t else d)

variable (n : ℕ)

/-- `update_time`. -/
def updateTime (s : State T P) : Option (State T P) :=
  match s.timerlist with
  | none => some { s with nextExpiration := 0 }
  | some t => (nearest M s n (s.next t) (tdist M s t)).map fun d =>
      { s with nextExpiration := (clockTime M s + d) % M }

/-- `add_timer`, called by a process. -/
def addTimer (s : State T P) (current : P) (timer : T) : Option (State T P) :=
  let s := { s with needspoll := true }
  let listed := if s.p timer ≠ none then contains s.next timer n s.timerlist else some false
  listed.bind fun b =>
    if b then updateTime M n { s with p := Function.update s.p timer (some current) }
    else updateTime M n { s with
      p := Function.update s.p timer (some current)
      next := Function.update s.next timer s.timerlist
      timerlist := some timer }

/-- `timer_set`. -/
def timerSet (s : State T P) (t : T) (interval : ℕ) : State T P :=
  { s with
    interval := Function.update s.interval t interval
    start := Function.update s.start t (clockTime M s) }

/-- `timer_reset`. -/
def timerReset (s : State T P) (t : T) : State T P :=
  { s with start := Function.update s.start t ((s.start t + s.interval t) % M) }

/-- `timer_restart`. -/
def timerRestart (s : State T P) (t : T) : State T P :=
  { s with start := Function.update s.start t (clockTime M s) }

/-- `etimer_set`. -/
def etimerSet (s : State T P) (current : P) (et : T) (interval : ℕ) : Option (State T P) :=
  addTimer M n (timerSet M s et interval) current et

/-- `etimer_reset_with_new_interval`. -/
def etimerResetWithNewInterval (s : State T P) (current : P) (et : T) (interval : ℕ) :
    Option (State T P) :=
  let s := timerReset M s et
  addTimer M n { s with interval := Function.update s.interval et interval } current et

/-- `etimer_reset`. -/
def etimerReset (s : State T P) (current : P) (et : T) : Option (State T P) :=
  addTimer M n (timerReset M s et) current et

/-- `etimer_restart`. -/
def etimerRestart (s : State T P) (current : P) (et : T) : Option (State T P) :=
  addTimer M n (timerRestart M s et) current et

/-- A start that is moved by some ticks. -/
def adjusted (s : State T P) (et : T) (timediff : ℤ) : State T P :=
  { s with
    start := Function.update s.start et (((s.start et : ℤ) + timediff) % (M : ℤ)).toNat }

/-- `etimer_adjust`. -/
def etimerAdjust (s : State T P) (et : T) (timediff : ℤ) : Option (State T P) :=
  updateTime M n (adjusted M s et timediff)

/-- What `etimer_stop` does at its end. -/
def detach (s : State T P) (et : T) : State T P :=
  { s with next := Function.update s.next et none, p := Function.update s.p et none }

/-- `etimer_stop`. -/
def etimerStop (s : State T P) (et : T) : Option (State T P) :=
  if s.timerlist = some et then
    (updateTime M n { s with timerlist := s.next et }).map fun s => detach s et
  else
    (before s.next et n s.timerlist).bind fun
      | some t =>
        (updateTime M n { s with next := Function.update s.next t (s.next et) }).map fun s =>
          detach s et
      | none => some (detach s et)

/-- The first loop for `PROCESS_EVENT_EXITED`: the head of the list goes. -/
def dropHeads [DecidableEq P] (p : P) : ℕ → State T P → Option (State T P)
  | 0, _ => none
  | n + 1, s =>
    match s.timerlist with
    | none => some s
    | some t => if s.p t = some p then dropHeads p n { s with timerlist := s.next t } else some s

/-- The second loop: a timer behind another one goes. -/
def dropRest [DecidableEq P] (p : P) : ℕ → T → State T P → Option (State T P)
  | 0, _, _ => none
  | n + 1, t, s =>
    match s.next t with
    | none => some s
    | some u =>
      if s.p u = some p then dropRest p n t { s with next := Function.update s.next t (s.next u) }
      else dropRest p n u s

/-- `etimer_process` with `PROCESS_EVENT_EXITED`. -/
def processExited [DecidableEq P] (s : State T P) (p : P) : Option (State T P) :=
  (dropHeads p n s).bind fun s =>
    match s.timerlist with
    | none => some s
    | some t => dropRest p n t s

/-- A timer whose event was accepted leaves the list; `u` is the timer in front of it. -/
def expire (s : State T P) (u : Option T) (t : T) : State T P :=
  { s with
    p := Function.update s.p t none
    timerlist := if u = none then s.next t else s.timerlist
    next := Function.update
      (match u with
      | some u => Function.update s.next u (s.next t)
      | none => s.next) t none }

/-- The loop for `PROCESS_EVENT_POLL`. The queue of events accepts the `k`-th event or not. The
events that it accepts are returned. -/
def pollLoop (accept : ℕ → Bool) : ℕ → ℕ → Option T → Option T → State T P →
    Option (State T P × List (Option P × T))
  | 0, _, _, _, _ => none
  | _ + 1, _, _, none, s => some (s, [])
  | n + 1, k, u, some t, s =>
    if timerExpired M s t then
      if accept k then
        (updateTime M n (expire s u t)).bind fun s' =>
          (pollLoop accept n (k + 1) none s'.timerlist s').map fun r => (r.1, (s.p t, t) :: r.2)
      else pollLoop accept n (k + 1) (some t) (s.next t) { s with needspoll := true }
    else pollLoop accept n k (some t) (s.next t) s

/-- `etimer_process` with `PROCESS_EVENT_POLL`. -/
def processPoll (accept : ℕ → Bool) (s : State T P) : Option (State T P × List (Option P × T)) :=
  pollLoop M accept n 0 none s.timerlist { s with needspoll := false }

/-- `etimer_next_expiration_time`. -/
def etimerNextExpirationTime (s : State T P) : ℕ :=
  if s.timerlist ≠ none then s.nextExpiration else 0

/-- A tick of the clock. A poll is requested if timers are pending and the clock is at or past
the next expiration, that is, not before it by up to half its range. -/
def tick (s : State T P) : State T P :=
  let s := { s with clock := s.clock + 1 }
  if s.timerlist ≠ none ∧ 2 * since M (clockTime M s) (etimerNextExpirationTime s) < M then
    { s with needspoll := true }
  else s

/-! ## Histories -/

/-- The calls of the modules that use timers, and what happens around them. -/
inductive Event (T P : Type)
  | set (current : P) (et : T) (interval : ℕ)
  | resetWithNewInterval (current : P) (et : T) (interval : ℕ)
  | reset (current : P) (et : T)
  | restart (current : P) (et : T)
  | adjust (et : T) (timediff : ℤ)
  | stop (et : T)
  | start (p : P)
  | exit (p : P)
  | tick
  | poll (accept : ℕ → Bool)

/-- The state, who armed a timer that neither expired nor was stopped since, and the processes
that run. -/
structure History (T P : Type) where
  state : State T P
  armed : T → Option P
  running : P → Bool

/-- The history at the start. -/
def History.initial : History T P := ⟨.initial, fun _ => none, fun _ => false⟩

/-- A call by which a process arms a timer. -/
def arm (h : History T P) (current : P) (et : T) (s : Option (State T P)) :
    Option (History T P) :=
  s.map fun s => { h with state := s, armed := Function.update h.armed et (some current) }

/-- A call, and what it says about the timers. -/
def step [DecidableEq P] (h : History T P) : Event T P → Option (History T P)
  | .set current et interval => arm h current et (etimerSet M n h.state current et interval)
  | .resetWithNewInterval current et interval =>
    arm h current et (etimerResetWithNewInterval M n h.state current et interval)
  | .reset current et => arm h current et (etimerReset M n h.state current et)
  | .restart current et => arm h current et (etimerRestart M n h.state current et)
  | .adjust et timediff =>
    (etimerAdjust M n h.state et timediff).map fun s => { h with state := s }
  | .stop et =>
    (etimerStop M n h.state et).map fun s =>
      { h with state := s, armed := Function.update h.armed et none }
  | .start p => some { h with running := Function.update h.running p true }
  | .exit p =>
    (processExited n h.state p).map fun s =>
      { state := s
        armed := fun t => if h.armed t = some p then none else h.armed t
        running := Function.update h.running p false }
  | .tick => some { h with state := tick M h.state }
  | .poll accept =>
    (processPoll M n accept h.state).map fun r =>
      { h with
        state := r.1
        armed := fun t => if t ∈ r.2.map Prod.snd then none else h.armed t }

/-- A call, with the bound for its loops. -/
def call [DecidableEq P] (h : History T P) (e : ℕ × Event T P) : Option (History T P) :=
  step M e.1 h e.2

/-- Timers are armed by processes that run, with intervals shorter than half of the clock range. -/
def Proper (h : History T P) : Event T P → Prop
  | .set current _ interval => h.running current = true ∧ 2 * interval < M
  | .resetWithNewInterval current _ interval => h.running current = true ∧ 2 * interval < M
  | .reset current _ => h.running current = true
  | .restart current _ => h.running current = true
  | _ => True

/-- What the next expiration is good for: a timer that is adjusted expires only with a poll
requested, an interval that starts one tick ahead of the clock is also shorter than half of the
clock range, and the clock does not come around a timer. -/
def InTime (h : History T P) : Event T P → Prop
  | .resetWithNewInterval _ et interval =>
    since M h.state.clock (h.state.start et + h.state.interval et) + 1 = M →
      2 * (interval + 1) < M
  | .reset _ et =>
    since M h.state.clock (h.state.start et + h.state.interval et) + 1 = M →
      2 * (h.state.interval et + 1) < M
  | .adjust et timediff =>
    h.armed et ≠ none →
      (since M h.state.clock ((adjusted M h.state et timediff).start et) + 1 = M →
        2 * (h.state.interval et + 1) < M) ∧
      (timerExpired M (adjusted M h.state et timediff) et = true → h.state.needspoll = true)
  | .tick => ∀ t, h.armed t ≠ none → since M h.state.clock (h.state.start t) + 2 ≠ M
  | _ => True

/-! ## Specifications -/

section Specifications

variable {M n : ℕ} {s s' : State T P} {a u : Option T} {t x : T} {p current : P}
  {l pre post : List T} {d d' : ℕ}

omit [DecidableEq T] in
/-- The least distance. -/
theorem nearest_le (h : Chain s.next a l) (hd : nearest M s n a d = some d') :
    d' ≤ d ∧ ∀ t ∈ l, d' ≤ tdist M s t := by
  induction n generalizing a l d with
  | zero => cases hd
  | succ n ih =>
    cases l with
    | nil =>
      have ha : a = none := h
      rw [ha, nearest] at hd
      exact ⟨(Option.some.inj hd).ge, fun t ht => absurd ht List.not_mem_nil⟩
    | cons y ys =>
      rw [h.1, nearest] at hd
      obtain ⟨hle, hall⟩ := ih h.2 hd
      have hmin : d' ≤ d ∧ d' ≤ tdist M s y := by
        split at hle <;> omega
      refine ⟨hmin.1, ?_⟩
      intro t ht
      rcases List.mem_cons.mp ht with rfl | ht
      · exact hmin.2
      · exact hall t ht

omit [DecidableEq T] in
/-- The search ends, as the list does. -/
theorem nearest_ends (h : Chain s.next a l) (hn : l.length < n) :
    ∃ d', nearest M s n a d = some d' := by
  induction n generalizing a l d with
  | zero => omega
  | succ n ih =>
    cases l with
    | nil =>
      have ha : a = none := h
      exact ⟨d, by rw [ha, nearest]⟩
    | cons y ys =>
      rw [List.length_cons] at hn
      rw [h.1, nearest]
      exact ih h.2 (by omega)

/-- What the functions do not touch. -/
structure SameTimes (s s' : State T P) : Prop where
  clock : s'.clock = s.clock
  start : s'.start = s.start
  interval : s'.interval = s.interval

/-- The interval of a timer is shorter than half of the clock range, also when it starts one tick
ahead of the clock. -/
structure Fits (M : ℕ) (s : State T P) (t : T) : Prop where
  interval : 2 * s.interval t < M
  ahead : since M s.clock (s.start t) + 1 = M → 2 * (s.interval t + 1) < M

omit [DecidableEq T] in
/-- Expiration depends on the clock, the starts and the intervals only. -/
theorem timerExpired_congr (h : SameTimes s s') : timerExpired M s' t = timerExpired M s t := by
  rw [timerExpired, timerExpired, clockTime, clockTime, h.clock, h.start, h.interval]

omit [DecidableEq T] in
/-- So does the condition that a timer fits the clock. -/
theorem Fits.congr (h : Fits M s t) (hs : SameTimes s s') : Fits M s' t := by
  constructor
  · rw [hs.interval]
    exact h.interval
  · rw [hs.clock, hs.start, hs.interval]
    exact h.ahead

/-- The next expiration is not after the expiration of any timer that is not expired, as the
platform compares them. -/
def Covers (M : ℕ) (s : State T P) (l : List T) : Prop :=
  ∀ t ∈ l, timerExpired M s t = false →
    2 * since M (s.start t + s.interval t) s.nextExpiration < M

omit [DecidableEq T] in
/-- How far away the expiration of a timer is that is not expired. -/
theorem tdist_of_not_expired (h : Fits M s t) (ht : timerExpired M s t = false) :
    2 * tdist M s t < M ∧
      (since M s.clock (s.start t) + 1 = M ∧ tdist M s t = s.interval t + 1 ∨
        since M s.clock (s.start t) + 1 < M ∧ since M s.clock (s.start t) + 1 ≤ s.interval t ∧
          tdist M s t = s.interval t - since M s.clock (s.start t)) := by
  obtain ⟨hinterval, hahead⟩ := h
  have hM : 0 < M := by omega
  have hlt := since_lt hM s.clock (s.start t)
  simp only [timerExpired, clockTime, since_mod_left, decide_eq_false_iff_not, Nat.not_lt] at ht
  rw [tdist, clockTime, since_mod_right]
  by_cases hlast : since M s.clock (s.start t) + 1 = M
  · rw [since_add_left_of_lt (by omega) hM]
    have := hahead hlast
    omega
  · rw [Nat.mod_eq_of_lt (by omega)] at ht
    rw [since_add_left (by omega) (by omega)]
    omega

omit [DecidableEq T] in
/-- `update_time` sets the next expiration and nothing else. -/
theorem updateTime_eq (h : updateTime M n s = some s') :
    s' = { s with nextExpiration := s'.nextExpiration } := by
  unfold updateTime at h
  split at h
  · rw [← Option.some.inj h]
  · obtain ⟨d, _, rfl⟩ := Option.map_eq_some_iff.mp h
    rfl

omit [DecidableEq T] in
/-- `update_time` ends. -/
theorem updateTime_ends (h : Chain s.next s.timerlist l) (hn : l.length ≤ n) :
    ∃ s', updateTime M n s = some s' := by
  unfold updateTime
  cases l with
  | nil =>
    have ha : s.timerlist = none := h
    rw [ha]
    exact ⟨_, rfl⟩
  | cons y ys =>
    rw [h.1]
    obtain ⟨d', hd⟩ := nearest_ends (M := M) (d := tdist M s y) h.2 hn
    exact ⟨_, congrArg (Option.map _) hd⟩

omit [DecidableEq T] in
/-- The next expiration is not after that of a timer of the list. -/
theorem updateTime_covers (h : Chain s.next s.timerlist l) (hfits : ∀ t ∈ l, Fits M s t)
    (hs : updateTime M n s = some s') : Covers M s' l := by
  intro t ht hage
  cases l with
  | nil => cases ht
  | cons y ys =>
    unfold updateTime at hs
    rw [h.1] at hs
    obtain ⟨d, hd, rfl⟩ := Option.map_eq_some_iff.mp hs
    obtain ⟨hle, hall⟩ := nearest_le h.2 hd
    have hdt : d ≤ tdist M s t := by
      rcases List.mem_cons.mp ht with rfl | ht
      · exact hle
      · exact hall t ht
    have hdist := (tdist_of_not_expired (hfits t ht) hage).1
    change 2 * since M (s.start t + s.interval t) ((clockTime M s + d) % M) < M
    rw [since_mod_right, since_add_right hdt (by omega)]
    change 2 * (tdist M s t - d) < M
    omega

/-- A list without a gap: the timers on it, each with the process that armed it. -/
structure Shape (s : State T P) (l : List T) : Prop where
  chain : Chain s.next s.timerlist l
  owned : ∀ t ∈ l, s.p t ≠ none

/-- A timer is on the list afterwards, armed by the caller, and a poll is requested. -/
theorem addTimer_spec (h : Shape s l) (hs : addTimer M n s current t = some s') :
    ∃ l', Shape s' l' ∧ (∀ x, x ∈ l' ↔ x = t ∨ x ∈ l) ∧ SameTimes s s' ∧
      ((∀ x ∈ l', Fits M s x) → Covers M s' l') ∧
      s'.p = Function.update s.p t (some current) ∧ s'.needspoll = true := by
  have howned : ∀ x, x = t ∨ x ∈ l → Function.update s.p t (some current) x ≠ none := by
    intro x hx
    by_cases hxt : x = t
    · rw [hxt, Function.update_self]
      exact Option.some_ne_none _
    · rw [Function.update_of_ne hxt]
      exact h.owned x (hx.resolve_left hxt)
  obtain ⟨b, hb, hs⟩ := Option.bind_eq_some_iff.mp hs
  have hmem : b = decide (t ∈ l) := by
    split at hb
    · exact contains_eq_some h.chain hb
    · -- the list is not searched for a timer that nobody armed
      rename_i hp
      have hnot : t ∉ l := fun ht => h.owned t ht (not_not.mp hp)
      rw [← Option.some.inj hb, decide_eq_false hnot]
  -- A timer that is on the list already is not added again.
  by_cases ht : t ∈ l
  · rw [hmem, if_pos (decide_eq_true ht)] at hs
    have heq := updateTime_eq hs
    refine ⟨l, ⟨?_, ?_⟩, ?_, ?_, ?_, ?_, ?_⟩
    · rw [heq]
      exact h.chain
    · intro x hx
      rw [heq]
      exact howned x (.inr hx)
    · intro x
      constructor
      · exact Or.inr
      · rintro (rfl | hx)
        · exact ht
        · exact hx
    · rw [heq]
      exact ⟨rfl, rfl, rfl⟩
    · intro hfits
      refine updateTime_covers ?_ ?_ hs
      · exact h.chain
      · exact fun x hx => (hfits x hx).congr ⟨rfl, rfl, rfl⟩
    · rw [heq]
    · rw [heq]
  · rw [hmem, if_neg (by simp [ht])] at hs
    have heq := updateTime_eq hs
    have hchain := h.chain.push ht
    refine ⟨t :: l, ⟨?_, ?_⟩, ?_, ?_, ?_, ?_, ?_⟩
    · rw [heq]
      exact hchain
    · intro x hx
      rw [heq]
      exact howned x (List.mem_cons.mp hx)
    · intro x
      exact List.mem_cons
    · rw [heq]
      exact ⟨rfl, rfl, rfl⟩
    · intro hfits
      refine updateTime_covers ?_ ?_ hs
      · exact hchain
      · exact fun x hx => (hfits x hx).congr ⟨rfl, rfl, rfl⟩
    · rw [heq]
    · rw [heq]

/-- `add_timer` ends. -/
theorem addTimer_ends (h : Shape s l) (hn : l.length + 1 < n) :
    ∃ s', addTimer M n s current t = some s' := by
  have hb : ∃ b, (if s.p t ≠ none then contains s.next t n s.timerlist else some false) = some b ∧
      (b = false → t ∉ l) := by
    split
    · refine ⟨_, contains_ends h.chain (by omega), ?_⟩
      intro hb ht
      rw [decide_eq_true ht] at hb
      cases hb
    · rename_i hp
      exact ⟨false, rfl, fun _ ht => h.owned t ht (not_not.mp hp)⟩
  obtain ⟨b, hb, hnew⟩ := hb
  unfold addTimer
  dsimp only
  rw [hb, Option.bind_some]
  cases b with
  | true => exact updateTime_ends h.chain (by omega)
  | false =>
    have hchain := h.chain.push (hnew rfl)
    have hlen : (t :: l).length ≤ n := by
      rw [List.length_cons]
      omega
    let s₁ : State T P :=
      { s with
        needspoll := true
        p := Function.update s.p t (some current)
        next := Function.update s.next t s.timerlist
        timerlist := some t }
    exact updateTime_ends (s := s₁) hchain hlen

/-- The timer is off the list afterwards. -/
theorem etimerStop_spec (h : Shape s l) (hs : etimerStop M n s t = some s') :
    ∃ l', Shape s' l' ∧ (∀ x, x ∈ l' ↔ x ≠ t ∧ x ∈ l) ∧ SameTimes s s' ∧
      ((∀ x ∈ l, Fits M s x) → Covers M s l → Covers M s' l') ∧
      s'.p = Function.update s.p t none ∧ s'.needspoll = s.needspoll := by
  have hnodup := h.chain.nodup
  -- the links of a list without the timer do not change when it is detached
  have hdetach : ∀ {s₁ : State T P} {l₁ : List T}, Chain s₁.next s₁.timerlist l₁ → t ∉ l₁ →
      s₁.p = s.p → (∀ x ∈ l₁, x ∈ l) → Shape (detach s₁ t) l₁ := by
    intro s₁ l₁ hchain hnot hp hsub
    constructor
    · refine hchain.congr fun y hy => ?_
      exact Function.update_of_ne (ne_of_mem_of_not_mem hy hnot) _ _
    · intro x hx
      change Function.update s₁.p t none x ≠ none
      rw [hp, Function.update_of_ne (ne_of_mem_of_not_mem hx hnot)]
      exact h.owned x (hsub x hx)
  unfold etimerStop at hs
  split at hs
  · rename_i hhead
    obtain ⟨s₁, hs₁, rfl⟩ := Option.map_eq_some_iff.mp hs
    cases l with
    | nil =>
      have ha : s.timerlist = none := h.chain
      rw [ha] at hhead
      cases hhead
    | cons y ys =>
      obtain rfl : y = t := Option.some.inj (h.chain.1.symm.trans hhead)
      have hnot := (List.nodup_cons.mp hnodup).1
      have heq := updateTime_eq hs₁
      have hchain : Chain s.next (s.next y) ys := h.chain.2
      refine ⟨ys, ?_, ?_, ?_, ?_, ?_, ?_⟩
      · apply hdetach _ hnot
        · rw [heq]
        · exact fun x hx => List.mem_cons_of_mem y hx
        · rw [heq]
          exact hchain
      · intro x
        constructor
        · intro hx
          exact ⟨ne_of_mem_of_not_mem hx hnot, List.mem_cons_of_mem y hx⟩
        · rintro ⟨hne, hx⟩
          exact (List.mem_cons.mp hx).resolve_left hne
      · rw [heq]
        exact ⟨rfl, rfl, rfl⟩
      · intro hfits _
        have hcovers : Covers M s₁ ys :=
          updateTime_covers (s := { s with timerlist := s.next y }) hchain
            (fun x hx => (hfits x (List.mem_cons_of_mem y hx)).congr ⟨rfl, rfl, rfl⟩) hs₁
        exact hcovers
      · rw [heq]
        rfl
      · rw [heq]
        rfl
  · rename_i hhead
    obtain ⟨r, hr, hs⟩ := Option.bind_eq_some_iff.mp hs
    rcases before_eq_some h.chain hr with ⟨pre, v, post, rfl, rfl⟩ | ⟨rfl, hnot⟩
    · obtain ⟨s₁, hs₁, rfl⟩ := Option.map_eq_some_iff.mp hs
      have heq := updateTime_eq hs₁
      have hchain := h.chain.unlink
      have hmid : t ∉ pre ++ v :: post := by
        have hsplit : (pre ++ [v] ++ t :: post).Nodup := by simpa using hnodup
        simpa using (List.nodup_cons.mp (List.nodup_middle.mp hsplit)).1
      have hmem : ∀ x, x ∈ pre ++ v :: post ↔ x ≠ t ∧ x ∈ pre ++ v :: t :: post := by
        intro x
        constructor
        · intro hx
          refine ⟨ne_of_mem_of_not_mem hx hmid, ?_⟩
          simp only [List.mem_append, List.mem_cons] at hx ⊢
          tauto
        · rintro ⟨hne, hx⟩
          simp only [List.mem_append, List.mem_cons] at hx ⊢
          tauto
      refine ⟨pre ++ v :: post, ?_, hmem, ?_, ?_, ?_, ?_⟩
      · apply hdetach _ hmid
        · rw [heq]
        · exact fun x hx => ((hmem x).mp hx).2
        · rw [heq]
          exact hchain
      · rw [heq]
        exact ⟨rfl, rfl, rfl⟩
      · intro hfits _
        have hcovers : Covers M s₁ (pre ++ v :: post) :=
          updateTime_covers (s := { s with next := Function.update s.next v (s.next t) }) hchain
            (fun x hx => (hfits x ((hmem x).mp hx).2).congr ⟨rfl, rfl, rfl⟩) hs₁
        exact hcovers
      · rw [heq]
        rfl
      · rw [heq]
        rfl
    · obtain rfl := Option.some.inj hs
      have hnot' : t ∉ l := by
        cases l with
        | nil => exact List.not_mem_nil
        | cons y ys =>
          intro ht
          rcases List.mem_cons.mp ht with rfl | ht
          · exact hhead h.chain.1
          · exact hnot ht
      refine ⟨l, hdetach h.chain hnot' rfl fun x hx => hx, ?_, ⟨rfl, rfl, rfl⟩, ?_, rfl, rfl⟩
      case refine_2 => exact fun _ hcovers => hcovers
      intro x
      constructor
      · intro hx
        exact ⟨ne_of_mem_of_not_mem hx hnot', hx⟩
      · exact And.right

/-- `etimer_stop` ends. -/
theorem etimerStop_ends (h : Shape s l) (hn : l.length < n) :
    ∃ s', etimerStop M n s t = some s' := by
  unfold etimerStop
  split
  · rename_i hhead
    have hends : ∃ s₁, updateTime M n { s with timerlist := s.next t } = some s₁ := by
      cases l with
      | nil =>
        have ha : s.timerlist = none := h.chain
        rw [ha] at hhead
        cases hhead
      | cons y ys =>
        obtain rfl : y = t := Option.some.inj (h.chain.1.symm.trans hhead)
        rw [List.length_cons] at hn
        exact updateTime_ends h.chain.2 (by omega)
    obtain ⟨s₁, hs₁⟩ := hends
    exact ⟨_, congrArg (Option.map _) hs₁⟩
  · obtain ⟨r, hr⟩ := before_ends (x := t) h.chain hn
    rw [hr, Option.bind_some]
    rcases before_eq_some h.chain hr with ⟨pre, v, post, rfl, rfl⟩ | ⟨rfl, _⟩
    · have hends : ∃ s₁, updateTime M n { s with next := Function.update s.next v (s.next t) } =
          some s₁ := by
        refine updateTime_ends h.chain.unlink ?_
        simp only [List.length_append, List.length_cons] at hn ⊢
        omega
      obtain ⟨s₁, hs₁⟩ := hends
      exact ⟨_, congrArg (Option.map _) hs₁⟩
    · exact ⟨_, rfl⟩

/-! ### Exits -/

section Exits

variable [DecidableEq P]

omit [DecidableEq T] in
/-- The timers of a process at the head of the list are taken from it. -/
theorem dropHeads_spec (h : Chain s.next s.timerlist l) (hs : dropHeads p n s = some s') :
    ∃ l', Chain s.next s'.timerlist l' ∧ s' = { s with timerlist := s'.timerlist } ∧
      l'.filter (s.p · ≠ some p) = l.filter (s.p · ≠ some p) ∧ l'.length ≤ l.length ∧
      ∀ t ∈ l'.head?, s.p t ≠ some p := by
  induction n generalizing s l with
  | zero => cases hs
  | succ n ih =>
    cases l with
    | nil =>
      have ha : s.timerlist = none := h
      rw [dropHeads, ha] at hs
      obtain rfl := Option.some.inj hs
      exact ⟨[], h, rfl, rfl, le_rfl, fun t ht => nomatch ht⟩
    | cons y ys =>
      rw [dropHeads, h.1] at hs
      dsimp only at hs
      split at hs
      · rename_i hy
        obtain ⟨l', hchain, heq, hfilter, hlen, hhead⟩ :=
          ih (s := { s with timerlist := s.next y }) h.2 hs
        refine ⟨l', hchain, heq, ?_, hlen.trans (Nat.le_succ _), hhead⟩
        rw [hfilter, List.filter_cons_of_neg (by simp [hy])]
      · rename_i hy
        obtain rfl := Option.some.inj hs
        refine ⟨y :: ys, h, rfl, rfl, le_rfl, ?_⟩
        intro t ht
        rw [← Option.some.inj ht]
        exact hy

omit [DecidableEq T] in
/-- This loop ends. -/
theorem dropHeads_ends (h : Chain s.next s.timerlist l) (hn : l.length < n) :
    ∃ s', dropHeads p n s = some s' := by
  induction n generalizing s l with
  | zero => omega
  | succ n ih =>
    cases l with
    | nil =>
      have ha : s.timerlist = none := h
      exact ⟨s, by rw [dropHeads, ha]⟩
    | cons y ys =>
      rw [List.length_cons] at hn
      rw [dropHeads, h.1]
      dsimp only
      split
      · exact ih (s := { s with timerlist := s.next y }) h.2 (by omega)
      · exact ⟨s, rfl⟩

/-- The timers of a process behind a timer that stays are taken from the list. -/
theorem dropRest_spec (h : Chain s.next a (pre ++ t :: post)) (hs : dropRest p n t s = some s') :
    s' = { s with next := s'.next } ∧
      Chain s'.next a (pre ++ t :: post.filter (s.p · ≠ some p)) := by
  induction n generalizing s pre t post with
  | zero => cases hs
  | succ n ih =>
    cases post with
    | nil =>
      have hnext : s.next t = none := h.suffix
      rw [dropRest, hnext] at hs
      obtain rfl := Option.some.inj hs
      exact ⟨rfl, h⟩
    | cons v vs =>
      rw [dropRest, h.suffix.1] at hs
      dsimp only at hs
      split at hs
      · rename_i hv
        obtain ⟨heq, hchain⟩ :=
          ih (s := { s with next := Function.update s.next t (s.next v) }) h.unlink hs
        refine ⟨heq, ?_⟩
        rw [List.filter_cons_of_neg (by simp [hv])]
        exact hchain
      · rename_i hv
        have hv' : Chain s.next a (pre ++ [t] ++ v :: vs) := by simpa using h
        obtain ⟨heq, hchain⟩ := ih hv' hs
        refine ⟨heq, ?_⟩
        rw [List.filter_cons_of_pos (by simp [hv])]
        simpa using hchain

/-- This loop ends too. -/
theorem dropRest_ends (h : Chain s.next a (pre ++ t :: post)) (hn : post.length < n) :
    ∃ s', dropRest p n t s = some s' := by
  induction n generalizing s pre t post with
  | zero => omega
  | succ n ih =>
    cases post with
    | nil =>
      have hnext : s.next t = none := h.suffix
      exact ⟨s, by rw [dropRest, hnext]⟩
    | cons v vs =>
      rw [List.length_cons] at hn
      rw [dropRest, h.suffix.1]
      dsimp only
      split
      · exact ih (s := { s with next := Function.update s.next t (s.next v) }) h.unlink (by omega)
      · have hv : Chain s.next a (pre ++ [t] ++ v :: vs) := by simpa using h
        exact ih hv (by omega)

/-- The timers of the process leave the list, and nothing else changes. -/
theorem processExited_spec (h : Shape s l) (hs : processExited n s p = some s') :
    Shape s' (l.filter (s.p · ≠ some p)) ∧
      s' = { s with next := s'.next, timerlist := s'.timerlist } := by
  obtain ⟨s₁, hs₁, hs⟩ := Option.bind_eq_some_iff.mp hs
  obtain ⟨l₁, hchain, heq, hfilter, _, hhead⟩ := dropHeads_spec h.chain hs₁
  rw [heq] at hs
  have howned : ∀ t ∈ l.filter (s.p · ≠ some p), s.p t ≠ none :=
    fun t ht => h.owned t (List.mem_filter.mp ht).1
  rw [← hfilter] at howned ⊢
  cases l₁ with
  | nil =>
    have ha : s₁.timerlist = none := hchain
    rw [ha] at hs
    obtain rfl := Option.some.inj hs
    exact ⟨⟨rfl, howned⟩, rfl⟩
  | cons y ys =>
    rw [hchain.1] at hs
    have hlist : Chain s.next (some y) ([] ++ y :: ys) := ⟨rfl, hchain.2⟩
    obtain ⟨heq', hchain'⟩ := dropRest_spec (s := { s with timerlist := some y }) hlist hs
    have hy : s.p y ≠ some p := hhead y rfl
    rw [List.filter_cons_of_pos (by simp [hy])] at howned ⊢
    rw [heq']
    exact ⟨⟨hchain', howned⟩, rfl⟩

/-- The exit of a process ends. -/
theorem processExited_ends (h : Shape s l) (hn : l.length < n) :
    ∃ s', processExited n s p = some s' := by
  obtain ⟨s₁, hs₁⟩ := dropHeads_ends (p := p) h.chain hn
  obtain ⟨l₁, hchain, heq, _, hlen, _⟩ := dropHeads_spec h.chain hs₁
  rw [processExited, hs₁, Option.bind_some]
  cases l₁ with
  | nil =>
    have ha : s₁.timerlist = none := hchain
    exact ⟨s₁, by rw [ha]⟩
  | cons y ys =>
    rw [List.length_cons] at hlen
    have hchain' : Chain s₁.next s₁.timerlist ([] ++ y :: ys) := by
      rw [heq]
      exact hchain
    rw [hchain.1]
    exact dropRest_ends hchain' (by omega)

end Exits

/-! ### Polls -/

section Polls

variable {k : ℕ} {accept : ℕ → Bool} {suf : List T} {posts : List (Option P × T)}

/-- An expired timer leaves the list, the others stay in order. -/
theorem expire_chain (h : Chain s.next s.timerlist (pre ++ t :: post)) (hu : u = pre.getLast?) :
    Chain (expire s u t).next (expire s u t).timerlist (pre ++ post) := by
  have hnot : t ∉ pre ++ post := (List.nodup_cons.mp (List.nodup_middle.mp h.nodup)).1
  have hlink : ∀ (f : T → Option T), ∀ x ∈ pre ++ post, Function.update f t none x = f x :=
    fun f x hx => Function.update_of_ne (ne_of_mem_of_not_mem hx hnot) _ _
  rcases List.eq_nil_or_concat pre with rfl | ⟨pre, v, rfl⟩
  · obtain rfl : u = none := hu
    refine Chain.congr ?_ (hlink s.next)
    exact h.2
  · obtain rfl : u = some v := by simpa using hu
    rw [List.concat_eq_append, List.append_assoc] at h
    refine Chain.congr ?_ (hlink (Function.update s.next v (s.next t)))
    rw [List.concat_eq_append, List.append_assoc]
    exact h.unlink

/-- What a poll of the process does: the timers whose events are accepted leave the list, and
expired ones stay only if an event was not accepted. -/
structure Polled (M : ℕ) (accept : ℕ → Bool) (s s' : State T P) (l l' : List T)
    (posts : List (Option P × T)) : Prop where
  shape : Shape s' l'
  same : SameTimes s s'
  left : ∀ x, x ∈ l' ↔ x ∈ l ∧ x ∉ posts.map Prod.snd
  once : (posts.map Prod.snd).Nodup
  expired : ∀ r ∈ posts, r.2 ∈ l ∧ timerExpired M s r.2 = true ∧ r.1 = s.p r.2
  owners : ∀ x, s'.p x = if x ∈ posts.map Prod.snd then none else s.p x
  covers : (∀ x ∈ l, Fits M s x) → Covers M s l → Covers M s' l'
  pending : (∃ x ∈ l', timerExpired M s x = true) → s'.needspoll = true ∧ ∃ k, accept k = false

/-- A timer whose event is accepted, and then the rest. -/
theorem Polled.cons {s₁ : State T P} {l' : List T} (h : Shape s (pre ++ t :: post))
    (ht : timerExpired M s t = true) (hu : u = pre.getLast?)
    (hs₁ : updateTime M n (expire s u t) = some s₁)
    (hrest : Polled M accept s₁ s' (pre ++ post) l' posts) :
    Polled M accept s s' (pre ++ t :: post) l' ((s.p t, t) :: posts) := by
  have hnot : t ∉ pre ++ post := (List.nodup_cons.mp (List.nodup_middle.mp h.chain.nodup)).1
  have heq := updateTime_eq hs₁
  have hp : s₁.p = Function.update s.p t none := by
    rw [heq]
    rfl
  have hsame : SameTimes s s₁ := by
    rw [heq]
    exact ⟨rfl, rfl, rfl⟩
  have hposted : t ∉ posts.map Prod.snd := by
    intro hmem
    obtain ⟨r, hr, rfl⟩ := List.mem_map.mp hmem
    exact hnot (hrest.expired r hr).1
  have hmid : ∀ x, x ∈ pre ++ t :: post ↔ x = t ∨ x ∈ pre ++ post := by
    intro x
    simp only [List.mem_append, List.mem_cons]
    tauto
  -- The expired timer leaves the list with its event, the rest of the poll serves the others.
  constructor
  · exact hrest.shape
  · exact ⟨hrest.same.clock.trans hsame.clock, hrest.same.start.trans hsame.start,
      hrest.same.interval.trans hsame.interval⟩
  · intro x
    rw [hrest.left, hmid, List.map_cons, List.mem_cons]
    constructor
    · rintro ⟨hx, hxp⟩
      refine ⟨.inr hx, ?_⟩
      rintro (rfl | hx')
      · exact hnot hx
      · exact hxp hx'
    · rintro ⟨hx, hxp⟩
      exact ⟨hx.resolve_left fun h => hxp (.inl h), fun h => hxp (.inr h)⟩
  · exact List.nodup_cons.mpr ⟨hposted, hrest.once⟩
  · intro r hr
    rcases List.mem_cons.mp hr with rfl | hr
    · exact ⟨(hmid t).mpr (.inl rfl), ht, rfl⟩
    · obtain ⟨hl, hexp, hown⟩ := hrest.expired r hr
      rw [timerExpired_congr hsame] at hexp
      rw [hp, Function.update_of_ne (ne_of_mem_of_not_mem hl hnot)] at hown
      exact ⟨(hmid _).mpr (.inr hl), hexp, hown⟩
  · intro x
    rw [hrest.owners, hp, List.map_cons]
    by_cases hxt : x = t
    · rw [hxt, Function.update_self, if_pos List.mem_cons_self]
      split <;> rfl
    · rw [Function.update_of_ne hxt]
      simp only [List.mem_cons, hxt, false_or]
  · intro hfits _
    have hfits' : ∀ x ∈ pre ++ post, Fits M s x := fun x hx => hfits x ((hmid x).mpr (.inr hx))
    refine hrest.covers (fun x hx => (hfits' x hx).congr hsame) ?_
    exact updateTime_covers (s := expire s u t) (expire_chain h.chain hu)
      (fun x hx => (hfits' x hx).congr ⟨rfl, rfl, rfl⟩) hs₁
  · rintro ⟨x, hx, hexp⟩
    rw [← timerExpired_congr hsame] at hexp
    exact hrest.pending ⟨x, hx, hexp⟩

/-- The loop, with the timers `pre` behind it. -/
theorem pollLoop_spec {r : State T P × List (Option P × T)} (h : Shape s (pre ++ suf))
    (ha : Chain s.next a suf) (hu : u = pre.getLast?)
    (hpre : (∃ x ∈ pre, timerExpired M s x = true) →
      s.needspoll = true ∧ ∃ k, accept k = false)
    (hr : pollLoop M accept n k u a s = some r) :
    ∃ l', Polled M accept s r.1 (pre ++ suf) l' r.2 := by
  -- On the fuel. After a timer expired, the loop starts at the head of the list again.
  induction n generalizing s k u a pre suf r with
  | zero => cases hr
  | succ n ih =>
    cases suf with
    | nil =>
      obtain rfl : a = none := ha
      rw [pollLoop] at hr
      obtain rfl := Option.some.inj hr
      rw [List.append_nil] at h ⊢
      exact ⟨pre, h, ⟨rfl, rfl, rfl⟩, by simp, List.nodup_nil, by simp, by simp,
        fun _ hcovers => hcovers, hpre⟩
    | cons t post =>
      rw [ha.1, pollLoop] at hr
      have hsplit : pre ++ t :: post = pre ++ [t] ++ post := by simp
      have hu' : some t = (pre ++ [t]).getLast? := by simp
      split at hr
      · rename_i ht
        split at hr
        · -- the event is accepted: the loop starts again at the head
          obtain ⟨s₁, hs₁, hr⟩ := Option.bind_eq_some_iff.mp hr
          obtain ⟨r₁, hr₁, rfl⟩ := Option.map_eq_some_iff.mp hr
          have heq := updateTime_eq hs₁
          have hchain := expire_chain h.chain hu
          have hnot : t ∉ pre ++ post :=
            (List.nodup_cons.mp (List.nodup_middle.mp h.chain.nodup)).1
          have hshape : Shape s₁ ([] ++ (pre ++ post)) := by
            rw [heq]
            refine ⟨hchain, ?_⟩
            intro x hx
            change Function.update s.p t none x ≠ none
            rw [Function.update_of_ne (ne_of_mem_of_not_mem hx hnot)]
            refine h.owned x ?_
            simp only [List.nil_append, List.mem_append, List.mem_cons] at hx ⊢
            tauto
          obtain ⟨l', hrest⟩ := ih hshape hshape.chain rfl (by simp) hr₁
          exact ⟨l', hrest.cons h ht hu hs₁⟩
        · -- the event is not accepted: the timer stays, and a poll is requested
          rename_i hk
          rw [hsplit] at h ⊢
          obtain ⟨l', hrest⟩ := ih (s := { s with needspoll := true }) ⟨h.chain, h.owned⟩ ha.2 hu'
            (fun _ => ⟨rfl, k, Bool.not_eq_true _ ▸ hk⟩) hr
          exact ⟨l', hrest.shape, ⟨hrest.same.clock, hrest.same.start, hrest.same.interval⟩,
            hrest.left, hrest.once, hrest.expired, hrest.owners,
            fun hfits => hrest.covers fun x hx => (hfits x hx).congr ⟨rfl, rfl, rfl⟩,
            hrest.pending⟩
      · rename_i ht
        rw [hsplit] at h ⊢
        refine ih h ha.2 hu' ?_ hr
        rintro ⟨x, hx, hexp⟩
        rcases List.mem_append.mp hx with hx | hx
        · exact hpre ⟨x, hx, hexp⟩
        · rw [List.mem_singleton.mp hx] at hexp
          exact absurd hexp ht

/-- A poll serves the expired timers and keeps the others. -/
theorem processPoll_spec {r : State T P × List (Option P × T)} (h : Shape s l)
    (hr : processPoll M n accept s = some r) : ∃ l', Polled M accept s r.1 l l' r.2 := by
  have hshape : Shape { s with needspoll := false } ([] ++ l) := ⟨h.chain, h.owned⟩
  obtain ⟨l', hloop⟩ := pollLoop_spec hshape h.chain rfl (by simp) hr
  exact ⟨l', hloop.shape, ⟨hloop.same.clock, hloop.same.start, hloop.same.interval⟩, hloop.left,
    hloop.once, hloop.expired, hloop.owners,
    fun hfits => hloop.covers fun x hx => (hfits x hx).congr ⟨rfl, rfl, rfl⟩, hloop.pending⟩

/-- Every accepted event shortens the list. -/
theorem pollLoop_ends (h : Chain s.next s.timerlist (pre ++ suf)) (ha : Chain s.next a suf)
    (hu : u = pre.getLast?)
    (hn : (pre ++ suf).length * ((pre ++ suf).length + 2) + suf.length < n) :
    ∃ r, pollLoop M accept n k u a s = some r := by
  -- On the fuel: a restart costs the length of the list, and each one takes a timer from it.
  induction n generalizing s k u a pre suf with
  | zero => omega
  | succ n ih =>
    cases suf with
    | nil =>
      obtain rfl : a = none := ha
      exact ⟨_, by rw [pollLoop]⟩
    | cons t post =>
      rw [ha.1, pollLoop]
      have hsplit : pre ++ t :: post = pre ++ [t] ++ post := by simp
      have hu' : some t = (pre ++ [t]).getLast? := by simp
      have hskip : (pre ++ [t] ++ post).length * ((pre ++ [t] ++ post).length + 2) +
          post.length < n := by
        rw [hsplit, List.length_cons] at hn
        omega
      split
      · split
        · have hchain := expire_chain h hu
          have hlen : (pre ++ t :: post).length = (pre ++ post).length + 1 := by
            simp only [List.length_append, List.length_cons]
            omega
          rw [hlen] at hn
          have hmul : ((pre ++ post).length + 1) * ((pre ++ post).length + 1 + 2) =
              (pre ++ post).length * ((pre ++ post).length + 2) +
                2 * (pre ++ post).length + 3 := by ring
          obtain ⟨s₁, hs₁⟩ := updateTime_ends (M := M) (n := n) hchain (by omega)
          rw [hs₁, Option.bind_some]
          have heq := updateTime_eq hs₁
          have hchain₁ : Chain s₁.next s₁.timerlist ([] ++ (pre ++ post)) := by
            rw [heq]
            exact hchain
          have hless : ([] ++ (pre ++ post)).length * (([] ++ (pre ++ post)).length + 2) +
              (pre ++ post).length < n := by
            rw [List.nil_append]
            omega
          obtain ⟨r, hr⟩ := ih (k := k + 1) hchain₁ hchain₁ rfl hless
          exact ⟨_, congrArg (Option.map _) hr⟩
        · rw [hsplit] at h
          exact ih (s := { s with needspoll := true }) h ha.2 hu' hskip
      · rw [hsplit] at h
        exact ih h ha.2 hu' hskip

end Polls

end Specifications

/-! ## Invariant -/

section Invariant

variable {M n : ℕ} {h h' : History T P} {l : List T} {s₀ s' : State T P} {et : T} {current : P}

/-- What holds between two calls. -/
structure Inv (M : ℕ) (h : History T P) (l : List T) : Prop where
  shape : Shape h.state l
  listed : ∀ t, t ∈ l ↔ h.armed t ≠ none
  owners : ∀ t p, h.armed t = some p → h.state.p t = some p ∧ h.running p = true
  intervals : ∀ t, 2 * h.state.interval t < M
  fits : ∀ t ∈ l, Fits M h.state t
  covers : Covers M h.state l
  polled : ∀ t ∈ l, timerExpired M h.state t = true → h.state.needspoll = true

omit [DecidableEq T] in
/-- No timer is set at first. -/
theorem inv_initial (hM : 0 < M) : Inv M (History.initial : History T P) [] := by
  constructor
  · exact ⟨rfl, fun t ht => absurd ht List.not_mem_nil⟩
  · exact fun t => ⟨fun ht => absurd ht List.not_mem_nil, fun ht => absurd rfl ht⟩
  · exact fun t p ht => nomatch ht
  · exact fun _ => hM
  · exact fun t ht => absurd ht List.not_mem_nil
  · exact fun t ht => absurd ht List.not_mem_nil
  · exact fun t ht => absurd ht List.not_mem_nil

/-- The times of one timer change. -/
structure Retimed (s s₀ : State T P) (et : T) : Prop where
  clock : s₀.clock = s.clock
  p : s₀.p = s.p
  next : s₀.next = s.next
  timerlist : s₀.timerlist = s.timerlist
  needspoll : s₀.needspoll = s.needspoll
  start : ∀ x, x ≠ et → s₀.start x = s.start x
  interval : ∀ x, x ≠ et → s₀.interval x = s.interval x

/-- `timer_set` changes one timer. -/
theorem retimed_set (s : State T P) (et : T) (interval : ℕ) :
    Retimed s (timerSet M s et interval) et :=
  ⟨rfl, rfl, rfl, rfl, rfl, fun _ hx => Function.update_of_ne hx _ _,
    fun _ hx => Function.update_of_ne hx _ _⟩

/-- So does the reset with a new interval. -/
theorem retimed_resetWithNewInterval (s : State T P) (et : T) (interval : ℕ) :
    Retimed s
      { timerReset M s et with interval := Function.update s.interval et interval } et :=
  ⟨rfl, rfl, rfl, rfl, rfl, fun _ hx => Function.update_of_ne hx _ _,
    fun _ hx => Function.update_of_ne hx _ _⟩

/-- So does `timer_reset`. -/
theorem retimed_reset (s : State T P) (et : T) : Retimed s (timerReset M s et) et :=
  ⟨rfl, rfl, rfl, rfl, rfl, fun _ hx => Function.update_of_ne hx _ _, fun _ _ => rfl⟩

/-- So does `timer_restart`. -/
theorem retimed_restart (s : State T P) (et : T) : Retimed s (timerRestart M s et) et :=
  ⟨rfl, rfl, rfl, rfl, rfl, fun _ hx => Function.update_of_ne hx _ _, fun _ _ => rfl⟩

/-- So does an adjustment. -/
theorem retimed_adjusted (s : State T P) (et : T) (timediff : ℤ) :
    Retimed s (adjusted M s et timediff) et :=
  ⟨rfl, rfl, rfl, rfl, rfl, fun _ hx => Function.update_of_ne hx _ _, fun _ _ => rfl⟩

omit [DecidableEq T] in
/-- The times of a timer are no part of the list. -/
theorem Retimed.shape {s : State T P} (hr : Retimed s s₀ et) (hs : Shape s l) : Shape s₀ l := by
  constructor
  · rw [hr.next, hr.timerlist]
    exact hs.chain
  · rw [hr.p]
    exact hs.owned

omit [DecidableEq T] in
/-- The other timers still fit the clock. -/
theorem Retimed.fits {s : State T P} {x : T} (hr : Retimed s s₀ et) (hx : x ≠ et)
    (hfits : Fits M s x) : Fits M s₀ x := by
  constructor
  · rw [hr.interval x hx]
    exact hfits.interval
  · rw [hr.clock, hr.start x hx, hr.interval x hx]
    exact hfits.ahead

omit [DecidableEq T] in
/-- The other timers expire when they did. -/
theorem Retimed.timerExpired {s : State T P} {x : T} (hr : Retimed s s₀ et) (hx : x ≠ et) :
    timerExpired M s₀ x = timerExpired M s x := by
  rw [Etimer.timerExpired, Etimer.timerExpired, clockTime, clockTime, hr.clock, hr.start x hx,
    hr.interval x hx]

/-- A timer that is set again and added keeps the invariant, and is armed. -/
theorem Inv.arm (hinv : Inv M h l) (hr : Retimed h.state s₀ et) (hfits : Fits M s₀ et)
    (hrun : h.running current = true) (hs : arm h current et (addTimer M n s₀ current et) = some h') :
    ∃ l', Inv M h' l' := by
  obtain ⟨s', hs', rfl⟩ := Option.map_eq_some_iff.mp hs
  have hfits₀ : ∀ x, x = et ∨ x ∈ l → Fits M s₀ x := by
    intro x hx
    by_cases hxe : x = et
    · rw [hxe]
      exact hfits
    · exact hr.fits hxe (hinv.fits x (hx.resolve_left hxe))
  -- The timer is on the list, and the next expiration covers it.
  obtain ⟨l', hshape, hmem, hsame, hcovers, hp, hpoll⟩ := addTimer_spec (hr.shape hinv.shape) hs'
  have hfits' : ∀ x ∈ l', Fits M s₀ x := fun x hx => hfits₀ x ((hmem x).mp hx)
  have hcovers := hcovers hfits'
  refine ⟨l', hshape, ?_, ?_, ?_, ?_, hcovers, fun _ _ _ => hpoll⟩
  · intro t
    rw [hmem t, hinv.listed t]
    by_cases ht : t = et
    · simp [ht]
    · simp [ht]
  · intro t p ht
    change s'.p t = some p ∧ h.running p = true
    rw [hp]
    by_cases hte : t = et
    · simp only [hte, Function.update_self, Option.some.injEq] at ht ⊢
      rw [← ht]
      exact ⟨rfl, hrun⟩
    · simp only [Function.update_of_ne hte] at ht ⊢
      rw [hr.p]
      exact hinv.owners t p ht
  · intro t
    change 2 * s'.interval t < M
    rw [hsame.interval]
    by_cases hte : t = et
    · rw [hte]
      exact hfits.interval
    · rw [hr.interval t hte]
      exact hinv.intervals t
  · exact fun t ht => (hfits' t ht).congr hsame

omit [DecidableEq T] in
/-- A start at the clock. -/
theorem fits_now (hM : 1 < M) (hinterval : 2 * s₀.interval et < M)
    (hstart : s₀.start et = clockTime M s₀) : Fits M s₀ et := by
  refine ⟨hinterval, ?_⟩
  intro hahead
  rw [hstart, clockTime, since_mod_right, since_self (by omega)] at hahead
  omega

/-- An adjustment in time keeps the invariant. -/
theorem Inv.adjust {timediff : ℤ} (hinv : Inv M h l)
    (hok : InTime M h (.adjust et timediff))
    (hs : etimerAdjust M n h.state et timediff = some s') :
    Inv M { h with state := s' } l := by
  have hr := retimed_adjusted (M := M) h.state et timediff
  have hshape := hr.shape hinv.shape
  -- The adjusted timer still fits the clock, by assumption.
  have hfits : ∀ t ∈ l, Fits M (adjusted M h.state et timediff) t := by
    intro t ht
    by_cases hte : t = et
    · rw [hte] at ht ⊢
      exact ⟨hinv.intervals et, (hok ((hinv.listed et).mp ht)).1⟩
    · exact hr.fits hte (hinv.fits t ht)
  have hcovers := updateTime_covers hshape.chain hfits hs
  have heq := updateTime_eq hs
  have hsame : SameTimes (adjusted M h.state et timediff) s' := by
    rw [heq]
    exact ⟨rfl, rfl, rfl⟩
  have hneeds : s'.needspoll = h.state.needspoll := by
    rw [heq]
    rfl
  refine ⟨?_, hinv.listed, ?_, ?_, ?_, hcovers, ?_⟩
  · rw [heq]
    exact ⟨hshape.chain, hshape.owned⟩
  · rw [heq]
    exact hinv.owners
  · rw [heq]
    exact hinv.intervals
  · exact fun t ht => (hfits t ht).congr hsame
  · intro t ht hexp
    change s'.needspoll = true
    rw [timerExpired_congr hsame] at hexp
    rw [hneeds]
    by_cases hte : t = et
    · rw [hte] at ht hexp
      exact (hok ((hinv.listed et).mp ht)).2 hexp
    · rw [hr.timerExpired hte] at hexp
      exact hinv.polled t ht hexp

/-- A stop keeps the invariant, and the timer is not armed any more. -/
theorem Inv.stop (hinv : Inv M h l) (hs : etimerStop M n h.state et = some s') :
    ∃ l', Inv M { h with state := s', armed := Function.update h.armed et none } l' := by
  obtain ⟨l', hshape, hmem, hsame, hcovers, hp, hpoll⟩ := etimerStop_spec hinv.shape hs
  have hcovers := hcovers hinv.fits hinv.covers
  refine ⟨l', hshape, ?_, ?_, ?_, ?_, hcovers, ?_⟩
  · intro t
    rw [hmem t, hinv.listed t]
    by_cases ht : t = et
    · simp [ht]
    · simp [ht]
  · intro t p ht
    change s'.p t = some p ∧ h.running p = true
    by_cases hte : t = et
    · simp [hte] at ht
    · rw [hp]
      simp only [Function.update_of_ne hte] at ht ⊢
      exact hinv.owners t p ht
  · intro t
    change 2 * s'.interval t < M
    rw [hsame.interval]
    exact hinv.intervals t
  · exact fun t ht => (hinv.fits t ((hmem t).mp ht).2).congr hsame
  · intro t ht hexp
    change s'.needspoll = true
    rw [timerExpired_congr hsame] at hexp
    rw [hpoll]
    exact hinv.polled t ((hmem t).mp ht).2 hexp

/-- An exit keeps the invariant, and disarms the timers of the process. -/
theorem Inv.exit [DecidableEq P] {p : P} (hinv : Inv M h l)
    (hs : processExited n h.state p = some s') :
    ∃ l', Inv M
      { state := s'
        armed := fun t => if h.armed t = some p then none else h.armed t
        running := Function.update h.running p false } l' := by
  obtain ⟨hshape, heq⟩ := processExited_spec hinv.shape hs
  -- The timers of the process leave, the others stay armed.
  have hsub : ∀ t ∈ l.filter (h.state.p · ≠ some p), t ∈ l := fun t ht => (List.mem_filter.mp ht).1
  have hsame : SameTimes h.state s' := by
    rw [heq]
    exact ⟨rfl, rfl, rfl⟩
  refine ⟨_, hshape, ?_, ?_, ?_, ?_, ?_, ?_⟩
  · intro t
    rw [List.mem_filter, hinv.listed t]
    cases ht : h.armed t with
    | none => simp [ht]
    | some q =>
      have hq := (hinv.owners t q ht).1
      simp [hq, ht]
  · intro t q ht
    simp only [ite_eq_iff, reduceCtorEq, and_false, false_or] at ht
    obtain ⟨hne, ht⟩ := ht
    have hqp : q ≠ p := by
      rintro rfl
      exact hne ht
    rw [heq]
    change h.state.p t = some q ∧ Function.update h.running p false q = true
    rw [Function.update_of_ne hqp]
    exact hinv.owners t q ht
  · rw [heq]
    exact hinv.intervals
  · exact fun t ht => (hinv.fits t (hsub t ht)).congr hsame
  · intro t ht hexp
    rw [timerExpired_congr hsame] at hexp
    rw [heq]
    exact hinv.covers t (hsub t ht) hexp
  · intro t ht hexp
    rw [timerExpired_congr hsame] at hexp
    rw [heq]
    exact hinv.polled t (hsub t ht) hexp

omit [DecidableEq T] in
/-- A tick changes the clock and the request of a poll only. -/
theorem tick_eq (s : State T P) :
    tick M s = { s with clock := s.clock + 1, needspoll := (tick M s).needspoll } := by
  unfold Etimer.tick
  dsimp only
  split <;> rfl

/-- A timer that expires with a tick is covered by the next expiration. -/
theorem Inv.tick (hM : 1 < M) (hinv : Inv M h l) (hok : InTime M h .tick) :
    Inv M { h with state := Etimer.tick M h.state } l := by
  have hsame := tick_eq (M := M) h.state
  have hkeep : h.state.needspoll = true → (Etimer.tick M h.state).needspoll = true := by
    intro hneeds
    unfold Etimer.tick
    dsimp only
    split
    · rfl
    · exact hneeds
  -- one tick more, and the clock does not come around
  have hage : ∀ t ∈ l, since M h.state.clock (h.state.start t) + 1 = M ∧
        since M (h.state.clock + 1) (h.state.start t) = 0 ∨
      since M h.state.clock (h.state.start t) + 2 < M ∧
        since M (h.state.clock + 1) (h.state.start t) =
          since M h.state.clock (h.state.start t) + 1 := by
    intro t ht
    have hlt := since_lt (show 0 < M by omega) h.state.clock (h.state.start t)
    have hne := hok t ((hinv.listed t).mp ht)
    by_cases hlast : since M h.state.clock (h.state.start t) + 1 = M
    · exact .inl ⟨hlast, since_succ_last (by omega) hlast⟩
    · exact .inr ⟨by omega, since_succ (by omega)⟩
  have hexpired : ∀ t ∈ l, timerExpired M (Etimer.tick M h.state) t = true ↔
      h.state.interval t < since M (h.state.clock + 1) (h.state.start t) + 1 := by
    intro t ht
    rw [hsame]
    simp only [timerExpired, clockTime, since_mod_left, decide_eq_true_eq]
    rw [Nat.mod_eq_of_lt]
    rcases hage t ht with ⟨_, h0⟩ | ⟨_, h1⟩ <;> omega
  refine ⟨?_, hinv.listed, ?_, ?_, ?_, ?_, ?_⟩
  · rw [hsame]
    exact ⟨hinv.shape.chain, hinv.shape.owned⟩
  · rw [hsame]
    exact hinv.owners
  · rw [hsame]
    exact hinv.intervals
  · intro t ht
    rw [hsame]
    refine ⟨hinv.intervals t, ?_⟩
    intro hahead
    change since M (h.state.clock + 1) (h.state.start t) + 1 = M at hahead
    rcases hage t ht with ⟨_, h0⟩ | ⟨_, h1⟩ <;> omega
  · intro t ht hexp
    have hnot : ¬ timerExpired M (Etimer.tick M h.state) t = true := by simp [hexp]
    rw [hexpired t ht] at hnot
    have hbefore : timerExpired M h.state t = false := by
      simp only [timerExpired, clockTime, since_mod_left, decide_eq_false_iff_not]
      rcases hage t ht with ⟨h1, h0⟩ | ⟨h2, h1⟩
      · rw [h1, Nat.mod_self]
        omega
      · rw [Nat.mod_eq_of_lt (by omega)]
        omega
    rw [hsame]
    exact hinv.covers t ht hbefore
  · intro t ht hexp
    rw [hexpired t ht] at hexp
    by_cases hbefore : timerExpired M h.state t = true
    · exact hkeep (hinv.polled t ht hbefore)
    · -- it expires right now
      have hfalse := Bool.not_eq_true _ ▸ hbefore
      have hcover := hinv.covers t ht hfalse
      have hdist : tdist M h.state t = 1 := by
        rcases (tdist_of_not_expired (hinv.fits t ht) hfalse).2 with ⟨h1, h2⟩ | ⟨h1, h2, h3⟩ <;>
          rcases hage t ht with ⟨h4, h5⟩ | ⟨h4, h5⟩ <;> omega
      have hnow : h.state.clock + 1 ≡ h.state.start t + h.state.interval t [MOD M] := by
        rw [tdist, clockTime, since_mod_right] at hdist
        exact (since_eq_iff hM).mp hdist
      have hlist : h.state.timerlist ≠ none := by
        intro hnone
        have hchain := hinv.shape.chain
        rw [hnone] at hchain
        cases l with
        | nil => exact absurd ht List.not_mem_nil
        | cons y ys => exact nomatch hchain.1
      unfold Etimer.tick
      dsimp only
      rw [if_pos]
      refine ⟨hlist, ?_⟩
      rw [clockTime, since_mod_left, etimerNextExpirationTime, if_pos hlist]
      rw [since_congr hnow (show h.state.nextExpiration ≡ h.state.nextExpiration [MOD M] from rfl)]
      exact hcover

/-- A poll keeps the invariant. -/
theorem Inv.poll {accept : ℕ → Bool} {r : State T P × List (Option P × T)} (hinv : Inv M h l)
    (hr : processPoll M n accept h.state = some r) :
    ∃ l', Polled M accept h.state r.1 l l' r.2 ∧
      Inv M
        { h with
          state := r.1
          armed := fun t => if t ∈ r.2.map Prod.snd then none else h.armed t } l' := by
  obtain ⟨l', hpolled⟩ := processPoll_spec hinv.shape hr
  have hsub : ∀ t ∈ l', t ∈ l := fun t ht => ((hpolled.left t).mp ht).1
  refine ⟨l', hpolled, hpolled.shape, ?_, ?_, ?_, ?_, hpolled.covers hinv.fits hinv.covers, ?_⟩
  · intro t
    rw [hpolled.left t, hinv.listed t]
    by_cases ht : t ∈ r.2.map Prod.snd
    · simp [ht]
    · simp only [if_neg ht]
      exact and_iff_left ht
  · intro t p ht
    simp only [ite_eq_iff, reduceCtorEq, and_false, false_or] at ht
    obtain ⟨hnot, ht⟩ := ht
    rw [hpolled.owners t, if_neg hnot]
    exact hinv.owners t p ht
  · intro t
    rw [hpolled.same.interval]
    exact hinv.intervals t
  · exact fun t ht => (hinv.fits t (hsub t ht)).congr hpolled.same
  · intro t ht hexp
    rw [timerExpired_congr hpolled.same] at hexp
    exact (hpolled.pending ⟨t, ht, hexp⟩).1

variable [DecidableEq P]

/-- Every call. -/
theorem Inv.call {e : ℕ × Event T P} (hM : 1 < M) (hinv : Inv M h l) (hproper : Proper M h e.2)
    (hok : InTime M h e.2) (hs : call M h e = some h') : ∃ l', Inv M h' l' := by
  obtain ⟨n, e⟩ := e
  -- Every function sets a timer again, stops one, or updates the times.
  cases e with
  | set current et interval =>
    refine hinv.arm (retimed_set h.state et interval) ?_ hproper.1 hs
    refine fits_now hM ?_ (Function.update_self ..)
    change 2 * Function.update h.state.interval et interval et < M
    rw [Function.update_self]
    exact hproper.2
  | resetWithNewInterval current et interval =>
    refine hinv.arm (retimed_resetWithNewInterval h.state et interval) ?_ hproper.1 hs
    constructor
    · change 2 * Function.update h.state.interval et interval et < M
      rw [Function.update_self]
      exact hproper.2
    · intro hahead
      simp only [timerReset, Function.update_self, since_mod_right] at hahead ⊢
      exact hok hahead
  | reset current et =>
    refine hinv.arm (retimed_reset h.state et) ⟨hinv.intervals et, ?_⟩ hproper hs
    intro hahead
    simp only [timerReset, Function.update_self, since_mod_right] at hahead ⊢
    exact hok hahead
  | restart current et =>
    have hfits : Fits M (timerRestart M h.state et) et :=
      fits_now hM (hinv.intervals et) (Function.update_self ..)
    exact hinv.arm (retimed_restart h.state et) hfits hproper hs
  | adjust et timediff =>
    obtain ⟨s', hs', rfl⟩ := Option.map_eq_some_iff.mp hs
    exact ⟨l, hinv.adjust hok hs'⟩
  | stop et =>
    obtain ⟨s', hs', rfl⟩ := Option.map_eq_some_iff.mp hs
    exact hinv.stop hs'
  | start p =>
    obtain rfl := Option.some.inj hs
    refine ⟨l, hinv.shape, hinv.listed, ?_, hinv.intervals, hinv.fits, hinv.covers, hinv.polled⟩
    intro t q ht
    obtain ⟨hq, hrun⟩ := hinv.owners t q ht
    refine ⟨hq, ?_⟩
    change Function.update h.running p true q = true
    by_cases hqp : q = p
    · rw [hqp, Function.update_self]
    · rw [Function.update_of_ne hqp]
      exact hrun
  | exit p =>
    obtain ⟨s', hs', rfl⟩ := Option.map_eq_some_iff.mp hs
    exact hinv.exit hs'
  | tick =>
    obtain rfl := Option.some.inj hs
    exact ⟨l, hinv.tick hM hok⟩
  | poll accept =>
    obtain ⟨r, hr, rfl⟩ := Option.map_eq_some_iff.mp hs
    obtain ⟨l', _, hinv'⟩ := hinv.poll hr
    exact ⟨l', hinv'⟩

/-- The loops end. -/
theorem Inv.ends (hinv : Inv M h l) : ∃ n, ∀ e, ∃ h', Etimer.call M h (n, e) = some h' := by
  -- Enough for the poll, the longest of the loops.
  refine ⟨l.length * (l.length + 2) + l.length + 2, ?_⟩
  intro e
  have hlen : l.length + 1 < l.length * (l.length + 2) + l.length + 2 := by omega
  have harm : ∀ (s₀ : State T P) current et, Retimed h.state s₀ et →
      ∃ h', Etimer.arm h current et
        (addTimer M (l.length * (l.length + 2) + l.length + 2) s₀ current et) = some h' := by
    intro s₀ current et hr
    obtain ⟨s', hs'⟩ : ∃ s', addTimer M (l.length * (l.length + 2) + l.length + 2) s₀ current et =
        some s' := addTimer_ends (hr.shape hinv.shape) hlen
    exact ⟨_, congrArg (Option.map _) hs'⟩
  cases e with
  | set current et interval =>
    exact harm _ current et (retimed_set h.state et interval)
  | resetWithNewInterval current et interval =>
    exact harm _ current et (retimed_resetWithNewInterval h.state et interval)
  | reset current et => exact harm _ current et (retimed_reset h.state et)
  | restart current et => exact harm _ current et (retimed_restart h.state et)
  | adjust et timediff =>
    obtain ⟨s', hs'⟩ := updateTime_ends (M := M) (s := adjusted M h.state et timediff)
      hinv.shape.chain (show l.length ≤ l.length * (l.length + 2) + l.length + 2 by omega)
    exact ⟨_, congrArg (Option.map _) hs'⟩
  | stop et =>
    obtain ⟨s', hs'⟩ := etimerStop_ends (t := et) (M := M) hinv.shape (Nat.lt_of_succ_lt hlen)
    exact ⟨_, congrArg (Option.map _) hs'⟩
  | start p => exact ⟨_, rfl⟩
  | exit p =>
    obtain ⟨s', hs'⟩ := processExited_ends (p := p) hinv.shape (Nat.lt_of_succ_lt hlen)
    exact ⟨_, congrArg (Option.map _) hs'⟩
  | tick => exact ⟨_, rfl⟩
  | poll accept =>
    have hchain : Chain h.state.next h.state.timerlist ([] ++ l) := hinv.shape.chain
    obtain ⟨r, hr⟩ : ∃ r, pollLoop M accept (l.length * (l.length + 2) + l.length + 2) 0 none
        h.state.timerlist { h.state with needspoll := false } = some r :=
      pollLoop_ends hchain hchain rfl (by
        rw [List.nil_append]
        omega)
    exact ⟨_, congrArg (Option.map _) hr⟩

end Invariant

/-! ## Result -/

/-- No timer is overlooked. -/
structure Sound (M : ℕ) [DecidableEq P] (h : History T P) : Prop where
  /-- The list ends, has no timer twice, and holds the armed timers. -/
  listed : ∃ l, Chain h.state.next h.state.timerlist l ∧ l.Nodup ∧
    ∀ t, t ∈ l ↔ h.armed t ≠ none
  /-- A timer belongs to the process that armed it, which runs. -/
  owners : ∀ t p, h.armed t = some p → h.state.p t = some p ∧ h.running p = true
  polled : ∀ t, h.armed t ≠ none → timerExpired M h.state t = true → h.state.needspoll = true
  /-- A poll posts one event for a timer, to the process that armed it, and only when the timer
  has expired. The timer leaves the list with it. Another one that has expired waits for the
  next poll, and only if the queue refused an event. -/
  polls : ∀ n accept r, processPoll M n accept h.state = some r →
    (r.2.map Prod.snd).Nodup ∧
    (∀ q ∈ r.2, h.armed q.2 = q.1 ∧ q.1 ≠ none ∧ timerExpired M h.state q.2 = true) ∧
    ∃ l, Chain r.1.next r.1.timerlist l ∧
      (∀ t, t ∈ l ↔ h.armed t ≠ none ∧ t ∉ r.2.map Prod.snd) ∧
      ∀ t ∈ l, timerExpired M h.state t = true → r.1.needspoll = true ∧ ∃ k, accept k = false
  /-- Every call returns. -/
  returns : ∃ n, ∀ e, ∃ h', call M h (n, e) = some h'

variable [DecidableEq P] {M : ℕ} {h : History T P} {l : List T}

/-- What the invariant says of a state. -/
theorem Inv.sound (hinv : Inv M h l) : Sound M h := by
  refine ⟨⟨l, hinv.shape.chain, hinv.shape.chain.nodup, hinv.listed⟩, hinv.owners, ?_, ?_,
    hinv.ends⟩
  · exact fun t ht => hinv.polled t ((hinv.listed t).mpr ht)
  · intro n accept r hr
    obtain ⟨l', hpolled, _⟩ := hinv.poll hr
    refine ⟨hpolled.once, ?_, l', hpolled.shape.chain, ?_, ?_⟩
    · intro q hq
      obtain ⟨hl, hexp, hown⟩ := hpolled.expired q hq
      cases ha : h.armed q.2 with
      | none => exact absurd ha ((hinv.listed _).mp hl)
      | some p =>
        rw [(hinv.owners _ p ha).1] at hown
        rw [hown]
        exact ⟨rfl, Option.some_ne_none p, hexp⟩
    · intro t
      rw [hpolled.left t, hinv.listed t]
    · intro t ht hexp
      exact hpolled.pending ⟨t, ht, hexp⟩

/-- In every run in which the next expiration stays good for all timers, no timer is
overlooked. -/
theorem timers_sound_of_run (hM : 1 < M)
    (h' : Run (call M) (fun h e => Proper M h e.2 ∧ InTime M h e.2) History.initial h) :
    Sound M h := by
  have hinv : ∃ l, Inv M h l := by
    apply h'.invariant (I := fun h => ∃ l, Inv M h l)
    · rintro h e h₁ ⟨l, hinv⟩ ⟨hproper, hok⟩ hs
      exact hinv.call hM hproper hok hs
    · exact ⟨[], inv_initial (by omega)⟩
  obtain ⟨l, hinv⟩ := hinv
  exact hinv.sound

instance (h : History T P) (e : Event T P) : Decidable (Proper M h e) :=
  match e with
  | .set _ _ _ => inferInstanceAs (Decidable (_ ∧ _))
  | .resetWithNewInterval _ _ _ => inferInstanceAs (Decidable (_ ∧ _))
  | .reset _ _ => inferInstanceAs (Decidable (_ = _))
  | .restart _ _ => inferInstanceAs (Decidable (_ = _))
  | .adjust _ _ | .stop _ | .start _ | .exit _ | .tick | .poll _ =>
    inferInstanceAs (Decidable True)

instance [Fintype T] (h : History T P) (e : Event T P) : Decidable (InTime M h e) :=
  match e with
  | .resetWithNewInterval _ _ _ => inferInstanceAs (Decidable (_ → _))
  | .reset _ _ => inferInstanceAs (Decidable (_ → _))
  | .adjust _ _ => inferInstanceAs (Decidable (_ → _ ∧ _))
  | .tick => inferInstanceAs (Decidable (∀ _, _))
  | .set _ _ _ | .restart _ _ | .stop _ | .start _ | .exit _ | .poll _ =>
    inferInstanceAs (Decidable True)

/-- The event of a timer is refused once and then accepted, and the timer is reset. Another one
is adjusted. -/
theorem timers_sound_of_run_refused : ∃ h : History (Fin 2) Bool,
    (h.armed 0 = some true ∧ h.state.start 0 = 3 ∧ h.state.timerlist = some 0) ∧ Sound 16 h := by
  obtain ⟨h, hrun, hstate⟩ := exists_run_of_runEvents (call 16)
    (fun h e => Proper 16 h e.2 ∧ InTime 16 h e.2) (History.initial : History (Fin 2) Bool)
    [(9, .start true), (9, .set true 0 3), (9, .set true 1 7), (9, .poll fun _ => true),
      (9, .tick), (9, .tick), (9, .tick), (9, .tick), (9, .poll fun _ => false),
      (9, .poll fun _ => true), (9, .reset true 0), (9, .adjust 1 2)]
    (fun h => h.armed 0 = some true ∧ h.state.start 0 = 3 ∧ h.state.timerlist = some 0)
    (by decide +kernel)
  exact ⟨h, hstate, timers_sound_of_run (by decide) hrun⟩

/-- `etimer_adjust` lets a timer expire, and nobody looks at it. -/
theorem adjusted_overlooked : ∃ h : History (Fin 2) Bool,
    Run (call 16) (fun h e => Proper 16 h e.2) History.initial h ∧ ¬ Sound 16 h := by
  obtain ⟨h, hrun, harmed, hexpired, hpoll⟩ := exists_run_of_runEvents (call 16)
    (fun h e => Proper 16 h e.2) (History.initial : History (Fin 2) Bool)
    [(9, .start true), (9, .set true 0 3), (9, .set true 1 7), (9, .poll fun _ => true),
      (9, .tick), (9, .adjust 0 (-3))]
    (fun h => h.armed 0 ≠ none ∧ timerExpired 16 h.state 0 = true ∧ h.state.needspoll = false)
    (by decide +kernel)
  refine ⟨h, hrun, ?_⟩
  intro hsound
  have htrue := hsound.polled 0 harmed hexpired
  rw [hpoll] at htrue
  cases htrue

end MasterScheduler.Mote.Etimer

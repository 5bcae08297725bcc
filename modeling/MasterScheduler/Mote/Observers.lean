import MasterScheduler.Lib.Bytes
import MasterScheduler.Lib.Links
import MasterScheduler.Lib.Transition
import Mathlib.Data.Fintype.Card
import Mathlib.Data.List.TakeWhile

/-!
# MasterScheduler.Mote.Observers — the observers of CoAP resources

`coap-observe.c` keeps observers in a pool and on a list. Four functions walk
through the list and remove the observers that match, one after the other, with
a function that clears the link of what it removes.

1. **Model**: the pool and the list, the walk, the five calls.
2. **Walk**: it ends with the first observer that is removed (`walk_spec`).
3. **Histories**: the list of every reachable state (`Listed`).
4. **Result**: `observer_calls_iff`.

An observer is a place in the pool. Loops over the list take a bound on their
rounds; a list has no more nodes than the pool.
-/

namespace MasterScheduler.Mote.Observers

open Lib

/-! ## Model -/

variable {Addr : Type} {max : ℕ}

/-- `coap_observer_t`. The URL is the string in its array, up to the zero. -/
structure Observer (Addr : Type) where
  url : List UInt8
  addr : Addr
  port : UInt16
  tokenLen : UInt8
  token : Memory
  lastMid : UInt16

/-- `observers_list`, and `observers_memb` with its counters. `max` is `COAP_MAX_OBSERVERS`. -/
structure State (Addr : Type) (max : ℕ) where
  list : Links (Fin max)
  observer : Fin max → Observer Addr
  count : Fin max → ℕ

/-- `memb_free`. -/
def membFree (s : State Addr max) (o : Fin max) : State Addr max :=
  { s with count := Function.update s.count o (s.count o - 1) }

/-- `memb_alloc`. -/
def membAlloc (s : State Addr max) : Option (Fin max × State Addr max) :=
  ((List.finRange max).find? fun o => s.count o = 0).map fun o =>
    (o, { s with count := Function.update s.count o (s.count o + 1) })

/-- `coap_remove_observer`. -/
def coapRemoveObserver (s : State Addr max) (o : Fin max) : Option (State Addr max) :=
  let s := membFree s o
  (s.list.remove (max + 1) o).map fun list => { s with list := list }

/-- The loop of the functions that remove observers. -/
def walk (accepts : Fin max → Observer Addr → Bool) :
    ℕ → Option (Fin max) → ℕ → State Addr max → Option (ℕ × State Addr max)
  | 0, _, _, _ => none
  | _ + 1, none, removed, s => some (removed, s)
  | n + 1, some obs, removed, s =>
    if accepts obs (s.observer obs) then
      (coapRemoveObserver s obs).bind fun s => walk accepts n (s.list.next obs) (removed + 1) s
    else walk accepts n (s.list.next obs) removed s

/-- A loop over the whole list. -/
def removeAll (accepts : Fin max → Observer Addr → Bool) (s : State Addr max) :
    Option (ℕ × State Addr max) :=
  walk accepts (max + 1) s.list.head 0 s

/-- A pointer to a URL: into an observer, or elsewhere. -/
inductive Uri (max : ℕ) where
  | own (o : Fin max)
  | bytes (m : Memory)

/-- What is stored from the pointer on. -/
def Uri.content (s : State Addr max) : Uri max → Memory
  | .own o => fun i => (s.observer o).url.getD i 0
  | .bytes m => m

/-- `obs->url == uri`. -/
def Uri.isUrlOf (o : Fin max) : Uri max → Bool
  | .own o' => o = o'
  | .bytes _ => false

section Calls

variable [DecidableEq Addr]

/-- `uip_ipaddr_cmp(&obs->addr, addr) && obs->port == port`. -/
def sameClient (addr : Addr) (port : UInt16) (obs : Observer Addr) : Bool :=
  obs.addr = addr ∧ obs.port = port

/-- The condition in `coap_remove_observer_by_token`. -/
def acceptsToken (addr : Addr) (port : UInt16) (token : Memory) (tokenLen : ℕ)
    (obs : Observer Addr) : Bool :=
  sameClient addr port obs ∧ obs.tokenLen.toNat = tokenLen ∧
    obs.token.read 0 tokenLen = token.read 0 tokenLen

/-- The condition in `coap_remove_observer_by_uri`: as many bytes are compared as the URL of the
observer has. -/
def acceptsUri (content : Memory) (addr : Option Addr) (port : UInt16) (uri : Uri max)
    (o : Fin max) (obs : Observer Addr) : Bool :=
  (match addr with
    | none => true
    | some addr => sameClient addr port obs) &&
    (uri.isUrlOf o || decide (obs.url = content.read 0 obs.url.length))

/-- The condition in `coap_remove_observer_by_mid`. -/
def acceptsMid (addr : Addr) (port : UInt16) (mid : UInt16) (obs : Observer Addr) : Bool :=
  sameClient addr port obs ∧ obs.lastMid = mid

/-- `coap_remove_observer_by_client`. -/
def coapRemoveObserverByClient (s : State Addr max) (addr : Addr) (port : UInt16) :
    Option (ℕ × State Addr max) :=
  removeAll (fun _ => sameClient addr port) s

/-- `coap_remove_observer_by_token`. -/
def coapRemoveObserverByToken (s : State Addr max) (addr : Addr) (port : UInt16) (token : Memory)
    (tokenLen : ℕ) : Option (ℕ × State Addr max) :=
  removeAll (fun _ => acceptsToken addr port token tokenLen) s

/-- `coap_remove_observer_by_uri`. -/
def coapRemoveObserverByUri (s : State Addr max) (addr : Option Addr) (port : UInt16)
    (uri : Uri max) : Option (ℕ × State Addr max) :=
  removeAll (acceptsUri (uri.content s) addr port uri) s

/-- `coap_remove_observer_by_mid`. -/
def coapRemoveObserverByMid (s : State Addr max) (addr : Addr) (port : UInt16) (mid : UInt16) :
    Option (ℕ × State Addr max) :=
  removeAll (fun _ => acceptsMid addr port mid) s

/-- `COAP_OBSERVER_URL_LEN`. -/
def coapObserverUrlLen : ℕ := 20

/-- `add_observer`. The URL need not end with a zero. -/
def addObserver (s : State Addr max) (addr : Addr) (port : UInt16) (token : Memory)
    (tokenLen : UInt8) (uri : Memory) (uriLen : ℕ) :
    Option (Option (Fin max) × State Addr max) :=
  (coapRemoveObserverByUri s (some addr) port (.bytes uri)).bind fun r =>
    match membAlloc r.2 with
    | none => some (none, r.2)
    | some (o, s) =>
      let len := min (coapObserverUrlLen - 1) uriLen
      let obs := {
        url := (uri.read 0 len).takeWhile (· ≠ 0)
        addr := addr
        port := port
        tokenLen := tokenLen
        token := (s.observer o).token.write 0 (token.read 0 tokenLen.toNat)
        lastMid := 0 }
      (s.list.add (max + 1) o).map fun list =>
        (some o, { s with list := list, observer := Function.update s.observer o obs })

/-! ## What the calls are for -/

/-- A call. With a URL comes its length, that of the string or an argument of the call. -/
inductive Call (Addr : Type) (max : ℕ) where
  | byClient (addr : Addr) (port : UInt16)
  | byToken (addr : Addr) (port : UInt16) (token : Memory) (tokenLen : ℕ)
  | byUri (addr : Option Addr) (port : UInt16) (uri : Uri max) (uriLen : ℕ)
  | byMid (addr : Addr) (port : UInt16) (mid : UInt16)
  | add (addr : Addr) (port : UInt16) (token : Memory) (tokenLen : UInt8) (uri : Memory)
      (uriLen : ℕ)

/-- The observers that a call is for. -/
def Call.matching (s : State Addr max) : Call Addr max → Observer Addr → Bool
  | .byClient addr port => sameClient addr port
  | .byToken addr port token tokenLen => fun obs => sameClient addr port obs ∧
      obs.token.read 0 obs.tokenLen.toNat = token.read 0 tokenLen
  | .byUri addr port uri uriLen => fun obs =>
      (addr = none ∨ addr = some obs.addr ∧ obs.port = port) ∧
        obs.url = (uri.content s).read 0 uriLen
  | .byMid addr port mid => fun obs => sameClient addr port obs ∧ obs.lastMid = mid
  | .add addr port _ _ uri uriLen => fun obs => sameClient addr port obs ∧
      obs.url = uri.read 0 uriLen

/-- The observers that the condition in the code accepts. -/
def Call.accepts (s : State Addr max) : Call Addr max → Fin max → Observer Addr → Bool
  | .byClient addr port => fun _ => sameClient addr port
  | .byToken addr port token tokenLen => fun _ => acceptsToken addr port token tokenLen
  | .byUri addr port uri _ => acceptsUri (uri.content s) addr port uri
  | .byMid addr port mid => fun _ => acceptsMid addr port mid
  | .add addr port _ _ uri _ => acceptsUri uri (some addr) port (.bytes uri)

/-- What a call returns and the state behind it. `add_observer` returns an observer. -/
def Call.run (s : State Addr max) : Call Addr max → Option (ℕ × State Addr max)
  | .byClient addr port => coapRemoveObserverByClient s addr port
  | .byToken addr port token tokenLen => coapRemoveObserverByToken s addr port token tokenLen
  | .byUri addr port uri _ => coapRemoveObserverByUri s addr port uri
  | .byMid addr port mid => coapRemoveObserverByMid s addr port mid
  | .add addr port token tokenLen uri uriLen =>
      (addObserver s addr port token tokenLen uri uriLen).map fun r => (r.1.toList.length, r.2)

/-- The matching observers of a list are counted, removed and freed, and the others stay. -/
def RemovesExactly (s : State Addr max) (l : List (Fin max)) (c : Call Addr max) : Prop :=
  let isMatch := fun o => c.matching s (s.observer o)
  ∃ s', c.run s = some ((l.filter isMatch).length, s') ∧ s'.list.Is (l.filter (!isMatch ·)) ∧
    s'.count = (fun o => if o ∈ l.filter isMatch then s.count o - 1 else s.count o) ∧
    s'.observer = s.observer

/-- There is one observer on the list for the client and the URL of the call. -/
def LeavesOne (s : State Addr max) (c : Call Addr max) : Prop :=
  ∃ r s' l', c.run s = some (r, s') ∧ s'.list.Is l' ∧
    (l'.filter fun o => c.matching s (s'.observer o)).length = 1

/-- What has to hold of a call. -/
def Meets (s : State Addr max) (l : List (Fin max)) : Call Addr max → Prop
  | .add addr port token tokenLen uri uriLen =>
      LeavesOne s (.add addr port token tokenLen uri uriLen)
  | c => RemovesExactly s l c

/-- The first observer on the list that the code accepts. -/
def firstAccepted (s : State Addr max) (l : List (Fin max)) (c : Call Addr max) :
    Option (Fin max) :=
  l.find? fun o => c.accepts s o (s.observer o)

/-- A URL that fits into the array of an observer and has no zero. -/
def Fits (uri : Memory) (uriLen : ℕ) : Prop :=
  uriLen < coapObserverUrlLen ∧ 0 ∉ uri.read 0 uriLen

instance (uri : Memory) (uriLen : ℕ) : Decidable (Fits uri uriLen) :=
  inferInstanceAs (Decidable (_ ∧ _))

/-- When a call does what it has to. -/
def Condition (s : State Addr max) (l : List (Fin max)) : Call Addr max → Prop
  | .add addr port token tokenLen uri uriLen =>
      let c := Call.add addr port token tokenLen uri uriLen
      Fits uri uriLen ∧ ((∃ o, s.count o = 0) ∨ firstAccepted s l c ≠ none) ∧
        ∀ o ∈ l, c.matching s (s.observer o) → firstAccepted s l c = some o
  | .byUri addr port uri uriLen =>
      let c := Call.byUri addr port uri uriLen
      ∀ o ∈ l, c.matching s (s.observer o) ↔ firstAccepted s l c = some o
  | c => ∀ o ∈ l, ∀ o' ∈ l, c.matching s (s.observer o) → c.matching s (s.observer o') → o = o'

end Calls

/-- The list of a state: its nodes are the places of the pool that are in use, and their URLs were
written by `add_observer`. -/
structure Listed (s : State Addr max) (l : List (Fin max)) : Prop where
  is : s.list.Is l
  count : ∀ o, s.count o = if o ∈ l then 1 else 0
  url : ∀ o ∈ l, (s.observer o).url.length < coapObserverUrlLen ∧ 0 ∉ (s.observer o).url

/-! ## Walk -/

section Walk

variable {s s' : State Addr max} {l pre post : List (Fin max)} {o : Fin max}
  {accepts : Fin max → Observer Addr → Bool}

theorem Listed.length_le (h : Listed s l) : l.length ≤ max := by
  have hnodup := Chain.nodup h.is
  simpa using List.Nodup.length_le_card hnodup

/-- Removing an observer of the list. -/
theorem coapRemoveObserver_spec (h : s.list.Is l) (hlen : l.length ≤ max) (ho : o ∈ l) :
    ∃ s', coapRemoveObserver s o = some s' ∧ s'.list.Is (l.erase o) ∧ s'.list.next o = none ∧
      s'.count = Function.update s.count o (s.count o - 1) ∧ s'.observer = s.observer := by
  obtain ⟨pre, post, rfl, hpre⟩ := List.eq_append_cons_of_mem ho
  obtain ⟨list, hlist, his, hnone⟩ := Links.remove_mem h (Nat.lt_succ_of_le hlen)
  refine ⟨{ membFree s o with list := list }, ?_, ?_, hnone, rfl, rfl⟩
  · unfold coapRemoveObserver
    have hfree : (membFree s o).list = s.list := rfl
    dsimp only
    rw [hfree, hlist]
    rfl
  · rw [List.erase_append_right _ hpre, List.erase_cons_head]
    exact his

theorem walk_none {n removed : ℕ} (hn : 0 < n) :
    walk accepts n none removed s = some (removed, s) := by
  cases n with
  | zero => cases hn
  | succ n => rfl

/-- From some node on, nothing is accepted, or the first that is accepted is removed. -/
theorem walk_from {n removed : ℕ} {a : Option (Fin max)} (h : s.list.Is l) (hlen : l.length ≤ max)
    (ha : Chain s.list.next a post) (hsub : ∀ o ∈ post, o ∈ l) (hn : post.length < n) :
    match post.find? fun o => accepts o (s.observer o) with
    | none => walk accepts n a removed s = some (removed, s)
    | some o => ∃ s', walk accepts n a removed s = some (removed + 1, s') ∧
        s'.list.Is (l.erase o) ∧ s'.count = Function.update s.count o (s.count o - 1) ∧
        s'.observer = s.observer := by
  induction post generalizing a n with
  | nil =>
    have hnone : a = none := ha
    rw [hnone]
    exact walk_none hn
  | cons o post ih =>
    cases n with
    | zero => cases hn
    | succ n =>
      rw [List.length_cons] at hn
      rw [ha.1, List.find?_cons]
      cases hacc : accepts o (s.observer o) with
      | true =>
        obtain ⟨s', hs', his, hnone, hcount, hobs⟩ :=
          coapRemoveObserver_spec h hlen (hsub o List.mem_cons_self)
        refine ⟨s', ?_, his, hcount, hobs⟩
        -- the link of what was removed is cleared, and the loop is over
        rw [walk, if_pos hacc, hs', Option.bind_some, hnone]
        exact walk_none (by omega)
      | false =>
        have hrest := ih (n := n) ha.2 (fun o' ho' => hsub o' (List.mem_cons_of_mem o ho')) (by omega)
        rw [walk, if_neg (by rw [hacc]; exact Bool.false_ne_true)]
        exact hrest

variable (accepts) in
/-- A loop over the list removes the first observer that is accepted, and no other one. -/
theorem walk_spec (h : Listed s l) :
    match l.find? fun o => accepts o (s.observer o) with
    | none => removeAll accepts s = some (0, s)
    | some o => ∃ s', removeAll accepts s = some (1, s') ∧ s'.list.Is (l.erase o) ∧
        s'.count = Function.update s.count o (s.count o - 1) ∧ s'.observer = s.observer :=
  walk_from h.is h.length_le h.is (fun _ ho => ho) (Nat.lt_succ_of_le h.length_le)

/-- What was removed leaves a list. -/
theorem Listed.erase (h : Listed s l) (ho : o ∈ l) (his : s'.list.Is (l.erase o))
    (hcount : s'.count = Function.update s.count o (s.count o - 1))
    (hobs : s'.observer = s.observer) : Listed s' (l.erase o) := by
  have hnodup := Chain.nodup h.is
  refine ⟨his, ?_, ?_⟩
  · intro o'
    rw [hcount]
    by_cases heq : o' = o
    · rw [heq, Function.update_self, h.count, if_pos ho, if_neg hnodup.not_mem_erase]
    · rw [Function.update_of_ne heq, h.count]
      simp only [List.mem_erase_of_ne heq]
  · intro o' ho'
    rw [hobs]
    exact h.url o' (List.mem_of_mem_erase ho')

/-- What matches is the first that is accepted. -/
theorem removesExactly_iff (h : Listed s l) (isMatch : Fin max → Bool) :
    (∃ s', removeAll accepts s = some ((l.filter isMatch).length, s') ∧
      s'.list.Is (l.filter (!isMatch ·)) ∧
      s'.count = (fun o => if o ∈ l.filter isMatch then s.count o - 1 else s.count o) ∧
      s'.observer = s.observer) ↔
    ∀ o ∈ l, isMatch o = true ↔ (l.find? fun o => accepts o (s.observer o)) = some o := by
  have hnodup := Chain.nodup h.is
  have hspec := walk_spec accepts h
  -- The walk ends at the first observer it removes, as `list_remove` clears its link.
  cases hfirst : l.find? fun o => accepts o (s.observer o) with
  | none =>
    rw [hfirst] at hspec
    dsimp only at hspec
    rw [hspec]
    constructor
    · rintro ⟨s', hs', -, -, -⟩ o ho
      have hlen := (Prod.mk.inj (Option.some.inj hs')).1
      have hnil : l.filter isMatch = [] := List.length_eq_zero_iff.mp hlen.symm
      have hno := List.filter_eq_nil_iff.mp hnil o ho
      simp [hno]
    · intro hno
      have hfalse : ∀ o ∈ l, ¬ isMatch o = true := fun o ho hm => by cases (hno o ho).mp hm
      have hnil : l.filter isMatch = [] := List.filter_eq_nil_iff.mpr hfalse
      have hall : l.filter (!isMatch ·) = l := by
        rw [List.filter_eq_self]
        intro o ho
        simpa using hfalse o ho
      refine ⟨s, by rw [hnil]; rfl, ?_, ?_, rfl⟩
      · rw [hall]
        exact h.is
      · funext o
        rw [hnil, if_neg List.not_mem_nil]
  | some x =>
    rw [hfirst] at hspec
    obtain ⟨s', hs', his, hcount, hobs⟩ := hspec
    have hx : x ∈ l := List.mem_of_find?_eq_some hfirst
    rw [hs']
    constructor
    · rintro ⟨s₁, hs₁, his₁, -, -⟩ o ho
      obtain ⟨hlen, rfl⟩ := Prod.mk.inj (Option.some.inj hs₁)
      have hsame := Chain.unique his his₁
      have hmem : ∀ o ∈ l, isMatch o = true ↔ o = x := by
        intro o ho
        have hiff : o ∈ l.erase x ↔ o ∈ l.filter (!isMatch ·) := by rw [hsame]
        rw [hnodup.mem_erase_iff, List.mem_filter] at hiff
        simp only [ho, and_true, true_and, Bool.not_eq_true', ne_eq] at hiff
        rw [← not_iff_not, Bool.not_eq_true, ← hiff]
      rw [hmem o ho, Option.some.injEq]
      exact eq_comm
    · intro hone
      have hmem : ∀ o ∈ l, isMatch o = true ↔ o = x := by
        intro o ho
        rw [hone o ho, Option.some.injEq]
        exact eq_comm
      have hfilter : l.filter isMatch = [x] := by
        rw [← List.perm_singleton,
          List.perm_ext_iff_of_nodup (List.Nodup.filter _ hnodup) (List.nodup_singleton x)]
        intro o
        rw [List.mem_filter, List.mem_singleton]
        constructor
        · rintro ⟨ho, hm⟩
          exact (hmem o ho).mp hm
        · rintro rfl
          exact ⟨hx, (hmem o hx).mpr rfl⟩
      have hrest : l.filter (!isMatch ·) = l.erase x := by
        rw [hnodup.erase_eq_filter]
        refine List.filter_congr fun o ho => ?_
        rw [Bool.eq_iff_iff, Bool.not_eq_true', ← Bool.not_eq_true, hmem o ho, bne_iff_ne]
      refine ⟨s', by rw [hfilter]; rfl, by rw [hrest]; exact his, ?_, hobs⟩
      rw [hcount, hfilter]
      funext o
      by_cases heq : o = x
      · rw [heq, Function.update_self, if_pos List.mem_cons_self]
      · rw [Function.update_of_ne heq, if_neg (by simpa using heq)]

end Walk

/-! ## Adding -/

section Add

variable [DecidableEq Addr] {s s' : State Addr max} {l : List (Fin max)} {o : Fin max}

omit [DecidableEq Addr] in
/-- A free place of the pool, if there is one. -/
theorem membAlloc_spec (h : Listed s l) :
    (membAlloc s = none ∧ ∀ o, o ∈ l) ∨
      ∃ o, o ∉ l ∧ membAlloc s = some (o, { s with count := Function.update s.count o 1 }) := by
  unfold membAlloc
  cases hfind : (List.finRange max).find? fun o => s.count o = 0 with
  | none =>
    left
    refine ⟨rfl, fun o => ?_⟩
    have hused := List.find?_eq_none.mp hfind o (List.mem_finRange o)
    by_contra ho
    rw [h.count, if_neg ho] at hused
    exact hused (by decide)
  | some o =>
    right
    have hfree := List.find?_some hfind
    rw [decide_eq_true_eq] at hfree
    refine ⟨o, ?_, by rw [Option.map_some, hfree]⟩
    intro ho
    rw [h.count, if_pos ho] at hfree
    cases hfree

/-- What is stored of a URL. -/
theorem stored_url (uri : Memory) (uriLen : ℕ) :
    let url := (uri.read 0 (min (coapObserverUrlLen - 1) uriLen)).takeWhile (· ≠ 0)
    url.length < coapObserverUrlLen ∧ 0 ∉ url ∧ (url = uri.read 0 uriLen ↔ Fits uri uriLen) := by
  dsimp only
  have hlen := List.takeWhile_prefix (fun b : UInt8 => decide (b ≠ 0))
    (l := uri.read 0 (min (coapObserverUrlLen - 1) uriLen)) |>.length_le
  rw [Memory.length_read] at hlen
  have hzero : ∀ bs : List UInt8, 0 ∉ bs.takeWhile (· ≠ 0) := by
    intro bs hmem
    have := List.mem_takeWhile_imp hmem
    simp at this
  refine ⟨?_, hzero _, ?_⟩
  · have hval : coapObserverUrlLen = 20 := rfl
    omega
  · constructor
    · intro heq
      refine ⟨?_, heq ▸ hzero _⟩
      rw [heq, Memory.length_read] at hlen
      have hval : coapObserverUrlLen = 20 := rfl
      omega
    · rintro ⟨hlt, hno⟩
      have hmin : min (coapObserverUrlLen - 1) uriLen = uriLen := by omega
      rw [hmin, List.takeWhile_eq_self_iff]
      intro b hb
      rw [decide_eq_true_eq]
      rintro rfl
      exact hno hb

omit [DecidableEq Addr] in
/-- The list without the first observer that is accepted. -/
theorem removeAll_listed (h : Listed s l) (accepts : Fin max → Observer Addr → Bool) :
    ∃ n s₁, removeAll accepts s = some (n, s₁) ∧ s₁.observer = s.observer ∧
      match l.find? fun o => accepts o (s.observer o) with
      | none => s₁ = s ∧ Listed s₁ l
      | some o => Listed s₁ (l.erase o) := by
  have hspec := walk_spec accepts h
  cases hfirst : l.find? fun o => accepts o (s.observer o) with
  | none =>
    rw [hfirst] at hspec
    exact ⟨0, s, hspec, rfl, rfl, h⟩
  | some o =>
    rw [hfirst] at hspec
    obtain ⟨s', hs', his, hcount, hobs⟩ := hspec
    exact ⟨1, s', hs', hobs, h.erase (List.mem_of_find?_eq_some hfirst) his hcount hobs⟩

/-- What `add_observer` does behind the removal: nothing in a full pool, and else it puts an
observer at the end. -/
theorem addObserver_spec {addr : Addr} {port : UInt16} (token : Memory) (tokenLen : UInt8)
    {uri : Memory} (uriLen : ℕ) {n : ℕ} {s₁ : State Addr max} {l₁ : List (Fin max)}
    (hremove : coapRemoveObserverByUri s (some addr) port (.bytes uri) = some (n, s₁))
    (h : Listed s₁ l₁) :
    (addObserver s addr port token tokenLen uri uriLen = some (none, s₁) ∧ ∀ o, o ∈ l₁) ∨
      ∃ o s' obs, addObserver s addr port token tokenLen uri uriLen = some (some o, s') ∧
        o ∉ l₁ ∧ Listed s' (l₁ ++ [o]) ∧
        s'.observer = Function.update s₁.observer o obs ∧ sameClient addr port obs ∧
        (obs.url = uri.read 0 uriLen ↔ Fits uri uriLen) := by
  unfold addObserver
  rw [hremove, Option.bind_some]
  -- There is a free block, or an observer has to go first.
  rcases membAlloc_spec h with ⟨hnone, hall⟩ | ⟨o, ho, halloc⟩
  · left
    dsimp only
    rw [hnone]
    exact ⟨rfl, hall⟩
  · right
    dsimp only
    rw [halloc]
    obtain ⟨list, hlist, his⟩ := Links.add_spec h.is ho (Nat.lt_succ_of_le h.length_le)
    dsimp only
    rw [hlist]
    obtain ⟨hlen, hzero, hfits⟩ := stored_url uri uriLen
    refine ⟨o, _, _, rfl, ho, ⟨his, ?_, ?_⟩, rfl, ?_, hfits⟩
    · intro o'
      dsimp only
      by_cases heq : o' = o
      · rw [heq, Function.update_self, if_pos (by simp)]
      · rw [Function.update_of_ne heq, h.count]
        simp [heq]
    · intro o' ho'
      dsimp only
      by_cases heq : o' = o
      · rw [heq, Function.update_self]
        exact ⟨hlen, hzero⟩
      · rw [Function.update_of_ne heq]
        refine h.url o' ?_
        simpa [heq] using ho'
    · simp [sameClient]

end Add

/-! ## Histories -/

section Histories

variable [DecidableEq Addr] {s s' : State Addr max} {l : List (Fin max)}

/-- The states that the calls lead to, from an empty list. Notifications set the message ids. -/
inductive Reaches : State Addr max → Prop
  | start (next : Fin max → Option (Fin max)) (observer : Fin max → Observer Addr) :
      Reaches { list := ⟨none, next⟩, observer := observer, count := fun _ => 0 }
  | call {s s' : State Addr max} {r : ℕ} (c : Call Addr max) (h : Reaches s)
      (hc : c.run s = some (r, s')) : Reaches s'
  | notified {s : State Addr max} (o : Fin max) (mid : UInt16) (h : Reaches s) :
      Reaches { s with
        observer := Function.update s.observer o { s.observer o with lastMid := mid } }

/-- A call ends with a list. -/
theorem call_listed (h : Listed s l) (c : Call Addr max) :
    ∃ r s' l', c.run s = some (r, s') ∧ Listed s' l' := by
  have hremoved : ∀ accepts : Fin max → Observer Addr → Bool,
      ∃ r s' l', removeAll accepts s = some (r, s') ∧ Listed s' l' := by
    intro accepts
    obtain ⟨n, s₁, hrun, -, hlist⟩ := removeAll_listed h accepts
    split at hlist
    · exact ⟨n, s₁, l, hrun, hlist.2⟩
    · exact ⟨n, s₁, _, hrun, hlist⟩
  cases c with
  | byClient addr port => exact hremoved _
  | byToken addr port token tokenLen => exact hremoved _
  | byUri addr port uri uriLen => exact hremoved _
  | byMid addr port mid => exact hremoved _
  | add addr port token tokenLen uri uriLen =>
    obtain ⟨n, s₁, l₁, hrun, hlist⟩ := hremoved (acceptsUri uri (some addr) port (.bytes uri))
    rcases addObserver_spec token tokenLen uriLen hrun hlist
      with ⟨hadd, -⟩ | ⟨o, s', obs, hadd, -, hlist', -⟩
    · exact ⟨0, s₁, l₁, by rw [Call.run, hadd]; rfl, hlist⟩
    · exact ⟨1, s', _, by rw [Call.run, hadd]; rfl, hlist'⟩

/-- Every state that is reached has a list. -/
theorem Reaches.listed (h : Reaches s) : ∃ l, Listed s l := by
  induction h with
  | start next observer => exact ⟨[], rfl, fun o => rfl, fun o ho => absurd ho List.not_mem_nil⟩
  | call c _ hc ih =>
    obtain ⟨l, hl⟩ := ih
    obtain ⟨r, s', l', hrun, hlist⟩ := call_listed hl c
    rw [hrun] at hc
    obtain ⟨-, rfl⟩ := Prod.mk.inj (Option.some.inj hc)
    exact ⟨l', hlist⟩
  | notified o mid _ ih =>
    obtain ⟨l, hl⟩ := ih
    refine ⟨l, hl.is, hl.count, fun o' ho' => ?_⟩
    have hurl := hl.url o' ho'
    dsimp only
    by_cases heq : o' = o
    · rw [heq] at hurl ⊢
      rw [Function.update_self]
      exact hurl
    · rw [Function.update_of_ne heq]
      exact hurl

end Histories

/-! ## Result -/

section Result

variable [DecidableEq Addr] {s : State Addr max} {l : List (Fin max)}

/-- What matches is accepted. -/
theorem accepts_of_matching (c : Call Addr max) {o : Fin max}
    (h : c.matching s (s.observer o) = true) : c.accepts s o (s.observer o) = true := by
  have hself : ∀ (m : Memory) (n : ℕ), (s.observer o).url = m.read 0 n →
      (s.observer o).url = m.read 0 (s.observer o).url.length := by
    intro m n hurl
    have hlen := congrArg List.length hurl
    rw [Memory.length_read] at hlen
    rw [hlen]
    exact hurl
  cases c with
  | byClient addr port => exact h
  | byToken addr port token tokenLen =>
    simp only [Call.matching, decide_eq_true_eq] at h
    have hlen := congrArg List.length h.2
    rw [Memory.length_read, Memory.length_read] at hlen
    simp only [Call.accepts, acceptsToken, decide_eq_true_eq]
    exact ⟨h.1, hlen, hlen ▸ h.2⟩
  | byUri addr port uri uriLen =>
    simp only [Call.matching, decide_eq_true_eq] at h
    simp only [Call.accepts, acceptsUri, Bool.and_eq_true, Bool.or_eq_true, decide_eq_true_eq]
    refine ⟨?_, .inr (hself _ _ h.2)⟩
    cases addr with
    | none => rfl
    | some addr =>
      rcases h.1 with hnone | ⟨haddr, hport⟩
      · cases hnone
      · simp [sameClient, Option.some.inj haddr, hport]
  | byMid addr port mid => exact h
  | add addr port token tokenLen uri uriLen =>
    simp only [Call.matching, decide_eq_true_eq] at h
    simp only [Call.accepts, acceptsUri, Bool.and_eq_true, Bool.or_eq_true, decide_eq_true_eq]
    exact ⟨h.1, .inr (hself _ _ h.2)⟩

/-- A token is compared as it should be. -/
theorem matching_of_acceptsToken {addr : Addr} {port : UInt16} {token : Memory} {tokenLen : ℕ}
    {obs : Observer Addr} (h : acceptsToken addr port token tokenLen obs = true) :
    (Call.byToken addr port token tokenLen).matching s obs = true := by
  simp only [acceptsToken, decide_eq_true_eq] at h
  simp only [Call.matching, decide_eq_true_eq]
  exact ⟨h.1, h.2.1 ▸ h.2.2⟩

/-- If the condition in the code is the right one, at most one observer may match. -/
theorem first_iff_unique {isMatch : Fin max → Bool} :
    (∀ o ∈ l, isMatch o = true ↔ l.find? isMatch = some o) ↔
      ∀ o ∈ l, ∀ o' ∈ l, isMatch o = true → isMatch o' = true → o = o' := by
  constructor
  · intro h o ho o' ho' hm hm'
    have hsame := ((h o ho).mp hm).symm.trans ((h o' ho').mp hm')
    exact Option.some.inj hsame
  · intro h o ho
    constructor
    · intro hm
      cases hfirst : l.find? isMatch with
      | none => exact absurd hm (by simpa using List.find?_eq_none.mp hfirst o ho)
      | some x =>
        rw [h x (List.mem_of_find?_eq_some hfirst) o ho (List.find?_some hfirst) hm]
    · exact fun hfirst => List.find?_some hfirst

/-- Behind `add_observer` there is one observer for the client and the URL. -/
theorem leavesOne_iff (h : Listed s l) (addr : Addr) (port : UInt16) (token : Memory)
    (tokenLen : UInt8) (uri : Memory) (uriLen : ℕ) :
    LeavesOne s (.add addr port token tokenLen uri uriLen) ↔
      Condition s l (.add addr port token tokenLen uri uriLen) := by
  have hnodup := Chain.nodup h.is
  obtain ⟨n, s₁, hremove, hobs, hlist⟩ :=
    removeAll_listed h (acceptsUri uri (some addr) port (.bytes uri))
  have haccept : ∀ o, (Call.add addr port token tokenLen uri uriLen).matching s (s.observer o) →
      acceptsUri uri (some addr) port (.bytes uri) o (s.observer o) = true :=
    fun o hm => accepts_of_matching (.add addr port token tokenLen uri uriLen) hm
  -- the list without what is removed
  obtain ⟨l₁, hl₁, hmem, hroom⟩ : ∃ l₁, Listed s₁ l₁ ∧
      (∀ o, o ∈ l₁ ↔ o ∈ l ∧
        firstAccepted s l (.add addr port token tokenLen uri uriLen) ≠ some o) ∧
      ((∃ o, o ∉ l₁) ↔ (∃ o, s.count o = 0) ∨
        firstAccepted s l (.add addr port token tokenLen uri uriLen) ≠ none) := by
    change match firstAccepted s l (.add addr port token tokenLen uri uriLen) with
      | none => s₁ = s ∧ Listed s₁ l
      | some o => Listed s₁ (l.erase o) at hlist
    cases hfirst : firstAccepted s l (.add addr port token tokenLen uri uriLen) with
    | none =>
      rw [hfirst] at hlist
      refine ⟨l, hlist.2, fun o => by simp, ?_⟩
      simp only [ne_eq, not_true, or_false]
      refine exists_congr fun o => ?_
      rw [h.count]
      split_ifs with ho <;> simp [ho]
    | some x =>
      rw [hfirst] at hlist
      refine ⟨l.erase x, hlist, ?_, ?_⟩
      · intro o
        rw [hnodup.mem_erase_iff, and_comm, ne_eq, ne_eq, Option.some.injEq, eq_comm]
      · simp only [ne_eq, reduceCtorEq, not_false_eq_true, or_true, iff_true]
        exact ⟨x, hnodup.not_mem_erase⟩
  unfold LeavesOne Condition
  dsimp only
  rcases addObserver_spec token tokenLen uriLen hremove hl₁
    with ⟨hadd, hall⟩ | ⟨o, s', obs, hadd, ho, hlist', hobs', hclient, hurl⟩
  · -- the pool is full, and nothing was removed
    have hno : ¬ ∃ o, o ∉ l₁ := fun ⟨o, ho⟩ => ho (hall o)
    rw [hroom] at hno
    constructor
    · rintro ⟨r, s', l', hrun, his, hone⟩
      rw [Call.run, hadd] at hrun
      obtain ⟨-, rfl⟩ := Prod.mk.inj (Option.some.inj hrun)
      obtain rfl := Chain.unique his hl₁.is
      have hnil : (l'.filter fun o => (Call.add addr port token tokenLen uri uriLen).matching s
          (s₁.observer o)) = [] := by
        refine List.filter_eq_nil_iff.mpr fun o ho hm => ?_
        rw [hobs] at hm
        have hnone : firstAccepted s l (.add addr port token tokenLen uri uriLen) = none := by
          by_contra hsome
          exact hno (.inr hsome)
        exact List.find?_eq_none.mp hnone o ((hmem o).mp ho).1 (haccept o hm)
      rw [hnil] at hone
      cases hone
    · rintro ⟨-, hfree, -⟩
      exact absurd hfree hno
  · have hnew : (Call.add addr port token tokenLen uri uriLen).matching s obs = true ↔
        Fits uri uriLen := by
      simp only [Call.matching, decide_eq_true_eq]
      rw [hurl]
      exact and_iff_right hclient
    have hold : ∀ o' ∈ l₁, s'.observer o' = s.observer o' := by
      intro o' ho'
      rw [hobs', Function.update_of_ne (ne_of_mem_of_not_mem ho' ho), hobs]
    have hfilter : ((l₁ ++ [o]).filter fun o =>
        (Call.add addr port token tokenLen uri uriLen).matching s (s'.observer o)).length =
        (l₁.filter fun o =>
          (Call.add addr port token tokenLen uri uriLen).matching s (s.observer o)).length +
          if Fits uri uriLen then 1 else 0 := by
      rw [List.filter_append, List.length_append,
        List.filter_congr fun o' ho' => by rw [hold o' ho']]
      congr 1
      rw [List.filter_singleton, hobs', Function.update_self]
      by_cases hf : Fits uri uriLen
      · rw [if_pos hf, hnew.mpr hf]
        rfl
      · rw [if_neg hf, Bool.eq_false_iff.mpr (mt hnew.mp hf)]
        rfl
    have hrun : LeavesOne s (.add addr port token tokenLen uri uriLen) ↔
        ((l₁ ++ [o]).filter fun o =>
          (Call.add addr port token tokenLen uri uriLen).matching s (s'.observer o)).length = 1 := by
      constructor
      · rintro ⟨r, s₂, l', hrun, his, hone⟩
        rw [Call.run, hadd] at hrun
        obtain ⟨-, rfl⟩ := Prod.mk.inj (Option.some.inj hrun)
        obtain rfl := Chain.unique his hlist'.is
        exact hone
      · intro hone
        exact ⟨1, s', l₁ ++ [o], by rw [Call.run, hadd]; rfl, hlist'.is, hone⟩
    refine hrun.trans ?_
    rw [hfilter]
    by_cases hf : Fits uri uriLen
    · rw [if_pos hf, ← hroom]
      constructor
      · intro hone
        refine ⟨hf, ⟨o, ho⟩, fun o' ho' hm => ?_⟩
        have hnil : (l₁.filter fun o =>
            (Call.add addr port token tokenLen uri uriLen).matching s (s.observer o)) = [] :=
          List.length_eq_zero_iff.mp (by omega)
        by_contra hne
        exact List.filter_eq_nil_iff.mp hnil o' ((hmem o').mpr ⟨ho', hne⟩) hm
      · rintro ⟨-, -, hfirst⟩
        have hnil : (l₁.filter fun o =>
            (Call.add addr port token tokenLen uri uriLen).matching s (s.observer o)) = [] := by
          refine List.filter_eq_nil_iff.mpr fun o' ho' hm => ?_
          obtain ⟨hin, hne⟩ := (hmem o').mp ho'
          exact hne (hfirst o' hin hm)
        rw [hnil]
        rfl
    · -- a URL that does not fit is nobody's
      have hnil : (l₁.filter fun o =>
          (Call.add addr port token tokenLen uri uriLen).matching s (s.observer o)) = [] := by
        refine List.filter_eq_nil_iff.mpr fun o' ho' hm => hf ?_
        simp only [Call.matching, decide_eq_true_eq] at hm
        have hstored := h.url o' ((hmem o').mp ho').1
        rw [hm.2, Memory.length_read] at hstored
        exact hstored
      rw [hnil, if_neg hf]
      constructor
      · intro hone
        cases hone
      · rintro ⟨hfits, -⟩
        exact absurd hfits hf

/-- Two observers of one client, which wait for different messages. -/
def twoObservers : State ℕ 2 where
  list := ⟨some 0, fun o => if o = 0 then some 1 else none⟩
  observer := fun o => ⟨[0x61], 1, 5683, 0, fun _ => 0, if o = 0 then 7 else 8⟩
  count := fun _ => 1

theorem listed_twoObservers : Listed twoObservers [0, 1] where
  is := ⟨rfl, rfl, rfl⟩
  count := by decide
  url := fun _ _ => ⟨show 1 < 20 by decide, show (0 : UInt8) ∉ [0x61] by decide⟩

/-- Two observers match the client, and one is removed. -/
theorem one_of_two_removed :
    Listed twoObservers [0, 1] ∧ ¬ Meets twoObservers [0, 1] (.byClient 1 5683) := by
  refine ⟨listed_twoObservers, ?_⟩
  rintro ⟨s', hs', -, -, -⟩
  have hone : ((Call.byClient 1 5683).run twoObservers).map Prod.fst = some 1 := rfl
  rw [hs'] at hone
  have htwo : 2 = 1 := Option.some.inj hone
  exact absurd htwo (by decide)

/-- The calls do what they have to exactly when the only observer that matches is the first one
that the code accepts, and an observer that is added has a place and a URL that fits. -/
theorem observer_calls_iff (h : Listed s l) (c : Call Addr max) :
    Meets s l c ↔ Condition s l c := by
  cases c with
  | byClient addr port => exact (removesExactly_iff h _).trans first_iff_unique
  | byToken addr port token tokenLen =>
    refine (removesExactly_iff h _).trans (Iff.trans ?_ first_iff_unique)
    have hsame : (fun o => acceptsToken addr port token tokenLen (s.observer o)) =
        fun o => (Call.byToken addr port token tokenLen).matching s (s.observer o) := by
      funext o
      rw [Bool.eq_iff_iff]
      exact ⟨matching_of_acceptsToken, accepts_of_matching (.byToken addr port token tokenLen)⟩
    rw [hsame]
  | byUri addr port uri uriLen => exact removesExactly_iff h _
  | byMid addr port mid => exact (removesExactly_iff h _).trans first_iff_unique
  | add addr port token tokenLen uri uriLen => exact leavesOne_iff h addr port token tokenLen uri uriLen

/-- The observer that waits for message 8 is removed. -/
theorem observer_calls_iff_mid : Meets twoObservers [0, 1] (.byMid 1 5683 8) :=
  (observer_calls_iff listed_twoObservers (.byMid 1 5683 8)).mpr (by
    change ∀ o ∈ [0, 1], ∀ o' ∈ [0, 1], _ → _ → o = o'
    decide)

end Result

end MasterScheduler.Mote.Observers

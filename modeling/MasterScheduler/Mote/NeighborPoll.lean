import Mathlib.Data.List.Infix
import Mathlib.Data.List.TakeWhile

/-!
# MasterScheduler.Mote.NeighborPoll — the neighbors a poll goes through

`has_next_neighbor` of `master-routing.c` over the list of `tsch-queue.c`. Its
position is the global `next_dest`, which starts at the entry of the broadcast
address and ends at `NULL`; each call moves it on to the next neighbor whose
time source is the own node.

- `searchNbr_eq`, `hasNextNeighbor_eq`: what one call makes of the position.
- `enumerates_iff`: when successive calls go through all of these neighbors and
  no other; the first call does not check the result of its first lookup.

A node identifier is one byte, which the platform stores in the link-layer
address as well.
-/

namespace MasterScheduler.Mote.NeighborPoll

/-! ## The neighbor list -/

abbrev Linkaddr := List UInt8

/-- `LINKADDR_SIZE` and `NODE_ID_INDEX` of a build. -/
structure Build where
  linkaddrSize : ℕ
  nodeIdIndex : ℕ

/-- The fields of `struct tsch_neighbor` that the search reads. -/
structure Nbr where
  addr : Linkaddr
  timeSource : UInt8
deriving DecidableEq, Repr

/-- A pointer into the list: the entry with all that follow it, or nothing for `NULL`. -/
abbrev Ptr := List Nbr

/-- A read through `NULL`. -/
inductive Fault where
  | nullPointer
deriving DecidableEq, Repr

namespace Build

variable (b : Build)

def tschBroadcastAddress : Linkaddr := List.replicate b.linkaddrSize 0xff

def tschEbAddress : Linkaddr := List.replicate b.linkaddrSize 0

/-- The entries both lookups skip. A flow has index 1 set and index 0 clear. -/
def isVirtual (n : Nbr) : Bool :=
  n.addr == b.tschBroadcastAddress || n.addr == b.tschEbAddress ||
    (n.addr.getD 1 0 != 0 && n.addr.getD b.nodeIdIndex 0 == 0)

/-- `tsch_queue_get_nbr`. -/
def tschQueueGetNbr (nbrs : List Nbr) (addr : Linkaddr) : Ptr := nbrs.dropWhile (·.addr != addr)

/-- `tsch_queue_first_nbr`. -/
def tschQueueFirstNbr (locked : Bool) (nbrs : List Nbr) : Ptr :=
  if locked then [] else nbrs.dropWhile b.isVirtual

/-- `tsch_queue_next_nbr`. -/
def tschQueueNextNbr (locked : Bool) (neighbour : Ptr) : Ptr :=
  if locked then [] else neighbour.tail.dropWhile b.isVirtual

theorem length_tschQueueNextNbr_lt (locked : Bool) (n : Nbr) (rest : List Nbr) :
    (b.tschQueueNextNbr locked (n :: rest)).length < (n :: rest).length := by
  have hle := (List.dropWhile_suffix b.isVirtual (l := rest)).length_le
  unfold tschQueueNextNbr
  split
  · simp
  · exact Nat.lt_succ_of_le hle

/-! ## The search -/

/-- The loop over the condition on the time source, with the lookup in its body. -/
def searchNbr (locked : Bool) (nodeId : UInt8) : Ptr → Except Fault (Bool × Ptr)
  | [] => .error .nullPointer
  | n :: rest =>
      if n.timeSource = nodeId then .ok (true, n :: rest)
      else if b.tschQueueNextNbr locked (n :: rest) = [] then .ok (false, [])
      else searchNbr locked nodeId (b.tschQueueNextNbr locked (n :: rest))
termination_by p => p.length
decreasing_by exact b.length_tschQueueNextNbr_lt locked n rest

/-- `has_next_neighbor`: the value returned and `next_dest` behind the call. -/
def hasNextNeighbor (locked : Bool) (nodeId : UInt8) (nbrs : List Nbr) :
    Ptr → Except Fault (Bool × Ptr)
  | [] => .ok (false, [])
  | n :: rest =>
      if n.addr = b.tschBroadcastAddress then
        b.searchNbr locked nodeId (b.tschQueueFirstNbr locked nbrs)
      else if b.tschQueueNextNbr locked (n :: rest) = [] then .ok (false, [])
      else b.searchNbr locked nodeId (b.tschQueueNextNbr locked (n :: rest))

/-- The call number `k`, the first being 0, where `next_dest` starts at the broadcast entry. -/
def callAt (locked : Bool) (nodeId : UInt8) (nbrs : List Nbr) : ℕ → Except Fault (Bool × Ptr)
  | 0 => b.hasNextNeighbor locked nodeId nbrs (tschQueueGetNbr nbrs b.tschBroadcastAddress)
  | k + 1 => do
      let r ← callAt locked nodeId nbrs k
      b.hasNextNeighbor locked nodeId nbrs r.2

/-! ## The neighbors to poll -/

theorem not_of_dropWhile_cons {α : Type} {f : α → Bool} {l rest : List α} {a : α}
    (h : l.dropWhile f = a :: rest) : f a = false := by
  have hhead := List.head?_dropWhile_not f l
  rw [h] at hhead
  simpa using hhead

/-- A real neighbor whose time source is this node. -/
def polls (nodeId : UInt8) (n : Nbr) : Bool := !b.isVirtual n && n.timeSource == nodeId

/-- The positions of these neighbors, in the order of the list. -/
def polled (nodeId : UInt8) (nbrs : List Nbr) : List Ptr :=
  nbrs.tails.filter fun p => p.head?.any (b.polls nodeId)

/-- The outcome of a call with the positions still ahead. -/
def outcome : Option Ptr → Bool × Ptr
  | some p => (true, p)
  | none => (false, [])

variable {b} {nodeId : UInt8} {n : Nbr} {rest nbrs : List Nbr} {p q : Ptr} {k : ℕ}

theorem polled_cons (nodeId : UInt8) (n : Nbr) (rest : List Nbr) :
    b.polled nodeId (n :: rest) =
      if b.polls nodeId n then (n :: rest) :: b.polled nodeId rest else b.polled nodeId rest := by
  unfold polled
  rw [List.tails_cons, List.filter_cons]
  rfl

theorem polled_dropWhile (nodeId : UInt8) (nbrs : List Nbr) :
    b.polled nodeId (nbrs.dropWhile b.isVirtual) = b.polled nodeId nbrs := by
  induction nbrs with
  | nil => rfl
  | cons n rest ih =>
      rw [List.dropWhile_cons]
      split
      case isTrue hv =>
        have hno : b.polls nodeId n = false := by rw [polls, hv]; rfl
        rw [ih, polled_cons, hno]
        rfl
      case isFalse => rfl

/-- Behind a position of the list stand exactly the positions that follow it. -/
theorem polled_drop (h : (b.polled nodeId nbrs)[k]? = some p) :
    (∃ n rest, p = n :: rest ∧ b.polls nodeId n) ∧
      (b.polled nodeId nbrs).drop (k + 1) = b.polled nodeId p.tail := by
  induction nbrs generalizing k with
  | nil => simp [polled] at h
  | cons n rest ih =>
      rw [polled_cons] at h ⊢
      split
      case isTrue hn =>
        rw [if_pos hn] at h
        cases k with
        | zero =>
            cases h
            exact ⟨⟨n, rest, rfl, hn⟩, rfl⟩
        | succ k => exact ih h
      case isFalse hn =>
        rw [if_neg hn] at h
        exact ih h

/-! ## One call -/

/-- From a real neighbor on, the loop finds the first of the neighbors to poll. -/
theorem searchNbr_eq (hreal : b.isVirtual n = false) :
    b.searchNbr false nodeId (n :: rest) =
      .ok (outcome (b.polled nodeId (n :: rest)).head?) := by
  -- Induction along the lookups: each one leaves a shorter list behind a real neighbor.
  induction hlen : rest.length using Nat.strong_induction_on generalizing n rest with
  | _ len ih =>
      rw [searchNbr, polled_cons, polls, hreal]
      by_cases hts : n.timeSource = nodeId
      · simp [hts, outcome]
      have hpolls : (!false && n.timeSource == nodeId) = false := by simp [hts]
      rw [if_neg hts, hpolls, ← polled_dropWhile nodeId rest]
      change (if rest.dropWhile b.isVirtual = [] then _ else
        b.searchNbr false nodeId (rest.dropWhile b.isVirtual)) = _
      cases hnext : rest.dropWhile b.isVirtual with
      | nil => rfl
      | cons n' rest' =>
          have hlt : rest'.length < len := by
            have hle := (List.dropWhile_suffix b.isVirtual (l := rest)).length_le
            rw [hnext, List.length_cons] at hle
            omega
          have hreal' : b.isVirtual n' = false := not_of_dropWhile_cons hnext
          rw [if_neg (List.cons_ne_nil n' rest')]
          exact ih rest'.length hlt hreal' rfl

/-- A follow-up call goes on behind the neighbor it stands at. -/
theorem hasNextNeighbor_eq (hn : b.polls nodeId n) :
    b.hasNextNeighbor false nodeId nbrs (n :: rest) =
      .ok (outcome (b.polled nodeId rest).head?) := by
  have hreal : b.isVirtual n = false := by
    rw [polls, Bool.and_eq_true, Bool.not_eq_true'] at hn
    exact hn.1
  have haddr : n.addr ≠ b.tschBroadcastAddress := by
    intro h
    rw [isVirtual, h] at hreal
    simp at hreal
  rw [hasNextNeighbor, if_neg haddr, ← polled_dropWhile nodeId rest]
  change (if rest.dropWhile b.isVirtual = [] then _ else
    b.searchNbr false nodeId (rest.dropWhile b.isVirtual)) = _
  cases hnext : rest.dropWhile b.isVirtual with
  | nil => rfl
  | cons n' rest' =>
      have hreal' : b.isVirtual n' = false := not_of_dropWhile_cons hnext
      rw [if_neg (List.cons_ne_nil n' rest')]
      exact searchNbr_eq hreal'

/-- The first call searches the whole list. -/
theorem callAt_zero (locked : Bool) (nodeId : UInt8)
    (h : b.tschBroadcastAddress ∈ nbrs.map Nbr.addr) :
    b.callAt locked nodeId nbrs 0 =
      b.searchNbr locked nodeId (b.tschQueueFirstNbr locked nbrs) := by
  obtain ⟨n, hn, haddr⟩ := List.mem_map.mp h
  have hne : tschQueueGetNbr nbrs b.tschBroadcastAddress ≠ [] := by
    intro hnil
    have hall := List.dropWhile_eq_nil_iff.mp hnil n hn
    simp [haddr] at hall
  rw [callAt]
  cases hp : tschQueueGetNbr nbrs b.tschBroadcastAddress with
  | nil => exact absurd hp hne
  | cons n' rest' =>
      have haddr' : n'.addr = b.tschBroadcastAddress := by
        have h := not_of_dropWhile_cons hp
        simpa only [bne_eq_false_iff_eq] using h
      rw [hasNextNeighbor, if_pos haddr']

/-! ## All calls -/

/-- The calls return 1 with `next_dest` at the neighbors to poll, one after the other, and 0
from then on. -/
def Enumerates (b : Build) (locked : Bool) (nodeId : UInt8) (nbrs : List Nbr) : Prop :=
  ∀ k, b.callAt locked nodeId nbrs k = .ok (outcome (b.polled nodeId nbrs)[k]?)

theorem enumerates_of_real (hb : b.tschBroadcastAddress ∈ nbrs.map Nbr.addr)
    (hreal : ∃ n ∈ nbrs, b.isVirtual n = false) : b.Enumerates false nodeId nbrs := by
  intro k
  induction k with
  | zero =>
      rw [callAt_zero false nodeId hb, ← polled_dropWhile nodeId nbrs, ← List.head?_eq_getElem?]
      change b.searchNbr false nodeId (nbrs.dropWhile b.isVirtual) = _
      cases hfirst : nbrs.dropWhile b.isVirtual with
      | nil =>
          obtain ⟨n, hn, hno⟩ := hreal
          rw [List.dropWhile_eq_nil_iff.mp hfirst n hn] at hno
          cases hno
      | cons n rest =>
          exact searchNbr_eq (not_of_dropWhile_cons hfirst)
  | succ k ih =>
      rw [callAt, ih]
      change b.hasNextNeighbor false nodeId nbrs (outcome (b.polled nodeId nbrs)[k]?).2 = _
      cases hk : (b.polled nodeId nbrs)[k]? with
      | none =>
          -- `next_dest` is `NULL` and stays so.
          have hnone : (b.polled nodeId nbrs)[k + 1]? = none := by
            rw [List.getElem?_eq_none_iff] at hk ⊢
            omega
          rw [hnone]
          rfl
      | some p =>
          obtain ⟨⟨n, rest, rfl, hn⟩, hdrop⟩ := polled_drop hk
          rw [← List.head?_drop, hdrop]
          exact hasNextNeighbor_eq hn

/-- The calls enumerate exactly where the list has a real neighbor and can be read. -/
theorem enumerates_iff (b : Build) (locked : Bool) (nodeId : UInt8) (nbrs : List Nbr)
    (hb : b.tschBroadcastAddress ∈ nbrs.map Nbr.addr) :
    b.Enumerates locked nodeId nbrs ↔
      locked = false ∧ ∃ n ∈ nbrs, b.isVirtual n = false := by
  constructor
  · intro h
    -- The first call reads the result of its lookup, which is `NULL` in all other cases.
    have hzero := h 0
    rw [callAt_zero locked nodeId hb] at hzero
    have hne : b.tschQueueFirstNbr locked nbrs ≠ [] := by
      intro hnil
      rw [hnil, searchNbr] at hzero
      cases hzero
    cases locked with
    | true => exact absurd rfl hne
    | false =>
        refine ⟨rfl, ?_⟩
        by_contra hno
        apply hne
        apply List.dropWhile_eq_nil_iff.mpr
        intro n hn
        by_contra hreal
        exact hno ⟨n, hn, Bool.eq_false_iff.mpr hreal⟩
  · rintro ⟨rfl, hreal⟩
    exact enumerates_of_real hb hreal

/-- The list after start-up: the two virtual entries alone. -/
theorem not_enumerates_startup :
    ¬ (Build.mk 2 0).Enumerates false 3 [⟨[0, 0], 0⟩, ⟨[0xff, 0xff], 0⟩] := by
  intro h
  have hzero := h 0
  rw [callAt_zero _ _ (by decide)] at hzero
  simp [tschQueueFirstNbr, isVirtual, tschBroadcastAddress, tschEbAddress, searchNbr] at hzero

theorem enumerates_iff_child :
    (Build.mk 2 0).tschBroadcastAddress ∈
        [Nbr.mk [0, 0] 0, ⟨[0xff, 0xff], 0⟩, ⟨[5, 0], 3⟩].map Nbr.addr ∧
      ((Build.mk 2 0).Enumerates false 3 [⟨[0, 0], 0⟩, ⟨[0xff, 0xff], 0⟩, ⟨[5, 0], 3⟩] ↔
        false = false ∧ ∃ n ∈ [Nbr.mk [0, 0] 0, ⟨[0xff, 0xff], 0⟩, ⟨[5, 0], 3⟩],
          (Build.mk 2 0).isVirtual n = false) :=
  ⟨by decide, enumerates_iff _ _ _ _ (by decide)⟩

end Build

end MasterScheduler.Mote.NeighborPoll

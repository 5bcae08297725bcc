import MasterScheduler.Lib.Climb
import MasterScheduler.Lib.Transition
import Mathlib.Data.Int.Notation

/-!
# MasterScheduler.Mote.RplNs — the graph of the network at the root

In non-storing mode the root of the network keeps a node for every mote it heard of,
with a pointer to the node of the parent (`rpl-ns.c`). The nodes live in a pool and on
a list; a periodic pass frees those whose lifetime is over.

1. **Model**: the pool, the list, and the functions of `rpl-ns.c`.
2. **Lookups**: which node an address has, and whether it is reachable.
3. **Updates**: a new link keeps the graph sound and everyone connected.
4. **Periodic pass**: what is freed.
5. **Result**: the graph stays sound, unless the pass frees the parent of a node that
   stays, or a node becomes its own parent before it is known.

A node is the index of its slot in the pool.
-/

namespace MasterScheduler.Mote.RplNs

open Lib

/-! ## Model -/

/-- An address: the half that the network shares, and the identifier of the link. -/
structure Ipaddr where
  net : BitVec 64
  identifier : BitVec 64
  deriving DecidableEq

/-- `rpl_ns_node_t`. -/
structure Node where
  lifetime : ℕ
  linkIdentifier : BitVec 64
  parent : Option ℕ
  deriving DecidableEq

/-- The variables of `rpl-ns.c`: the slots of `nodememb` with their reference counts, the list
and the number of nodes. -/
structure State where
  node : ℕ → Node
  count : ℕ → ℕ
  nodelist : List ℕ
  numNodes : ℤ

/-- `RPL_NS_LINK_NUM`, and the address of the root in `curr_instance`. -/
structure Config where
  linkNum : ℕ
  dagId : Ipaddr

/-- `RPL_ROUTE_INFINITE_LIFETIME`. -/
def infiniteLifetime : ℕ := 0xFFFFFFFF

/-- `RPL_NOPATH_REMOVAL_DELAY`. -/
def nopathRemovalDelay : ℕ := 60

namespace State

/-- `rpl_ns_init`, on a memory that is zero. -/
def initial : State where
  node := fun _ => ⟨0, 0, none⟩
  count := fun _ => 0
  nodelist := []
  numNodes := 0

/-- `child_node->parent = parent`. -/
def setParent (s : State) (l : ℕ) (parent : Option ℕ) : State :=
  { s with node := Function.update s.node l { s.node l with parent } }

/-- The lifetime and the identifier of a node are set. -/
def label (s : State) (l lifetime : ℕ) (linkIdentifier : BitVec 64) : State :=
  { s with node := Function.update s.node l { s.node l with lifetime, linkIdentifier } }

/-- `l->lifetime = lifetime`. -/
def setLifetime (s : State) (l lifetime : ℕ) : State :=
  { s with node := Function.update s.node l { s.node l with lifetime } }

/-- The parent links. -/
def parent (s : State) (l : ℕ) : Option ℕ := (s.node l).parent

end State

variable (C : Config)

/-- `node_matches_address`. -/
def nodeMatchesAddress (s : State) (node : Option ℕ) (addr : Option Ipaddr) : Bool :=
  match addr, node with
  | some addr, some l => addr.net == C.dagId.net && addr.identifier == (s.node l).linkIdentifier
  | _, _ => false

/-- `rpl_ns_get_node`. -/
def getNode (s : State) (addr : Option Ipaddr) : Option ℕ :=
  s.nodelist.find? fun l => nodeMatchesAddress C s (some l) addr

/-- `rpl_ns_is_addr_reachable`. -/
def isAddrReachable (s : State) (addr : Ipaddr) : Bool :=
  let rootNode := getNode C s (some C.dagId)
  let node := climb s.parent rootNode C.linkNum (getNode C s (some addr))
  node != none && node == rootNode

/-- `rpl_ns_expire_parent`. -/
def expireParent (s : State) (child : Ipaddr) (parent : Option Ipaddr) : State :=
  match getNode C s (some child) with
  | none => s
  | some l =>
    if nodeMatchesAddress C s (s.parent l) parent then s.setLifetime l nopathRemovalDelay else s

/-- `memb_alloc`: the first slot without references. -/
def membAlloc (s : State) : Option ℕ := (List.range C.linkNum).find? fun i => s.count i = 0

/-- A node for a child that has none. -/
def addNode (s : State) : Option (State × ℕ) :=
  (membAlloc C s).map fun l =>
    ({ s.setParent l none with
        count := Function.update s.count l (s.count l + 1)
        nodelist := listAdd s.nodelist l
        numNodes := s.numNodes + 1 }, l)

/-- What `rpl_ns_update_node` does with the node of the child. -/
def connect (s : State) (child : Ipaddr) (l : ℕ) (parentNode : Option ℕ) (lifetime : ℕ) : State :=
  let s := s.label l lifetime child.identifier
  if isAddrReachable C s child then
    let oldParentNode := s.parent l
    let s := s.setParent l parentNode
    if isAddrReachable C s child then s else s.setParent l oldParentNode
  else s.setParent l parentNode

/-- `rpl_ns_update_node` from the test of the child's node on. -/
def updateChild (s : State) (child : Ipaddr) (childNode parentNode : Option ℕ) (lifetime : ℕ) :
    State × Option ℕ :=
  match childNode with
  | some l => (connect C s child l parentNode lifetime, some l)
  | none =>
    match addNode C s with
    | none => (s, none)
    | some (s, l) => (connect C s child l parentNode lifetime, some l)

/-- `rpl_ns_update_node`. It calls itself for a parent without a node, and that call has no parent
of its own. The node of the child is looked up before that call. -/
def updateNode (s : State) (child : Ipaddr) (parent : Option Ipaddr) (lifetime : ℕ) :
    State × Option ℕ :=
  let childNode := getNode C s (some child)
  match parent with
  | none => updateChild C s child childNode none lifetime
  | some addr =>
    match getNode C s parent with
    | some l => updateChild C s child childNode (some l) lifetime
    | none =>
      match updateChild C s addr none none infiniteLifetime with
      | (s, none) => (s, none)
      | (s, some l) => updateChild C s child childNode (some l) lifetime

/-- `list_remove`, `memb_free` and the count. -/
def freeNode (s : State) (l : ℕ) : State :=
  { s with
    count := Function.update s.count l (s.count l - 1)
    nodelist := s.nodelist.erase l
    numNodes := s.numNodes - 1 }

/-- The loop of `rpl_ns_periodic` for one node. The search for a child that points to an expired
node has no effect there. -/
def periodicNode (seconds : ℕ) (s : State) (l : ℕ) : State :=
  if (s.node l).lifetime = 0 then freeNode s l
  else if (s.node l).lifetime ≠ infiniteLifetime then
    s.setLifetime l (if seconds < (s.node l).lifetime then (s.node l).lifetime - seconds else 0)
  else s

/-- `rpl_ns_periodic`. -/
def periodic (s : State) (seconds : ℕ) : State := s.nodelist.foldl (periodicNode seconds) s

/-- `rpl_ns_free_all`. -/
def freeAll (s : State) : State := s.nodelist.foldl freeNode s

/-- The calls. -/
inductive Call
  | updateNode (child : Ipaddr) (parent : Option Ipaddr) (lifetime : ℕ)
  | expireParent (child : Ipaddr) (parent : Option Ipaddr)
  | periodic (seconds : ℕ)
  | freeAll

/-- The state after a call. -/
def State.call (s : State) : Call → State
  | .updateNode child parent lifetime => (updateNode C s child parent lifetime).1
  | .expireParent child parent => expireParent C s child parent
  | .periodic seconds => periodic s seconds
  | .freeAll => freeAll s

/-- A call as a step of a run. -/
def step (s : State) (c : Call) : Option State := some (s.call C c)

/-- The addresses belong to the network. -/
def Proper : Call → Prop
  | .updateNode child parent _ => child.net = C.dagId.net ∧ ∀ p, parent = some p → p.net = C.dagId.net
  | _ => True

/-- The pass frees no parent of a node that stays, and a node becomes its own parent only when
it is known. -/
def Safe (s : State) : Call → Prop
  | .updateNode child parent _ => parent = some child → getNode C s (some child) ≠ none
  | .periodic _ =>
    ∀ l ∈ s.nodelist, (s.node l).lifetime ≠ 0 → ∀ p, s.parent l = some p → (s.node p).lifetime ≠ 0
  | _ => True

/-! ## Lookups -/

section Lookups

variable {C : Config} {s s' : State} {l r x : ℕ} {addr : Ipaddr} {parent : Option ℕ}

@[simp]
theorem parent_setParent (s : State) (l : ℕ) (parent : Option ℕ) :
    (s.setParent l parent).parent = Function.update s.parent l parent := by
  funext x
  by_cases hx : x = l
  · simp [State.parent, State.setParent, hx]
  · simp [State.parent, State.setParent, hx]

@[simp]
theorem parent_label (s : State) (l lifetime : ℕ) (identifier : BitVec 64) :
    (s.label l lifetime identifier).parent = s.parent := by
  funext x
  by_cases hx : x = l
  · simp [State.parent, State.label, hx]
  · simp [State.parent, State.label, hx]

@[simp]
theorem parent_setLifetime (s : State) (l lifetime : ℕ) :
    (s.setLifetime l lifetime).parent = s.parent := by
  funext x
  by_cases hx : x = l
  · simp [State.parent, State.setLifetime, hx]
  · simp [State.parent, State.setLifetime, hx]

@[simp]
theorem linkIdentifier_setLifetime (s : State) (l lifetime x : ℕ) :
    ((s.setLifetime l lifetime).node x).linkIdentifier = (s.node x).linkIdentifier := by
  by_cases hx : x = l
  · simp [State.setLifetime, hx]
  · simp [State.setLifetime, hx]

@[simp]
theorem linkIdentifier_setParent (s : State) (l : ℕ) (parent : Option ℕ) (x : ℕ) :
    ((s.setParent l parent).node x).linkIdentifier = (s.node x).linkIdentifier := by
  by_cases hx : x = l
  · simp [State.setParent, hx]
  · simp [State.setParent, hx]

/-- The pool and the list agree, and a node is known by its identifier. -/
structure Pool (C : Config) (s : State) : Prop where
  nodup : s.nodelist.Nodup
  inPool : ∀ l ∈ s.nodelist, l < C.linkNum
  counts : ∀ l < C.linkNum, s.count l = if l ∈ s.nodelist then 1 else 0
  number : s.numNodes = s.nodelist.length
  identifiers : ∀ l ∈ s.nodelist, ∀ l' ∈ s.nodelist,
    (s.node l).linkIdentifier = (s.node l').linkIdentifier → l = l'

/-- What holds between two calls. -/
structure Inv (C : Config) (s : State) : Prop extends Pool C s where
  parents : ∀ l ∈ s.nodelist, ∀ p, s.parent l = some p → p ∈ s.nodelist

theorem Pool.length_le (h : Pool C s) : s.nodelist.length ≤ C.linkNum := by
  have hsub : s.nodelist ⊆ List.range C.linkNum :=
    fun l hl => List.mem_range.mpr (h.inPool l hl)
  simpa using (List.subperm_of_subset h.nodup hsub).length_le

theorem getNode_eq_some (h : Pool C s) :
    getNode C s (some addr) = some l ↔
      l ∈ s.nodelist ∧ addr.net = C.dagId.net ∧ addr.identifier = (s.node l).linkIdentifier := by
  constructor
  · intro hl
    have hmatch := List.find?_some hl
    simp only [nodeMatchesAddress, Bool.and_eq_true, beq_iff_eq] at hmatch
    exact ⟨List.mem_of_find?_eq_some hl, hmatch⟩
  · rintro ⟨hl, hnet, hid⟩
    cases hfind : getNode C s (some addr) with
    | none =>
      have hnone := List.find?_eq_none.mp hfind l hl
      simp [nodeMatchesAddress, hnet, hid] at hnone
    | some l' =>
      have hmatch := List.find?_some hfind
      simp only [nodeMatchesAddress, Bool.and_eq_true, beq_iff_eq] at hmatch
      rw [h.identifiers l' (List.mem_of_find?_eq_some hfind) l hl (hmatch.2.symm.trans hid)]

theorem getNode_eq_none (hnet : addr.net = C.dagId.net) :
    getNode C s (some addr) = none ↔
      ∀ l ∈ s.nodelist, (s.node l).linkIdentifier ≠ addr.identifier := by
  simp only [getNode, List.find?_eq_none, nodeMatchesAddress, Bool.and_eq_true, beq_iff_eq, hnet,
    true_and, ne_eq]
  exact forall₂_congr fun l _ => not_congr eq_comm

/-- An address is reachable if parent links lead from its node to the one of the root. -/
theorem isAddrReachable_iff (h : Inv C s) :
    isAddrReachable C s addr = true ↔
      ∃ r x, getNode C s (some C.dagId) = some r ∧ getNode C s (some addr) = some x ∧
        Leads s.parent r x := by
  cases hr : getNode C s (some C.dagId) with
  | none => simp [isAddrReachable, hr]
  | some r =>
    cases hx : getNode C s (some addr) with
    | none =>
      have hnone : climb s.parent (some r) C.linkNum none = none := by
        cases C.linkNum <;> rfl
      simp [isAddrReachable, hr, hx, hnone]
    | some x =>
      have hmem := ((getNode_eq_some h.toPool).mp hx).1
      have hiff := climb_iff r h.parents hmem h.length_le
      have hex : (∃ r' x', some r = some r' ∧ some x = some x' ∧ Leads s.parent r' x') ↔
          Leads s.parent r x := by simp
      rw [hex, ← hiff]
      simp only [isAddrReachable, hr, hx, Bool.and_eq_true, bne_iff_ne, ne_eq, beq_iff_eq]
      constructor
      · exact And.right
      · intro hclimb
        rw [hclimb]
        exact ⟨Option.some_ne_none r, rfl⟩

/-- The node of an address stays. -/
theorem getNode_kept (h : Pool C s) (h' : Pool C s')
    (hnodes : ∀ l ∈ s.nodelist, l ∈ s'.nodelist ∧
      (s'.node l).linkIdentifier = (s.node l).linkIdentifier)
    (hl : getNode C s (some addr) = some l) : getNode C s' (some addr) = some l := by
  obtain ⟨hmem, hnet, hid⟩ := (getNode_eq_some h).mp hl
  rw [getNode_eq_some h', (hnodes l hmem).2]
  exact ⟨(hnodes l hmem).1, hnet, hid⟩

/-- The nodes keep their identifiers, and links keep leading to the root. -/
theorem isAddrReachable_mono (h : Inv C s) (h' : Inv C s')
    (hnodes : ∀ l ∈ s.nodelist, l ∈ s'.nodelist ∧
      (s'.node l).linkIdentifier = (s.node l).linkIdentifier)
    (hleads : ∀ r, getNode C s (some C.dagId) = some r → ∀ x ∈ s.nodelist,
      Leads s.parent r x → Leads s'.parent r x)
    (hreach : isAddrReachable C s addr = true) : isAddrReachable C s' addr = true := by
  obtain ⟨r, x, hr, hx, hrx⟩ := (isAddrReachable_iff h).mp hreach
  have hxmem := ((getNode_eq_some h.toPool).mp hx).1
  exact (isAddrReachable_iff h').mpr
    ⟨r, x, getNode_kept h.toPool h'.toPool hnodes hr, getNode_kept h.toPool h'.toPool hnodes hx,
      hleads r hr x hxmem hrx⟩

end Lookups

/-! ## Updates -/

section Updates

variable {C : Config} {s s' : State} {l lifetime : ℕ} {child : Ipaddr} {parentNode r : Option ℕ}

/-- What an update of a child does: the graph stays sound, everyone stays connected, and the only
new node is that of the child. -/
structure Updated (C : Config) (s s' : State) (child : Ipaddr) : Prop where
  inv : Inv C s'
  kept : ∀ l ∈ s.nodelist, l ∈ s'.nodelist ∧
    (s'.node l).linkIdentifier = (s.node l).linkIdentifier
  fresh : ∀ l ∈ s'.nodelist, l ∈ s.nodelist ∨
    (s'.node l).linkIdentifier = child.identifier
  reach : ∀ addr, isAddrReachable C s addr = true → isAddrReachable C s' addr = true

/-- The parent of one node changes. -/
theorem Inv.setParent (h : Inv C s) (hp : ∀ p, parentNode = some p → p ∈ s.nodelist) :
    Inv C (s.setParent l parentNode) := by
  refine ⟨⟨h.nodup, h.inPool, h.counts, h.number, ?_⟩, ?_⟩
  · intro x hx y hy hxy
    rw [linkIdentifier_setParent, linkIdentifier_setParent] at hxy
    exact h.identifiers x hx y hy hxy
  · intro x hx p hpx
    rw [parent_setParent] at hpx
    by_cases hxl : x = l
    · rw [hxl, Function.update_self] at hpx
      exact hp p hpx
    · rw [Function.update_of_ne hxl] at hpx
      exact h.parents x hx p hpx

/-- The node of the child gets its parent only if nobody loses the connection. -/
theorem connect_spec (h : Inv C (s.label l lifetime child.identifier)) (hl : l ∈ s.nodelist)
    (hnet : child.net = C.dagId.net) (hp : ∀ p, parentNode = some p → p ∈ s.nodelist) :
    Updated C (s.label l lifetime child.identifier) (connect C s child l parentNode lifetime)
      child := by
  have hself : Updated C (s.label l lifetime child.identifier)
      (s.label l lifetime child.identifier) child :=
    ⟨h, fun x hx => ⟨hx, rfl⟩, fun x hx => .inl hx, fun _ => id⟩
  have hset := h.setParent (l := l) hp
  have hkept : ∀ x ∈ s.nodelist, x ∈ s.nodelist ∧
      (((s.label l lifetime child.identifier).setParent l parentNode).node x).linkIdentifier =
        ((s.label l lifetime child.identifier).node x).linkIdentifier :=
    fun x hx => ⟨hx, linkIdentifier_setParent ..⟩
  have hchild : getNode C (s.label l lifetime child.identifier) (some child) = some l := by
    rw [getNode_eq_some h.toPool]
    exact ⟨hl, hnet, by simp [State.label]⟩
  unfold connect
  dsimp only
  split
  · rename_i hbefore
    split
    · rename_i hafter
      refine ⟨hset, hkept, fun x hx => .inl hx, ?_⟩
      intro addr
      refine isAddrReachable_mono h hset hkept ?_
      intro r hr x hx hrx
      rw [parent_setParent]
      refine hrx.update (.inr ?_)
      -- the test after the update found the root from the child
      obtain ⟨r', x', hr', hx', hleads⟩ := (isAddrReachable_iff hset).mp hafter
      rw [getNode_kept h.toPool hset.toPool hkept hr] at hr'
      rw [getNode_kept h.toPool hset.toPool hkept hchild] at hx'
      rw [parent_setParent, ← Option.some.inj hr', ← Option.some.inj hx'] at hleads
      exact hleads
    · have hback : ((s.label l lifetime child.identifier).setParent l parentNode).setParent l
          ((s.label l lifetime child.identifier).parent l) =
            s.label l lifetime child.identifier := by
        simp [State.setParent, State.parent]
      rw [hback]
      exact hself
  · rename_i hbefore
    refine ⟨hset, hkept, fun x hx => .inl hx, ?_⟩
    intro addr
    refine isAddrReachable_mono h hset hkept ?_
    intro r hr x hx hrx
    rw [parent_setParent]
    refine hrx.update (.inl ?_)
    intro hleads
    exact hbefore ((isAddrReachable_iff h).mpr ⟨r, l, hr, hchild, hleads⟩)

theorem Updated.trans {s₁ : State} (h : Updated C s s₁ child) (h' : Updated C s₁ s' child) :
    Updated C s s' child := by
  refine ⟨h'.inv, ?_, ?_, fun addr hreach => h'.reach addr (h.reach addr hreach)⟩
  · intro x hx
    obtain ⟨hx₁, hid₁⟩ := h.kept x hx
    obtain ⟨hx₂, hid₂⟩ := h'.kept x hx₁
    exact ⟨hx₂, hid₂.trans hid₁⟩
  · intro x hx
    rcases h'.fresh x hx with hx₁ | hid
    · rcases h.fresh x hx₁ with hx₀ | hid
      · exact .inl hx₀
      · exact .inr ((h'.kept x hx₁).2.trans hid)
    · exact .inr hid

variable (lifetime) in
/-- The node that a child has keeps its identifier. -/
theorem label_spec (h : Inv C s) (hl : getNode C s (some child) = some l) :
    Updated C s (s.label l lifetime child.identifier) child := by
  obtain ⟨hmem, hnet, hid⟩ := (getNode_eq_some h.toPool).mp hl
  have hsame : ∀ x, ((s.label l lifetime child.identifier).node x).linkIdentifier =
      (s.node x).linkIdentifier := by
    intro x
    by_cases hx : x = l
    · simp [State.label, hx, hid]
    · simp [State.label, hx]
  have hinv : Inv C (s.label l lifetime child.identifier) := by
    refine ⟨⟨h.nodup, h.inPool, h.counts, h.number, ?_⟩, ?_⟩
    · intro x hx y hy hxy
      rw [hsame, hsame] at hxy
      exact h.identifiers x hx y hy hxy
    · rw [parent_label]
      exact h.parents
  refine ⟨hinv, fun x hx => ⟨hx, hsame x⟩, fun x hx => .inl hx, ?_⟩
  intro addr
  refine isAddrReachable_mono h hinv (fun x hx => ⟨hx, hsame x⟩) ?_
  intro r _ x _ hleads
  rw [parent_label]
  exact hleads

variable (lifetime) in
/-- A new node comes from a free slot. -/
theorem addNode_spec {s₁ : State} (h : Inv C s) (hnet : child.net = C.dagId.net)
    (hnone : getNode C s (some child) = none) (hs : addNode C s = some (s₁, l)) :
    l ∈ s₁.nodelist ∧ (∀ x ∈ s.nodelist, x ∈ s₁.nodelist) ∧
      Updated C s (s₁.label l lifetime child.identifier) child := by
  obtain ⟨l', hl, heq⟩ := Option.map_eq_some_iff.mp hs
  obtain ⟨rfl, rfl⟩ := Prod.mk.inj heq
  have hrange := List.mem_range.mp (List.mem_of_find?_eq_some hl)
  have hzero : s.count l' = 0 := by simpa using List.find?_some hl
  -- The block was free, so it is no node of the list.
  have hnot : l' ∉ s.nodelist := by
    intro hmem
    rw [h.counts l' hrange, if_pos hmem] at hzero
    cases hzero
  -- No node has the identifier of the child yet.
  have hother := (getNode_eq_none hnet).mp hnone
  generalize hs₁ : ({ s.setParent l' none with
    count := Function.update s.count l' (s.count l' + 1)
    nodelist := listAdd s.nodelist l'
    numNodes := s.numNodes + 1 } : State) = s₁
  have hlist : (s₁.label l' lifetime child.identifier).nodelist = listAdd s.nodelist l' := by
    rw [← hs₁]
    rfl
  have hmem : ∀ x, x ∈ (s₁.label l' lifetime child.identifier).nodelist ↔
      x = l' ∨ x ∈ s.nodelist := by
    intro x
    rw [hlist, mem_listAdd]
  have hsame : ∀ x, x ≠ l' → ((s₁.label l' lifetime child.identifier).node x).linkIdentifier =
      (s.node x).linkIdentifier := by
    intro x hx
    simp [← hs₁, State.label, State.setParent, hx]
  have hself : ((s₁.label l' lifetime child.identifier).node l').linkIdentifier =
      child.identifier := by
    simp [State.label]
  have hparent : (s₁.label l' lifetime child.identifier).parent =
      Function.update s.parent l' none := by
    rw [parent_label, ← parent_setParent, ← hs₁]
    rfl
  have hold : ∀ x ∈ s.nodelist, x ∈ (s₁.label l' lifetime child.identifier).nodelist ∧
      ((s₁.label l' lifetime child.identifier).node x).linkIdentifier =
        (s.node x).linkIdentifier := by
    intro x hx
    exact ⟨(hmem x).mpr (.inr hx), hsame x (ne_of_mem_of_not_mem hx hnot)⟩
  have hinv : Inv C (s₁.label l' lifetime child.identifier) := by
    refine ⟨⟨?_, ?_, ?_, ?_, ?_⟩, ?_⟩
    · rw [hlist]
      exact listAdd_nodup h.nodup
    · intro x hx
      rcases (hmem x).mp hx with rfl | hx
      · exact hrange
      · exact h.inPool x hx
    · intro x hx
      have hcount : (s₁.label l' lifetime child.identifier).count =
          Function.update s.count l' (s.count l' + 1) := by
        rw [← hs₁]
        rfl
      rw [hcount]
      by_cases hxl : x = l'
      · rw [hxl, Function.update_self, hzero, if_pos ((hmem l').mpr (.inl rfl))]
      · rw [Function.update_of_ne hxl, h.counts x hx]
        simp only [hmem, hxl, false_or]
    · have hnumber : (s₁.label l' lifetime child.identifier).numNodes = s.numNodes + 1 := by
        rw [← hs₁]
        rfl
      rw [hnumber, hlist, listAdd, List.erase_of_not_mem hnot, h.number]
      simp
    · intro x hx y hy hxy
      rcases (hmem x).mp hx with hxl | hxs <;> rcases (hmem y).mp hy with hyl | hys
      · rw [hxl, hyl]
      · rw [hxl, hself, hsame y (ne_of_mem_of_not_mem hys hnot)] at hxy
        exact absurd hxy.symm (hother y hys)
      · rw [hyl, hself, hsame x (ne_of_mem_of_not_mem hxs hnot)] at hxy
        exact absurd hxy (hother x hxs)
      · rw [hsame x (ne_of_mem_of_not_mem hxs hnot),
          hsame y (ne_of_mem_of_not_mem hys hnot)] at hxy
        exact h.identifiers x hxs y hys hxy
    · intro x hx p hp
      rw [hparent] at hp
      rcases (hmem x).mp hx with rfl | hx
      · rw [Function.update_self] at hp
        cases hp
      · rw [Function.update_of_ne (ne_of_mem_of_not_mem hx hnot)] at hp
        exact (hmem p).mpr (.inr (h.parents x hx p hp))
  refine ⟨(hmem l').mpr (.inl rfl), fun x hx => (hmem x).mpr (.inr hx), hinv, hold, ?_, ?_⟩
  · intro x hx
    rcases (hmem x).mp hx with rfl | hx
    · exact .inr hself
    · exact .inl hx
  · intro addr
    refine isAddrReachable_mono h hinv hold ?_
    intro r _ x hx hleads
    refine hleads.congr h.parents hx ?_
    intro a ha
    rw [hparent, Function.update_of_ne (ne_of_mem_of_not_mem ha hnot)]

variable (lifetime parentNode) in
/-- The update of a child whose node was looked up in the same state. -/
theorem updateChild_spec (h : Inv C s) (hnet : child.net = C.dagId.net)
    (hp : ∀ p, parentNode = some p → p ∈ s.nodelist) :
    Updated C s (updateChild C s child (getNode C s (some child)) parentNode lifetime).1 child ∧
      ∀ l, (updateChild C s child (getNode C s (some child)) parentNode lifetime).2 = some l →
        l ∈ (updateChild C s child (getNode C s (some child)) parentNode lifetime).1.nodelist := by
  cases hl : getNode C s (some child) with
  | some l =>
    have hlabel := label_spec lifetime h hl
    have hmem := ((getNode_eq_some h.toPool).mp hl).1
    have hconnect := connect_spec hlabel.inv hmem hnet hp
    refine ⟨hlabel.trans hconnect, ?_⟩
    rintro l' ⟨⟩
    exact (hconnect.kept l hmem).1
  | none =>
    rw [updateChild]
    cases hadd : addNode C s with
    | none =>
      exact ⟨⟨h, fun x hx => ⟨hx, rfl⟩, fun x hx => .inl hx, fun _ => id⟩, fun l hl => nomatch hl⟩
    | some r =>
      obtain ⟨s₁, l⟩ := r
      obtain ⟨hmem, hsub, hlabel⟩ := addNode_spec lifetime h hnet hl hadd
      have hconnect := connect_spec hlabel.inv hmem hnet fun p hpp => hsub p (hp p hpp)
      refine ⟨hlabel.trans hconnect, ?_⟩
      rintro l' ⟨⟩
      exact (hconnect.kept l hmem).1

/-- An update of a link. -/
theorem updateNode_spec {parent : Option Ipaddr} (h : Inv C s) (hnet : child.net = C.dagId.net)
    (hparent : ∀ p, parent = some p → p.net = C.dagId.net)
    (hknown : parent = some child → getNode C s (some child) ≠ none) :
    Inv C (updateNode C s child parent lifetime).1 ∧
      ∀ addr, isAddrReachable C s addr = true →
        isAddrReachable C (updateNode C s child parent lifetime).1 addr = true := by
  cases parent with
  | none =>
    have hspec := (updateChild_spec lifetime none h hnet
      fun p hp => nomatch hp).1
    exact ⟨hspec.inv, hspec.reach⟩
  | some addr =>
    rw [updateNode]
    cases hl : getNode C s (some addr) with
    | some l =>
      have hmem := ((getNode_eq_some h.toPool).mp hl).1
      have hspec := (updateChild_spec lifetime (some l) h hnet
        fun p hp => Option.some.inj hp ▸ hmem).1
      exact ⟨hspec.inv, hspec.reach⟩
    | none =>
      -- the parent gets a node first, and the child still has the one that it had
      have haddr := hparent addr rfl
      have hne : addr ≠ child := by
        rintro rfl
        exact hknown rfl hl
      obtain ⟨hfirst, hnode⟩ := updateChild_spec infiniteLifetime none h haddr fun p hp => nomatch hp
      rw [hl] at hfirst hnode
      dsimp only
      rcases hcreate : updateChild C s addr none none infiniteLifetime with ⟨s₁, r⟩
      rw [hcreate] at hfirst hnode
      have hsame : getNode C s₁ (some child) = getNode C s (some child) := by
        cases hc : getNode C s (some child) with
        | some c => exact getNode_kept h.toPool hfirst.inv.toPool hfirst.kept hc
        | none =>
          rw [getNode_eq_none hnet] at hc ⊢
          intro x hx
          rcases hfirst.fresh x hx with hold | hid
          · rw [(hfirst.kept x hold).2]
            exact hc x hold
          · intro hxc
            have hident := hid.symm.trans hxc
            have hnets := haddr.trans hnet.symm
            cases addr
            cases child
            simp only at hident hnets
            exact hne (by rw [hident, hnets])
      cases r with
      | none => exact ⟨hfirst.inv, hfirst.reach⟩
      | some l =>
        have hspec := (updateChild_spec lifetime (some l) hfirst.inv
          hnet fun p hp => Option.some.inj hp ▸ hnode l rfl).1
        rw [hsame] at hspec
        exact ⟨hspec.inv, fun a ha => hspec.reach a (hfirst.reach a ha)⟩

end Updates

/-! ## Periodic pass -/

section Periodic

variable {C : Config} {s : State} {l lifetime seconds : ℕ}

theorem Pool.setLifetime (h : Pool C s) : Pool C (s.setLifetime l lifetime) := by
  refine ⟨h.nodup, h.inPool, h.counts, h.number, ?_⟩
  intro x hx y hy hxy
  rw [linkIdentifier_setLifetime, linkIdentifier_setLifetime] at hxy
  exact h.identifiers x hx y hy hxy

theorem expireParent_spec {child : Ipaddr} {parent : Option Ipaddr} (h : Inv C s) :
    Inv C (expireParent C s child parent) := by
  unfold expireParent
  split
  · exact h
  · split
    · refine ⟨h.toPool.setLifetime, ?_⟩
      rw [parent_setLifetime]
      exact h.parents
    · exact h

theorem Pool.freeNode (h : Pool C s) (hl : l ∈ s.nodelist) : Pool C (freeNode s l) := by
  have hmem : ∀ {x}, x ∈ s.nodelist.erase l ↔ x ≠ l ∧ x ∈ s.nodelist := h.nodup.mem_erase_iff
  refine ⟨h.nodup.erase l, ?_, ?_, ?_, ?_⟩
  · exact fun x hx => h.inPool x (hmem.mp hx).2
  · intro x hx
    change Function.update s.count l (s.count l - 1) x = if x ∈ s.nodelist.erase l then 1 else 0
    by_cases hxl : x = l
    · rw [hxl, Function.update_self, h.counts l (h.inPool l hl), if_pos hl, if_neg]
      exact fun hx => (hmem.mp hx).1 rfl
    · rw [Function.update_of_ne hxl, h.counts x hx]
      simp only [hmem, hxl, ne_eq, not_false_eq_true, true_and]
  · change s.numNodes - 1 = ((s.nodelist.erase l).length : ℤ)
    have hpos := List.length_pos_of_mem hl
    rw [h.number, List.length_erase_of_mem hl]
    omega
  · exact fun x hx y hy => h.identifiers x (hmem.mp hx).2 y (hmem.mp hy).2

variable (seconds) in
/-- The loop frees the nodes whose lifetime is over when it comes to them. -/
theorem periodic_loop {ls : List ℕ} (h : Pool C s) (hls : ls.Nodup)
    (hsub : ∀ x ∈ ls, x ∈ s.nodelist) :
    Pool C (ls.foldl (periodicNode seconds) s) ∧
      (ls.foldl (periodicNode seconds) s).parent = s.parent ∧
      ∀ x, x ∈ (ls.foldl (periodicNode seconds) s).nodelist ↔
        x ∈ s.nodelist ∧ ¬ (x ∈ ls ∧ (s.node x).lifetime = 0) := by
  -- On the nodes, each of which is freed or loses lifetime.
  induction ls generalizing s with
  | nil => exact ⟨h, rfl, fun x => by simp⟩
  | cons l ls ih =>
    obtain ⟨hnot, hnodup⟩ := List.nodup_cons.mp hls
    have hl := hsub l List.mem_cons_self
    have hsub' : ∀ x ∈ ls, x ≠ l ∧ x ∈ s.nodelist :=
      fun x hx => ⟨ne_of_mem_of_not_mem hx hnot, hsub x (List.mem_cons_of_mem l hx)⟩
    rw [List.foldl_cons]
    -- A node without lifetime is freed, whoever has it as parent.
    by_cases hzero : (s.node l).lifetime = 0
    · rw [periodicNode, if_pos hzero]
      have hmem : ∀ x, x ∈ (freeNode s l).nodelist ↔ x ≠ l ∧ x ∈ s.nodelist :=
        fun x => h.nodup.mem_erase_iff
      obtain ⟨hpool, hparent, hrest⟩ := ih (h.freeNode hl) hnodup fun x hx => (hmem x).mpr (hsub' x hx)
      refine ⟨hpool, hparent, ?_⟩
      intro x
      rw [hrest x, hmem x, List.mem_cons]
      change (x ≠ l ∧ x ∈ s.nodelist) ∧ ¬ (x ∈ ls ∧ (s.node x).lifetime = 0) ↔ _
      by_cases hx : x = l
      · simp [hx, hzero]
      · simp [hx]
    · -- the node stays, and the nodes behind it keep their lifetimes
      have hstay : Pool C (periodicNode seconds s l) ∧
          (periodicNode seconds s l).parent = s.parent ∧
          (periodicNode seconds s l).nodelist = s.nodelist ∧
          ∀ x, x ≠ l → ((periodicNode seconds s l).node x).lifetime = (s.node x).lifetime := by
        rw [periodicNode, if_neg hzero]
        split
        · refine ⟨h.setLifetime, parent_setLifetime .., rfl, ?_⟩
          intro x hx
          simp [State.setLifetime, hx]
        · exact ⟨h, rfl, rfl, fun _ _ => rfl⟩
      obtain ⟨hpool₁, hparent₁, hlist, hlife⟩ := hstay
      obtain ⟨hpool, hparent, hrest⟩ := ih hpool₁ hnodup fun x hx => hlist ▸ (hsub' x hx).2
      refine ⟨hpool, hparent.trans hparent₁, ?_⟩
      intro x
      rw [hrest x, hlist, List.mem_cons]
      by_cases hx : x = l
      · simp [hx, hzero, hnot]
      · rw [hlife x hx]
        simp [hx]

theorem periodic_spec (h : Inv C s)
    (hsafe : ∀ l ∈ s.nodelist, (s.node l).lifetime ≠ 0 → ∀ p, s.parent l = some p →
      (s.node p).lifetime ≠ 0) : Inv C (periodic s seconds) := by
  obtain ⟨hpool, hparent, hmem⟩ :=
    periodic_loop seconds h.toPool h.nodup fun x hx => hx
  refine ⟨hpool, ?_⟩
  intro l hl p hp
  obtain ⟨hl, hlife⟩ := (hmem l).mp hl
  rw [periodic, hparent] at hp
  have hne := hsafe l hl (fun hzero => hlife ⟨hl, hzero⟩) p hp
  exact (hmem p).mpr ⟨h.parents l hl p hp, fun hzero => hne hzero.2⟩

theorem freeAll_loop {ls : List ℕ} (h : Pool C s) (hls : s.nodelist = ls) :
    Pool C (ls.foldl freeNode s) ∧ (ls.foldl freeNode s).nodelist = [] := by
  induction ls generalizing s with
  | nil => exact ⟨h, hls⟩
  | cons l ls ih =>
    refine ih (h.freeNode ?_) ?_
    · rw [hls]
      exact List.mem_cons_self
    · change s.nodelist.erase l = ls
      rw [hls, List.erase_cons_head]

theorem freeAll_spec (h : Inv C s) : Inv C (freeAll s) := by
  obtain ⟨hpool, hnil⟩ := freeAll_loop h.toPool rfl
  refine ⟨hpool, ?_⟩
  intro l hl
  rw [freeAll, hnil] at hl
  cases hl

end Periodic

/-! ## Result -/

variable {C : Config} {s : State}

/-- The graph is sound, and the next update disconnects nobody. -/
structure Sound (C : Config) (s : State) : Prop where
  nodup : s.nodelist.Nodup
  parents : ∀ l ∈ s.nodelist, ∀ p, s.parent l = some p → p ∈ s.nodelist
  number : s.numNodes = s.nodelist.length
  identifiers : (s.nodelist.map fun l => (s.node l).linkIdentifier).Nodup
  connected : ∀ child parent lifetime, Proper C (.updateNode child parent lifetime) →
    Safe C s (.updateNode child parent lifetime) → ∀ addr, isAddrReachable C s addr = true →
      isAddrReachable C (updateNode C s child parent lifetime).1 addr = true

theorem Inv.sound (h : Inv C s) : Sound C s := by
  refine ⟨h.nodup, h.parents, h.number, ?_, ?_⟩
  · exact List.Nodup.map_on (fun x hx y hy => h.identifiers x hx y hy) h.nodup
  · intro child parent lifetime hproper hsafe
    exact (updateNode_spec h hproper.1 hproper.2 hsafe).2

theorem inv_initial : Inv C State.initial := by
  refine ⟨⟨List.nodup_nil, ?_, fun _ _ => rfl, rfl, ?_⟩, ?_⟩
  all_goals exact fun l hl => absurd hl List.not_mem_nil

theorem Inv.step {c : Call} {s' : State} (h : Inv C s) (hproper : Proper C c) (hsafe : Safe C s c)
    (hs : step C s c = some s') : Inv C s' := by
  obtain rfl := Option.some.inj hs
  cases c with
  | updateNode child parent lifetime => exact (updateNode_spec h hproper.1 hproper.2 hsafe).1
  | expireParent child parent => exact expireParent_spec h
  | periodic seconds => exact periodic_spec h hsafe
  | freeAll => exact freeAll_spec h

/-- In every run in which the pass frees no parent of a node that stays, and no node becomes its
own parent before it is known, the graph stays sound. -/
theorem graph_sound_of_run (h : Run (step C) (fun s c => Proper C c ∧ Safe C s c) .initial s) :
    Sound C s := by
  have hinv : Inv C s := by
    apply h.invariant (I := Inv C)
    · rintro s c s' hinv ⟨hproper, hsafe⟩ hs
      exact hinv.step hproper hsafe hs
    · exact inv_initial
  exact hinv.sound

instance (c : Call) : Decidable (Proper C c) :=
  match c with
  | .updateNode _ none _ => decidable_of_iff (_ = _) (and_iff_left fun _ h => nomatch h).symm
  | .updateNode _ (some p) _ =>
    decidable_of_iff (_ = _ ∧ p.net = _)
      (and_congr_right fun _ => ⟨fun h _ hp => Option.some.inj hp ▸ h, fun h => h p rfl⟩)
  | .expireParent _ _ | .periodic _ | .freeAll => inferInstanceAs (Decidable True)

instance (s : State) (l : ℕ) :
    Decidable (∀ p, s.parent l = some p → (s.node p).lifetime ≠ 0) :=
  decidable_of_iff ((s.parent l).all fun p => decide ((s.node p).lifetime ≠ 0))
    (by cases s.parent l <;> simp)

instance (s : State) (c : Call) : Decidable (Safe C s c) :=
  match c with
  | .updateNode _ _ _ => inferInstanceAs (Decidable (_ → _))
  | .periodic _ => inferInstanceAs (Decidable (∀ _ ∈ _, _ → _))
  | .expireParent _ _ | .freeAll => inferInstanceAs (Decidable True)

/-- The root and two motes. -/
def threeNodes : Config := ⟨3, ⟨1, 1⟩⟩

/-- A mote moves behind another one and back; a loop is refused, and an expired leaf is freed. -/
theorem graph_sound_of_run_moved : ∃ s,
    (s.nodelist = [0, 1] ∧ isAddrReachable threeNodes s ⟨1, 2⟩ = true) ∧ Sound threeNodes s := by
  obtain ⟨s, hrun, hstate⟩ := exists_run_of_runEvents (step threeNodes)
    (fun s c => Proper threeNodes c ∧ Safe threeNodes s c) State.initial
    [.updateNode ⟨1, 2⟩ (some ⟨1, 1⟩) 100, .updateNode ⟨1, 3⟩ (some ⟨1, 2⟩) 50,
      .updateNode ⟨1, 2⟩ (some ⟨1, 3⟩) 100, .updateNode ⟨1, 4⟩ (some ⟨1, 3⟩) 100,
      .expireParent ⟨1, 3⟩ (some ⟨1, 2⟩), .periodic 60, .periodic 60]
    (fun s => s.nodelist = [0, 1] ∧ isAddrReachable threeNodes s ⟨1, 2⟩ = true)
    (by decide +kernel)
  exact ⟨s, hstate, graph_sound_of_run hrun⟩

/-- A mote is freed while another one still points to it. -/
theorem freed_parent : ∃ s, Run (step threeNodes) (fun _ c => Proper threeNodes c) .initial s ∧
    ¬ Sound threeNodes s := by
  obtain ⟨s, hrun, hlist, hparent⟩ := exists_run_of_runEvents (step threeNodes)
    (fun _ c => Proper threeNodes c) State.initial
    [.updateNode ⟨1, 2⟩ (some ⟨1, 1⟩) 50, .updateNode ⟨1, 3⟩ (some ⟨1, 2⟩) 300, .periodic 60,
      .periodic 60]
    (fun s => s.nodelist = [0, 2] ∧ s.parent 2 = some 1) (by decide +kernel)
  refine ⟨s, hrun, ?_⟩
  intro hsound
  have hmem := hsound.parents 2 (by simp [hlist]) 1 hparent
  simp [hlist] at hmem

end MasterScheduler.Mote.RplNs

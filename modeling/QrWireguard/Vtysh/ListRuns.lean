import Mathlib.Algebra.Group.Nat.Defs
import QrWireguard.Vtysh.ListEdits

/-!
# Runs of list operations

Several lists in one memory, and any sequence of the operations of `linklist.c` on them. The lists
stay linked both ways, whatever the comparison and the function that frees an element do. The count
of a list is a 32-bit number, and `listnode_add_after` does not count the node it adds.
-/

namespace QrWireguard.Vtysh.Linklist
open Proc

variable {β : Type}

/-- Following a link from a pointer visits the nodes in this order. -/
def Visits (m : Memory β) (link : ListNode → Option Nat) : Option Nat → List Nat → Prop
  | none, [] => True
  | some a, b :: ns => a = b ∧ ∃ n, m.nodes a = some n ∧ Visits m link (link n) ns
  | _, _ => False

/-- The node belongs to the list. -/
def Belongs (m : Memory β) (list a : Nat) : Prop :=
  ∃ l ns, m.lists list = some l ∧ Visits m (·.next) l.head ns ∧ a ∈ ns

/-- The representation of a list. -/
def ListRep (m : Memory β) (l : ListHead β) : Prop :=
  ∃ ns, Visits m (·.next) l.head ns ∧ Visits m (·.prev) l.tail ns.reverse ∧
    (l.head = none ↔ l.tail = none) ∧ l.count.toNat = ns.length

/-- An operation and its arguments. -/
inductive ListOp where
  | addSort (list : Nat) (val : Option Nat)
  | addOld (list : Nat) (val : Option Nat)
  | addAfter (list : Nat) (pp val : Option Nat)
  | delete (list : Nat) (val : Option Nat)
  | deleteNode (list node : Nat)
  | addNodePrev (list current : Nat) (val : Option Nat)
  | addNodeNext (list current : Nat) (val : Option Nat)
  | addList (l m : Nat)
  | deleteAll (list : Nat)

namespace ListOp

def run (fuel : Nat) : ListOp → Proc (Malloc β) (Memory β) Unit
  | addSort list val => listnodeAddSort fuel list val
  | addOld list val => listnodeAddOld list val
  | addAfter list pp val => listnodeAddAfter list pp val
  | delete list val => listnodeDelete fuel list val
  | deleteNode list node => listDeleteNode list node
  | addNodePrev list current val => listAddNodePrev list current val
  | addNodeNext list current val => listAddNodeNext list current val
  | addList l m => listAddList fuel l m
  | deleteAll list => listDeleteAllNode fuel list

/-- The arguments are lists and nodes that belong to them. -/
def Args (mem : Memory β) : ListOp → Prop
  | addSort list _ | addOld list _ | delete list _ | deleteAll list => (mem.lists list).isSome
  | addAfter list pp _ => (mem.lists list).isSome ∧ ∀ p ∈ pp, Belongs mem list p
  | deleteNode list node => Belongs mem list node
  | addNodePrev list current _ | addNodeNext list current _ => Belongs mem list current
  | addList l m => (mem.lists l).isSome ∧ (mem.lists m).isSome

/-- How many calls of `listnode_add_after` on a list there are after the operation, when there are
`k` before it. A list that is emptied starts again. -/
def afters (list k : Nat) : ListOp → Nat
  | addAfter other _ _ => if other = list then k + 1 else k
  | deleteAll other => if other = list then 0 else k
  | _ => k

end ListOp

/-- The calls of `listnode_add_after` on a list since it was last emptied. -/
def aftersSinceEmptied (list : Nat) (ops : List ListOp) : Nat := ops.foldl (ListOp.afters list) 0

/-- The memories after a sequence of operations that starts with empty lists. -/
inductive ListRun : List ListOp → Memory β → Prop
  | start {m : Memory β} (h : ∀ list l, m.lists list = some l → l.head = none ∧ l.tail = none ∧
      l.count = 0) : ListRun [] m
  | step {ops : List ListOp} {op : ListOp} {m m' : Memory β} {e : Malloc β} {fuel : Nat}
      (hrun : ListRun ops m) (hargs : op.Args m) (h : op.run fuel e m = .done () m') :
      ListRun (ops ++ [op]) m'

section
variable {e : Malloc β} {m m' : Memory β} {list other new node fuel : Nat} {xs ys ns os : List Nat}
  {val p : Option Nat} {inc : BitVec 32} {l : ListHead β} {link : ListNode → Option Nat}

/-! ## Traversals -/

theorem Visits.unique (h : Visits m link p ns) (h' : Visits m link p os) : ns = os := by
  induction ns generalizing p os with
  | nil =>
    cases p with
    | some a => exact h.elim
    | none =>
      cases os with
      | nil => rfl
      | cons b os => exact h'.elim
  | cons a ns ih =>
    cases p with
    | none => exact h.elim
    | some b =>
      cases os with
      | nil => exact h'.elim
      | cons c os =>
        obtain ⟨rfl, n, hn, hrest⟩ := h
        obtain ⟨rfl, n', hn', hrest'⟩ := h'
        rw [hn] at hn'
        cases hn'
        rw [ih hrest hrest']

theorem Visits.congr (h : Visits m link p ns) (hnodes : ∀ a ∈ ns, m'.nodes a = m.nodes a) :
    Visits m' link p ns := by
  induction ns generalizing p with
  | nil =>
    cases p with
    | none => trivial
    | some b => exact h.elim
  | cons a ns ih =>
    cases p with
    | none => exact h.elim
    | some b =>
      obtain ⟨rfl, n, hn, hrest⟩ := h
      refine ⟨rfl, n, ?_, ih hrest fun c hc => hnodes c (List.mem_cons_of_mem _ hc)⟩
      rw [hnodes b List.mem_cons_self, hn]

theorem Owns.visits_next_append (h : Owns m list (xs ++ ys)) :
    Visits m (·.next) ys.head? ys := by
  induction ys generalizing xs with
  | nil => trivial
  | cons a ys ih =>
    obtain ⟨n, hn, hnext, -⟩ := h.links
    rw [List.append_cons] at h
    refine ⟨rfl, n, hn, ?_⟩
    simpa [hnext] using ih h

theorem Owns.visits_prev_append (h : Owns m list (xs ++ ys)) :
    Visits m (·.prev) xs.getLast? xs.reverse := by
  induction xs using List.reverseRecOn generalizing ys with
  | nil => trivial
  | append_singleton xs a ih =>
    rw [← List.append_cons] at h
    obtain ⟨n, hn, -, hprev⟩ := h.links
    rw [List.getLast?_concat, List.reverse_concat]
    refine ⟨rfl, n, hn, ?_⟩
    simpa [hprev] using ih h

/-- Both traversals visit the nodes of the list. -/
theorem Owns.visits (h : Owns m list ns) (hl : m.lists list = some l) :
    Visits m (·.next) l.head ns ∧ Visits m (·.prev) l.tail ns.reverse := by
  obtain ⟨hhead, htail⟩ := h.ends hl
  have hfront : Owns m list ([] ++ ns) := h
  have hback : Owns m list (ns ++ []) := by rwa [List.append_nil]
  rw [hhead, htail]
  exact ⟨hfront.visits_next_append, hback.visits_prev_append⟩

theorem Owns.mem_of_belongs (h : Owns m list ns) (hb : Belongs m list node) : node ∈ ns := by
  obtain ⟨l, os, hl, hvisits, hmem⟩ := hb
  rwa [(h.visits hl).1.unique hvisits]

/-! ## All lists at once -/

/-- The nodes of every list, with what its count lacks. -/
structure Tracks (m : Memory β) (nodes : Nat → List Nat) (lacks : Nat → Nat) : Prop where
  owns : ∀ list, (m.lists list).isSome → Owns m list (nodes list)
  apart : ∀ list other a, (m.lists list).isSome → (m.lists other).isSome → a ∈ nodes list →
    a ∈ nodes other → list = other
  count : ∀ list l, m.lists list = some l →
    l.count + BitVec.ofNat 32 (lacks list) = BitVec.ofNat 32 (nodes list).length

variable {nodes : Nat → List Nat} {lacks lacks' : Nat → Nat}

@[simp] theorem Memory.isSome_lists_linkIn {x y : Option Nat} :
    ((m.linkIn list x y new val inc).lists other).isSome = (m.lists other).isSome := by
  by_cases hne : other = list <;> simp [Memory.linkIn, hne]

@[simp] theorem Memory.isSome_lists_linkOut {x y : Option Nat} :
    ((m.linkOut list x y node).lists other).isSome = (m.lists other).isSome := by
  by_cases hne : other = list <;> simp [Memory.linkOut, hne]

/-- A node is linked into one of the lists. -/
theorem Tracks.linkIn (h : Tracks m nodes lacks) (hlist : (m.lists list).isSome)
    (hns : nodes list = xs ++ ys) (hnode : m.nodes new = none)
    (hlacks : ∀ k ≠ list, lacks' k = lacks k)
    (hinc : inc + BitVec.ofNat 32 (lacks' list) = BitVec.ofNat 32 (lacks list) + 1) :
    Tracks (m.linkIn list xs.getLast? ys.head? new val inc)
      (Function.update nodes list (xs ++ new :: ys)) lacks' := by
  have howns := h.owns list hlist
  rw [hns] at howns
  have hfresh : ∀ k, (m.lists k).isSome → new ∉ nodes k := fun k hk => (h.owns k hk).fresh hnode
  refine ⟨fun k hk => ?_, fun j k a hj hk haj hak => ?_, fun k l hl => ?_⟩
  · rw [Memory.isSome_lists_linkIn] at hk
    by_cases hne : k = list
    · rw [hne, Function.update_self]
      exact howns.linkIn hnode
    · rw [Function.update_of_ne hne]
      refine (h.owns k hk).linkIn_other hne (fun a ha hmem => hne ?_) hnode
      exact h.apart k list a hk hlist ha (hns ▸ hmem)
  · rw [Memory.isSome_lists_linkIn] at hj hk
    have hmem : ∀ k, (m.lists k).isSome → a ∈ Function.update nodes list (xs ++ new :: ys) k →
        a ≠ new → a ∈ nodes k := by
      intro k hk ha hnew
      by_cases hne : k = list
      · rw [hne, Function.update_self] at ha
        rw [hne, hns]
        simpa [hnew] using ha
      · rwa [Function.update_of_ne hne] at ha
    by_cases hnew : a = new
    · have hin : ∀ k, (m.lists k).isSome →
          a ∈ Function.update nodes list (xs ++ new :: ys) k → k = list := by
        intro k hk ha
        by_contra hne
        rw [Function.update_of_ne hne, hnew] at ha
        exact hfresh k hk ha
      rw [hin j hj haj, hin k hk hak]
    · exact h.apart j k a hj hk (hmem j hj haj hnew) (hmem k hk hak hnew)
  · by_cases hne : k = list
    · subst hne
      obtain ⟨l', hl'⟩ := Option.isSome_iff_exists.mp hlist
      have hcount := h.count k l' hl'
      rw [Memory.lists_linkIn_self hl', Option.some.injEq] at hl
      rw [Function.update_self, ← hl]
      rw [hns] at hcount
      simp only [List.length_append, List.length_cons, ← Nat.add_assoc] at hcount ⊢
      rw [BitVec.ofNat_add (_ + _), ← hcount, BitVec.add_assoc, hinc, BitVec.add_assoc]
      rfl
    · simp only [Memory.linkIn, if_neg hne] at hl
      rw [Function.update_of_ne hne, hlacks k hne]
      exact h.count k l hl

/-- A node is taken out of one of the lists. -/
theorem Tracks.linkOut (h : Tracks m nodes lacks) (hlist : (m.lists list).isSome)
    (hns : nodes list = xs ++ node :: ys) :
    Tracks (m.linkOut list xs.getLast? ys.head? node)
      (Function.update nodes list (xs ++ ys)) lacks := by
  have howns := h.owns list hlist
  rw [hns] at howns
  have hmem : ∀ k a, a ∈ Function.update nodes list (xs ++ ys) k → a ∈ nodes k := by
    intro k a ha
    by_cases hne : k = list
    · rw [hne, Function.update_self] at ha
      rw [hne, hns]
      exact List.perm_middle.mem_iff.mpr (List.mem_cons_of_mem _ ha)
    · rwa [Function.update_of_ne hne] at ha
  refine ⟨fun k hk => ?_, fun j k a hj hk haj hak => ?_, fun k l hl => ?_⟩
  · rw [Memory.isSome_lists_linkOut] at hk
    by_cases hne : k = list
    · rw [hne, Function.update_self]
      exact howns.linkOut
    · rw [Function.update_of_ne hne]
      refine (h.owns k hk).linkOut_other hne fun a ha hin => hne ?_
      exact h.apart k list a hk hlist ha (hns ▸ hin)
  · rw [Memory.isSome_lists_linkOut] at hj hk
    exact h.apart j k a hj hk (hmem j a haj) (hmem k a hak)
  · by_cases hne : k = list
    · subst hne
      obtain ⟨l', hl'⟩ := Option.isSome_iff_exists.mp hlist
      have hcount := h.count k l' hl'
      rw [Memory.lists_linkOut_self hl' _ _ _, Option.some.injEq] at hl
      rw [Function.update_self, ← hl]
      rw [hns] at hcount
      simp only [List.length_append, List.length_cons, ← Nat.add_assoc] at hcount ⊢
      rw [BitVec.ofNat_add (_ + _)] at hcount
      grind
    · simp only [Memory.linkOut, if_neg hne] at hl
      rw [Function.update_of_ne hne]
      exact h.count k l hl

/-- A list is emptied. Its nodes are freed. -/
theorem Tracks.empty (h : Tracks m nodes lacks) (hl : m.lists list = some l)
    (hl' : m'.lists list = some { l with head := none, tail := none, count := 0 })
    (hlists : ∀ k ≠ list, m'.lists k = m.lists k)
    (hnodes : ∀ a, a ∉ nodes list → m'.nodes a = m.nodes a)
    (hlacks : ∀ k ≠ list, lacks' k = lacks k) (hzero : lacks' list = 0) :
    Tracks m' (Function.update nodes list []) lacks' := by
  have hlist : (m.lists list).isSome := by rw [hl]; rfl
  have hsome : ∀ k, (m'.lists k).isSome = (m.lists k).isSome := by
    intro k
    by_cases hne : k = list
    · rw [hne, hl, hl']
      rfl
    · rw [hlists k hne]
  refine ⟨fun k hk => ?_, fun j k a hj hk haj hak => ?_, fun k l hk => ?_⟩
  · by_cases hne : k = list
    · subst hne
      rw [Function.update_self]
      refine ⟨hk, nofun, ring_nil.mpr ?_⟩
      simp [Memory.next, Memory.prev, hl']
    · rw [Function.update_of_ne hne]
      rw [hsome] at hk
      refine (h.owns k hk).congr (hlists k hne) fun a ha => hnodes a fun hin => hne ?_
      exact h.apart k list a hk hlist ha hin
  · rw [hsome] at hj hk
    have hmem : ∀ k, a ∈ Function.update nodes list [] k → a ∈ nodes k := by
      intro k ha
      by_cases hne : k = list
      · rw [hne, Function.update_self] at ha
        cases ha
      · rwa [Function.update_of_ne hne] at ha
    exact h.apart j k a hj hk (hmem j haj) (hmem k hak)
  · by_cases hne : k = list
    · subst hne
      rw [hl'] at hk
      rw [← Option.some.inj hk, hzero, Function.update_self]
      rfl
    · rw [hlists k hne] at hk
      rw [Function.update_of_ne hne, hlacks k hne]
      exact h.count k l hk

/-! ## The loops over all nodes -/

theorem sat_callDel {del : Bool} {data : Option Nat} :
    Sat (callDel del data) e m fun _ m' => m'.nodes = m.nodes ∧ m'.lists = m.lists := by
  cases del with
  | false => simp [callDel]
  | true =>
    cases data with
    | none => simp [callDel, freeData]
    | some a =>
      simp only [callDel, freeData, if_true, sat_bind, sat_deref, sat_modify]
      exact fun _ _ => ⟨rfl, rfl⟩

theorem sat_deleteNodes {del : Bool} (hnodup : ns.Nodup) (h : Visits m (·.next) p ns) :
    Sat (deleteNodes del fuel p) e m fun _ m' => m'.lists = m.lists ∧
      ∀ a, a ∉ ns → m'.nodes a = m.nodes a := by
  induction ns generalizing m fuel p with
  | nil =>
    cases p with
    | none => simp [deleteNodes]
    | some a => exact h.elim
  | cons b ns ih =>
    cases p with
    | none => exact h.elim
    | some a =>
      obtain ⟨rfl, n, hn, hrest⟩ := h
      obtain ⟨ha, hns⟩ := List.nodup_cons.mp hnodup
      cases fuel with
      | zero => simp [deleteNodes]
      | succ fuel =>
        simp only [deleteNodes, sat_bind, sat_readNode]
        intro n' hn'
        rw [hn] at hn'
        cases hn'
        refine sat_callDel.mono ?_
        rintro _ t ⟨hnodes, hlists⟩
        simp only [sat_listnodeFree]
        intro _
        have hkeep : ∀ c, c ≠ a → (t.freeNode a).nodes c = m.nodes c := by
          intro c hc
          rw [Memory.nodes_freeNode, if_neg hc, hnodes]
        have hvisits := hrest.congr fun c hc => hkeep c (ne_of_mem_of_not_mem hc ha)
        refine (ih hns hvisits).mono ?_
        rintro _ t' ⟨hlists', hnodes'⟩
        refine ⟨hlists'.trans hlists, fun c hc => ?_⟩
        rw [List.mem_cons, not_or] at hc
        rw [hnodes' c hc.2, hkeep c hc.1]

theorem sat_listDeleteAllNode (h : Owns m list ns) :
    Sat (listDeleteAllNode fuel list) e m fun _ m' =>
      (∃ l, m.lists list = some l ∧
        m'.lists list = some { l with head := none, tail := none, count := 0 }) ∧
      (∀ k ≠ list, m'.lists k = m.lists k) ∧ ∀ a, a ∉ ns → m'.nodes a = m.nodes a := by
  simp only [listDeleteAllNode, sat_bind, sat_readList]
  intro l hl
  refine (sat_deleteNodes h.nodup (h.visits hl).1).mono ?_
  rintro _ t ⟨hlists, hnodes⟩
  simp only [sat_storeList]
  intro _ _
  refine ⟨⟨l, hl, by simp [hlists, hl]⟩, fun k hk => by simp [hlists, hk], fun a ha => ?_⟩
  exact hnodes a ha

/-- What follows a node of a list belongs to the list. -/
theorem Owns.next_mem (h : Owns m list ns) {n : ListNode} (hmem : node ∈ ns)
    (hn : m.nodes node = some n) : ∀ a ∈ n.next, a ∈ ns := by
  obtain ⟨xs, ys, rfl⟩ := List.append_of_mem hmem
  intro a ha
  rw [h.head_next hn] at ha
  exact List.mem_append_right _ (List.mem_cons_of_mem _ (List.mem_of_head? ha))

/-- An insertion into one of the lists, all of which grow at most. -/
theorem Tracks.sat_addSort (h : Tracks m nodes lacks) (hlist : (m.lists list).isSome) :
    Sat (listnodeAddSort fuel list val) e m fun _ m' => ∃ nodes', Tracks m' nodes' lacks ∧
      (∀ k, nodes k ⊆ nodes' k) ∧ ∀ k, (m'.lists k).isSome = (m.lists k).isSome := by
  refine (sat_listnodeAddSort (h.owns list hlist)).mono ?_
  rintro _ _ ⟨new, xs, ys, hns, hnode, rfl⟩
  refine ⟨_, h.linkIn hlist hns hnode (fun _ _ => rfl) (BitVec.add_comm _ _), fun k => ?_,
    fun k => Memory.isSome_lists_linkIn⟩
  by_cases hne : k = list
  · rw [hne, Function.update_self, hns]
    exact fun a ha => List.perm_middle.mem_iff.mpr (List.mem_cons_of_mem _ ha)
  · rw [Function.update_of_ne hne]
    exact fun _ ha => ha

theorem Tracks.sat_addEach {source rounds : Nat} (h : Tracks m nodes lacks)
    (hlist : (m.lists list).isSome) (hsource : (m.lists source).isSome)
    (hp : ∀ a ∈ p, a ∈ nodes source) :
    Sat (addEach fuel list rounds p) e m fun _ m' => ∃ nodes', Tracks m' nodes' lacks := by
  induction rounds generalizing m nodes p with
  | zero =>
    cases p with
    | none => simpa [addEach] using ⟨nodes, h⟩
    | some n => simp [addEach]
  | succ rounds ih =>
    cases p with
    | none => simpa [addEach] using ⟨nodes, h⟩
    | some n =>
      simp only [addEach, sat_bind, sat_readNode]
      intro node _
      refine (h.sat_addSort hlist).mono ?_
      rintro _ t ⟨nodes', ht, hgrow, hsome⟩
      intro node' hnode'
      refine ih ht ((hsome list).trans hlist) ((hsome source).trans hsource) ?_
      exact (ht.owns source ((hsome source).trans hsource)).next_mem (hgrow source (hp n rfl)) hnode'

/-! ## Runs -/

/-- A node is linked into a list that holds the place. -/
theorem Tracks.of_linkIn (h : Tracks m nodes lacks) (hlist : (m.lists list).isSome)
    (hns : nodes list = xs ++ ys) (hinc : inc + BitVec.ofNat 32 (lacks' list) =
      BitVec.ofNat 32 (lacks list) + 1) (hlacks : ∀ k ≠ list, lacks' k = lacks k)
    (hm' : ∃ new, m.nodes new = none ∧ m.data new = none ∧
      m' = m.linkIn list xs.getLast? ys.head? new val inc) :
    ∃ nodes', Tracks m' nodes' lacks' := by
  obtain ⟨new, hnode, -, rfl⟩ := hm'
  exact ⟨_, h.linkIn hlist hns hnode hlacks hinc⟩

/-- What an operation does to the lists. -/
theorem ListOp.sat_run {op : ListOp} (h : Tracks m nodes lacks) (hargs : op.Args m) :
    Sat (op.run fuel) e m fun _ m' =>
      ∃ nodes', Tracks m' nodes' fun list => op.afters list (lacks list) := by
  have hsame : ∀ k, BitVec.ofNat 32 1 + BitVec.ofNat 32 (lacks k) = BitVec.ofNat 32 (lacks k) + 1 :=
    fun k => BitVec.add_comm _ _
  have hlist : ∀ {list node}, Belongs m list node → (m.lists list).isSome := by
    rintro list node ⟨l, -, hl, -⟩
    rw [hl]
    rfl
  cases op with
  | addSort list val =>
    refine (h.sat_addSort hargs).mono ?_
    rintro _ _ ⟨nodes', h', -⟩
    exact ⟨nodes', h'⟩
  | addOld list val =>
    have hns : nodes list = nodes list ++ [] := (List.append_nil _).symm
    exact (safe_listnodeAddOld (h.owns list hargs)).sat.mono fun _ _ hm' =>
      h.of_linkIn hargs hns (hsame list) (fun _ _ => rfl) hm'
  | addAfter list pp val =>
    obtain ⟨hargs, hpp⟩ := hargs
    have hafter : 0 + BitVec.ofNat 32 ((ListOp.addAfter list pp val).afters list (lacks list)) =
        BitVec.ofNat 32 (lacks list) + 1 := by
      simp only [ListOp.afters, if_true, BitVec.ofNat_add]
      exact BitVec.zero_add _
    have hother : ∀ k ≠ list, (ListOp.addAfter list pp val).afters k (lacks k) = lacks k :=
      fun k hk => if_neg hk.symm
    cases pp with
    | none =>
      have hns : nodes list = [] ++ nodes list := rfl
      exact (safe_listnodeAddAfter_none (h.owns list hargs)).sat.mono fun _ _ hm' =>
        h.of_linkIn hargs hns hafter hother hm'
    | some node =>
      obtain ⟨xs, ys, hns⟩ := List.append_of_mem ((h.owns list hargs).mem_of_belongs (hpp node rfl))
      have howns := h.owns list hargs
      rw [hns] at howns
      refine (safe_listnodeAddAfter_some howns).sat.mono fun _ _ hm' => ?_
      rw [List.append_cons] at hns
      exact h.of_linkIn hargs hns hafter hother (by simpa using hm')
  | delete list val =>
    refine (sat_listnodeDelete (h.owns list hargs)).mono ?_
    rintro _ _ (rfl | ⟨xs, node, ys, hns, rfl⟩)
    · exact ⟨nodes, h⟩
    · exact ⟨_, h.linkOut hargs hns⟩
  | deleteNode list node =>
    have howns := h.owns list (hlist hargs)
    obtain ⟨xs, ys, hns⟩ := List.append_of_mem (howns.mem_of_belongs hargs)
    rw [hns] at howns
    refine (safe_listDeleteNode howns).sat.mono ?_
    rintro _ _ rfl
    exact ⟨_, h.linkOut (hlist hargs) hns⟩
  | addNodePrev list node val =>
    have howns := h.owns list (hlist hargs)
    obtain ⟨xs, ys, hns⟩ := List.append_of_mem (howns.mem_of_belongs hargs)
    rw [hns] at howns
    exact (safe_listAddNodePrev howns).sat.mono fun _ _ hm' =>
      h.of_linkIn (hlist hargs) hns (hsame list) (fun _ _ => rfl) hm'
  | addNodeNext list node val =>
    have howns := h.owns list (hlist hargs)
    obtain ⟨xs, ys, hns⟩ := List.append_of_mem (howns.mem_of_belongs hargs)
    rw [hns] at howns
    refine (safe_listAddNodeNext howns).sat.mono fun _ _ hm' => ?_
    rw [List.append_cons] at hns
    exact h.of_linkIn (hlist hargs) hns (hsame list) (fun _ _ => rfl) (by simpa using hm')
  | addList list source =>
    simp only [ListOp.run, listAddList, sat_bind, sat_readList]
    intro l hl
    have howns := h.owns source hargs.2
    refine h.sat_addEach hargs.1 hargs.2 fun a ha => ?_
    rw [(howns.ends hl).1] at ha
    exact List.mem_of_head? ha
  | deleteAll list =>
    refine (sat_listDeleteAllNode (h.owns list hargs)).mono ?_
    rintro _ t ⟨⟨l, hl, hl'⟩, hlists, hnodes⟩
    exact ⟨_, h.empty hl hl' hlists hnodes (fun k hk => if_neg hk.symm) (if_pos rfl)⟩

theorem aftersSinceEmptied_concat (list : Nat) (ops : List ListOp) (op : ListOp) :
    aftersSinceEmptied list (ops ++ [op]) = op.afters list (aftersSinceEmptied list ops) := by
  simp [aftersSinceEmptied]

/-- The lists after any sequence of operations. -/
theorem ListRun.tracks {ops : List ListOp} (h : ListRun ops m) :
    ∃ nodes, Tracks m nodes (aftersSinceEmptied · ops) := by
  induction h with
  | @start m hstart =>
    refine ⟨fun _ => [], fun list hlist => ?_, nofun, fun list l hl => ?_⟩
    · obtain ⟨l, hl⟩ := Option.isSome_iff_exists.mp hlist
      obtain ⟨hhead, htail, -⟩ := hstart list l hl
      refine ⟨hlist, nofun, ring_nil.mpr ?_⟩
      simp [Memory.next, Memory.prev, hl, hhead, htail]
    · rw [(hstart list l hl).2.2]
      rfl
  | step _ hargs hdone ih =>
    obtain ⟨nodes, h⟩ := ih
    obtain ⟨nodes', h'⟩ := (ListOp.sat_run h hargs).of_done hdone
    simp only [aftersSinceEmptied_concat]
    exact ⟨nodes', h'⟩

/-- A count that lacks `k` is right when it lacks a multiple of 2^32. -/
theorem toNat_eq_iff_of_lacks {count : BitVec 32} {k n : Nat} (hn : n < 2 ^ 32)
    (h : count + BitVec.ofNat 32 k = BitVec.ofNat 32 n) : count.toNat = n ↔ 2 ^ 32 ∣ k := by
  have hmod : (count.toNat + k) % 2 ^ 32 = n % 2 ^ 32 := by
    simpa using congrArg BitVec.toNat h
  have hlt := count.isLt
  omega

/-- After any sequence of operations the representation of a list is right exactly when the list
has fewer than 2^32 nodes and `listnode_add_after` did not add one since the list was last emptied,
or a multiple of 2^32 of them. -/
theorem listRep_iff {ops : List ListOp} (h : ListRun ops m) (hl : m.lists list = some l) :
    ListRep m l ↔ (∃ ns, Visits m (·.next) l.head ns ∧ ns.length < 2 ^ 32) ∧
      2 ^ 32 ∣ aftersSinceEmptied list ops := by
  obtain ⟨nodes, h⟩ := h.tracks
  have hlist : (m.lists list).isSome := by rw [hl]; rfl
  have howns := h.owns list hlist
  obtain ⟨hnext, hprev⟩ := howns.visits hl
  have hcount := h.count list l hl
  constructor
  · rintro ⟨ns, hns, -, -, hlen⟩
    have hlt : ns.length < 2 ^ 32 := hlen ▸ l.count.isLt
    rw [← hns.unique hnext] at hcount
    exact ⟨⟨ns, hns, hlt⟩, (toNat_eq_iff_of_lacks hlt hcount).mp hlen⟩
  · rintro ⟨⟨ns, hns, hlt⟩, hdvd⟩
    rw [hns.unique hnext] at hlt
    exact ⟨_, hnext, hprev, howns.ends_none_iff hl, (toNat_eq_iff_of_lacks hlt hcount).mpr hdvd⟩

end

/-- A `malloc` that never gives out an address twice. -/
def nextAddress : Malloc β where
  alloc m := some m.top
  fresh m a h := by
    cases h
    exact m.unused m.top le_rfl

/-- A list without nodes, and nothing else. -/
def oneList : Memory Nat where
  nodes _ := none
  lists list := if list = 0 then some ⟨none, none, 0, none, false⟩ else none
  data _ := none
  top := 0
  unused _ _ := ⟨rfl, rfl⟩

/-- The memory after an operation on the list. -/
def afterOp (op : ListOp) : Memory Nat := (op.run 0 nextAddress oneList).stateD oneList

theorem listRun_afterOp {op : ListOp} (hargs : op.Args oneList)
    (h : (op.run 0 nextAddress oneList).value? = some ()) : ListRun [op] (afterOp op) := by
  have hstart : ListRun [] oneList := .start fun list l hl => ?_
  · exact hstart.step hargs (Outcome.eq_done h oneList)
  by_cases hlist : list = 0
  · simp only [oneList, if_pos hlist, Option.some.injEq] at hl
    rw [← hl]
    exact ⟨rfl, rfl, rfl⟩
  · simp only [oneList, if_neg hlist] at hl
    cases hl

theorem listRep_iff_addOld : ListRep (afterOp (.addOld 0 none)) ⟨some 0, some 0, 1, none, false⟩ := by
  have hrun : ListRun [.addOld 0 none] (afterOp (.addOld 0 none)) := listRun_afterOp rfl rfl
  have hlist : (afterOp (.addOld 0 none)).lists 0 = some ⟨some 0, some 0, 1, none, false⟩ := rfl
  refine (listRep_iff hrun hlist).mpr ?_
  exact ⟨⟨[0], ⟨rfl, ⟨none, none, none⟩, rfl, trivial⟩, by decide⟩, ⟨0, rfl⟩⟩

/-- The node that `listnode_add_after` adds is not counted. -/
theorem not_listRep : ListRun [.addAfter 0 none none] (afterOp (.addAfter 0 none none)) ∧
    (afterOp (.addAfter 0 none none)).lists 0 = some ⟨some 0, some 0, 0, none, false⟩ ∧
      ¬ ListRep (afterOp (.addAfter 0 none none)) ⟨some 0, some 0, 0, none, false⟩ := by
  refine ⟨listRun_afterOp ⟨rfl, nofun⟩ rfl, rfl, ?_⟩
  rintro ⟨ns, hnext, -, -, hlen⟩
  cases ns with
  | nil => exact hnext
  | cons a ns => exact absurd hlen (Nat.zero_ne_add_one _)

end QrWireguard.Vtysh.Linklist

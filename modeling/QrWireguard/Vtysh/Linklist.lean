import Mathlib.Logic.Function.Basic
import QrWireguard.Misc.Proc

/-!
# Linked lists in memory

`linklist.c`: doubly linked lists of nodes that `XMALLOC` allocates. A pointer is an address, or
`none` for `NULL`. Reading or writing through `NULL` or through a pointer to memory that is not
allocated is undefined behaviour, and `XMALLOC` ends the process when there is no memory. The
loops have a bound on their rounds; one that goes on for longer counts as one that does not end.
-/

namespace QrWireguard.Vtysh.Linklist
open Proc

/-- `struct listnode`. -/
structure ListNode where
  next : Option Nat
  prev : Option Nat
  data : Option Nat

/-- `struct list`. The comparison reads what its arguments point to, and `del` is the function that
frees an element, if there is one. -/
structure ListHead (β : Type) where
  head : Option Nat
  tail : Option Nat
  count : BitVec 32
  cmp : Option ((Nat → Option β) → Option Nat → Option Nat → Option Int)
  del : Bool

/-- The allocated nodes, lists and elements. Nothing is allocated from the address `top` on. -/
structure Memory (β : Type) where
  nodes : Nat → Option ListNode
  lists : Nat → Option (ListHead β)
  data : Nat → Option β
  top : Nat
  unused : ∀ a, top ≤ a → nodes a = none ∧ data a = none

/-- `malloc`, which answers with an address that is not in use, or with none at all. -/
structure Malloc (β : Type) where
  alloc : Memory β → Option Nat
  fresh : ∀ m a, alloc m = some a → m.nodes a = none ∧ m.data a = none

namespace Memory
variable {β : Type}

/-- `listnode_new` at an address. -/
def newNode (m : Memory β) (a : Nat) : Memory β where
  nodes := Function.update m.nodes a (some ⟨none, none, none⟩)
  lists := m.lists
  data := m.data
  top := max m.top (a + 1)
  unused b hb := by
    have hne : b ≠ a := by omega
    rw [Function.update_of_ne hne]
    exact m.unused b (by omega)

/-- A node is written. -/
def mapNode (m : Memory β) (a : Nat) (f : ListNode → ListNode) : Memory β where
  nodes := Function.update m.nodes a ((m.nodes a).map f)
  lists := m.lists
  data := m.data
  top := m.top
  unused b hb := by
    by_cases hab : b = a
    · subst hab
      rw [Function.update_self, (m.unused b hb).1]
      exact ⟨rfl, (m.unused b hb).2⟩
    · rw [Function.update_of_ne hab]
      exact m.unused b hb

/-- A node is freed. -/
def freeNode (m : Memory β) (a : Nat) : Memory β where
  nodes := Function.update m.nodes a none
  lists := m.lists
  data := m.data
  top := m.top
  unused b hb := by
    by_cases hab : b = a
    · subst hab
      rw [Function.update_self]
      exact ⟨rfl, (m.unused b hb).2⟩
    · rw [Function.update_of_ne hab]
      exact m.unused b hb

/-- A list is written. -/
def mapList (m : Memory β) (list : Nat) (f : ListHead β → ListHead β) : Memory β :=
  { m with lists := Function.update m.lists list ((m.lists list).map f) }

/-- An element is allocated. -/
def newData (m : Memory β) (a : Nat) (x : β) : Memory β where
  nodes := m.nodes
  lists := m.lists
  data := Function.update m.data a (some x)
  top := max m.top (a + 1)
  unused b hb := by
    have hne : b ≠ a := by omega
    rw [Function.update_of_ne hne]
    exact m.unused b (by omega)

/-- An element is freed. -/
def freeData (m : Memory β) (a : Nat) : Memory β where
  nodes := m.nodes
  lists := m.lists
  data := Function.update m.data a none
  top := m.top
  unused b hb := by
    by_cases hab : b = a
    · subst hab
      rw [Function.update_self]
      exact ⟨(m.unused b hb).1, rfl⟩
    · rw [Function.update_of_ne hab]
      exact m.unused b hb

end Memory

section
variable {β γ : Type}

/-! ## Reading and writing -/

/-- Read something that has to be there. -/
def deref (f : Memory β → Option γ) : Proc (Malloc β) (Memory β) γ := do
  match f (← get) with
  | some x => pure x
  | none => undefined

def readNode (a : Nat) : Proc (Malloc β) (Memory β) ListNode := deref (·.nodes a)
def readList (list : Nat) : Proc (Malloc β) (Memory β) (ListHead β) := deref (·.lists list)

/-- Write fields of a node. -/
def store (a : Nat) (f : ListNode → ListNode) : Proc (Malloc β) (Memory β) Unit := do
  let _ ← readNode a
  modify (·.mapNode a f)

/-- Write fields of a list. -/
def storeList (list : Nat) (f : ListHead β → ListHead β) : Proc (Malloc β) (Memory β) Unit := do
  let _ ← readList list
  modify (·.mapList list f)

/-- `zmalloc`. -/
def zmalloc : Proc (Malloc β) (Memory β) Nat := do
  match ← ask fun e m => e.alloc m with
  | some a => pure a
  | none => exit

/-- `listnode_new`. -/
def listnodeNew : Proc (Malloc β) (Memory β) Nat := do
  let a ← zmalloc
  modify (·.newNode a)
  pure a

/-- `listnode_free`. -/
def listnodeFree (node : Nat) : Proc (Malloc β) (Memory β) Unit := do
  let _ ← readNode node
  modify (·.freeNode node)

/-- `free` of an element; of `NULL` it does nothing. -/
def freeData : Option Nat → Proc (Malloc β) (Memory β) Unit
  | none => pure ()
  | some a => do
    let _ ← deref (·.data a)
    modify (·.freeData a)

/-- `if (prev) prev->next = next; else list->head = next;` -/
def setNext (list : Nat) (prev next : Option Nat) : Proc (Malloc β) (Memory β) Unit :=
  match prev with
  | some p => store p ({ · with next := next })
  | none => storeList list ({ · with head := next })

/-- `if (next) next->prev = prev; else list->tail = prev;` -/
def setPrev (list : Nat) (next prev : Option Nat) : Proc (Malloc β) (Memory β) Unit :=
  match next with
  | some n => store n ({ · with prev := prev })
  | none => storeList list ({ · with tail := prev })

/-- The loop `for (n = head; n; n = n->next)` up to a node that passes the test. -/
def findNode (test : ListNode → Proc (Malloc β) (Memory β) Bool) :
    Nat → Option Nat → Proc (Malloc β) (Memory β) (Option Nat)
  | _, none => pure none
  | 0, some _ => undefined
  | fuel + 1, some n => do
    let node ← readNode n
    let hit ← test node
    if hit then pure (some n) else findNode test fuel node.next

/-! ## The functions -/

/-- The end of `listnode_add_old`: `if (list->head == NULL) list->head = node; else
list->tail->next = node;`. -/
def setTailNext (list node : Nat) (head tail : Option Nat) : Proc (Malloc β) (Memory β) Unit :=
  match head, tail with
  | none, _ => storeList list ({ · with head := some node })
  | some _, some t => store t ({ · with next := some node })
  | some _, none => undefined

/-- `listnode_add_old`. -/
def listnodeAddOld (list : Nat) (val : Option Nat) : Proc (Malloc β) (Memory β) Unit := do
  let node ← listnodeNew
  let l ← readList list
  store node ({ · with prev := l.tail })
  store node ({ · with data := val })
  setTailNext list node l.head l.tail
  storeList list ({ · with tail := some node })
  storeList list fun l => { l with count := l.count + 1 }

/-- The loop of `listnode_add_sort`: the first node with a greater element, if the list has a
comparison. -/
def findGreater (fuel : Nat)
    (cmp : Option ((Nat → Option β) → Option Nat → Option Nat → Option Int))
    (val head : Option Nat) : Proc (Malloc β) (Memory β) (Option Nat) :=
  match cmp with
  | none => pure none
  | some cmp => findNode (fun n => do
      let order ← deref fun m => cmp m.data val n.data
      pure (decide (order < 0))) fuel head

/-- What `listnode_add_sort` does in front of a node. -/
def addBefore (list new n : Nat) : Proc (Malloc β) (Memory β) Unit := do
  store new ({ · with next := some n })
  let node ← readNode n
  store new ({ · with prev := node.prev })
  setNext list node.prev (some new)
  store n ({ · with prev := some new })
  storeList list fun l => { l with count := l.count + 1 }

/-- What `listnode_add_sort` does at the end of the list. -/
def addLast (list new : Nat) (tail : Option Nat) : Proc (Malloc β) (Memory β) Unit := do
  store new ({ · with prev := tail })
  setNext list tail (some new)
  storeList list ({ · with tail := some new })
  storeList list fun l => { l with count := l.count + 1 }

/-- `listnode_add_sort`, which is `listnode_add` also. -/
def listnodeAddSort (fuel list : Nat) (val : Option Nat) : Proc (Malloc β) (Memory β) Unit := do
  let new ← listnodeNew
  store new ({ · with data := val })
  let l ← readList list
  match ← findGreater fuel l.cmp val l.head with
  | some n => addBefore list new n
  | none => addLast list new l.tail

/-- `listnode_add_after`, which leaves the count as it is. -/
def listnodeAddAfter (list : Nat) (pp val : Option Nat) : Proc (Malloc β) (Memory β) Unit := do
  let nn ← listnodeNew
  store nn ({ · with data := val })
  match pp with
  | none =>
    let l ← readList list
    setPrev list l.head (some nn)
    store nn ({ · with next := l.head })
    store nn ({ · with prev := none })
    storeList list ({ · with head := some nn })
  | some p =>
    let node ← readNode p
    setPrev list node.next (some nn)
    store nn ({ · with next := node.next })
    store nn ({ · with prev := some p })
    store p ({ · with next := some nn })

/-- `list_delete_node`. -/
def listDeleteNode (list node : Nat) : Proc (Malloc β) (Memory β) Unit := do
  let n ← readNode node
  setNext list n.prev n.next
  let n ← readNode node
  setPrev list n.next n.prev
  storeList list fun l => { l with count := l.count - 1 }
  listnodeFree node

/-- `listnode_delete`, which takes the first node with the element out as `list_delete_node`
does. -/
def listnodeDelete (fuel list : Nat) (val : Option Nat) : Proc (Malloc β) (Memory β) Unit := do
  let l ← readList list
  match ← findNode (fun n => pure (decide (n.data = val))) fuel l.head with
  | some node => listDeleteNode list node
  | none => pure ()

/-- `if (list->del) (*list->del) (data);`, where `del` frees the element. -/
def callDel (del : Bool) (data : Option Nat) : Proc (Malloc β) (Memory β) Unit :=
  if del then freeData data else pure ()

/-- The loop of `list_delete_all_node`. -/
def deleteNodes (del : Bool) : Nat → Option Nat → Proc (Malloc β) (Memory β) Unit
  | _, none => pure ()
  | 0, some _ => undefined
  | fuel + 1, some node => do
    let n ← readNode node
    callDel del n.data
    listnodeFree node
    deleteNodes del fuel n.next

/-- `list_delete_all_node`. -/
def listDeleteAllNode (fuel list : Nat) : Proc (Malloc β) (Memory β) Unit := do
  let l ← readList list
  deleteNodes l.del fuel l.head
  storeList list ({ · with head := none, tail := none })
  storeList list ({ · with count := 0 })

/-- `list_add_node_prev`. -/
def listAddNodePrev (list current : Nat) (val : Option Nat) :
    Proc (Malloc β) (Memory β) Unit := do
  let node ← listnodeNew
  store node ({ · with next := some current })
  store node ({ · with data := val })
  let c ← readNode current
  setNext list c.prev (some node)
  store node ({ · with prev := c.prev })
  store current ({ · with prev := some node })
  storeList list fun l => { l with count := l.count + 1 }

/-- `list_add_node_next`. -/
def listAddNodeNext (list current : Nat) (val : Option Nat) :
    Proc (Malloc β) (Memory β) Unit := do
  let node ← listnodeNew
  store node ({ · with prev := some current })
  store node ({ · with data := val })
  let c ← readNode current
  setPrev list c.next (some node)
  store node ({ · with next := c.next })
  store current ({ · with next := some node })
  storeList list fun l => { l with count := l.count + 1 }

/-- The loop of `list_add_list`. -/
def addEach (fuel list : Nat) : Nat → Option Nat → Proc (Malloc β) (Memory β) Unit
  | _, none => pure ()
  | 0, some _ => undefined
  | rounds + 1, some n => do
    let node ← readNode n
    listnodeAddSort fuel list node.data
    let node ← readNode n
    addEach fuel list rounds node.next

/-- `list_add_list`. -/
def listAddList (fuel l m : Nat) : Proc (Malloc β) (Memory β) Unit := do
  let list ← readList m
  addEach fuel l fuel list.head

end

/-! ## Links as maps -/

namespace Memory
variable {β : Type}

/-- The link to the next node: out of a node, or out of the head of a list. -/
def next (m : Memory β) (list : Nat) : Option Nat → Option Nat
  | some a => (m.nodes a).bind (·.next)
  | none => (m.lists list).bind (·.head)

/-- The link to the node in front: out of a node, or out of the tail of a list. -/
def prev (m : Memory β) (list : Nat) : Option Nat → Option Nat
  | some a => (m.nodes a).bind (·.prev)
  | none => (m.lists list).bind (·.tail)

/-- The link out of a node or of the head of a list is written. -/
def setNext (m : Memory β) (list : Nat) (p next : Option Nat) : Memory β :=
  match p with
  | some a => m.mapNode a ({ · with next := next })
  | none => m.mapList list ({ · with head := next })

/-- The link back out of a node or of the tail of a list is written. -/
def setPrev (m : Memory β) (list : Nat) (p prev : Option Nat) : Memory β :=
  match p with
  | some a => m.mapNode a ({ · with prev := prev })
  | none => m.mapList list ({ · with tail := prev })

/-- A new node with an element, which is not linked yet. -/
def withNode (m : Memory β) (new : Nat) (val : Option Nat) : Memory β :=
  (m.newNode new).mapNode new ({ · with data := val })

/-- A new node between two links, with an element, that the list counts by `inc`. -/
def linkIn (m : Memory β) (list : Nat) (x y : Option Nat) (new : Nat) (val : Option Nat)
    (inc : BitVec 32) : Memory β where
  nodes a := if a = new then some ⟨y, x, val⟩ else (m.nodes a).map fun n =>
    { n with next := if x = some a then some new else n.next
             prev := if y = some a then some new else n.prev }
  lists other := if other = list then (m.lists other).map fun l =>
      { l with head := if x = none then some new else l.head
               tail := if y = none then some new else l.tail
               count := l.count + inc }
    else m.lists other
  data := m.data
  top := max m.top (new + 1)
  unused a ha := by
    have hne : a ≠ new := by omega
    obtain ⟨hnode, hdata⟩ := m.unused a (by omega)
    rw [if_neg hne, hnode]
    exact ⟨rfl, hdata⟩

/-- A node is taken out from between two links and freed. -/
def linkOut (m : Memory β) (list : Nat) (x y : Option Nat) (node : Nat) : Memory β where
  nodes a := if a = node then none else (m.nodes a).map fun n =>
    { n with next := if x = some a then y else n.next
             prev := if y = some a then x else n.prev }
  lists other := if other = list then (m.lists other).map fun l =>
      { l with head := if x = none then y else l.head
               tail := if y = none then x else l.tail
               count := l.count - 1 }
    else m.lists other
  data := m.data
  top := m.top
  unused a ha := by
    obtain ⟨hnode, hdata⟩ := m.unused a ha
    rw [hnode]
    exact ⟨by simp, hdata⟩

/-- What a pointer to a node or to a list needs. -/
def Valid (m : Memory β) (list : Nat) : Option Nat → Prop
  | some a => (m.nodes a).isSome
  | none => (m.lists list).isSome

/-- The element of a node. -/
def element (m : Memory β) (a : Nat) : Option (Option Nat) := (m.nodes a).map (·.data)

@[ext] theorem ext {m m' : Memory β} (hnodes : ∀ a, m.nodes a = m'.nodes a)
    (hlists : ∀ list, m.lists list = m'.lists list) (hdata : m.data = m'.data)
    (htop : m.top = m'.top) : m = m' := by
  obtain ⟨nodes, lists, data, top, unused⟩ := m
  obtain ⟨nodes', lists', data', top', unused'⟩ := m'
  obtain rfl : nodes = nodes' := funext hnodes
  obtain rfl : lists = lists' := funext hlists
  obtain rfl : data = data' := hdata
  obtain rfl : top = top' := htop
  rfl

section
variable {m : Memory β} {list other a b : Nat} {p q v : Option Nat} {f : ListNode → ListNode}
  {g : ListHead β → ListHead β}

@[simp] theorem nodes_newNode : (m.newNode a).nodes b =
    if b = a then some ⟨none, none, none⟩ else m.nodes b := by
  simp [newNode, Function.update_apply]

@[simp] theorem nodes_mapNode : (m.mapNode a f).nodes b =
    if b = a then (m.nodes b).map f else m.nodes b := by
  by_cases h : b = a
  · simp [mapNode, h]
  · simp [mapNode, h]

@[simp] theorem nodes_freeNode : (m.freeNode a).nodes b = if b = a then none else m.nodes b := by
  simp [freeNode, Function.update_apply]

@[simp] theorem nodes_mapList : (m.mapList list g).nodes = m.nodes := rfl

@[simp] theorem lists_newNode : (m.newNode a).lists = m.lists := rfl
@[simp] theorem lists_mapNode : (m.mapNode a f).lists = m.lists := rfl
@[simp] theorem lists_freeNode : (m.freeNode a).lists = m.lists := rfl

@[simp] theorem lists_mapList : (m.mapList list g).lists b =
    if b = list then (m.lists b).map g else m.lists b := by
  by_cases h : b = list
  · simp [mapList, h]
  · simp [mapList, h]

@[simp] theorem data_newNode : (m.newNode a).data = m.data := rfl
@[simp] theorem data_mapNode : (m.mapNode a f).data = m.data := rfl
@[simp] theorem data_freeNode : (m.freeNode a).data = m.data := rfl
@[simp] theorem data_mapList : (m.mapList list g).data = m.data := rfl

@[simp] theorem top_newNode : (m.newNode a).top = max m.top (a + 1) := rfl
@[simp] theorem top_mapNode : (m.mapNode a f).top = m.top := rfl
@[simp] theorem top_freeNode : (m.freeNode a).top = m.top := rfl
@[simp] theorem top_mapList : (m.mapList list g).top = m.top := rfl

/-- Only the node that the pointer points to is written. -/
@[simp] theorem nodes_setNext : (m.setNext list p v).nodes a =
    (m.nodes a).map fun n => { n with next := if p = some a then v else n.next } := by
  cases p with
  | none => simp [setNext]
  | some b =>
    by_cases h : a = b
    · simp [setNext, h]
    · simp [setNext, h, Ne.symm h]

@[simp] theorem nodes_setPrev : (m.setPrev list p v).nodes a =
    (m.nodes a).map fun n => { n with prev := if p = some a then v else n.prev } := by
  cases p with
  | none => simp [setPrev]
  | some b =>
    by_cases h : a = b
    · simp [setPrev, h]
    · simp [setPrev, h, Ne.symm h]

/-- Only the list that the pointer stands for is written. -/
@[simp] theorem lists_setNext : (m.setNext list p v).lists b =
    if b = list then (m.lists b).map fun l => { l with head := if p = none then v else l.head }
    else m.lists b := by
  cases p with
  | none => simp [setNext]
  | some c => simp [setNext]

@[simp] theorem lists_setPrev : (m.setPrev list p v).lists b =
    if b = list then (m.lists b).map fun l => { l with tail := if p = none then v else l.tail }
    else m.lists b := by
  cases p with
  | none => simp [setPrev]
  | some c => simp [setPrev]

@[simp] theorem data_setNext : (m.setNext list p v).data = m.data := by cases p <;> rfl
@[simp] theorem data_setPrev : (m.setPrev list p v).data = m.data := by cases p <;> rfl
@[simp] theorem top_setNext : (m.setNext list p v).top = m.top := by cases p <;> rfl
@[simp] theorem top_setPrev : (m.setPrev list p v).top = m.top := by cases p <;> rfl

@[simp] theorem valid_mapNode : (m.mapNode a f).Valid list p ↔ m.Valid list p := by
  cases p with
  | none => exact Iff.rfl
  | some b => simp only [Valid, nodes_mapNode]; split <;> simp

@[simp] theorem valid_mapList : (m.mapList other g).Valid list p ↔ m.Valid list p := by
  cases p with
  | none => simp only [Valid, lists_mapList]; split <;> simp
  | some b => exact Iff.rfl

@[simp] theorem valid_setNext : (m.setNext other q v).Valid list p ↔ m.Valid list p := by
  cases q with
  | none => exact valid_mapList
  | some b => exact valid_mapNode

@[simp] theorem valid_setPrev : (m.setPrev other q v).Valid list p ↔ m.Valid list p := by
  cases q with
  | none => exact valid_mapList
  | some b => exact valid_mapNode

@[simp] theorem valid_newNode : (m.newNode b).Valid list p ↔ p = some b ∨ m.Valid list p := by
  cases p with
  | none => simp [Valid]
  | some c =>
    by_cases h : c = b
    · simp [Valid, h]
    · simp [Valid, h]

theorem Valid.ne_new (h : m.Valid list p) (hnew : m.nodes b = none) : p ≠ some b := by
  rintro rfl
  simp [Valid, hnew] at h

end

end Memory

section
variable {β γ : Type} {e : Malloc β} {m : Memory β} {Q : Unit → Memory β → Prop}

@[simp] theorem safe_deref {f : Memory β → Option γ} {Q : γ → Memory β → Prop} :
    Safe (deref f) e m Q ↔ ∃ x, f m = some x ∧ Q x m := by
  unfold deref
  rw [safe_bind, safe_get]
  cases f m <;> simp

@[simp] theorem safe_readNode {a : Nat} {Q : ListNode → Memory β → Prop} :
    Safe (readNode a) e m Q ↔ ∃ n, m.nodes a = some n ∧ Q n m := safe_deref

@[simp] theorem safe_readList {list : Nat} {Q : ListHead β → Memory β → Prop} :
    Safe (readList list) e m Q ↔ ∃ l, m.lists list = some l ∧ Q l m := safe_deref

@[simp] theorem safe_store {a : Nat} {f : ListNode → ListNode} :
    Safe (store a f) e m Q ↔ (m.nodes a).isSome ∧ Q () (m.mapNode a f) := by
  simp [store, Option.isSome_iff_exists]

@[simp] theorem safe_storeList {list : Nat} {f : ListHead β → ListHead β} :
    Safe (storeList list f) e m Q ↔ (m.lists list).isSome ∧ Q () (m.mapList list f) := by
  simp [storeList, Option.isSome_iff_exists]

@[simp] theorem safe_zmalloc {Q : Nat → Memory β → Prop} :
    Safe zmalloc e m Q ↔ ∀ a, e.alloc m = some a → Q a m := by
  unfold zmalloc
  rw [safe_bind, safe_ask]
  cases e.alloc m <;> simp

@[simp] theorem safe_listnodeNew {Q : Nat → Memory β → Prop} :
    Safe listnodeNew e m Q ↔ ∀ a, e.alloc m = some a → Q a (m.newNode a) := by
  simp [listnodeNew]

@[simp] theorem safe_listnodeFree {node : Nat} :
    Safe (listnodeFree node) e m Q ↔ (m.nodes node).isSome ∧ Q () (m.freeNode node) := by
  simp [listnodeFree, Option.isSome_iff_exists]

@[simp] theorem safe_setNext {list : Nat} {p next : Option Nat} :
    Safe (setNext list p next) e m Q ↔ m.Valid list p ∧ Q () (m.setNext list p next) := by
  cases p with
  | some a => exact safe_store
  | none => exact safe_storeList

@[simp] theorem safe_setPrev {list : Nat} {p prev : Option Nat} :
    Safe (setPrev list p prev) e m Q ↔ m.Valid list p ∧ Q () (m.setPrev list p prev) := by
  cases p with
  | some a => exact safe_store
  | none => exact safe_storeList

@[simp] theorem sat_deref {f : Memory β → Option γ} {Q : γ → Memory β → Prop} :
    Sat (deref f) e m Q ↔ ∀ x, f m = some x → Q x m := by
  unfold deref
  rw [sat_bind, sat_get]
  cases f m <;> simp

@[simp] theorem sat_readNode {a : Nat} {Q : ListNode → Memory β → Prop} :
    Sat (readNode a) e m Q ↔ ∀ n, m.nodes a = some n → Q n m := sat_deref

@[simp] theorem sat_readList {list : Nat} {Q : ListHead β → Memory β → Prop} :
    Sat (readList list) e m Q ↔ ∀ l, m.lists list = some l → Q l m := sat_deref

@[simp] theorem sat_store {a : Nat} {f : ListNode → ListNode} :
    Sat (store a f) e m Q ↔ ((m.nodes a).isSome → Q () (m.mapNode a f)) := by
  simp [store, Option.isSome_iff_exists]

@[simp] theorem sat_listnodeNew {Q : Nat → Memory β → Prop} :
    Sat listnodeNew e m Q ↔ ∀ a, e.alloc m = some a → Q a (m.newNode a) := by
  unfold listnodeNew zmalloc
  simp only [sat_bind, sat_ask]
  cases e.alloc m <;> simp

@[simp] theorem sat_storeList {list : Nat} {f : ListHead β → ListHead β} :
    Sat (storeList list f) e m Q ↔ ((m.lists list).isSome → Q () (m.mapList list f)) := by
  simp [storeList, Option.isSome_iff_exists]

@[simp] theorem sat_listnodeFree {node : Nat} :
    Sat (listnodeFree node) e m Q ↔ ((m.nodes node).isSome → Q () (m.freeNode node)) := by
  simp [listnodeFree, Option.isSome_iff_exists]

end

end QrWireguard.Vtysh.Linklist

import QrWireguard.Misc.Ring
import QrWireguard.Vtysh.Linklist

/-!
# Edits of linked lists

Each function of `linklist.c` that takes a node in or out changes the list at one place: it writes
the links of the two neighbours and those of the node itself.
-/

namespace QrWireguard.Vtysh.Linklist
open Proc

/-! ## The nodes of a list -/

/-- The nodes of a list in their order, linked to a ring that the list closes. -/
structure Owns {β : Type} (m : Memory β) (list : Nat) (ns : List Nat) : Prop where
  exists_list : (m.lists list).isSome
  alloc : ∀ a ∈ ns, (m.nodes a).isSome
  ring : LinkRing (m.next list) (m.prev list) none (ns.map some)

section
variable {β : Type} {e : Malloc β} {m m' : Memory β} {list other new node fuel : Nat}
  {xs ys ns os : List Nat} {val x y p : Option Nat} {inc : BitVec 32} {l : ListHead β}

theorem headD_map_some (ns : List Nat) : (ns.map some).headD none = ns.head? := by
  cases ns <;> rfl

theorem getLastD_map_some (ns : List Nat) : (ns.map some).getLastD none = ns.getLast? := by
  rw [List.getLastD_eq_getLast?, List.getLast?_map]
  cases ns.getLast? <;> rfl

/-- The links at a place in a list. -/
theorem Owns.seam (h : Owns m list (xs ++ ys)) :
    m.next list xs.getLast? = ys.head? ∧ m.prev list ys.head? = xs.getLast? := by
  have hring := h.ring
  rw [List.map_append] at hring
  have hseam := hring.seam
  rwa [headD_map_some, getLastD_map_some] at hseam

/-- What a node is linked into and out of. -/
theorem Owns.valid (h : Owns m list ns) {p : Option Nat} (hp : ∀ a ∈ p, a ∈ ns) :
    m.Valid list p := by
  cases p with
  | some a => exact h.alloc a (hp a rfl)
  | none => exact h.exists_list

theorem Owns.ends (h : Owns m list ns) (hl : m.lists list = some l) :
    l.head = ns.head? ∧ l.tail = ns.getLast? := by
  have hfront : Owns m list ([] ++ ns) := h
  have hback : Owns m list (ns ++ []) := by rwa [List.append_nil]
  simpa [Memory.next, Memory.prev, hl] using And.intro hfront.seam.1 hback.seam.2

theorem Owns.valid_left (h : Owns m list (xs ++ ys)) : m.Valid list xs.getLast? :=
  h.valid fun _ ha => List.mem_append_left _ (List.mem_of_getLast? ha)

theorem Owns.valid_right (h : Owns m list (xs ++ ys)) : m.Valid list ys.head? :=
  h.valid fun _ ha => List.mem_append_right _ (List.mem_of_head? ha)

theorem Owns.ends_none_iff (h : Owns m list ns) (hl : m.lists list = some l) :
    l.head = none ↔ l.tail = none := by
  obtain ⟨hhead, htail⟩ := h.ends hl
  rw [hhead, htail, List.head?_eq_none_iff, List.getLast?_eq_none_iff]

theorem Owns.nodup (h : Owns m list ns) : ns.Nodup :=
  (List.nodup_cons.mp h.ring.nodup).2.of_map some

theorem Owns.fresh (h : Owns m list ns) (hnode : m.nodes new = none) : new ∉ ns := by
  intro hmem
  have halloc := h.alloc new hmem
  rw [hnode] at halloc
  cases halloc

theorem Owns.links (h : Owns m list (xs ++ node :: ys)) :
    ∃ n, m.nodes node = some n ∧ n.next = ys.head? ∧ n.prev = xs.getLast? := by
  obtain ⟨n, hn⟩ := Option.isSome_iff_exists.mp (h.alloc node (by simp))
  have hprev := h.seam.2
  rw [List.append_cons] at h
  have hnext := h.seam.1
  simp [Memory.next, Memory.prev, hn] at hprev hnext
  exact ⟨n, hn, hnext, hprev⟩

/-! ## Links after an edit -/

namespace Memory

/-- The links after a node is linked in. -/
theorem next_linkIn (hx : m.Valid list x) (p : Option Nat) :
    (m.linkIn list x y new val inc).next list p =
      if p = some new then y else if p = x then some new else m.next list p := by
  cases p with
  | none =>
    cases x with
    | none =>
      obtain ⟨l, hl⟩ := Option.isSome_iff_exists.mp hx
      simp [next, linkIn, hl]
    | some b => cases hl : m.lists list <;> simp [next, linkIn, hl]
  | some a =>
    by_cases ha : a = new
    · simp [next, linkIn, ha]
    · by_cases hax : x = some a
      · subst hax
        obtain ⟨n, hn⟩ := Option.isSome_iff_exists.mp hx
        simp [next, linkIn, ha, hn]
      · simp [next, linkIn, ha, hax, Ne.symm hax, Option.bind_map, Function.comp_def]

theorem prev_linkIn (hy : m.Valid list y) (p : Option Nat) :
    (m.linkIn list x y new val inc).prev list p =
      if p = some new then x else if p = y then some new else m.prev list p := by
  cases p with
  | none =>
    cases y with
    | none =>
      obtain ⟨l, hl⟩ := Option.isSome_iff_exists.mp hy
      simp [prev, linkIn, hl]
    | some b => cases hl : m.lists list <;> simp [prev, linkIn, hl]
  | some a =>
    by_cases ha : a = new
    · simp [prev, linkIn, ha]
    · by_cases hay : y = some a
      · subst hay
        obtain ⟨n, hn⟩ := Option.isSome_iff_exists.mp hy
        simp [prev, linkIn, ha, hn]
      · simp [prev, linkIn, ha, hay, Ne.symm hay, Option.bind_map, Function.comp_def]

/-- The links after a node is taken out. -/
theorem next_linkOut (hx : m.Valid list x) (hp : p ≠ some node) :
    (m.linkOut list x y node).next list p = if p = x then y else m.next list p := by
  cases p with
  | none =>
    cases x with
    | none =>
      obtain ⟨l, hl⟩ := Option.isSome_iff_exists.mp hx
      simp [next, linkOut, hl]
    | some b => cases hl : m.lists list <;> simp [next, linkOut, hl]
  | some a =>
    have ha : a ≠ node := fun heq => hp (heq ▸ rfl)
    by_cases hax : x = some a
    · subst hax
      obtain ⟨n, hn⟩ := Option.isSome_iff_exists.mp hx
      simp [next, linkOut, ha, hn]
    · simp [next, linkOut, ha, hax, Ne.symm hax, Option.bind_map, Function.comp_def]

theorem prev_linkOut (hy : m.Valid list y) (hp : p ≠ some node) :
    (m.linkOut list x y node).prev list p = if p = y then x else m.prev list p := by
  cases p with
  | none =>
    cases y with
    | none =>
      obtain ⟨l, hl⟩ := Option.isSome_iff_exists.mp hy
      simp [prev, linkOut, hl]
    | some b => cases hl : m.lists list <;> simp [prev, linkOut, hl]
  | some a =>
    have ha : a ≠ node := fun heq => hp (heq ▸ rfl)
    by_cases hay : y = some a
    · subst hay
      obtain ⟨n, hn⟩ := Option.isSome_iff_exists.mp hy
      simp [prev, linkOut, ha, hn]
    · simp [prev, linkOut, ha, hay, Ne.symm hay, Option.bind_map, Function.comp_def]

end Memory

theorem mem_none_cons_map {p : Option Nat} : p ∈ none :: ns.map some ↔ ∀ a ∈ p, a ∈ ns := by
  cases p <;> simp

/-- A list does not change with what it does not hold. -/
theorem Owns.congr (h : Owns m list ns) (hlist : m'.lists list = m.lists list)
    (hnodes : ∀ a ∈ ns, m'.nodes a = m.nodes a) : Owns m' list ns where
  exists_list := by
    rw [hlist]
    exact h.exists_list
  alloc a ha := by
    rw [hnodes a ha]
    exact h.alloc a ha
  ring := by
    have hlinks : ∀ p ∈ none :: ns.map some, m'.next list p = m.next list p ∧
        m'.prev list p = m.prev list p := by
      intro p hp
      cases p with
      | none => exact ⟨congrArg (Option.bind · _) hlist, congrArg (Option.bind · _) hlist⟩
      | some a =>
        have hnode := hnodes a (mem_none_cons_map.mp hp a rfl)
        exact ⟨congrArg (Option.bind · _) hnode, congrArg (Option.bind · _) hnode⟩
    exact h.ring.congr (fun p hp => (hlinks p hp).1) fun p hp => (hlinks p hp).2

/-- A new node is linked in between two neighbours. -/
theorem Owns.linkIn (h : Owns m list (xs ++ ys)) (hnode : m.nodes new = none) :
    Owns (m.linkIn list xs.getLast? ys.head? new val inc) list (xs ++ new :: ys) where
  exists_list := by simpa [Memory.linkIn] using h.exists_list
  alloc a ha := by
    by_cases hnew : a = new
    · simp [Memory.linkIn, hnew]
    · have hmem : a ∈ xs ++ ys := by simpa [hnew] using ha
      simpa [Memory.linkIn, hnew] using h.alloc a hmem
  ring := by
    have hring := h.ring
    have hfresh := h.fresh hnode
    have hleft : some new ≠ xs.getLast? := (h.valid_left.ne_new hnode).symm
    have hright : some new ≠ ys.head? := (h.valid_right.ne_new hnode).symm
    have hmem : some new ∉ none :: (xs.map some ++ ys.map some) := by
      rw [← List.map_append, mem_none_cons_map]
      exact fun hall => hfresh (hall new rfl)
    rw [List.map_append] at hring
    rw [List.map_append, List.map_cons]
    refine hring.insert hmem ?_ ?_ ?_ ?_ (fun p hp hne => ?_) fun p hp hne => ?_
    · rw [getLastD_map_some, Memory.next_linkIn h.valid_left, if_neg hleft.symm, if_pos rfl]
    · rw [headD_map_some, Memory.next_linkIn h.valid_left, if_pos rfl]
    · rw [headD_map_some, Memory.prev_linkIn h.valid_right, if_neg hright.symm, if_pos rfl]
    · rw [getLastD_map_some, Memory.prev_linkIn h.valid_right, if_pos rfl]
    · rw [getLastD_map_some] at hne
      rw [Memory.next_linkIn h.valid_left, if_neg (ne_of_mem_of_not_mem hp hmem), if_neg hne]
    · rw [headD_map_some] at hne
      rw [Memory.prev_linkIn h.valid_right, if_neg (ne_of_mem_of_not_mem hp hmem), if_neg hne]

/-- A node is taken out from between its neighbours. -/
theorem Owns.linkOut (h : Owns m list (xs ++ node :: ys)) :
    Owns (m.linkOut list xs.getLast? ys.head? node) list (xs ++ ys) where
  exists_list := by simpa [Memory.linkOut] using h.exists_list
  alloc a ha := by
    have hnodup := List.nodup_middle.mp h.nodup
    have hne : a ≠ node := ne_of_mem_of_not_mem ha (List.nodup_cons.mp hnodup).1
    have hmem : a ∈ xs ++ node :: ys := List.perm_middle.mem_iff.mpr (List.mem_cons_of_mem _ ha)
    simpa [Memory.linkOut, hne] using h.alloc a hmem
  ring := by
    have hring := h.ring
    have hright : m.Valid list ys.head? := by
      have h' := h
      rw [List.append_cons] at h'
      exact h'.valid_right
    rw [List.map_append, List.map_cons] at hring
    rw [List.map_append]
    obtain ⟨-, hfront, hout, -⟩ := hring.node
    rw [getLastD_map_some] at hfront
    rw [headD_map_some] at hout
    have hnode : ∀ p ∈ none :: (xs.map some ++ ys.map some), p ≠ some node := by
      intro p hp hpn
      rw [← List.map_append, mem_none_cons_map] at hp
      exact (List.nodup_cons.mp (List.nodup_middle.mp h.nodup)).1 (hp node hpn)
    have hleft : xs.getLast? ≠ some node := by
      refine hnode _ ?_
      rw [← List.map_append, mem_none_cons_map]
      exact fun a ha => List.mem_append_left _ (List.mem_of_getLast? ha)
    have hright' : ys.head? ≠ some node := by
      refine hnode _ ?_
      rw [← List.map_append, mem_none_cons_map]
      exact fun a ha => List.mem_append_right _ (List.mem_of_head? ha)
    refine hring.erase ?_ ?_ (fun p hp hne => ?_) fun p hp hne => ?_
    · rw [hfront, hout, Memory.next_linkOut h.valid_left hleft, if_pos rfl]
    · rw [hfront, hout, Memory.prev_linkOut hright hright', if_pos rfl]
    · rw [hfront] at hne
      rw [Memory.next_linkOut h.valid_left (hnode p hp), if_neg hne]
    · rw [hout] at hne
      rw [Memory.prev_linkOut hright (hnode p hp), if_neg hne]

theorem Memory.lists_linkIn_self (hl : m.lists list = some l) :
    (m.linkIn list x y new val inc).lists list = some
      { l with head := if x = none then some new else l.head
               tail := if y = none then some new else l.tail
               count := l.count + inc } := by
  simp [linkIn, hl]

theorem Memory.lists_linkOut_self (hl : m.lists list = some l) (x y : Option Nat) (node : Nat) :
    (m.linkOut list x y node).lists list = some
      { l with head := if x = none then y else l.head
               tail := if y = none then x else l.tail
               count := l.count - 1 } := by
  simp [linkOut, hl]

/-- Nodes that are neither written nor freed. -/
theorem Memory.nodes_linkIn_of_ne {a : Nat} (ha : a ≠ new) (hx : x ≠ some a) (hy : y ≠ some a) :
    (m.linkIn list x y new val inc).nodes a = m.nodes a := by
  simp [linkIn, ha, hx, hy]

theorem Memory.nodes_linkOut_of_ne {a : Nat} (ha : a ≠ node) (hx : x ≠ some a) (hy : y ≠ some a) :
    (m.linkOut list x y node).nodes a = m.nodes a := by
  simp [linkOut, ha, hx, hy]

/-- The nodes of another list. -/
theorem Owns.linkIn_other (ho : Owns m other os) (hne : other ≠ list)
    (hapart : ∀ a ∈ os, a ∉ xs ++ ys) (hnode : m.nodes new = none) :
    Owns (m.linkIn list xs.getLast? ys.head? new val inc) other os := by
  refine ho.congr (by simp [Memory.linkIn, hne]) fun a ha => Memory.nodes_linkIn_of_ne ?_ ?_ ?_
  · exact ne_of_mem_of_not_mem ha (ho.fresh hnode)
  · exact fun hx => hapart a ha (List.mem_append_left _ (List.mem_of_getLast? hx))
  · exact fun hy => hapart a ha (List.mem_append_right _ (List.mem_of_head? hy))

theorem Owns.linkOut_other (ho : Owns m other os) (hne : other ≠ list)
    (hapart : ∀ a ∈ os, a ∉ xs ++ node :: ys) :
    Owns (m.linkOut list xs.getLast? ys.head? node) other os := by
  refine ho.congr (by simp [Memory.linkOut, hne]) fun a ha => Memory.nodes_linkOut_of_ne ?_ ?_ ?_
  · exact fun heq => hapart a ha (by simp [heq])
  · exact fun hx => hapart a ha (List.mem_append_left _ (List.mem_of_getLast? hx))
  · exact fun hy => hapart a ha
      (List.mem_append_right _ (List.mem_cons_of_mem _ (List.mem_of_head? hy)))

/-! ## What the functions do -/

/-- In a list with a tail whenever it has a head, the end of `listnode_add_old` writes the link in
front of the new node. -/
theorem setTailNext_eq {head tail : Option Nat} (h : head = none ↔ tail = none) :
    setTailNext (β := β) list node head tail = setNext list tail (some node) := by
  cases head with
  | none =>
    rw [h.mp rfl]
    rfl
  | some a =>
    cases tail with
    | none => cases h.mpr rfl
    | some t => rfl

theorem safe_listnodeAddOld (h : Owns m list ns) :
    Safe (listnodeAddOld list val) e m fun _ m' => ∃ new, m.nodes new = none ∧
      m.data new = none ∧ m' = m.linkIn list ns.getLast? none new val 1 := by
  obtain ⟨l, hl⟩ := Option.isSome_iff_exists.mp h.exists_list
  simp only [listnodeAddOld, safe_bind, safe_listnodeNew, safe_readList]
  intro new hnew
  obtain ⟨hnode, hdata⟩ := e.fresh m new hnew
  have hvalid : m.Valid list ns.getLast? := h.valid fun _ ha => List.mem_of_getLast? ha
  have hne := hvalid.ne_new hnode
  refine ⟨l, hl, ?_⟩
  rw [setTailNext_eq (h.ends_none_iff hl), (h.ends hl).2]
  simp only [safe_store, safe_setNext, safe_storeList]
  simp [hl, hvalid]
  refine ⟨new, hnode, hdata, ?_⟩
  ext a
  · by_cases ha : a = new
    · simp [Memory.linkIn, ha, hne]
    · simp [Memory.linkIn, ha]
  · by_cases ha : a = list
    · simp [Memory.linkIn, ha]
    · simp [Memory.linkIn, ha]
  · simp [Memory.linkIn]
  · simp [Memory.linkIn]

theorem safe_addLast (h : Owns m list ns) (hnode : m.nodes new = none) :
    Safe (addLast list new ns.getLast?) e (m.withNode new val) fun _ m' =>
      m' = m.linkIn list ns.getLast? none new val 1 := by
  have hvalid : m.Valid list ns.getLast? := h.valid fun _ ha => List.mem_of_getLast? ha
  have hne := hvalid.ne_new hnode
  simp [addLast, Memory.withNode, hvalid, h.exists_list]
  ext a
  · by_cases ha : a = new
    · simp [Memory.linkIn, ha, hne]
    · simp [Memory.linkIn, ha]
  · by_cases ha : a = list
    · simp [Memory.linkIn, ha]
    · simp [Memory.linkIn, ha]
  · simp [Memory.linkIn]
  · simp [Memory.linkIn]

theorem safe_addBefore (h : Owns m list (xs ++ node :: ys)) (hnode : m.nodes new = none) :
    Safe (addBefore list new node) e (m.withNode new val) fun _ m' =>
      m' = m.linkIn list xs.getLast? (some node) new val 1 := by
  obtain ⟨n, hn, -, hprev⟩ := h.links
  have hvalid : m.Valid list xs.getLast? := h.valid_left
  have hne := hvalid.ne_new hnode
  have hnew : node ≠ new := fun heq => h.fresh hnode (by simp [heq])
  simp [addBefore, Memory.withNode, hnew, hn, hvalid, h.exists_list, hprev]
  ext a
  · by_cases ha : a = new
    · simp [Memory.linkIn, ha, hne, hnew.symm]
    · by_cases han : a = node
      · simp [Memory.linkIn, hn, han, hnew]
      · simp [Memory.linkIn, ha, han, Ne.symm han]
  · by_cases ha : a = list
    · simp [Memory.linkIn, ha]
    · simp [Memory.linkIn, ha]
  · simp [Memory.linkIn]
  · simp [Memory.linkIn]

theorem safe_listnodeAddAfter_none (h : Owns m list ns) :
    Safe (listnodeAddAfter list none val) e m fun _ m' => ∃ new, m.nodes new = none ∧
      m.data new = none ∧ m' = m.linkIn list none ns.head? new val 0 := by
  obtain ⟨l, hl⟩ := Option.isSome_iff_exists.mp h.exists_list
  simp only [listnodeAddAfter, safe_bind, safe_listnodeNew]
  intro new hnew
  obtain ⟨hnode, hdata⟩ := e.fresh m new hnew
  have hvalid : m.Valid list ns.head? := h.valid fun _ ha => List.mem_of_head? ha
  have hne := hvalid.ne_new hnode
  simp [hl, hvalid, (h.ends hl).1]
  refine ⟨new, hnode, hdata, ?_⟩
  ext a
  · by_cases ha : a = new
    · simp [Memory.linkIn, ha, hne]
    · simp [Memory.linkIn, ha]
  · by_cases ha : a = list
    · simp [Memory.linkIn, ha]
    · simp [Memory.linkIn, ha]
  · simp [Memory.linkIn]
  · simp [Memory.linkIn]

theorem safe_listnodeAddAfter_some (h : Owns m list (xs ++ node :: ys)) :
    Safe (listnodeAddAfter list (some node) val) e m fun _ m' => ∃ new, m.nodes new = none ∧
      m.data new = none ∧ m' = m.linkIn list (some node) ys.head? new val 0 := by
  obtain ⟨n, hn, hnext, -⟩ := h.links
  simp only [listnodeAddAfter, safe_bind, safe_listnodeNew]
  intro new hnew
  obtain ⟨hnode, hdata⟩ := e.fresh m new hnew
  have hvalid : m.Valid list ys.head? := by
    rw [List.append_cons] at h
    exact h.valid_right
  have hne := hvalid.ne_new hnode
  have hnn : node ≠ new := fun heq => h.fresh hnode (by simp [heq])
  simp [hnn, hn, hvalid, hnext]
  refine ⟨new, hnode, hdata, ?_⟩
  ext a
  · by_cases ha : a = new
    · simp [Memory.linkIn, ha, hne, hnn.symm]
    · by_cases han : a = node
      · simp [Memory.linkIn, hn, han, hnn]
      · simp [Memory.linkIn, ha, han, Ne.symm han]
  · by_cases ha : a = list
    · simp [Memory.linkIn, ha]
    · simp [Memory.linkIn, ha]
  · simp [Memory.linkIn]
  · simp [Memory.linkIn]

theorem safe_listAddNodePrev (h : Owns m list (xs ++ node :: ys)) :
    Safe (listAddNodePrev list node val) e m fun _ m' => ∃ new, m.nodes new = none ∧
      m.data new = none ∧ m' = m.linkIn list xs.getLast? (some node) new val 1 := by
  obtain ⟨n, hn, -, hprev⟩ := h.links
  simp only [listAddNodePrev, safe_bind, safe_listnodeNew]
  intro new hnew
  obtain ⟨hnode, hdata⟩ := e.fresh m new hnew
  have hvalid : m.Valid list xs.getLast? := h.valid_left
  have hne := hvalid.ne_new hnode
  have hnn : node ≠ new := fun heq => h.fresh hnode (by simp [heq])
  simp [hnn, hn, hvalid, hprev, h.exists_list]
  refine ⟨new, hnode, hdata, ?_⟩
  ext a
  · by_cases ha : a = new
    · simp [Memory.linkIn, ha, hne, hnn.symm]
    · by_cases han : a = node
      · simp [Memory.linkIn, hn, han, hnn]
      · simp [Memory.linkIn, ha, han, Ne.symm han]
  · by_cases ha : a = list
    · simp [Memory.linkIn, ha]
    · simp [Memory.linkIn, ha]
  · simp [Memory.linkIn]
  · simp [Memory.linkIn]

theorem safe_listAddNodeNext (h : Owns m list (xs ++ node :: ys)) :
    Safe (listAddNodeNext list node val) e m fun _ m' => ∃ new, m.nodes new = none ∧
      m.data new = none ∧ m' = m.linkIn list (some node) ys.head? new val 1 := by
  obtain ⟨n, hn, hnext, -⟩ := h.links
  simp only [listAddNodeNext, safe_bind, safe_listnodeNew]
  intro new hnew
  obtain ⟨hnode, hdata⟩ := e.fresh m new hnew
  have hvalid : m.Valid list ys.head? := by
    rw [List.append_cons] at h
    exact h.valid_right
  have hne := hvalid.ne_new hnode
  have hnn : node ≠ new := fun heq => h.fresh hnode (by simp [heq])
  simp [hnn, hn, hvalid, hnext, h.exists_list]
  refine ⟨new, hnode, hdata, ?_⟩
  ext a
  · by_cases ha : a = new
    · simp [Memory.linkIn, ha, hne, hnn.symm]
    · by_cases han : a = node
      · simp [Memory.linkIn, hn, han, hnn]
      · simp [Memory.linkIn, ha, han, Ne.symm han]
  · by_cases ha : a = list
    · simp [Memory.linkIn, ha]
    · simp [Memory.linkIn, ha]
  · simp [Memory.linkIn]
  · simp [Memory.linkIn]

theorem safe_listDeleteNode (h : Owns m list (xs ++ node :: ys)) :
    Safe (listDeleteNode list node) e m fun _ m' =>
      m' = m.linkOut list xs.getLast? ys.head? node := by
  obtain ⟨n, hn, hnext, hprev⟩ := h.links
  have hright : m.Valid list ys.head? := by
    have h' := h
    rw [List.append_cons] at h'
    exact h'.valid_right
  have hxs : xs.getLast? ≠ some node := fun heq =>
    (List.nodup_append.mp h.nodup).2.2 node (List.mem_of_getLast? heq) node List.mem_cons_self rfl
  simp [listDeleteNode, hn, hnext, hprev, h.valid_left, hright, h.exists_list, hxs]
  ext a
  · by_cases ha : a = node
    · simp [Memory.linkOut, ha]
    · simp [Memory.linkOut, ha]
  · by_cases ha : a = list
    · simp [Memory.linkOut, ha]
    · simp [Memory.linkOut, ha]
  · simp [Memory.linkOut]
  · simp [Memory.linkOut]

/-! ## Searches -/

theorem Owns.head_next (h : Owns m list (xs ++ node :: ys)) {n : ListNode}
    (hn : m.nodes node = some n) : n.next = ys.head? := by
  obtain ⟨n', hn', hnext, -⟩ := h.links
  rw [hn] at hn'
  exact Option.some.inj hn' ▸ hnext

/-- A search ends at a node of the list, or behind its last one. -/
theorem sat_findNode_append {test : ListNode → Proc (Malloc β) (Memory β) Bool}
    (htest : ∀ n, Sat (test n) e m fun _ m' => m' = m) (h : Owns m list (xs ++ ys)) :
    Sat (findNode test fuel ys.head?) e m fun p m' => m' = m ∧ ∀ a ∈ p, a ∈ ys := by
  induction ys generalizing xs fuel with
  | nil => simp [findNode]
  | cons a ys ih =>
    cases fuel with
    | zero => simp [findNode]
    | succ fuel =>
      simp only [List.head?_cons, findNode, sat_bind, sat_readNode]
      intro n hn
      refine (htest n).mono ?_
      rintro hit _ rfl
      cases hit with
      | true => simp
      | false =>
        rw [if_neg Bool.false_ne_true, h.head_next hn]
        rw [List.append_cons] at h
        refine (ih h).mono ?_
        rintro p _ ⟨rfl, hp⟩
        exact ⟨rfl, fun b hb => List.mem_cons_of_mem _ (hp b hb)⟩

/-- A search whose test can be made at every node ends at the first node that passes it. -/
theorem safe_findNode_append {test : ListNode → Proc (Malloc β) (Memory β) Bool} {hit : Nat → Bool}
    (htest : ∀ a ∈ ys, ∀ n, m.nodes a = some n → Safe (test n) e m fun b m' => b = hit a ∧ m' = m)
    (h : Owns m list (xs ++ ys)) (hfuel : ys.length ≤ fuel) :
    Safe (findNode test fuel ys.head?) e m fun p m' => p = ys.find? hit ∧ m' = m := by
  induction ys generalizing xs fuel with
  | nil => simp [findNode]
  | cons a ys ih =>
    obtain ⟨fuel, rfl⟩ := Nat.exists_eq_add_of_le' (Nat.le_of_lt_succ (Nat.lt_succ_of_le hfuel))
    obtain ⟨n, hn, hnext, -⟩ := h.links
    simp only [List.head?_cons, List.length_cons, ← Nat.add_assoc, findNode, safe_bind, safe_readNode]
    refine ⟨n, hn, (htest a List.mem_cons_self n hn).mono ?_⟩
    rintro _ _ ⟨rfl, rfl⟩
    cases hhit : hit a with
    | true => simp [hhit]
    | false =>
      rw [if_neg Bool.false_ne_true, hnext, List.find?_cons_of_neg (by simp [hhit])]
      rw [List.append_cons] at h
      exact ih (fun b hb => htest b (List.mem_cons_of_mem _ hb)) h (by omega)

/-- The search from the head of the list on. -/
theorem sat_findNode {test : ListNode → Proc (Malloc β) (Memory β) Bool}
    (htest : ∀ n, Sat (test n) e m fun _ m' => m' = m) (h : Owns m list ns) :
    Sat (findNode test fuel ns.head?) e m fun p m' => m' = m ∧ ∀ a ∈ p, a ∈ ns := by
  have hfront : Owns m list ([] ++ ns) := h
  exact sat_findNode_append htest hfront

theorem safe_findNode {test : ListNode → Proc (Malloc β) (Memory β) Bool} {hit : Nat → Bool}
    (htest : ∀ a ∈ ns, ∀ n, m.nodes a = some n → Safe (test n) e m fun b m' => b = hit a ∧ m' = m)
    (h : Owns m list ns) (hfuel : ns.length ≤ fuel) :
    Safe (findNode test fuel ns.head?) e m fun p m' => p = ns.find? hit ∧ m' = m := by
  have hfront : Owns m list ([] ++ ns) := h
  exact safe_findNode_append htest hfront hfuel

/-- A list in memory with a new node that is not linked yet. -/
theorem Owns.withNode (h : Owns m list ns) (hnode : m.nodes new = none) :
    Owns (m.withNode new val) list ns := by
  refine h.congr rfl fun a ha => ?_
  have hne : a ≠ new := ne_of_mem_of_not_mem ha (h.fresh hnode)
  simp [Memory.withNode, hne]

theorem sat_findGreater {cmp : Option ((Nat → Option β) → Option Nat → Option Nat → Option Int)}
    (h : Owns m list ns) :
    Sat (findGreater fuel cmp val ns.head?) e m fun p m' => m' = m ∧ ∀ a ∈ p, a ∈ ns := by
  cases cmp with
  | none => simp [findGreater]
  | some cmp =>
    exact sat_findNode (by simp) h

/-- An insertion at some place of the list. -/
theorem sat_listnodeAddSort (h : Owns m list ns) :
    Sat (listnodeAddSort fuel list val) e m fun _ m' => ∃ new xs ys, ns = xs ++ ys ∧
      m.nodes new = none ∧ m' = m.linkIn list xs.getLast? ys.head? new val 1 := by
  simp only [listnodeAddSort, sat_bind, sat_listnodeNew, sat_store, sat_readList]
  intro new hnew _ l hl
  obtain ⟨hnode, -⟩ := e.fresh m new hnew
  obtain ⟨hhead, htail⟩ := h.ends hl
  rw [hhead, htail]
  refine (sat_findGreater (h.withNode hnode)).mono ?_
  rintro p _ ⟨rfl, hp⟩
  cases p with
  | none =>
    refine (safe_addLast h hnode).sat.mono ?_
    rintro _ _ rfl
    exact ⟨new, ns, [], (List.append_nil ns).symm, hnode, rfl⟩
  | some a =>
    obtain ⟨xs, ys, rfl⟩ := List.append_of_mem (hp a rfl)
    refine (safe_addBefore h hnode).sat.mono ?_
    rintro _ _ rfl
    exact ⟨new, xs, a :: ys, rfl, hnode, rfl⟩

/-- An insertion in front of the first greater element. -/
theorem safe_listnodeAddSort {greater : Nat → Bool}
    (h : Owns m list ns)
    (hcmp : ∀ l, m.lists list = some l → ∃ cmp, l.cmp = some cmp ∧ ∀ a ∈ ns, ∀ n,
      m.nodes a = some n → ∃ order, cmp m.data val n.data = some order ∧
        (order < 0 ↔ greater a = true))
    (hfuel : ns.length ≤ fuel) :
    Safe (listnodeAddSort fuel list val) e m fun _ m' => ∃ new xs ys, ns = xs ++ ys ∧
      (∀ a ∈ xs, greater a = false) ∧ (∀ a ∈ ys.head?, greater a = true) ∧ m.nodes new = none ∧
        m.data new = none ∧ m' = m.linkIn list xs.getLast? ys.head? new val 1 := by
  obtain ⟨l, hl⟩ := Option.isSome_iff_exists.mp h.exists_list
  obtain ⟨cmp, hsome, hcmp⟩ := hcmp l hl
  simp only [listnodeAddSort, safe_bind, safe_listnodeNew, safe_store, safe_readList]
  intro new hnew
  obtain ⟨hnode, hdata⟩ := e.fresh m new hnew
  obtain ⟨hhead, htail⟩ := h.ends hl
  refine ⟨by simp, l, hl, ?_⟩
  rw [hhead, htail, hsome, findGreater]
  have hfind : Safe (findNode (fun n => do
      let order ← deref fun m => cmp m.data val n.data
      pure (decide (order < 0))) fuel ns.head?) e (m.withNode new val)
        fun p m' => p = ns.find? greater ∧ m' = m.withNode new val := by
    refine safe_findNode (fun a ha n hn => ?_) (h.withNode hnode) hfuel
    have hne : a ≠ new := ne_of_mem_of_not_mem ha (h.fresh hnode)
    have hn' : m.nodes a = some n := by simpa [Memory.withNode, hne] using hn
    obtain ⟨order, horder, hiff⟩ := hcmp a ha n hn'
    simp [Memory.withNode, horder, hiff]
  refine hfind.mono ?_
  rintro _ _ ⟨rfl, rfl⟩
  cases hp : ns.find? greater with
  | none =>
    refine (safe_addLast h hnode).mono ?_
    rintro _ _ rfl
    refine ⟨new, ns, [], (List.append_nil ns).symm, fun a ha => ?_, by simp, hnode, hdata, rfl⟩
    simpa using List.find?_eq_none.mp hp a ha
  | some a =>
    obtain ⟨ha, xs, ys, rfl, hxs⟩ := List.find?_eq_some_iff_append.mp hp
    refine (safe_addBefore h hnode).mono ?_
    rintro _ _ rfl
    refine ⟨new, xs, a :: ys, rfl, fun b hb => ?_, fun b hb => ?_, hnode, hdata, rfl⟩
    · simpa using hxs b hb
    · exact Option.some.inj hb ▸ ha

/-- The node that is found is taken out. -/
theorem sat_listnodeDelete (h : Owns m list ns) :
    Sat (listnodeDelete fuel list val) e m fun _ m' => m' = m ∨ ∃ xs node ys,
      ns = xs ++ node :: ys ∧ m' = m.linkOut list xs.getLast? ys.head? node := by
  simp only [listnodeDelete, sat_bind, sat_readList]
  intro l hl
  rw [(h.ends hl).1]
  refine (sat_findNode (by simp) h).mono ?_
  rintro p _ ⟨rfl, hp⟩
  cases p with
  | none => exact .inl rfl
  | some node =>
    obtain ⟨xs, ys, rfl⟩ := List.append_of_mem (hp node rfl)
    refine (safe_listDeleteNode h).sat.mono ?_
    rintro _ _ rfl
    exact .inr ⟨xs, node, ys, rfl, rfl⟩

/-- The first node that has the element is taken out. -/
theorem safe_listnodeDelete (h : Owns m list ns) (hfuel : ns.length ≤ fuel) :
    Safe (listnodeDelete fuel list val) e m fun _ m' =>
      (m' = m ∧ ∀ a ∈ ns, m.element a ≠ some val) ∨ ∃ xs node ys, ns = xs ++ node :: ys ∧
        (∀ a ∈ xs, m.element a ≠ some val) ∧ m.element node = some val ∧
          m' = m.linkOut list xs.getLast? ys.head? node := by
  obtain ⟨l, hl⟩ := Option.isSome_iff_exists.mp h.exists_list
  simp only [listnodeDelete, safe_bind, safe_readList]
  refine ⟨l, hl, ?_⟩
  rw [(h.ends hl).1]
  have hfind : Safe (findNode (fun n => pure (decide (n.data = val))) fuel ns.head?) e m
      fun p m' => p = ns.find? (fun a => decide (m.element a = some val)) ∧ m' = m := by
    refine safe_findNode (fun a ha n hn => ?_) h hfuel
    simp [Memory.element, hn]
  refine hfind.mono ?_
  rintro p t ⟨hp, rfl⟩
  cases p with
  | none =>
    refine .inl ⟨rfl, fun a ha => ?_⟩
    simpa using List.find?_eq_none.mp hp.symm a ha
  | some node =>
    obtain ⟨hnode, xs, ys, rfl, hxs⟩ := List.find?_eq_some_iff_append.mp hp.symm
    refine (safe_listDeleteNode h).mono ?_
    rintro _ _ rfl
    refine .inr ⟨xs, node, ys, rfl, fun a ha => ?_, ?_, rfl⟩
    · simpa using hxs a ha
    · simpa using hnode

end

end QrWireguard.Vtysh.Linklist

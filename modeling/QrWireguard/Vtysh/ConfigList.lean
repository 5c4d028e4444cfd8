import Mathlib.Data.List.Find
import Mathlib.Data.Multiset.Sort
import QrWireguard.Vtysh.Config
import QrWireguard.Vtysh.ListRuns

/-!
# The configuration list in memory

`config_add_line`, `config_del_line` and `config_del_line_byleft` on the doubly linked list that
`config_top` points to. They do what the functions on a list of lines do, and the lines are those
of a multiset that is kept in order.
-/

namespace QrWireguard

section
variable {α : Type} [LinearOrder α]

/-- The place where a value is inserted. -/
theorem insertAfter_append {v : α} {front back : List α} (hfront : ∀ x ∈ front, ¬ v < x)
    (hback : ∀ x ∈ back.head?, v < x) : insertAfter v (front ++ back) = front ++ v :: back := by
  induction front with
  | nil =>
    cases back with
    | nil => rfl
    | cons x back => exact if_pos (hback x rfl)
  | cons x front ih =>
    have hx : ¬ v < x := hfront x List.mem_cons_self
    rw [List.cons_append, insertAfter, if_neg hx, ih fun y hy => hfront y (List.mem_cons_of_mem _ hy)]
    rfl

/-- The least element that passes a test is taken out, if there is one. -/
def eraseLeast (p : α → Bool) (s : Multiset α) : Multiset α :=
  match (Multiset.sort (s.filter (p ·))).head? with
  | some x => s.erase x
  | none => s

theorem card_eraseLeast_le (p : α → Bool) (s : Multiset α) : (eraseLeast p s).card ≤ s.card := by
  unfold eraseLeast
  split
  · exact Multiset.card_erase_le
  · exact le_rfl

/-- The first element of a sorted list that passes a test is the least one. -/
theorem coe_eraseP_of_sorted {l : List α} (hs : l.Pairwise (· ≤ ·)) (p : α → Bool) :
    (l.eraseP p : Multiset α) = eraseLeast p l := by
  have hsort : Multiset.sort ((l : Multiset α).filter (p ·)) = l.filter p := by
    rw [Multiset.filter_coe, Multiset.coe_sort]
    simp only [Bool.decide_eq_true]
    exact List.mergeSort_eq_self _ (hs.filter _)
  rw [eraseLeast, hsort, List.head?_filter]
  cases hfind : l.find? p with
  | none => rw [List.eraseP_of_forall_not (List.find?_eq_none.mp hfind)]
  | some x =>
    obtain ⟨hx, front, back, rfl, hfront⟩ := List.find?_eq_some_iff_append.mp hfind
    have hnot : ∀ y ∈ front, ¬ p y = true := fun y hy => by simpa using hfront y hy
    have hmem : x ∉ front := fun hin => hnot x hin hx
    dsimp only
    rw [Multiset.coe_erase, List.erase_append_right _ hmem, List.erase_cons_head,
      List.eraseP_append_right _ hnot, List.eraseP_cons_of_pos hx]

end

namespace Vtysh.ConfigList
open Proc Linklist

/-! ## The functions -/

/-- `strcmp`. -/
def strcmp (s1 s2 : Str) : Int := if s1 < s2 then -1 else if s1 = s2 then 0 else 1

/-- `line_cmp`, which needs two lines. -/
def lineCmp (data : Nat → Option Str) (c1 c2 : Option Nat) : Option Int :=
  match c1.bind data, c2.bind data with
  | some s1, some s2 => some (strcmp s1 s2)
  | _, _ => none

/-- `zstrdup`. -/
def zstrdup (text : Str) : Proc (Malloc Str) (Memory Str) Nat := do
  let a ← zmalloc
  modify (·.newData a text)
  pure a

/-- `config_add_line`. -/
def configAddLine (fuel config : Nat) (line : Str) (args : List Str) :
    Proc (Malloc Str) (Memory Str) Unit :=
  match vasprintf line args with
  | none => undefined
  | some info =>
    if 0 < info.length then do
      let val ← zstrdup info
      Linklist.listnodeAddSort fuel config (some val)
    else pure ()

/-- The test of a node in `LIST_LOOP`, which passes over a node without an element. -/
def testLine (test : Str → Bool) (nn : ListNode) : Proc (Malloc Str) (Memory Str) Bool :=
  match nn.data with
  | none => pure false
  | some pnt => do
    let text ← deref (·.data pnt)
    pure (test text)

/-- The first line that passes a test is taken out of the list and freed. -/
def delFirst (test : Str → Bool) (fuel config : Nat) : Proc (Malloc Str) (Memory Str) Unit := do
  let l ← readList config
  match ← findNode (testLine test) fuel l.head with
  | none => pure ()
  | some nn => do
    let node ← readNode nn
    listnodeDelete fuel config node.data
    freeData node.data

/-- `config_del_line`. -/
def configDelLine (fuel config : Nat) (line : Str) : Proc (Malloc Str) (Memory Str) Unit :=
  delFirst (fun pnt => decide (strcmp pnt line = 0)) fuel config

/-- `config_del_line_byleft`, whose `strncmp` compares as many characters as the text has. -/
def configDelLineByleft (fuel config : Nat) (line : Str) : Proc (Malloc Str) (Memory Str) Unit :=
  delFirst (fun pnt => decide (strcmp (pnt.take line.length) line = 0)) fuel config

theorem strcmp_lt_zero {s1 s2 : Str} : strcmp s1 s2 < 0 ↔ s1 < s2 := by
  unfold strcmp
  split
  · next h => simp [h]
  · next h => split <;> simp [h]

theorem strcmp_eq_zero {s1 s2 : Str} : strcmp s1 s2 = 0 ↔ s1 = s2 := by
  unfold strcmp
  split
  · next h => simp [h.ne]
  · split
    · next h => simp [h]
    · next h => simp [h]

theorem strcmp_take_eq_zero {pnt line : Str} :
    strcmp (pnt.take line.length) line = 0 ↔ line <+: pnt := by
  rw [strcmp_eq_zero, List.prefix_iff_eq_take, eq_comm]

/-! ## Lines in memory -/

/-- The line of a node. -/
def textOf (m : Memory Str) (a : Nat) : Option Str := (m.element a).join.bind m.data

/-- A node, its element, and the line there. -/
structure Cell where
  node : Nat
  val : Nat
  text : Str

/-- The lines of a list, each of which has memory of its own. -/
structure Holds (m : Memory Str) (config : Nat) (cells : List Cell) : Prop where
  owns : Owns m config (cells.map (·.node))
  head : ∃ l, m.lists config = some l ∧ l.cmp = some lineCmp ∧
    l.count = BitVec.ofNat 32 cells.length
  element : ∀ c ∈ cells, m.element c.node = some (some c.val)
  text : ∀ c ∈ cells, m.data c.val = some c.text
  nodup : (cells.map (·.val)).Nodup

section
variable {e : Malloc Str} {m m' : Memory Str} {config fuel new val : Nat} {x y : Option Nat}
  {cells front back : List Cell} {text : Str}

@[simp] theorem element_linkIn {a : Nat} {v : Option Nat} {inc : BitVec 32} :
    (m.linkIn config x y new v inc).element a = if a = new then some v else m.element a := by
  by_cases ha : a = new
  · simp [Memory.element, Memory.linkIn, ha]
  · simp [Memory.element, Memory.linkIn, ha, Option.map_map, Function.comp_def]

@[simp] theorem element_linkOut {a node : Nat} :
    (m.linkOut config x y node).element a = if a = node then none else m.element a := by
  by_cases ha : a = node
  · simp [Memory.element, Memory.linkOut, ha]
  · simp [Memory.element, Memory.linkOut, ha, Option.map_map, Function.comp_def]

theorem Holds.line (h : Holds m config cells) {c : Cell} (hc : c ∈ cells) :
    textOf m c.node = some c.text := by
  rw [textOf, h.element c hc]
  exact h.text c hc

theorem Holds.data (h : Holds m config cells) {c : Cell} (hc : c ∈ cells) {n : ListNode}
    (hn : m.nodes c.node = some n) : n.data = some c.val := by
  have helement := h.element c hc
  rw [Memory.element, hn] at helement
  exact Option.some.inj helement

theorem Holds.fresh (h : Holds m config cells) (hval : m.data val = none) :
    ∀ c ∈ cells, c.val ≠ val := by
  intro c hc heq
  have htext := h.text c hc
  rw [heq, hval] at htext
  cases htext

/-- A line that is allocated is not in the list yet. -/
theorem Holds.newData (h : Holds m config cells) (hval : m.data val = none) :
    Holds (m.newData val text) config cells where
  owns := h.owns.congr rfl fun _ _ => rfl
  head := h.head
  element := h.element
  text c hc := by
    have hne := h.fresh hval c hc
    simpa [Memory.newData, hne] using h.text c hc
  nodup := h.nodup

/-- A line is linked in. -/
theorem Holds.linkIn (h : Holds m config (front ++ back)) (hnode : m.nodes new = none)
    (hval : ∀ c ∈ front ++ back, c.val ≠ val) (htext : m.data val = some text) :
    Holds (m.linkIn config (front.map (·.node)).getLast? (back.map (·.node)).head? new (some val) 1)
      config (front ++ ⟨new, val, text⟩ :: back) where
  owns := by
    have howns := h.owns
    rw [List.map_append] at howns
    rw [List.map_append, List.map_cons]
    exact howns.linkIn hnode
  head := by
    obtain ⟨l, hl, hcmp, hcount⟩ := h.head
    refine ⟨_, Memory.lists_linkIn_self hl, hcmp, ?_⟩
    simp only [hcount, List.length_append, List.length_cons, ← Nat.add_assoc]
    rw [BitVec.ofNat_add (_ + _)]
    rfl
  element c hc := by
    rw [List.mem_append, List.mem_cons] at hc
    have hold : ∀ c ∈ front ++ back, (m.linkIn config (front.map (·.node)).getLast?
        (back.map (·.node)).head? new (some val) 1).element c.node = some (some c.val) := by
      intro c hc
      have hne : c.node ≠ new :=
        ne_of_mem_of_not_mem (List.mem_map_of_mem hc) (h.owns.fresh hnode)
      rw [element_linkIn, if_neg hne]
      exact h.element c hc
    rcases hc with hc | rfl | hc
    · exact hold c (List.mem_append_left _ hc)
    · rw [element_linkIn, if_pos rfl]
    · exact hold c (List.mem_append_right _ hc)
  text c hc := by
    rw [List.mem_append, List.mem_cons] at hc
    rcases hc with hc | rfl | hc
    · exact h.text c (List.mem_append_left _ hc)
    · exact htext
    · exact h.text c (List.mem_append_right _ hc)
  nodup := by
    rw [List.map_append, List.map_cons, List.nodup_middle, List.nodup_cons, ← List.map_append]
    refine ⟨fun hmem => ?_, h.nodup⟩
    obtain ⟨c, hc, heq⟩ := List.mem_map.mp hmem
    exact hval c hc heq

/-- A line is taken out and freed. -/
theorem Holds.linkOut {c : Cell} (h : Holds m config (front ++ c :: back)) :
    Holds ((m.linkOut config (front.map (·.node)).getLast? (back.map (·.node)).head? c.node).freeData
      c.val) config (front ++ back) where
  owns := by
    have howns := h.owns
    rw [List.map_append, List.map_cons] at howns
    rw [List.map_append]
    exact howns.linkOut.congr rfl fun _ _ => rfl
  head := by
    obtain ⟨l, hl, hcmp, hcount⟩ := h.head
    refine ⟨_, Memory.lists_linkOut_self hl _ _ c.node, hcmp, ?_⟩
    simp only [hcount, List.length_append, List.length_cons, ← Nat.add_assoc]
    rw [BitVec.ofNat_add (_ + _)]
    exact BitVec.add_sub_cancel _ _
  element d hd := by
    have hnodup := h.owns.nodup
    rw [List.map_append, List.map_cons, List.nodup_middle, List.nodup_cons, ← List.map_append]
      at hnodup
    have hne : d.node ≠ c.node := ne_of_mem_of_not_mem (List.mem_map_of_mem hd) hnodup.1
    have hkeep : (m.linkOut config (front.map (·.node)).getLast? (back.map (·.node)).head?
        c.node).element d.node = m.element d.node := by
      rw [element_linkOut, if_neg hne]
    refine Eq.trans hkeep (h.element d ?_)
    exact List.perm_middle.mem_iff.mpr (List.mem_cons_of_mem _ hd)
  text d hd := by
    have hnodup := h.nodup
    rw [List.map_append, List.map_cons, List.nodup_middle, List.nodup_cons, ← List.map_append]
      at hnodup
    have hne : d.val ≠ c.val := ne_of_mem_of_not_mem (List.mem_map_of_mem hd) hnodup.1
    have hmem : d ∈ front ++ c :: back := List.perm_middle.mem_iff.mpr (List.mem_cons_of_mem _ hd)
    simpa [Memory.freeData, Memory.linkOut, hne] using h.text d hmem
  nodup := by
    have hnodup := h.nodup
    rw [List.map_append, List.map_cons, List.nodup_middle, List.nodup_cons, ← List.map_append]
      at hnodup
    exact hnodup.2

/-! ## What the functions do -/

/-- The comparison of a line in memory with a line of the list. -/
theorem Holds.compare (h : Holds m config cells) (hval : m.data val = some text) {a : Nat}
    (ha : a ∈ cells.map (·.node)) {n : ListNode} (hn : m.nodes a = some n) :
    ∃ order, lineCmp m.data (some val) n.data = some order ∧
      (order < 0 ↔ (textOf m a).any (text < ·) = true) := by
  obtain ⟨c, hc, rfl⟩ := List.mem_map.mp ha
  have hdata := h.data hc hn
  refine ⟨strcmp text c.text, ?_, ?_⟩
  · simp [lineCmp, hdata, hval, h.text c hc]
  · rw [strcmp_lt_zero, h.line hc]
    simp

/-- `listnode_add_sort` of a line keeps the order of the lines. -/
theorem safe_addLine (h : Holds m config cells) (hfuel : cells.length ≤ fuel)
    (hval : m.data val = some text) (hfresh : ∀ c ∈ cells, c.val ≠ val) :
    Safe (Linklist.listnodeAddSort fuel config (some val)) e m fun _ m' => ∃ cells',
      Holds m' config cells' ∧
        cells'.map (·.text) = Vtysh.listnodeAddSort text (cells.map (·.text)) := by
  have hcmp : ∀ l, m.lists config = some l → ∃ cmp, l.cmp = some cmp ∧
      ∀ a ∈ cells.map (·.node), ∀ n, m.nodes a = some n → ∃ order,
        cmp m.data (some val) n.data = some order ∧
          (order < 0 ↔ (textOf m a).any (text < ·) = true) := by
    intro l hl
    obtain ⟨l', hl', hcmp, -⟩ := h.head
    rw [hl] at hl'
    cases hl'
    exact ⟨lineCmp, hcmp, fun a ha n hn => h.compare hval ha hn⟩
  refine (safe_listnodeAddSort h.owns hcmp (by simpa using hfuel)).mono ?_
  rintro _ _ ⟨new, xs, ys, hsplit, hxs, hys, hnode, -, rfl⟩
  obtain ⟨front, back, rfl, rfl, rfl⟩ := List.map_eq_append_iff.mp hsplit
  refine ⟨_, h.linkIn hnode hfresh hval, ?_⟩
  rw [List.map_append, List.map_append, List.map_cons, Vtysh.listnodeAddSort, insertAfter_append]
  · intro t ht
    obtain ⟨c, hc, rfl⟩ := List.mem_map.mp ht
    have hgreater := hxs c.node (List.mem_map_of_mem hc)
    rw [h.line (List.mem_append_left _ hc)] at hgreater
    simpa using hgreater
  · intro t ht
    rw [List.head?_map] at ht
    obtain ⟨c, hc, rfl⟩ := Option.map_eq_some_iff.mp ht
    have hgreater := hys c.node (by rw [List.head?_map, hc]; rfl)
    rw [h.line (List.mem_append_right _ (List.mem_of_head? hc))] at hgreater
    simpa using hgreater

/-- A line is added where the function on lists of lines adds it. -/
theorem safe_configAddLine {line : Str} {args : List Str} {info : Str}
    (h : Holds m config cells) (hfuel : cells.length ≤ fuel)
    (hinfo : vasprintf line args = some info) :
    Safe (configAddLine fuel config line args) e m fun _ m' => ∃ cells', Holds m' config cells' ∧
      Vtysh.configAddLine (cells.map (·.text)) line args = some (cells'.map (·.text)) := by
  unfold configAddLine Vtysh.configAddLine
  rw [hinfo]
  dsimp only
  split
  · simp only [zstrdup, safe_bind, safe_zmalloc, safe_modify, safe_pure]
    intro val hval
    have hdata := (e.fresh m val hval).2
    have htext : (m.newData val info).data val = some info := by simp [Memory.newData]
    refine (safe_addLine (h.newData hdata) hfuel htext (h.fresh hdata)).mono ?_
    rintro _ m' ⟨cells', h', hcells'⟩
    exact ⟨cells', h', by rw [hcells']⟩
  · exact ⟨cells, h, rfl⟩

/-- The first line that passes the test is taken out and freed. -/
theorem safe_delFirst {test : Str → Bool} (h : Holds m config cells) (hfuel : cells.length ≤ fuel) :
    Safe (delFirst test fuel config) e m fun _ m' => ∃ cells', Holds m' config cells' ∧
      cells'.map (·.text) = (cells.map (·.text)).eraseP test := by
  obtain ⟨l, hl, -, -⟩ := h.head
  simp only [delFirst, safe_bind, safe_readList]
  refine ⟨l, hl, ?_⟩
  rw [(h.owns.ends hl).1]
  have hfind : Safe (findNode (testLine test) fuel (cells.map (·.node)).head?) e m fun p m' =>
      p = (cells.map (·.node)).find? (fun a => (textOf m a).any test) ∧ m' = m := by
    refine safe_findNode (fun a ha n hn => ?_) h.owns (by simpa using hfuel)
    obtain ⟨c, hc, rfl⟩ := List.mem_map.mp ha
    simp [testLine, h.data hc hn, h.text c hc, h.line hc]
  have htest : ∀ c ∈ cells, (textOf m c.node).any test = test c.text := by
    intro c hc
    rw [h.line hc]
    rfl
  refine hfind.mono ?_
  rintro p t ⟨hp, rfl⟩
  rw [List.find?_map, Function.comp_def, List.find?_congr htest] at hp
  cases hc : cells.find? (fun c => test c.text) with
  | none =>
    rw [hc, Option.map_none] at hp
    subst hp
    refine ⟨cells, h, ?_⟩
    rw [List.eraseP_map, List.eraseP_of_forall_not]
    exact List.find?_eq_none.mp hc
  | some c =>
    rw [hc, Option.map_some] at hp
    subst hp
    obtain ⟨hhit, front, back, rfl, hfront⟩ := List.find?_eq_some_iff_append.mp hc
    have howns := h.owns
    rw [List.map_append, List.map_cons] at howns
    obtain ⟨n, hn, -, -⟩ := howns.links
    simp only [safe_bind, safe_readNode]
    refine ⟨n, hn, ?_⟩
    rw [h.data (by simp) hn]
    refine (safe_listnodeDelete h.owns (by simpa using hfuel)).mono ?_
    rintro _ m' (⟨-, hnone⟩ | ⟨xs, node, ys, hsplit, -, helement, rfl⟩)
    · exact absurd (h.element c (by simp)) (hnone c.node (by simp))
    · obtain ⟨front', rest, hcells, rfl, hrest⟩ := List.map_eq_append_iff.mp hsplit
      obtain ⟨c', back', rfl, rfl, rfl⟩ := List.map_eq_cons_iff.mp hrest
      have hval : c'.val = c.val := by
        rw [h.element c' (by simp [hcells])] at helement
        exact Option.some.inj (Option.some.inj helement)
      obtain rfl : c' = c := List.inj_on_of_nodup_map h.nodup (by simp [hcells]) (by simp) hval
      have hnodup := List.Nodup.of_map _ h.nodup
      rw [hcells, List.nodup_middle, List.nodup_cons, List.mem_append, not_or] at hnodup
      obtain ⟨rfl, -, rfl⟩ := (List.append_cons_inj_of_notMem hnodup.1.1 hnodup.1.2).mp hcells.symm
      have hdata := h.text c' (by simp)
      simp only [freeData, safe_bind, safe_deref, safe_modify]
      refine ⟨c'.text, hdata, front' ++ back', h.linkOut, ?_⟩
      have hnot : ∀ c ∈ front', ¬ test c.text = true := fun c hc => by simpa using hfront c hc
      rw [List.eraseP_map, Function.comp_def, List.eraseP_append_right _ hnot]
      simp only [List.eraseP_cons, hhit, cond_true]

theorem safe_configDelLine {line : Str} (h : Holds m config cells) (hfuel : cells.length ≤ fuel) :
    Safe (configDelLine fuel config line) e m fun _ m' => ∃ cells', Holds m' config cells' ∧
      cells'.map (·.text) = Vtysh.configDelLine (cells.map (·.text)) line := by
  have htest : (fun pnt => decide (strcmp pnt line = 0)) = (· == line) := by
    funext pnt
    rw [Bool.eq_iff_iff, decide_eq_true_iff, strcmp_eq_zero, beq_iff_eq]
  rw [configDelLine, htest]
  exact safe_delFirst h hfuel

theorem safe_configDelLineByleft {line : Str} (h : Holds m config cells)
    (hfuel : cells.length ≤ fuel) :
    Safe (configDelLineByleft fuel config line) e m fun _ m' => ∃ cells', Holds m' config cells' ∧
      cells'.map (·.text) = Vtysh.configDelLineByleft (cells.map (·.text)) line := by
  have htest : (fun pnt => decide (strcmp (pnt.take line.length) line = 0)) =
      (line.isPrefixOf ·) := by
    funext pnt
    rw [Bool.eq_iff_iff, decide_eq_true_iff, strcmp_take_eq_zero, List.isPrefixOf_iff_prefix]
  rw [configDelLineByleft, htest]
  exact safe_delFirst h hfuel

end

/-! ## Runs -/

/-- A call and its text. A line is added by a format that prints as it is. -/
inductive ConfigOp where
  | add (text : Str)
  | del (line : Str)
  | delByleft (line : Str)

namespace ConfigOp

def run (fuel config : Nat) : ConfigOp → Proc (Malloc Str) (Memory Str) Unit
  | add text => configAddLine fuel config text []
  | del line => configDelLine fuel config line
  | delByleft line => configDelLineByleft fuel config line

/-- A line that is added is a text without percent signs, and not the empty one. -/
def Text : ConfigOp → Prop
  | add text => text ≠ [] ∧ '%' ∉ text
  | _ => True

instance : (op : ConfigOp) → Decidable op.Text
  | add text => inferInstanceAs (Decidable (text ≠ [] ∧ '%' ∉ text))
  | del _ => .isTrue trivial
  | delByleft _ => .isTrue trivial

/-- What the call does to the multiset of lines. -/
def reference (s : Multiset Str) : ConfigOp → Multiset Str
  | add text => text ::ₘ s
  | del line => s.erase line
  | delByleft line => eraseLeast (line.isPrefixOf ·) s

end ConfigOp

/-- The reference multiset after a sequence of calls. -/
def reference (ops : List ConfigOp) : Multiset Str := ops.foldl ConfigOp.reference 0

/-- The memories after a sequence of calls that starts with an empty configuration. A loop may go
on for as many rounds as there are calls in front of it. -/
inductive ConfigRun (config : Nat) : List ConfigOp → Memory Str → Prop
  | start {m : Memory Str} (h : m.lists config = some ⟨none, none, 0, some lineCmp, true⟩) :
      ConfigRun config [] m
  | step {ops : List ConfigOp} {op : ConfigOp} {m m' : Memory Str} {e : Malloc Str} {fuel : Nat}
      (hrun : ConfigRun config ops m) (htext : op.Text) (hfuel : ops.length ≤ fuel)
      (h : op.run fuel config e m = .done () m') : ConfigRun config (ops ++ [op]) m'

/-- The list holds the lines of a multiset in `strcmp` order. -/
def ConfigRep (m : Memory Str) (config : Nat) (s : Multiset Str) : Prop :=
  ∃ l ns, ∃ lines : List Str, m.lists config = some l ∧ Visits m (·.next) l.head ns ∧
    Visits m (·.prev) l.tail ns.reverse ∧ l.count = BitVec.ofNat 32 ns.length ∧
      ns.map (textOf m) = List.map some lines ∧ lines.Pairwise (strcmp · · ≤ 0) ∧ ↑lines = s

section
variable {e : Malloc Str} {m : Memory Str} {config fuel : Nat} {cells : List Cell} {op : ConfigOp}
  {ops : List ConfigOp}

theorem strcmp_le_zero {s1 s2 : Str} : strcmp s1 s2 ≤ 0 ↔ s1 ≤ s2 := by
  rw [le_iff_lt_or_eq, strcmp_lt_zero, strcmp_eq_zero, ← le_iff_lt_or_eq]

/-- The lines of the list, in their order. -/
structure Sorted (m : Memory Str) (config : Nat) (cells : List Cell) (s : Multiset Str) : Prop where
  holds : Holds m config cells
  order : (cells.map (·.text)).Pairwise (· ≤ ·)
  lines : ↑(cells.map (·.text)) = s

theorem sorted_eraseP {ls : List Str} (h : ls.Pairwise (· ≤ ·)) (test : Str → Bool) :
    (ls.eraseP test).Pairwise (· ≤ ·) :=
  h.sublist List.eraseP_sublist

/-- What a call does to the lines. -/
theorem Sorted.safe_run {s : Multiset Str} (h : Sorted m config cells s) (htext : op.Text)
    (hfuel : cells.length ≤ fuel) :
    Safe (op.run fuel config) e m fun _ m' => ∃ cells', Sorted m' config cells' (op.reference s) := by
  obtain ⟨holds, order, rfl⟩ := h
  cases op with
  | add text =>
    obtain ⟨hne, hpercent⟩ := htext
    have hpos : 0 < text.length := List.length_pos_iff.mpr hne
    have hinfo := vasprintf_of_not_mem hpercent []
    refine (safe_configAddLine holds hfuel hinfo).mono ?_
    rintro _ m' ⟨cells', holds', hcells'⟩
    rw [Vtysh.configAddLine, hinfo] at hcells'
    dsimp only at hcells'
    rw [if_pos hpos, Option.some.injEq] at hcells'
    refine ⟨cells', holds', hcells' ▸ sorted_insertAfter order, ?_⟩
    rw [← hcells', ConfigOp.reference, Multiset.cons_coe, Multiset.coe_eq_coe]
    exact perm_insertAfter _ _
  | del line =>
    refine (safe_configDelLine holds hfuel).mono ?_
    rintro _ m' ⟨cells', holds', hcells'⟩
    refine ⟨cells', holds', hcells' ▸ sorted_eraseP order _, ?_⟩
    have htest : (fun pnt : Str => pnt == line) = fun pnt => decide (pnt = line) := by
      funext pnt
      rw [Bool.eq_iff_iff, beq_iff_eq, decide_eq_true_iff]
    rw [hcells', ConfigOp.reference, Multiset.coe_erase, Vtysh.configDelLine, htest]
    rw [@List.erase_eq_eraseP' Str instBEqOfDecidableEq]
    rfl
  | delByleft line =>
    refine (safe_configDelLineByleft holds hfuel).mono ?_
    rintro _ m' ⟨cells', holds', hcells'⟩
    refine ⟨cells', holds', hcells' ▸ sorted_eraseP order _, ?_⟩
    rw [hcells', ConfigOp.reference, ← coe_eraseP_of_sorted order, Vtysh.configDelLineByleft]

/-- There are no more lines than calls. -/
theorem card_reference_le (ops : List ConfigOp) : (reference ops).card ≤ ops.length := by
  induction ops using List.reverseRecOn with
  | nil => rfl
  | append_singleton ops op ih =>
    have hstep : (op.reference (reference ops)).card ≤ (reference ops).card + 1 := by
      cases op with
      | add text => rw [ConfigOp.reference, Multiset.card_cons]
      | del line => exact (Multiset.card_erase_le).trans (Nat.le_succ _)
      | delByleft line => exact (card_eraseLeast_le _ _).trans (Nat.le_succ _)
    rw [reference, List.foldl_concat, List.length_append]
    exact hstep.trans (Nat.succ_le_succ ih)

theorem Sorted.length_le (h : Sorted m config cells (reference ops)) :
    cells.length ≤ ops.length := by
  have hcard := card_reference_le ops
  rwa [← h.lines, Multiset.coe_card, List.length_map] at hcard

theorem ConfigRun.sorted (h : ConfigRun config ops m) :
    ∃ cells, Sorted m config cells (reference ops) := by
  induction h with
  | start hstart =>
    refine ⟨[], ⟨⟨by rw [hstart]; rfl, nofun, ring_nil.mpr ?_⟩, ⟨_, hstart, rfl, rfl⟩, nofun, nofun,
      List.nodup_nil⟩, .nil, rfl⟩
    simp [Memory.next, Memory.prev, hstart]
  | step _ htext hfuel hdone ih =>
    obtain ⟨cells, h⟩ := ih
    obtain ⟨cells', h'⟩ := (h.safe_run htext (h.length_le.trans hfuel)).of_done hdone
    refine ⟨cells', ?_⟩
    rwa [reference, List.foldl_concat]

/-- Both traversals visit the lines in their order. -/
theorem Sorted.configRep {s : Multiset Str} (h : Sorted m config cells s) : ConfigRep m config s := by
  obtain ⟨holds, order, lines⟩ := h
  obtain ⟨l, hl, -, hcount⟩ := holds.head
  obtain ⟨hnext, hprev⟩ := holds.owns.visits hl
  refine ⟨l, _, _, hl, hnext, hprev, by rw [hcount, List.length_map], ?_, ?_, lines⟩
  · rw [List.map_map, List.map_map]
    exact List.map_congr_left fun c hc => holds.line hc
  · exact order.imp strcmp_le_zero.mpr

/-- After any sequence of calls the list holds the lines of the reference multiset in `strcmp`
order, and the next call does not go wrong: it returns, or there is no memory for a line. -/
theorem configRep_of_run (h : ConfigRun config ops m) : ConfigRep m config (reference ops) ∧
    ∀ op : ConfigOp, op.Text → ∀ e fuel, ops.length ≤ fuel →
      op.run fuel config e m ≠ .undefined := by
  obtain ⟨cells, hsorted⟩ := h.sorted
  refine ⟨hsorted.configRep, fun op htext e fuel hfuel => ?_⟩
  exact (hsorted.safe_run htext (hsorted.length_le.trans hfuel)).not_wrong

end

/-! ## More lines than the count can count -/

section
variable {e : Malloc Str} {fuel config : Nat}

theorem neverExits_deref {γ : Type} (f : Memory Str → Option γ) : NeverExits (deref f) e := by
  refine neverExits_bind neverExits_get fun m => ?_
  cases f m <;> simp

theorem neverExits_store (a : Nat) (f : ListNode → ListNode) :
    NeverExits (store a f : Proc (Malloc Str) (Memory Str) Unit) e :=
  neverExits_bind (neverExits_deref _) fun _ => neverExits_modify _

theorem neverExits_storeList (list : Nat) (f : ListHead Str → ListHead Str) :
    NeverExits (storeList list f) e :=
  neverExits_bind (neverExits_deref _) fun _ => neverExits_modify _

theorem neverExits_setNext (list : Nat) (p next : Option Nat) :
    NeverExits (Linklist.setNext list p next : Proc (Malloc Str) (Memory Str) Unit) e := by
  cases p with
  | none => exact neverExits_storeList _ _
  | some a => exact neverExits_store _ _

theorem neverExits_zmalloc : NeverExits zmalloc (nextAddress : Malloc Str) := by
  intro s t h
  cases h

theorem neverExits_findNode {test : ListNode → Proc (Malloc Str) (Memory Str) Bool}
    (htest : ∀ n, NeverExits (test n) e) (p : Option Nat) :
    NeverExits (findNode test fuel p) e := by
  induction fuel generalizing p with
  | zero => cases p <;> simp [findNode]
  | succ fuel ih =>
    cases p with
    | none => simp [findNode]
    | some n =>
      refine neverExits_bind (neverExits_deref _) fun node => neverExits_bind (htest node) fun hit => ?_
      split
      · exact neverExits_pure _
      · exact ih _

theorem neverExits_findGreater
    {cmp : Option ((Nat → Option Str) → Option Nat → Option Nat → Option Int)}
    (val head : Option Nat) : NeverExits (findGreater fuel cmp val head) e := by
  cases cmp with
  | none => exact neverExits_pure _
  | some cmp =>
    refine neverExits_findNode (fun n => ?_) head
    exact neverExits_bind (neverExits_deref _) fun _ => neverExits_pure _

theorem neverExits_addBefore (new n : Nat) :
    NeverExits (addBefore config new n : Proc (Malloc Str) (Memory Str) Unit) e :=
  neverExits_bind (neverExits_store _ _) fun _ => neverExits_bind (neverExits_deref _) fun _ =>
    neverExits_bind (neverExits_store _ _) fun _ => neverExits_bind (neverExits_setNext _ _ _) fun _ =>
      neverExits_bind (neverExits_store _ _) fun _ => neverExits_storeList _ _

theorem neverExits_addLast (new : Nat) (tail : Option Nat) :
    NeverExits (addLast config new tail : Proc (Malloc Str) (Memory Str) Unit) e :=
  neverExits_bind (neverExits_store _ _) fun _ => neverExits_bind (neverExits_setNext _ _ _) fun _ =>
    neverExits_bind (neverExits_storeList _ _) fun _ => neverExits_storeList _ _

/-- Lines are added for as long as there is memory. -/
theorem neverExits_configAddLine (line : Str) (args : List Str) :
    NeverExits (configAddLine fuel config line args) nextAddress := by
  unfold configAddLine
  cases vasprintf line args with
  | none => exact neverExits_undefined
  | some info =>
    dsimp only
    split
    · refine neverExits_bind ?_ fun val => ?_
      · exact neverExits_bind neverExits_zmalloc fun _ =>
          neverExits_bind (neverExits_modify _) fun _ => neverExits_pure _
      · refine neverExits_bind ?_ fun new => neverExits_bind (neverExits_store _ _) fun _ =>
          neverExits_bind (neverExits_deref _) fun l =>
            neverExits_bind (neverExits_findGreater _ _) fun p => ?_
        · exact neverExits_bind neverExits_zmalloc fun _ =>
            neverExits_bind (neverExits_modify _) fun _ => neverExits_pure _
        · cases p with
          | none => exact neverExits_addLast _ _
          | some n => exact neverExits_addBefore _ _
    · exact neverExits_pure _

/-- An empty configuration, and nothing else. -/
def emptyConfig : Memory Str where
  nodes _ := none
  lists list := if list = 0 then some ⟨none, none, 0, some lineCmp, true⟩ else none
  data _ := none
  top := 0
  unused _ _ := ⟨rfl, rfl⟩

/-- Any lines can be added one after the other. -/
theorem exists_configRun {texts : List Str} (htexts : ∀ t ∈ texts, (ConfigOp.add t).Text) :
    ∃ m, ConfigRun 0 (texts.map .add) m := by
  induction texts using List.reverseRecOn with
  | nil => exact ⟨emptyConfig, .start rfl⟩
  | append_singleton texts t ih =>
    obtain ⟨m, hrun⟩ := ih fun t ht => htexts t (List.mem_append_left _ ht)
    obtain ⟨cells, hsorted⟩ := hrun.sorted
    have htext : (ConfigOp.add t).Text := htexts t (by simp)
    have hsafe := hsorted.safe_run (e := nextAddress) htext hsorted.length_le
    obtain ⟨⟨⟩, m', hdone, -⟩ := runs_iff.mp (hsafe.runs (neverExits_configAddLine t []))
    rw [List.map_append]
    exact ⟨m', .step hrun htext le_rfl hdone⟩

/-- Two lines, of which the second one is the smaller. -/
theorem configRep_of_run_two : ∃ m, ConfigRun 0 [.add (str "ip"), .add (str "add")] m ∧
    ConfigRep m 0 {str "add", str "ip"} := by
  have htexts : ∀ t ∈ [str "ip", str "add"], (ConfigOp.add t).Text := by decide
  obtain ⟨m, hrun⟩ := exists_configRun htexts
  exact ⟨m, hrun, (configRep_of_run hrun).1⟩

end

/-- The count of the list is the number of its nodes. -/
def CountsNodes (m : Memory Str) (config : Nat) : Prop :=
  ∃ l ns, m.lists config = some l ∧ Visits m (·.next) l.head ns ∧ l.count.toNat = ns.length

theorem reference_replicate (n : Nat) (text : Str) :
    reference (List.replicate n (.add text)) = Multiset.replicate n text := by
  induction n with
  | zero => rfl
  | succ n ih =>
    rw [List.replicate_succ', reference, List.foldl_concat, Multiset.replicate_succ, ← ih]
    rfl

/-- The count is zero again after 2^32 lines. -/
theorem not_countsNodes : ∃ m, ConfigRun 0 (List.replicate (2 ^ 32) (.add (str "ip"))) m ∧
    ¬ CountsNodes m 0 := by
  have htexts : ∀ t ∈ List.replicate (2 ^ 32) (str "ip"), (ConfigOp.add t).Text := by
    intro t ht
    rw [List.eq_of_mem_replicate ht]
    decide
  obtain ⟨m, hrun⟩ := exists_configRun htexts
  rw [List.map_replicate] at hrun
  refine ⟨m, hrun, ?_⟩
  rintro ⟨l, ns, hl, hvisits, hcount⟩
  obtain ⟨cells, ⟨holds, -, hlines⟩⟩ := hrun.sorted
  have hlen : cells.length = 2 ^ 32 := by
    have hcard := congrArg Multiset.card hlines
    rwa [reference_replicate, Multiset.coe_card, List.length_map, Multiset.card_replicate] at hcard
  rw [hvisits.unique (holds.owns.visits hl).1, List.length_map, hlen] at hcount
  exact absurd l.count.isLt (by omega)

end Vtysh.ConfigList

end QrWireguard

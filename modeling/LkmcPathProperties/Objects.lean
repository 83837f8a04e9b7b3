import LkmcPathProperties.Scan

/-!
# `make_from_tuples` over Python objects

`PrefixTree.__init__` keeps the children dict it is given, and the loop of
`make_from_tuples` writes each new tree into that dict in place
(`cur_children[child_key] = new_tree`).  What a run does therefore depends on which
entries share a children dict.  This module models the objects: children mappings and
`PrefixTree`s live in a `Heap` at addresses, a pair names its children mapping by
address, and the loop overwrites the mapping it converts.  A value of a mapping is a
bare record, a pair, or a `PrefixTree` the loop stored there, which `tree_from_tuples`
cannot read as a record.

`Entry` (`Build`) is the special case of a structure written as one literal, where
every mapping is a new object.  The object model runs the same loop on it (`ObjectsBuild`).

The loop ends: each pass turns every value of the popped mapping into a tree and pushes
one reference for each, so `2 * pendingSlots + todo.length` goes down.
-/

namespace Lkmc

namespace Objects

/-- A value where `make_from_tuples` reads an entry: a bare record, a pair of a record
and the children mapping at an address, or the `PrefixTree` at an address. -/
inductive Slot where
  | record (properties : PyDict)
  | tuple (properties : PyDict) (children : Nat)
  | tree (t : Nat)

namespace Slot

/-- The record of a declared entry. -/
def record? : Slot → Option PyDict
  | .record r => some r
  | .tuple r _ => some r
  | .tree _ => none

def isTree : Slot → Bool
  | .tree _ => true
  | _ => false

end Slot

/-- A `PrefixTree` object: its `path_properties` and the address of its `children`
mapping. -/
structure TreeObj where
  pathProperties : PathProperties
  children : Nat

/-- The objects `make_from_tuples` reads and writes, by address: children mappings
(segment name to value, in insertion order) and `PrefixTree`s. -/
structure Heap where
  mappings : List (List (String × Slot))
  trees : List TreeObj

namespace Heap

/-- `{}`: a new empty mapping and its address. -/
def newMapping (h : Heap) : Heap × Nat :=
  ({ h with mappings := h.mappings ++ [[]] }, h.mappings.length)

/-- A new `PrefixTree` object and its address. -/
def newTree (h : Heap) (tree : TreeObj) : Heap × Nat :=
  ({ h with trees := h.trees ++ [tree] }, h.trees.length)

/-- The mapping at `c` now holds `m`. -/
def setMapping (h : Heap) (c : Nat) (m : List (String × Slot)) : Heap :=
  { h with mappings := h.mappings.set c m }

/-- The address of the children mapping a value leads to: a pair's, or a tree's. -/
def childrenOf (h : Heap) : Slot → Option Nat
  | .record _ => none
  | .tuple _ c => some c
  | .tree t => (h.trees[t]?).map (·.children)

/-- The value at a sequence of segment names below `s`: how the declarations nest, and
how `get` walks a built tree through `children[path_component]`. -/
def slotAt (h : Heap) (s : Slot) : List String → Option Slot
  | [] => some s
  | k :: ks =>
    (((h.childrenOf s).bind (h.mappings[·]?)).bind (dictGet · k)).bind (h.slotAt · ks)

/-- The record of the declared entry at a sequence of segment names. -/
def recordAt (h : Heap) (s : Slot) (path : List String) : Option PyDict :=
  (h.slotAt s path).bind Slot.record?

/-- The `PrefixTree` at a sequence of segment names below the tree at `t`. -/
def nodeAt (h : Heap) (t : Nat) (path : List String) : Option PathProperties :=
  match h.slotAt (.tree t) path with
  | some (.tree t') => (h.trees[t']?).map (·.pathProperties)
  | _ => none

/-- The number of values in the mappings that are not trees yet. -/
def pendingIn : List (List (String × Slot)) → Nat
  | [] => 0
  | m :: ms => m.countP (fun ks => !ks.2.isTree) + pendingIn ms

def pendingSlots (h : Heap) : Nat := pendingIn h.mappings

end Heap

section Model

variable (LF : String)

/-- `PrefixTree(path_properties_dict, children)`: the record goes through
`PathProperties.__init__`, and the tree keeps the children mapping it is given. -/
def prefixTree (h : Heap) (properties : PyDict) (children : Nat) : Except PyExc (Heap × Nat) := do
  let pathProperties ← PathProperties.new LF properties
  pure (h.newTree ⟨pathProperties, children⟩)

/-- `tree_from_tuples`: a value that is not a tuple is read as `(value, {})`.  A
`PrefixTree` is then a record that `PathProperties.__init__` cannot iterate. -/
def treeFromTuples (h : Heap) : Slot → Except PyExc (Heap × Nat)
  | .record r => prefixTree LF h.newMapping.1 r h.newMapping.2
  | .tuple r c => prefixTree LF h r c
  | .tree _ => .error (.typeError "\x27PrefixTree\x27 object is not iterable")

/-- The `for child_key in cur_children` loop: each value through `tree_from_tuples`, in
order; the addresses of the new trees.  Writing them into the mapping as they are made
or after the last one leaves the same heap, since `tree_from_tuples` does not read the
mapping. -/
def convertChildren (h : Heap) : List (String × Slot) → Except PyExc (Heap × List Nat)
  | [] => .ok (h, [])
  | (_, s) :: cs => do
    let (h, newTree) ← treeFromTuples LF h s
    let (h, newTrees) ← convertChildren h cs
    pure (h, newTree :: newTrees)

/-- The mapping after `cur_children[child_key] = new_tree` for each key. -/
def converted (curChildren : List (String × Slot)) (newTrees : List Nat) : List (String × Slot) :=
  List.zipWith (fun ks t => (ks.1, .tree t)) curChildren newTrees

end Model

/-! ## Lemmas -/

namespace Heap

@[simp] theorem newMapping_trees (h : Heap) : h.newMapping.1.trees = h.trees := rfl
@[simp] theorem newTree_mappings (h : Heap) (tree : TreeObj) :
    (h.newTree tree).1.mappings = h.mappings := rfl
@[simp] theorem setMapping_trees (h : Heap) (c : Nat) (m : List (String × Slot)) :
    (h.setMapping c m).trees = h.trees := rfl

/-- `h'` is `h` with new empty mappings and new trees after the old ones. -/
structure Extends (h h' : Heap) : Prop where
  mappings : ∃ k, h'.mappings = h.mappings ++ List.replicate k []
  trees : h.trees <+: h'.trees

theorem Extends.refl (h : Heap) : h.Extends h := ⟨⟨0, by simp⟩, List.prefix_refl _⟩

theorem Extends.trans {h₁ h₂ h₃ : Heap} (h₁₂ : h₁.Extends h₂) (h₂₃ : h₂.Extends h₃) :
    h₁.Extends h₃ := by
  obtain ⟨⟨k, hk⟩, ht⟩ := h₁₂
  obtain ⟨⟨k', hk'⟩, ht'⟩ := h₂₃
  exact ⟨⟨k + k', by rw [hk', hk, List.append_assoc, List.replicate_add]⟩, ht.trans ht'⟩

theorem extends_newMapping (h : Heap) : h.Extends h.newMapping.1 := ⟨⟨1, rfl⟩, List.prefix_refl _⟩

theorem extends_newTree (h : Heap) (tree : TreeObj) : h.Extends (h.newTree tree).1 :=
  ⟨⟨0, by simp [newTree]⟩, List.prefix_append _ _⟩

theorem Extends.mappings_getElem? {h h' : Heap} (he : h.Extends h') {c : Nat}
    (hc : c < h.mappings.length) : h'.mappings[c]? = h.mappings[c]? := by
  obtain ⟨⟨k, hk⟩, -⟩ := he
  rw [hk, List.getElem?_append_left hc]

/-- A mapping the old heap does not have is empty or missing in the new one. -/
theorem Extends.mappings_getElem?_new {h h' : Heap} (he : h.Extends h') {c : Nat}
    (hc : h.mappings.length ≤ c) {m : List (String × Slot)} (hm : h'.mappings[c]? = some m) :
    m = [] := by
  obtain ⟨⟨k, hk⟩, -⟩ := he
  rw [hk, List.getElem?_append_right hc] at hm
  exact List.eq_of_mem_replicate (List.getElem?_mem hm)

theorem Extends.trees_getElem? {h h' : Heap} (he : h.Extends h') {t : Nat}
    (ht : t < h.trees.length) : h'.trees[t]? = h.trees[t]? := by
  obtain ⟨l, hl⟩ := he.trees
  rw [← hl, List.getElem?_append_left ht]

theorem Extends.length_mappings {h h' : Heap} (he : h.Extends h') :
    h.mappings.length ≤ h'.mappings.length := by
  obtain ⟨⟨k, hk⟩, -⟩ := he
  rw [hk, List.length_append]; omega

theorem Extends.length_trees {h h' : Heap} (he : h.Extends h') : h.trees.length ≤ h'.trees.length :=
  he.trees.length_le

theorem pendingIn_append (a b : List (List (String × Slot))) :
    pendingIn (a ++ b) = pendingIn a + pendingIn b := by
  induction a with
  | nil => simp [pendingIn]
  | cons m a ih => rw [List.cons_append, pendingIn, pendingIn, ih, Nat.add_assoc]

theorem pendingIn_replicate (k : Nat) : pendingIn (List.replicate k []) = 0 := by
  induction k with
  | zero => rfl
  | succ k ih => simp [List.replicate_succ, pendingIn, ih]

theorem pendingIn_set {ms : List (List (String × Slot))} {c : Nat} {m : List (String × Slot)}
    (hm : ms[c]? = some m) (m' : List (String × Slot)) :
    pendingIn (ms.set c m') + m.countP (fun ks => !ks.2.isTree) =
      pendingIn ms + m'.countP (fun ks => !ks.2.isTree) := by
  induction ms generalizing c with
  | nil => cases hm
  | cons m₀ ms ih =>
    cases c with
    | zero =>
      simp only [List.getElem?_cons_zero, Option.some.injEq] at hm
      subst hm
      simp only [List.set_cons_zero, pendingIn]; omega
    | succ c =>
      have := ih (c := c) (by simpa using hm)
      simp only [List.set_cons_succ, pendingIn]; omega

theorem Extends.pendingSlots {h h' : Heap} (he : h.Extends h') : h'.pendingSlots = h.pendingSlots := by
  obtain ⟨⟨k, hk⟩, -⟩ := he
  rw [Heap.pendingSlots, Heap.pendingSlots, hk, pendingIn_append, pendingIn_replicate, Nat.add_zero]

theorem pendingSlots_setMapping {h : Heap} {c : Nat} {m : List (String × Slot)}
    (hm : h.mappings[c]? = some m) (m' : List (String × Slot)) :
    (h.setMapping c m').pendingSlots + m.countP (fun ks => !ks.2.isTree) =
      h.pendingSlots + m'.countP (fun ks => !ks.2.isTree) :=
  pendingIn_set hm m'

end Heap

section Model

variable (LF : String)

theorem prefixTree_eq_ok_iff (h : Heap) (r : PyDict) (c : Nat) (h' : Heap) (t : Nat) :
    prefixTree LF h r c = .ok (h', t) ↔ r.Known LF ∧ (h', t) = h.newTree ⟨{ properties := r }, c⟩ := by
  simp only [prefixTree, bind_eq_ok, PathProperties.new_eq_ok_iff, pure_eq_ok, Except.ok.injEq]
  constructor
  · rintro ⟨_, ⟨hk, rfl⟩, he⟩; exact ⟨hk, he.symm⟩
  · rintro ⟨hk, he⟩; exact ⟨_, ⟨hk, rfl⟩, he.symm⟩

/-- What `tree_from_tuples` returns: a new tree holding the value's record, with the
pair's mapping or a new empty one. -/
theorem treeFromTuples_eq_ok_iff (h : Heap) (s : Slot) (h' : Heap) (t : Nat) :
    treeFromTuples LF h s = .ok (h', t) ↔
      (∃ r, s = .record r ∧ r.Known LF ∧
        (h', t) = h.newMapping.1.newTree ⟨{ properties := r }, h.mappings.length⟩) ∨
      (∃ r c, s = .tuple r c ∧ r.Known LF ∧ (h', t) = h.newTree ⟨{ properties := r }, c⟩) := by
  cases s with
  | record r => simp [treeFromTuples, prefixTree_eq_ok_iff, Heap.newMapping]
  | tuple r c => simp [treeFromTuples, prefixTree_eq_ok_iff, and_assoc]
  | tree t => simp [treeFromTuples]

theorem extends_of_treeFromTuples {h h' : Heap} {s : Slot} {t : Nat}
    (hs : treeFromTuples LF h s = .ok (h', t)) : h.Extends h' ∧ t = h.trees.length := by
  rcases (treeFromTuples_eq_ok_iff LF h s h' t).mp hs with ⟨r, -, -, he⟩ | ⟨r, c, -, -, he⟩ <;>
    cases he
  · exact ⟨(Heap.extends_newMapping h).trans (Heap.extends_newTree _ _), rfl⟩
  · exact ⟨Heap.extends_newTree _ _, rfl⟩

theorem convertChildren_cons_eq_ok_iff (h : Heap) (k : String) (s : Slot) (cs : List (String × Slot))
    (h' : Heap) (ts : List Nat) :
    convertChildren LF h ((k, s) :: cs) = .ok (h', ts) ↔ ∃ h₁ t ts', treeFromTuples LF h s = .ok (h₁, t) ∧
      convertChildren LF h₁ cs = .ok (h', ts') ∧ ts = t :: ts' := by
  simp only [convertChildren, bind_eq_ok, pure_eq_ok, Except.ok.injEq, Prod.mk.injEq, Prod.exists]
  constructor
  · rintro ⟨h₁, t, hs, h₂, ts', hc, rfl, rfl⟩; exact ⟨h₁, t, ts', hs, hc, rfl⟩
  · rintro ⟨h₁, t, ts', hs, hc, rfl⟩; exact ⟨h₁, t, hs, h', ts', hc, rfl, rfl⟩

/-- A conversion that returns has turned every value into a new tree: none was a tree. -/
theorem convertChildren_eq_ok {h h' : Heap} {cs : List (String × Slot)} {ts : List Nat}
    (hc : convertChildren LF h cs = .ok (h', ts)) :
    h.Extends h' ∧ ts.length = cs.length ∧ (∀ ks ∈ cs, ks.2.isTree = false) := by
  induction cs generalizing h ts with
  | nil => cases hc; exact ⟨Heap.Extends.refl _, rfl, by simp⟩
  | cons ks cs ih =>
    obtain ⟨k, s⟩ := ks
    obtain ⟨h₁, t, ts', hs, hc', rfl⟩ := (convertChildren_cons_eq_ok_iff LF h k s cs h' ts).mp hc
    obtain ⟨he', hl, hnt⟩ := ih hc'
    refine ⟨(extends_of_treeFromTuples LF hs).1.trans he', by simp [hl], ?_⟩
    rintro ks (_ | ⟨_, hks⟩)
    · cases s <;> simp_all [Slot.isTree, treeFromTuples]
    · exact hnt ks hks

theorem converted_countP (cur : List (String × Slot)) (ts : List Nat) :
    (converted cur ts).countP (fun ks => !ks.2.isTree) = 0 := by
  induction cur generalizing ts with
  | nil => rfl
  | cons ks cur ih =>
    cases ts with
    | nil => rfl
    | cons t ts => simpa [converted, Slot.isTree] using ih ts

end Model

section Loop

variable (LF : String)

/-- The `while todo_trees` loop, the stack top first: pop a tree, convert the values of
its children mapping, write the new trees into that mapping, push them in order.  A
reference to no tree, or to a tree whose mapping is missing, does not arise from
`makeFromTuples`; it is skipped. -/
def makeLoop (h : Heap) (todoTrees : List Nat) : Except PyExc Heap :=
  match todoTrees with
  | [] => .ok h
  | curTree :: todoTrees =>
    match h.childrenOf (.tree curTree) with
    | none => makeLoop h todoTrees
    | some c =>
      match hm : h.mappings[c]? with
      | none => makeLoop h todoTrees
      | some curChildren =>
        match hcv : convertChildren LF h curChildren with
        | .error e => .error e
        | .ok (h', newTrees) =>
          makeLoop (h'.setMapping c (converted curChildren newTrees)) (newTrees.reverse ++ todoTrees)
termination_by 2 * h.pendingSlots + todoTrees.length
decreasing_by
  all_goals simp_wf
  obtain ⟨he, hl, hnt⟩ := convertChildren_eq_ok LF hcv
  have hm' : h'.mappings[c]? = some curChildren := by
    rw [he.mappings_getElem? (List.getElem?_eq_some_iff.mp hm).1, hm]
  have hs := Heap.pendingSlots_setMapping hm' (converted curChildren newTrees)
  rw [converted_countP, List.countP_eq_length.mpr (by simpa using hnt), he.pendingSlots] at hs
  omega

/-- `PrefixTree.make_from_tuples(tuples)`: the heap when it returns, and the address of
the top tree. -/
def makeFromTuples (h : Heap) (tuples : Slot) : Except PyExc (Heap × Nat) := do
  let (h, topTree) ← treeFromTuples LF h tuples
  let h ← makeLoop LF h [topTree]
  pure (h, topTree)

theorem makeLoop_nil (h : Heap) : makeLoop LF h [] = .ok h := by rw [makeLoop]

theorem makeFromTuples_eq_ok_iff (h₀ : Heap) (x₀ : Slot) (h : Heap) (top : Nat) :
    makeFromTuples LF h₀ x₀ = .ok (h, top) ↔
      ∃ h₁, treeFromTuples LF h₀ x₀ = .ok (h₁, top) ∧ makeLoop LF h₁ [top] = .ok h := by
  simp only [makeFromTuples, bind_eq_ok, pure_eq_ok, Except.ok.injEq, Prod.mk.injEq, Prod.exists]
  constructor
  · rintro ⟨h₁, t, ht, h', hl, rfl, rfl⟩; exact ⟨h₁, ht, hl⟩
  · rintro ⟨h₁, ht, hl⟩; exact ⟨h₁, top, ht, h, hl, rfl, rfl⟩

theorem makeFromTuples_eq_error {h₀ h₁ : Heap} {x₀ : Slot} {top : Nat} {ex : PyExc}
    (ht : treeFromTuples LF h₀ x₀ = .ok (h₁, top)) (hl : makeLoop LF h₁ [top] = .error ex) :
    makeFromTuples LF h₀ x₀ = .error ex := by
  simp only [makeFromTuples, ht, ok_bind, hl, error_bind]

/-- One pass of the loop body, stated so that a run on a given heap can be evaluated one
pass at a time. -/
theorem makeLoop_step {h h' : Heap} {t c : Nat} {todo ts : List Nat} {cur : List (String × Slot)}
    {r : Except PyExc Heap} (hc : h.childrenOf (.tree t) = some c) (hm : h.mappings[c]? = some cur)
    (hcv : convertChildren LF h cur = .ok (h', ts))
    (hrest : makeLoop LF (h'.setMapping c (converted cur ts)) (ts.reverse ++ todo) = r) :
    makeLoop LF h (t :: todo) = r := by
  rw [← hrest, makeLoop]
  split
  · simp_all
  · split
    · simp_all
    · rename_i c' hc' cur' hm'
      obtain rfl : c' = c := by simpa [hc] using hc'.symm
      obtain rfl : cur' = cur := by simpa [hm] using hm'.symm
      split <;> simp_all

theorem makeLoop_skip {h : Heap} {t c : Nat} {todo : List Nat} (hc : h.childrenOf (.tree t) = some c)
    (hm : h.mappings[c]? = none) : makeLoop LF h (t :: todo) = makeLoop LF h todo := by
  rw [makeLoop]
  split
  · simp_all
  · split
    · rfl
    · rename_i c' hc' cur' hm'
      obtain rfl : c' = c := by simpa [hc] using hc'.symm
      simp_all

theorem makeLoop_error {h : Heap} {t c : Nat} {todo : List Nat} {cur : List (String × Slot)} {e : PyExc}
    (hc : h.childrenOf (.tree t) = some c) (hm : h.mappings[c]? = some cur)
    (hcv : convertChildren LF h cur = .error e) : makeLoop LF h (t :: todo) = .error e := by
  rw [makeLoop]
  split
  · simp_all
  · split
    · simp_all
    · rename_i c' hc' cur' hm'
      obtain rfl : c' = c := by simpa [hc] using hc'.symm
      obtain rfl : cur' = cur := by simpa [hm] using hm'.symm
      split <;> simp_all

end Loop

end Objects

end Lkmc

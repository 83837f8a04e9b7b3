import LkmcPathProperties.Properties

/-!
# The declarative structure and `PrefixTree`

`Entry` is what `PrefixTree.make_from_tuples` reads: a bare record, or a pair of a
record and a dict from path segment to entry.  A `PrefixTree`'s `children` dict holds
built nodes; while `make_from_tuples` runs it also holds the entries it has not
converted yet, so a child is a `node` or an `entry`.

The work-list refers to nodes by index paths (`getAt`, `setAt`).  `complete` converts
every entry still in a tree, and `pending` counts the entries' nodes: one step of the
work-list keeps the first and lowers the second.

    d.toTree.nodeAt s = (d.recordAt s).map ({ properties := · })   (nodeAt_toTree)
    t.getAt π = some y → y.complete = x.complete →
      (t.setAt π x).complete = t.complete                       (complete_setAt)
-/

namespace Lkmc

/-- An entry of the structure `make_from_tuples` reads. -/
inductive Entry where
  | record (properties : PyDict)
  | tuple (properties : PyDict) (children : List (String × Entry))

/-- A `PrefixTree` node, or an entry that `make_from_tuples` has not converted yet. -/
inductive PrefixTree where
  | node (pathProperties : PathProperties) (children : List (String × PrefixTree))
  | entry (e : Entry)

namespace Entry

def properties : Entry → PyDict
  | .record r => r
  | .tuple r _ => r

/-- The children dict of an entry; a bare record is read as `(record, {})`. -/
def children : Entry → List (String × Entry)
  | .record _ => []
  | .tuple _ cs => cs

/-- The Python type of an entry: a bare record is a `dict`, a pair a `tuple`. -/
def typeName : Entry → String
  | .record _ => "dict"
  | .tuple _ _ => "tuple"

mutual
def size : Entry → Nat
  | .record _ => 1
  | .tuple _ cs => 1 + sizes cs
def sizes : List (String × Entry) → Nat
  | [] => 0
  | (_, e) :: cs => e.size + sizes cs
end

mutual
/-- Every record of an entry, its own first. -/
def records : Entry → List PyDict
  | .record r => [r]
  | .tuple r cs => r :: recordsOf cs
def recordsOf : List (String × Entry) → List PyDict
  | [] => []
  | (_, e) :: cs => e.records ++ recordsOf cs
end

/-- The record at a sequence of segment names, when the structure has an entry there. -/
def recordAt (e : Entry) : List String → Option PyDict
  | [] => some e.properties
  | k :: s => (dictGet e.children k).bind (recordAt · s)

/-- The records of the entries a walk over `comps` passes below the top, until a
component names no child. -/
def recordsAlong (e : Entry) : List String → List PyDict
  | [] => []
  | c :: rest =>
    match dictGet e.children c with
    | some e' => e'.properties :: e'.recordsAlong rest
    | none => []

mutual
/-- The tree an entry describes, each record read as it is. -/
def toTree : Entry → PrefixTree
  | .record r => .node { properties := r } []
  | .tuple r cs => .node { properties := r } (toTrees cs)
def toTrees : List (String × Entry) → List (String × PrefixTree)
  | [] => []
  | (k, e) :: cs => (k, e.toTree) :: toTrees cs
end

theorem toTrees_eq_map (cs : List (String × Entry)) :
    toTrees cs = cs.map fun kc => (kc.1, kc.2.toTree) := by
  induction cs with
  | nil => rfl
  | cons kc cs ih => rw [toTrees, ih]; rfl

theorem toTree_eq (e : Entry) :
    e.toTree = .node { properties := e.properties } (toTrees e.children) := by
  cases e <;> rfl

theorem size_eq (e : Entry) : e.size = 1 + sizes e.children := by
  cases e <;> rfl

theorem records_eq (e : Entry) : e.records = e.properties :: recordsOf e.children := by
  cases e <;> rfl

theorem records_subset_recordsOf {cs : List (String × Entry)} {kc : String × Entry}
    (h : kc ∈ cs) : kc.2.records ⊆ recordsOf cs := by
  induction cs with
  | nil => cases h
  | cons kc' cs ih =>
    rw [recordsOf]
    rcases List.mem_cons.mp h with rfl | h
    · exact List.subset_append_left _ _
    · exact (ih h).trans (List.subset_append_right _ _)

theorem dictGet_toTrees (cs : List (String × Entry)) (k : String) :
    dictGet (toTrees cs) k = (dictGet cs k).map toTree := by
  induction cs with
  | nil => rfl
  | cons kc cs ih =>
    obtain ⟨k', e⟩ := kc
    rw [toTrees, dictGet_cons, dictGet_cons]
    split <;> simp [ih]

end Entry

namespace PrefixTree

/-- The value at an index path: `i :: π` goes on through the `i`-th child. -/
def getAt : PrefixTree → List Nat → Option PrefixTree
  | t, [] => some t
  | .node _ cs, i :: π =>
    match cs[i]? with
    | some (_, c) => c.getAt π
    | none => none
  | .entry _, _ :: _ => none

/-- Replace the value at an index path. -/
def setAt : PrefixTree → List Nat → PrefixTree → PrefixTree
  | _, [], x => x
  | .node pp cs, i :: π, x =>
    match cs[i]? with
    | some (k, c) => .node pp (cs.set i (k, c.setAt π x))
    | none => .node pp cs
  | t@(.entry _), _ :: _, _ => t

mutual
/-- Every entry still in the tree, converted. -/
def complete : PrefixTree → PrefixTree
  | .node pp cs => .node pp (completeAll cs)
  | .entry e => e.toTree
def completeAll : List (String × PrefixTree) → List (String × PrefixTree)
  | [] => []
  | (k, c) :: cs => (k, c.complete) :: completeAll cs
end

mutual
/-- The number of declarative nodes still inside entries. -/
def pending : PrefixTree → Nat
  | .node _ cs => pendingAll cs
  | .entry e => e.size
def pendingAll : List (String × PrefixTree) → Nat
  | [] => 0
  | (_, c) :: cs => c.pending + pendingAll cs
end

def IsEntry : PrefixTree → Prop
  | .node _ _ => False
  | .entry _ => True

/-- The node at a sequence of segment names. -/
def nodeAt : PrefixTree → List String → Option PathProperties
  | .node pp _, [] => some pp
  | .node _ cs, k :: s => (dictGet cs k).bind (nodeAt · s)
  | .entry _, _ => none

/-! ## Lemmas -/

@[simp] theorem getAt_nil (t : PrefixTree) : t.getAt [] = some t := by cases t <;> rfl

theorem getAt_node_cons (pp : PathProperties) (cs : List (String × PrefixTree)) (i : Nat)
    (π : List Nat) : (node pp cs).getAt (i :: π) = cs[i]?.bind (·.2.getAt π) := by
  simp only [getAt]; cases cs[i]? <;> rfl

@[simp] theorem getAt_entry_cons (e : Entry) (i : Nat) (π : List Nat) :
    (entry e).getAt (i :: π) = none := rfl

@[simp] theorem setAt_nil (t x : PrefixTree) : t.setAt [] x = x := by cases t <;> rfl

theorem getAt_append (t : PrefixTree) (π σ : List Nat) :
    t.getAt (π ++ σ) = (t.getAt π).bind (·.getAt σ) := by
  induction π generalizing t with
  | nil => simp
  | cons i π ih =>
    cases t with
    | node pp cs =>
      simp only [List.cons_append, getAt_node_cons, Option.bind_assoc]
      cases cs[i]? <;> simp [ih]
    | entry e => rfl

theorem completeAll_eq_map (cs : List (String × PrefixTree)) :
    completeAll cs = cs.map fun kc => (kc.1, kc.2.complete) := by
  induction cs with
  | nil => rfl
  | cons kc cs ih => rw [completeAll, ih]; rfl

theorem pendingAll_set {cs : List (String × PrefixTree)} {i : Nat} {kc : String × PrefixTree}
    (h : cs[i]? = some kc) (kc' : String × PrefixTree) :
    pendingAll (cs.set i kc') + kc.2.pending = pendingAll cs + kc'.2.pending := by
  induction cs generalizing i with
  | nil => cases h
  | cons kc₀ cs ih =>
    cases i with
    | zero =>
      simp only [List.getElem?_cons_zero, Option.some.injEq] at h; subst h
      simp only [List.set_cons_zero, pendingAll]; omega
    | succ i =>
      have := ih (i := i) (by simpa using h)
      simp only [List.set_cons_succ, pendingAll]; omega

theorem set_of_getElem? {α : Type} {l : List α} {i : Nat} {a : α} (h : l[i]? = some a) :
    l.set i a = l := by
  induction l generalizing i with
  | nil => cases h
  | cons b l ih =>
    cases i with
    | zero => simp only [List.getElem?_cons_zero, Option.some.injEq] at h; subst h; rfl
    | succ i => simp only [List.set_cons_succ, ih (by simpa using h)]

/-- Replacing a value by one with the same completion keeps the tree's completion. -/
theorem complete_setAt {t y x : PrefixTree} {π : List Nat} (h : t.getAt π = some y)
    (hc : y.complete = x.complete) : (t.setAt π x).complete = t.complete := by
  induction π generalizing t with
  | nil => simp only [getAt_nil, Option.some.injEq] at h; subst h; simpa using hc.symm
  | cons i π ih =>
    cases t with
    | entry e => cases h
    | node pp cs =>
      rw [getAt_node_cons] at h
      cases hi : cs[i]? with
      | none => simp [hi] at h
      | some kc =>
        obtain ⟨k, c⟩ := kc
        simp only [hi, Option.some_bind] at h
        simp only [setAt, hi, complete, completeAll_eq_map, List.map_set, ih h]
        rw [set_of_getElem? (by simp [hi])]

/-- Replacing a value changes the pending count by the difference. -/
theorem pending_setAt {t y x : PrefixTree} {π : List Nat} (h : t.getAt π = some y) :
    (t.setAt π x).pending + y.pending = t.pending + x.pending := by
  induction π generalizing t with
  | nil => simp only [getAt_nil, Option.some.injEq] at h; subst h; simp; omega
  | cons i π ih =>
    cases t with
    | entry e => cases h
    | node pp cs =>
      rw [getAt_node_cons] at h
      cases hi : cs[i]? with
      | none => simp [hi] at h
      | some kc =>
        obtain ⟨k, c⟩ := kc
        simp only [hi, Option.some_bind] at h
        simp only [setAt, hi, pending]
        have hs := pendingAll_set hi (k, c.setAt π x)
        have := ih h
        simp only at hs
        omega


theorem getAt_cons_isSome {t : PrefixTree} {i : Nat} {π : List Nat} (h : t.getAt (i :: π) ≠ none) :
    ∃ pp cs k c, t = node pp cs ∧ cs[i]? = some (k, c) ∧ t.getAt (i :: π) = c.getAt π := by
  cases t with
  | entry e => exact absurd rfl h
  | node pp cs =>
    rw [getAt_node_cons] at h ⊢
    cases hi : cs[i]? with
    | none => simp [hi] at h
    | some kc => exact ⟨pp, cs, kc.1, kc.2, rfl, hi, rfl⟩

theorem setAt_node_of_getElem? {pp : PathProperties} {cs : List (String × PrefixTree)} {i : Nat}
    {k : String} {c : PrefixTree} (hi : cs[i]? = some (k, c)) (π : List Nat) (x : PrefixTree) :
    (node pp cs).setAt (i :: π) x = node pp (cs.set i (k, c.setAt π x)) := by
  simp only [setAt, hi]

/-- Below the replaced place the new value is read. -/
theorem getAt_setAt_append {t x : PrefixTree} {π : List Nat} (h : t.getAt π ≠ none)
    (σ : List Nat) : (t.setAt π x).getAt (π ++ σ) = x.getAt σ := by
  induction π generalizing t with
  | nil => simp [getAt_append]
  | cons i π ih =>
    obtain ⟨pp, cs, k, c, rfl, hi, hc⟩ := getAt_cons_isSome h
    have hlt : i < cs.length := (List.getElem?_eq_some_iff.mp hi).1
    rw [setAt_node_of_getElem? hi, List.cons_append, getAt_node_cons, List.getElem?_set_self hlt,
      Option.some_bind, ih (hc ▸ h)]

/-- Away from the replaced place nothing changes. -/
theorem getAt_setAt_apart {t x : PrefixTree} {π ρ : List Nat} (h₁ : ¬π <+: ρ)
    (h₂ : ¬ρ <+: π) : (t.setAt π x).getAt ρ = t.getAt ρ := by
  induction π generalizing t ρ with
  | nil => exact absurd List.nil_prefix h₁
  | cons i π ih =>
    cases ρ with
    | nil => exact absurd List.nil_prefix h₂
    | cons j ρ =>
      cases t with
      | entry e => rfl
      | node pp cs =>
        cases hi : cs[i]? with
        | none => simp only [setAt, hi]
        | some kc =>
          obtain ⟨k, c⟩ := kc
          rw [setAt_node_of_getElem? hi, getAt_node_cons, getAt_node_cons]
          by_cases hij : i = j
          · subst hij
            simp only [List.cons_prefix_cons, true_and] at h₁ h₂
            have hlt : i < cs.length := (List.getElem?_eq_some_iff.mp hi).1
            simp only [List.getElem?_set_self hlt, hi, Option.some_bind, ih h₁ h₂]
          · rw [List.getElem?_set_ne hij]

/-- Above the replaced place there is still a node with the same properties. -/
theorem getAt_setAt_above {t x : PrefixTree} {ρ σ : List Nat} {i : Nat}
    (h : t.getAt (ρ ++ i :: σ) ≠ none) : ∃ pp cs cs', t.getAt ρ = some (node pp cs) ∧
      (t.setAt (ρ ++ i :: σ) x).getAt ρ = some (node pp cs') := by
  induction ρ generalizing t with
  | nil =>
    obtain ⟨pp, cs, k, c, rfl, hi, -⟩ := getAt_cons_isSome h
    exact ⟨pp, cs, _, rfl, by rw [List.nil_append, setAt_node_of_getElem? hi]; rfl⟩
  | cons j ρ ih =>
    obtain ⟨pp, cs, k, c, rfl, hi, hc⟩ := getAt_cons_isSome h
    obtain ⟨pp', cs', cs'', h₁, h₂⟩ := ih (hc ▸ h)
    have hlt : j < cs.length := (List.getElem?_eq_some_iff.mp hi).1
    refine ⟨pp', cs', cs'', by rw [getAt_node_cons, hi, Option.some_bind, h₁], ?_⟩
    rw [List.cons_append, setAt_node_of_getElem? hi, getAt_node_cons, List.getElem?_set_self hlt,
      Option.some_bind, h₂]

/-- Below a node whose children are all entries there is only those entries. -/
theorem getAt_below_entries {t : PrefixTree} {ρ σ : List Nat} {pp : PathProperties}
    {cs : List (String × PrefixTree)} (h : t.getAt ρ = some (node pp cs))
    (he : ∀ kc ∈ cs, kc.2.IsEntry) (hσ : σ ≠ []) {y : PrefixTree}
    (hy : t.getAt (ρ ++ σ) = some y) :
    (∃ i, σ = [i]) ∧ y.IsEntry := by
  obtain ⟨i, σ, rfl⟩ := List.exists_cons_of_ne_nil hσ
  rw [getAt_append, h, Option.some_bind, getAt_node_cons] at hy
  cases hi : cs[i]? with
  | none => simp [hi] at hy
  | some kc =>
    rw [hi, Option.some_bind] at hy
    obtain ⟨k, c⟩ := kc
    have hc : c.IsEntry := he (k, c) (List.getElem?_mem hi)
    cases c with
    | node _ _ => exact hc.elim
    | entry e =>
      cases σ with
      | nil => cases hy; exact ⟨⟨i, rfl⟩, trivial⟩
      | cons j σ => cases hy

theorem getAt_complete {t y : PrefixTree} {π : List Nat} (h : t.getAt π = some y) :
    t.complete.getAt π = some y.complete := by
  induction π generalizing t with
  | nil => simp only [getAt_nil, Option.some.injEq] at h ⊢; rw [h]
  | cons i π ih =>
    have hne : t.getAt (i :: π) ≠ none := by simp [h]
    obtain ⟨pp, cs, k, c, rfl, hi, hc⟩ := getAt_cons_isSome hne
    rw [hc] at h
    rw [complete, getAt_node_cons, completeAll_eq_map, List.getElem?_map, hi]
    exact ih h

mutual
/-- A tree without entries is its own completion. -/
theorem complete_eq_self : ∀ t : PrefixTree,
    (∀ ρ y, t.getAt ρ = some y → ¬y.IsEntry) → t.complete = t
  | .node pp cs, h => by
    rw [complete, completeAll_eq_self cs fun kc hm ρ y hy => ?_]
    obtain ⟨i, hi⟩ := List.mem_iff_getElem?.mp hm
    exact h (i :: ρ) y (by rw [getAt_node_cons, hi, Option.some_bind, hy])
  | .entry _, h => absurd trivial (h [] _ rfl)
theorem completeAll_eq_self : ∀ cs : List (String × PrefixTree),
    (∀ kc ∈ cs, ∀ ρ y, kc.2.getAt ρ = some y → ¬y.IsEntry) → completeAll cs = cs
  | [], _ => rfl
  | (k, c) :: cs, h => by
    rw [completeAll, complete_eq_self c (h _ (List.mem_cons_self _ _)),
      completeAll_eq_self cs fun kc hm => h kc (List.mem_cons_of_mem _ hm)]
end

end PrefixTree

namespace Entry

/-- A node of the tree an entry describes has a record of the entry. -/
theorem getAt_toTree {d : Entry} {π : List Nat} {pp : PathProperties}
    {cs : List (String × PrefixTree)} (h : d.toTree.getAt π = some (.node pp cs)) :
    pp.properties ∈ d.records ∧ pp.pathComponents = none := by
  induction π generalizing d with
  | nil =>
    rw [toTree_eq, PrefixTree.getAt_nil, Option.some.injEq, PrefixTree.node.injEq] at h
    rw [← h.1, records_eq]
    exact ⟨List.mem_cons_self _ _, rfl⟩
  | cons i π ih =>
    rw [toTree_eq, PrefixTree.getAt_node_cons, toTrees_eq_map, List.getElem?_map] at h
    cases hi : d.children[i]? with
    | none => simp [hi] at h
    | some ke =>
      rw [hi] at h
      obtain ⟨hr, hn⟩ := ih h
      refine ⟨?_, hn⟩
      rw [records_eq]
      exact List.mem_cons_of_mem _ (records_subset_recordsOf (List.getElem?_mem hi) hr)

mutual
/-- Every record of an entry is the record of a node of its tree. -/
theorem mem_records_toTree : ∀ (d : Entry) (r : PyDict), r ∈ d.records →
    ∃ (π : List Nat) (cs : List (String × PrefixTree)),
      d.toTree.getAt π = some (.node { properties := r } cs)
  | .record r', r, h => by
    rw [records, List.mem_singleton] at h
    exact ⟨[], [], by rw [h]; rfl⟩
  | .tuple r' cs, r, h => by
    rw [records, List.mem_cons] at h
    rcases h with h | h
    · exact ⟨[], _, by rw [h]; rfl⟩
    · obtain ⟨i, π, cs', hπ⟩ := mem_recordsOf_toTrees cs r h
      exact ⟨i :: π, cs', by rw [toTree, PrefixTree.getAt_node_cons, hπ]⟩
theorem mem_recordsOf_toTrees : ∀ (cs : List (String × Entry)) (r : PyDict), r ∈ recordsOf cs →
    ∃ (i : Nat) (π : List Nat) (cs' : List (String × PrefixTree)),
      (toTrees cs)[i]?.bind (·.2.getAt π) = some (.node { properties := r } cs')
  | [], _, h => absurd h (List.not_mem_nil _)
  | (k, e) :: cs, r, h => by
    rw [recordsOf, List.mem_append] at h
    rcases h with h | h
    · obtain ⟨π, cs', hπ⟩ := mem_records_toTree e r h
      exact ⟨0, π, cs', by simpa [toTrees] using hπ⟩
    · obtain ⟨i, π, cs', hπ⟩ := mem_recordsOf_toTrees cs r h
      exact ⟨i + 1, π, cs', by simpa [toTrees] using hπ⟩
end

end Entry

/-- The tree an entry describes has a node at each sequence of segment names where the
entry has one, holding its record. -/
theorem Entry.nodeAt_toTree (d : Entry) (s : List String) :
    d.toTree.nodeAt s = (d.recordAt s).map ({ properties := · }) := by
  induction s generalizing d with
  | nil => rw [Entry.toTree_eq]; rfl
  | cons k s ih =>
    rw [Entry.toTree_eq]
    simp only [PrefixTree.nodeAt, Entry.recordAt, Entry.dictGet_toTrees]
    cases dictGet d.children k <;> simp [ih]

end Lkmc

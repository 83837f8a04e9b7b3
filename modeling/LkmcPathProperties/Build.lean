import LkmcPathProperties.Tree

/-!
# `PrefixTree.make_from_tuples`: the work-list builder

`makeFromTuples` converts the top entry with `tree_from_tuples`, then runs the
`while todo_trees` loop: pop the last reference, convert each child of that node and
push a reference to it.  A reference is the node's index path from the top, which is
how the model names the object the Python stack holds.

`LoopInv` is the invariant of the loop: the completion of the tree built so far is
the declared tree, the stack holds each half-built node once, every entry left hangs
under such a node, and every node built has passed the schema check.  From it:

    (∀ r ∈ d.records, r.Known LF) → makeFromTuples LF d = .ok d.toTree
    ¬ … → makeFromTuples LF d = .error (.valueError ("Unknown key: " ++ key))
      for an unknown key of a record of d                       (makeFromTuples_spec)
-/

namespace Lkmc

namespace PrefixTree

variable (LF : String)

/-- `PrefixTree(properties, children)` on a declarative children dict. -/
def new (properties : PyDict) (children : List (String × Entry)) : Except PyExc PrefixTree := do
  let pathProperties ← PathProperties.new LF properties
  pure (.node pathProperties (children.map fun kc => (kc.1, .entry kc.2)))

/-- `tree_from_tuples`: a bare record is read as `(record, {})`.  A value that is
already a `PrefixTree` cannot be iterated as a record. -/
def treeFromTuples : PrefixTree → Except PyExc PrefixTree
  | .entry e => new LF e.properties e.children
  | .node _ _ => .error (.typeError "\x27PrefixTree\x27 object is not iterable")

/-- The `for child_key in cur_children` loop: each child through `tree_from_tuples`. -/
def convertChildren : List (String × PrefixTree) → Except PyExc (List (String × PrefixTree))
  | [] => .ok []
  | (k, c) :: cs => do
    let newTree ← treeFromTuples LF c
    let rest ← convertChildren cs
    pure ((k, newTree) :: rest)

theorem treeFromTuples_eq_ok_iff (c c' : PrefixTree) :
    treeFromTuples LF c = .ok c' ↔ ∃ e, c = .entry e ∧ e.properties.Known LF ∧
      c' = .node { properties := e.properties } (e.children.map fun kc => (kc.1, .entry kc.2)) := by
  cases c with
  | node pp cs => simp [treeFromTuples]
  | entry e =>
    simp only [treeFromTuples, new, bind_eq_ok, PathProperties.new_eq_ok_iff, pure, Except.pure,
      Except.ok.injEq, entry.injEq, exists_eq_left']
    constructor
    · rintro ⟨pp, ⟨hk, rfl⟩, rfl⟩; exact ⟨hk, rfl⟩
    · rintro ⟨hk, rfl⟩; exact ⟨_, ⟨hk, rfl⟩, rfl⟩

/-- `tree_from_tuples` on an entry fails only on a key outside the schema. -/
theorem treeFromTuples_entry_eq_error {e : Entry} {ex : PyExc}
    (h : treeFromTuples LF (.entry e) = .error ex) : ∃ key ∈ e.properties.keys,
      key ∉ (defaultProperties LF).keys ∧ ex = .valueError ("Unknown key: " ++ key) := by
  simp only [treeFromTuples, new] at h
  cases hn : PathProperties.new LF e.properties with
  | ok pp => simp [hn, bind, Except.bind, pure, Except.pure] at h
  | error ex' =>
    simp only [hn, bind, Except.bind, Except.error.injEq] at h
    subst h
    obtain ⟨key, hkey, rfl⟩ := (PathProperties.new_eq_error_iff LF _ _).mp hn
    exact ⟨key, List.mem_of_find?_eq_some hkey, by simpa using List.find?_some hkey, rfl⟩

theorem completeAll_convertChildren {cs cs' : List (String × PrefixTree)}
    (h : convertChildren LF cs = .ok cs') : completeAll cs' = completeAll cs := by
  induction cs generalizing cs' with
  | nil => cases h; rfl
  | cons kc cs ih =>
    obtain ⟨k, c⟩ := kc
    simp only [convertChildren, bind_eq_ok, pure, Except.pure, Except.ok.injEq] at h
    obtain ⟨c', hc, rest, hrest, rfl⟩ := h
    obtain ⟨e, rfl, -, rfl⟩ := (treeFromTuples_eq_ok_iff LF _ _).mp hc
    rw [completeAll, completeAll, ih hrest, complete, complete, Entry.toTree_eq,
      completeAll_eq_map, Entry.toTrees_eq_map, List.map_map]
    rfl

theorem pendingAll_convertChildren {cs cs' : List (String × PrefixTree)}
    (h : convertChildren LF cs = .ok cs') : pendingAll cs' + cs.length = pendingAll cs := by
  induction cs generalizing cs' with
  | nil => cases h; rfl
  | cons kc cs ih =>
    obtain ⟨k, c⟩ := kc
    simp only [convertChildren, bind_eq_ok, pure, Except.pure, Except.ok.injEq] at h
    obtain ⟨c', hc, rest, hrest, rfl⟩ := h
    obtain ⟨e, rfl, -, rfl⟩ := (treeFromTuples_eq_ok_iff LF _ _).mp hc
    have hsize : ∀ es : List (String × Entry),
        pendingAll (es.map fun kc => (kc.1, entry kc.2)) = Entry.sizes es := by
      intro es
      induction es with
      | nil => rfl
      | cons ke es ih' => simp only [List.map_cons, pendingAll, ih', Entry.sizes, pending]
    have := ih hrest
    simp only [pendingAll, pending, hsize, Entry.size_eq, List.length_cons]
    omega

/-- What a successful conversion leaves at each index. -/
theorem convertChildren_getElem? {cs cs' : List (String × PrefixTree)}
    (h : convertChildren LF cs = .ok cs') (i : Nat) :
    Option.Rel (fun kc kc' => kc'.1 = kc.1 ∧ treeFromTuples LF kc.2 = .ok kc'.2) cs[i]? cs'[i]? := by
  induction cs generalizing cs' i with
  | nil => cases h; exact .none
  | cons kc cs ih =>
    obtain ⟨k, c⟩ := kc
    simp only [convertChildren, bind_eq_ok, pure, Except.pure, Except.ok.injEq] at h
    obtain ⟨c', hc, rest, hrest, rfl⟩ := h
    cases i with
    | zero => simpa only [List.getElem?_cons_zero] using Option.Rel.some ⟨rfl, hc⟩
    | succ i => simpa only [List.getElem?_cons_succ] using ih hrest i

theorem convertChildren_eq_error {cs : List (String × PrefixTree)} {ex : PyExc}
    (h : convertChildren LF cs = .error ex) :
    ∃ (i : Nat) (kc : String × PrefixTree), cs[i]? = some kc ∧
      treeFromTuples LF kc.2 = .error ex := by
  induction cs with
  | nil => cases h
  | cons kc cs ih =>
    obtain ⟨k, c⟩ := kc
    simp only [convertChildren] at h
    cases hc : treeFromTuples LF c with
    | error ex' =>
      simp only [hc, bind, Except.bind, Except.error.injEq] at h
      exact ⟨0, (k, c), List.getElem?_cons_zero, h ▸ hc⟩
    | ok c' =>
      cases hr : convertChildren LF cs with
      | error ex' =>
        simp only [hc, hr, bind, Except.bind, Except.error.injEq] at h
        obtain ⟨i, kc, hi, he⟩ := ih (h ▸ hr)
        exact ⟨i + 1, kc, by rw [List.getElem?_cons_succ, hi], he⟩
      | ok rest => simp [hc, hr, bind, Except.bind, pure, Except.pure] at h

/-- The `while todo_trees` loop.  The last case is not reached from `makeFromTuples`:
every reference on the stack names a node. -/
def makeLoop (top : PrefixTree) (todo : List (List Nat)) : Except PyExc PrefixTree :=
  match todo with
  | [] => .ok top
  | π :: todo =>
    match h : top.getAt π with
    | some (.node pp children) =>
      match hc : convertChildren LF children with
      | .ok children' =>
        makeLoop (top.setAt π (.node pp children'))
          ((List.range children.length).reverse.map (π ++ [·]) ++ todo)
      | .error e => .error e
    | _ => makeLoop top todo
termination_by 2 * top.pending + todo.length
decreasing_by
  · have hs := pending_setAt (x := .node pp children') h
    have hp := pendingAll_convertChildren LF hc
    simp only [pending, List.length_append, List.length_map, List.length_reverse,
      List.length_range, List.length_cons] at hs hp ⊢
    omega
  · simp only [List.length_cons]; omega


theorem makeLoop_step {top : PrefixTree} {π : List Nat} {todo : List (List Nat)}
    {pp : PathProperties} {cs cs' : List (String × PrefixTree)}
    (h : top.getAt π = some (.node pp cs)) (hc : convertChildren LF cs = .ok cs') :
    makeLoop LF top (π :: todo) = makeLoop LF (top.setAt π (.node pp cs'))
      ((List.range cs.length).reverse.map (π ++ [·]) ++ todo) := by
  rw [makeLoop]
  split
  · rename_i pp' cs'' h'
    obtain ⟨rfl, rfl⟩ : pp' = pp ∧ cs'' = cs := by simpa [h] using h'.symm
    split <;> simp_all
  · simp_all

theorem makeLoop_error {top : PrefixTree} {π : List Nat} {todo : List (List Nat)}
    {pp : PathProperties} {cs : List (String × PrefixTree)} {ex : PyExc}
    (h : top.getAt π = some (.node pp cs)) (hc : convertChildren LF cs = .error ex) :
    makeLoop LF top (π :: todo) = .error ex := by
  rw [makeLoop]
  split
  · rename_i pp' cs'' h'
    obtain ⟨rfl, rfl⟩ : pp' = pp ∧ cs'' = cs := by simpa [h] using h'.symm
    split <;> simp_all
  · simp_all


/-! ## The loop invariant -/

/-- The invariant of the `while todo_trees` loop for the declared entry `d`. -/
structure LoopInv (d : Entry) (top : PrefixTree) (todo : List (List Nat)) : Prop where
  complete : top.complete = d.toTree
  nodup : todo.Nodup
  pending : ∀ π ∈ todo, ∃ pp cs, top.getAt π = some (.node pp cs) ∧ ∀ kc ∈ cs, kc.2.IsEntry
  entries : ∀ ρ y, top.getAt ρ = some y → y.IsEntry → ∃ π ∈ todo, ∃ i, ρ = π ++ [i]
  known : ∀ ρ pp cs, top.getAt ρ = some (.node pp cs) → pp.properties.Known LF

theorem isEntry_of_mem_map_entry {cs : List (String × Entry)} {kc : String × PrefixTree}
    (h : kc ∈ cs.map fun kc => (kc.1, PrefixTree.entry kc.2)) : kc.2.IsEntry := by
  obtain ⟨_, _, rfl⟩ := List.mem_map.mp h; trivial

theorem loopInv_init {d : Entry} {top : PrefixTree} (h : treeFromTuples LF (.entry d) = .ok top) :
    LoopInv LF d top [[]] := by
  obtain ⟨e, he, hk, rfl⟩ := (treeFromTuples_eq_ok_iff LF _ _).mp h
  cases he
  have hroot : ∀ ρ y, (node { properties := d.properties } (d.children.map fun kc =>
      (kc.1, entry kc.2))).getAt ρ = some y → ρ = [] ∨ ((∃ i, ρ = [i]) ∧ y.IsEntry) := by
    intro ρ y hy
    rcases eq_or_ne ρ [] with hρ | hρ
    · exact .inl hρ
    · exact .inr (getAt_below_entries (ρ := []) (getAt_nil _) (fun _ => isEntry_of_mem_map_entry)
        hρ hy)
  refine ⟨?_, List.nodup_singleton _, ?_, ?_, ?_⟩
  · rw [Entry.toTree_eq, complete, completeAll_eq_map, Entry.toTrees_eq_map, List.map_map]; rfl
  · intro π hπ
    rw [List.mem_singleton.mp hπ]
    exact ⟨_, _, rfl, fun _ => isEntry_of_mem_map_entry⟩
  · intro ρ y hy hye
    rcases hroot ρ y hy with rfl | ⟨⟨i, rfl⟩, -⟩
    · cases hy; exact hye.elim
    · exact ⟨[], List.mem_singleton_self _, i, rfl⟩
  · intro ρ pp cs hy
    rcases hroot ρ _ hy with rfl | ⟨-, hye⟩
    · cases hy; exact hk
    · exact hye.elim

section Step

variable {top : PrefixTree} {π : List Nat} {pp : PathProperties} {cs cs' : List (String × PrefixTree)}

/-- What lies at or below the node a step rebuilt: the node itself, the children it
converted, and their entries. -/
theorem getAt_setAt_converted (h : top.getAt π = some (.node pp cs))
    (hc : convertChildren LF cs = .ok cs') {σ : List Nat} {y : PrefixTree}
    (hy : (top.setAt π (.node pp cs')).getAt (π ++ σ) = some y) :
    (σ = [] ∧ y = .node pp cs') ∨
    (∃ i < cs.length, σ = [i] ∧ ∃ e : Entry, e.properties.Known LF ∧
      y = .node { properties := e.properties } (e.children.map fun kc => (kc.1, .entry kc.2))) ∨
    (∃ i < cs.length, ∃ j, σ = [i, j] ∧ y.IsEntry) := by
  rw [getAt_setAt_append (by simp [h])] at hy
  cases σ with
  | nil => exact .inl ⟨rfl, by simpa using hy.symm⟩
  | cons i σ =>
    right
    rw [getAt_node_cons] at hy
    have hrel := convertChildren_getElem? LF hc i
    cases hi' : cs'[i]? with
    | none => simp [hi'] at hy
    | some kc' =>
      rw [hi', Option.some_bind] at hy
      rw [hi'] at hrel
      cases hi : cs[i]? with
      | none => rw [hi] at hrel; cases hrel
      | some kc =>
        rw [hi] at hrel
        obtain ⟨-, hconv⟩ : kc'.1 = kc.1 ∧ treeFromTuples LF kc.2 = .ok kc'.2 := by
          cases hrel; assumption
        have hlt : i < cs.length := (List.getElem?_eq_some_iff.mp hi).1
        obtain ⟨e, -, hk, he⟩ := (treeFromTuples_eq_ok_iff LF _ _).mp hconv
        rcases eq_or_ne σ [] with rfl | hσ
        · exact .inl ⟨i, hlt, rfl, e, hk, by simpa [he] using hy.symm⟩
        · obtain ⟨⟨j, rfl⟩, hye⟩ := getAt_below_entries (t := kc'.2) (ρ := [])
            (by rw [he]; rfl)
            (fun _ => isEntry_of_mem_map_entry) hσ hy
          exact .inr ⟨i, hlt, j, rfl, hye⟩

/-- Two half-built nodes are not above one another. -/
theorem not_above_of_pending {t : PrefixTree} {ρ π : List Nat}
    {cs₁ cs₂ : List (String × PrefixTree)} {pp₁ pp₂ : PathProperties}
    (hρ : t.getAt ρ = some (.node pp₁ cs₁)) (he : ∀ kc ∈ cs₁, kc.2.IsEntry)
    (hπ : t.getAt π = some (.node pp₂ cs₂)) (hne : ρ ≠ π) : ¬ρ <+: π := by
  rintro ⟨σ, rfl⟩
  have hσ : σ ≠ [] := by rintro rfl; exact hne (List.append_nil ρ).symm
  exact (getAt_below_entries hρ he hσ hπ).2

theorem exists_cons_of_below {ρ π : List Nat} (h₂ : ρ <+: π) (h₁ : ¬π <+: ρ) :
    ∃ j σ, π = ρ ++ j :: σ := by
  obtain ⟨σ, rfl⟩ := h₂
  cases σ with
  | nil => exact absurd (by simp) h₁
  | cons j σ => exact ⟨j, σ, rfl⟩

/-- Outside the subtree it rebuilt, a step leaves what the tree held, or, above the
rebuilt place, a node with the same properties. -/
theorem getAt_setAt_outside {x : PrefixTree} (h : top.getAt π ≠ none) {ρ : List Nat}
    {y : PrefixTree} (h₁ : ¬π <+: ρ) (hy : (top.setAt π x).getAt ρ = some y) :
    (∃ pp' cs₁ cs₂, top.getAt ρ = some (.node pp' cs₁) ∧ y = .node pp' cs₂) ∨
      top.getAt ρ = some y := by
  by_cases h₂ : ρ <+: π
  · obtain ⟨j, σ, rfl⟩ := exists_cons_of_below h₂ h₁
    obtain ⟨pp', cs₁, cs₂, hρ, h'⟩ := getAt_setAt_above (x := x) h
    exact .inl ⟨pp', cs₁, cs₂, hρ, Option.some.inj (hy.symm.trans h')⟩
  · rw [getAt_setAt_apart h₁ h₂] at hy
    exact .inr hy

theorem getAt_converted_child (h : top.getAt π = some (.node pp cs))
    (hc : convertChildren LF cs = .ok cs') {i : Nat} {k : String} {e : Entry}
    (hi : cs[i]? = some (k, .entry e)) :
    e.properties.Known LF ∧ (top.setAt π (.node pp cs')).getAt (π ++ [i]) =
      some (.node { properties := e.properties } (e.children.map fun kc => (kc.1, .entry kc.2))) := by
  have hrel := convertChildren_getElem? LF hc i
  rw [hi] at hrel
  cases hi' : cs'[i]? with
  | none => rw [hi'] at hrel; cases hrel
  | some kc' =>
    rw [hi'] at hrel
    obtain ⟨-, hconv⟩ : kc'.1 = k ∧ treeFromTuples LF (.entry e) = .ok kc'.2 := by
      cases hrel; assumption
    obtain ⟨_, he, hk, hkc⟩ := (treeFromTuples_eq_ok_iff LF _ _).mp hconv
    cases he
    rw [getAt_setAt_append (by simp [h]), getAt_node_cons, hi', Option.some_bind, hkc, getAt_nil]
    exact ⟨hk, rfl⟩

theorem exists_eq_entry_of_isEntry {c : PrefixTree} (h : c.IsEntry) : ∃ e, c = .entry e := by
  cases c with
  | node _ _ => exact h.elim
  | entry e => exact ⟨e, rfl⟩

/-- The other references on the stack are neither above nor below the one popped. -/
theorem LoopInv.apart {d : Entry} {todo : List (List Nat)} (hinv : LoopInv LF d top (π :: todo)) :
    ∀ ρ ∈ todo, ¬π <+: ρ ∧ ¬ρ <+: π := by
  intro ρ hρ
  obtain ⟨_, _, hπ, hentπ⟩ := hinv.pending π (List.mem_cons_self _ _)
  have hne : ρ ≠ π := fun e => (List.nodup_cons.mp hinv.nodup).1 (e ▸ hρ)
  obtain ⟨_, _, hρ', hentρ⟩ := hinv.pending ρ (List.mem_cons_of_mem _ hρ)
  exact ⟨not_above_of_pending hπ hentπ hρ' hne.symm, not_above_of_pending hρ' hentρ hπ hne⟩

/-- One pass of the loop body keeps the invariant. -/
theorem loopInv_step {d : Entry} {todo : List (List Nat)} (hinv : LoopInv LF d top (π :: todo))
    (h : top.getAt π = some (.node pp cs)) (hc : convertChildren LF cs = .ok cs') :
    LoopInv LF d (top.setAt π (.node pp cs'))
      ((List.range cs.length).reverse.map (π ++ [·]) ++ todo) := by
  obtain ⟨pp₀, cs₀, h₀, hent⟩ := hinv.pending π (List.mem_cons_self _ _)
  obtain ⟨rfl, rfl⟩ : pp₀ = pp ∧ cs₀ = cs := by simpa [h] using h₀.symm
  have hapart := hinv.apart
  have hmem : ∀ ρ, ρ ∈ (List.range cs₀.length).reverse.map (π ++ [·]) ↔
      ∃ i < cs₀.length, ρ = π ++ [i] := by
    intro ρ; simp [eq_comm]
  refine ⟨?_, ?_, ?_, ?_, ?_⟩
  · rw [complete_setAt h₀ (by rw [complete, complete, completeAll_convertChildren LF hc])]
    exact hinv.complete
  · refine List.nodup_append.mpr ⟨?_, (List.nodup_cons.mp hinv.nodup).2, ?_⟩
    · exact (List.nodup_reverse.mpr (List.nodup_range _)).map fun a b hab => by simpa using hab
    · intro ρ hρ hρ'
      obtain ⟨i, -, rfl⟩ := (hmem ρ).mp hρ
      exact (hapart _ hρ').1 (List.prefix_append π [i])
  · intro ρ hρ
    rcases List.mem_append.mp hρ with hρ | hρ
    · obtain ⟨i, hi, rfl⟩ := (hmem ρ).mp hρ
      obtain ⟨e, he⟩ := exists_eq_entry_of_isEntry (hent _ (List.getElem_mem hi))
      have hi' : cs₀[i]? = some (cs₀[i].1, .entry e) := by rw [List.getElem?_eq_getElem hi, ← he]
      exact ⟨_, _, (getAt_converted_child LF h₀ hc hi').2, fun _ => isEntry_of_mem_map_entry⟩
    · rw [getAt_setAt_apart (hapart ρ hρ).1 (hapart ρ hρ).2]
      exact hinv.pending ρ (List.mem_cons_of_mem _ hρ)
  · intro ρ y hy hye
    by_cases h₁ : π <+: ρ
    · obtain ⟨σ, rfl⟩ := h₁
      rcases getAt_setAt_converted LF h₀ hc hy with
        ⟨_, rfl⟩ | ⟨_, _, _, _, _, rfl⟩ | ⟨i, hi, j, rfl, _⟩
      · exact False.elim hye
      · exact False.elim hye
      · exact ⟨π ++ [i], List.mem_append_left _ ((hmem _).mpr ⟨i, hi, rfl⟩), j, by simp⟩
    rcases getAt_setAt_outside (by simp [h₀]) h₁ hy with ⟨_, _, _, -, rfl⟩ | hy'
    · exact False.elim hye
    · obtain ⟨π₀, hπ₀, i, rfl⟩ := hinv.entries ρ y hy' hye
      rcases List.mem_cons.mp hπ₀ with rfl | hπ₀
      · exact absurd (List.prefix_append _ _) h₁
      · exact ⟨π₀, List.mem_append_right _ hπ₀, i, rfl⟩
  · intro ρ pp' cs₁ hy
    by_cases h₁ : π <+: ρ
    · obtain ⟨σ, rfl⟩ := h₁
      rcases getAt_setAt_converted LF h₀ hc hy with
        ⟨_, hy'⟩ | ⟨_, _, _, e, hk, hy'⟩ | ⟨_, _, _, _, hye⟩
      · cases hy'; exact hinv.known π _ _ h₀
      · cases hy'; exact hk
      · exact hye.elim
    rcases getAt_setAt_outside (by simp [h₀]) h₁ hy with ⟨_, _, _, hρ, hy'⟩ | hy'
    · cases hy'; exact hinv.known ρ _ _ hρ
    · exact hinv.known ρ pp' cs₁ hy'

end Step

/-- `PrefixTree.make_from_tuples` on a structure in which every dict is a new object, as
in one literal, so that no pass meets a tree another pass stored.  `ObjectsBuild` shows
that the object model, which follows which dicts are shared, agrees with it there. -/
def makeFromTuples (tuples : Entry) : Except PyExc PrefixTree := do
  let topTree ← treeFromTuples LF (.entry tuples)
  makeLoop LF topTree [[]]

/-- The loop ends with the declared tree when every record passes the schema check, and
otherwise raises `ValueError` on an unknown key of one of its records. -/
theorem makeLoop_spec {d : Entry} {top : PrefixTree} {todo : List (List Nat)}
    (hinv : LoopInv LF d top todo) :
    (makeLoop LF top todo = .ok d.toTree ∧ ∀ r ∈ d.records, r.Known LF) ∨
    ∃ r ∈ d.records, ∃ key ∈ r.keys, key ∉ (defaultProperties LF).keys ∧
      makeLoop LF top todo = .error (.valueError ("Unknown key: " ++ key)) := by
  induction top, todo using makeLoop.induct LF with
  | case1 top =>
    have hno : ∀ ρ y, top.getAt ρ = some y → ¬y.IsEntry := fun ρ y hy he => by
      obtain ⟨_, hπ, _⟩ := hinv.entries ρ y hy he
      cases hπ
    have htop : top = d.toTree := (complete_eq_self top hno).symm.trans hinv.complete
    refine .inl ⟨by rw [makeLoop, htop], fun r hr => ?_⟩
    obtain ⟨π, cs, hπ⟩ := Entry.mem_records_toTree d r hr
    exact hinv.known π _ cs (htop ▸ hπ)
  | case2 top π todo pp cs h cs' hc ih =>
    rw [makeLoop_step LF h hc]
    exact ih (loopInv_step LF hinv h hc)
  | case3 top π todo pp cs h ex hc =>
    right
    obtain ⟨_, _, h₀, hent⟩ := hinv.pending π (List.mem_cons_self _ _)
    obtain ⟨rfl, rfl⟩ : _ = pp ∧ _ = cs := by simpa [h] using h₀.symm
    obtain ⟨i, ⟨k, c⟩, hi, hex⟩ := convertChildren_eq_error LF hc
    cases c with
    | node _ _ => exact (hent _ (List.getElem?_mem hi)).elim
    | entry e =>
      obtain ⟨key, hkey, hunk, rfl⟩ := treeFromTuples_entry_eq_error LF hex
      have hat : top.getAt (π ++ [i]) = some (.entry e) := by
        rw [getAt_append, h₀, Option.some_bind, getAt_node_cons, hi]; rfl
      have hd := getAt_complete hat
      rw [hinv.complete, complete, Entry.toTree_eq e] at hd
      exact ⟨e.properties, (Entry.getAt_toTree hd).1, key, hkey, hunk, makeLoop_error LF h₀ hc⟩
  | case4 top π todo hnot _ =>
    obtain ⟨pp, cs, h, -⟩ := hinv.pending π (List.mem_cons_self _ _)
    exact (hnot pp cs h).elim

/-- `make_from_tuples` returns the declared tree when every record uses only schema keys,
and otherwise raises `ValueError` naming an unknown key of one of its records. -/
theorem makeFromTuples_spec (d : Entry) :
    (makeFromTuples LF d = .ok d.toTree ∧ ∀ r ∈ d.records, r.Known LF) ∨
    ∃ r ∈ d.records, ∃ key ∈ r.keys, key ∉ (defaultProperties LF).keys ∧
      makeFromTuples LF d = .error (.valueError ("Unknown key: " ++ key)) := by
  unfold makeFromTuples
  cases ht : treeFromTuples LF (.entry d) with
  | error ex =>
    obtain ⟨key, hkey, hunk, rfl⟩ := treeFromTuples_entry_eq_error LF ht
    exact .inr ⟨d.properties, by rw [Entry.records_eq]; exact List.mem_cons_self _ _,
      key, hkey, hunk, rfl⟩
  | ok top => exact makeLoop_spec LF (loopInv_init LF ht)

end PrefixTree

end Lkmc

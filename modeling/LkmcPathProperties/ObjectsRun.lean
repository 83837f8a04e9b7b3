import LkmcPathProperties.Objects

/-!
# A run of the object loop: the tree it builds

Each pass of the loop replaces the values of one mapping by trees made from them, and a
tree made from a value leads where the value led: to the pair's mapping, or, for a bare
record, to a new empty one.  So walking the heap from the top tree by segment names
meets, at every path, the declared value there or a tree made from it (`Refines`).  When
the loop returns, every tree has been popped and its mapping converted, so the walk meets
only trees:

    RunInv h₀ x₀ top h [] →
      h.nodeAt top s = (h₀.recordAt x₀ s).map ({ properties := · })   (RunInv.nodeAt)

This holds whatever the declarations share; `makeLoop_runInv` carries the invariant
through a run that returns.
-/

namespace Lkmc

namespace Objects

/-- The tree object `tree` stands for the declared value `y`: it holds `y`'s record, and
`y`'s children mapping or, for a bare record, a mapping made at an address in
`[n, n')`. -/
def Made (n n' : Nat) (tree : TreeObj) : Slot → Prop
  | .record r => tree.pathProperties = { properties := r } ∧ n ≤ tree.children ∧ tree.children < n'
  | .tuple r c => tree.pathProperties = { properties := r } ∧ tree.children = c
  | .tree _ => False

/-- The value `x` of the current heap `h` stands for the declared value `y`: it is `y`
itself, or a tree made from it. -/
def Refines (n₀ : Nat) (h : Heap) (x y : Slot) : Prop :=
  (x = y ∧ x.isTree = false) ∨
    ∃ t tree, x = .tree t ∧ h.trees[t]? = some tree ∧ Made n₀ h.mappings.length tree y

/-- A reference to a tree is to one the heap has. -/
def ValidIn (h : Heap) : Slot → Prop
  | .tree t => t < h.trees.length
  | _ => True

/-- The value `x₂` after a pass of the loop body stands for the value `x` before it: the
same value, or a tree the pass made from it. -/
def StepRel (h h₂ : Heap) (x₂ x : Slot) : Prop :=
  (x₂ = x ∧ ValidIn h x) ∨
    ∃ t tree, x₂ = .tree t ∧ h₂.trees[t]? = some tree ∧ Made h.mappings.length h₂.mappings.length tree x

/-- `h₀` holds no `PrefixTree` and `x` is not one: a structure of records and pairs. -/
def Heap.Declarative (h : Heap) (x : Slot) : Prop :=
  x.isTree = false ∧ ∀ m ∈ h.mappings, ∀ ks ∈ m, ks.2.isTree = false

instance (h : Heap) (x : Slot) : Decidable (h.Declarative x) :=
  inferInstanceAs (Decidable (_ ∧ ∀ m ∈ h.mappings, ∀ ks ∈ m, _))

/-- The invariant of a run from the declarations `x₀` in `h₀` with top tree `top`. -/
structure RunInv (h₀ : Heap) (x₀ : Slot) (top : Nat) (h : Heap) (todo : List Nat) : Prop where
  trees : h₀.trees <+: h.trees
  length : h₀.mappings.length ≤ h.mappings.length
  fresh : ∀ (c : Nat) (m : List (String × Slot)), h₀.mappings.length ≤ c →
    h.mappings[c]? = some m → m = []
  slots : ∀ (c : Nat) (m : List (String × Slot)), h.mappings[c]? = some m → ∀ ks ∈ m, ∀ t : Nat,
    ks.2 = .tree t → h₀.trees.length ≤ t ∧ t < h.trees.length
  walk : ∀ s, Option.Rel (Refines h₀.mappings.length h) (h.slotAt (.tree top) s) (h₀.slotAt x₀ s)
  top : h₀.trees.length ≤ top ∧ top < h.trees.length
  stack : ∀ t ∈ todo, h₀.trees.length ≤ t ∧ t < h.trees.length
  nodup : todo.Nodup
  popped : ∀ (t : Nat) (tree : TreeObj) (m : List (String × Slot)), h₀.trees.length ≤ t →
    t ∉ todo → h.trees[t]? = some tree → h.mappings[tree.children]? = some m →
    ∀ ks ∈ m, ks.2.isTree = true

/-! ## Lemmas -/

section Lemmas

theorem Made.mono {n₁ n₂ n₁' n₂' : Nat} {tree : TreeObj} {y : Slot} (h₁ : n₂ ≤ n₁) (h₂ : n₁' ≤ n₂')
    (h : Made n₁ n₁' tree y) : Made n₂ n₂' tree y := by
  cases y with
  | record r => exact ⟨h.1, Nat.le_trans h₁ h.2.1, Nat.lt_of_lt_of_le h.2.2 h₂⟩
  | tuple r c => exact h
  | tree t => exact h.elim

theorem Option.rel_bind {α β γ δ : Type} {R : α → β → Prop} {S : γ → δ → Prop} {a : Option α}
    {b : Option β} (h : Option.Rel R a b) {f : α → Option γ} {g : β → Option δ}
    (hfg : ∀ x y, R x y → Option.Rel S (f x) (g y)) : Option.Rel S (a.bind f) (b.bind g) := by
  cases h with
  | none => exact .none
  | some hxy => exact hfg _ _ hxy

theorem Option.rel_trans {α β γ : Type} {R : α → β → Prop} {S : β → γ → Prop} {T : α → γ → Prop}
    {a : Option α} {b : Option β} {c : Option γ} (h₁ : Option.Rel R a b) (h₂ : Option.Rel S b c)
    (hRS : ∀ x y z, R x y → S y z → T x z) : Option.Rel T a c := by
  cases h₁ with
  | none => cases h₂; exact .none
  | some hxy => cases h₂ with | some hyz => exact .some (hRS _ _ _ hxy hyz)

theorem dictGet_rel {α β : Type} {R : α → β → Prop} {l₁ : List (String × α)} {l₂ : List (String × β)}
    (h : List.Forall₂ (fun a b => a.1 = b.1 ∧ R a.2 b.2) l₁ l₂) (k : String) :
    Option.Rel R (dictGet l₁ k) (dictGet l₂ k) := by
  induction h with
  | nil => exact .none
  | @cons a b l₁ l₂ hab _ ih =>
    obtain ⟨k₁, x⟩ := a
    obtain ⟨k₂, y⟩ := b
    obtain ⟨rfl, hxy⟩ := hab
    rw [dictGet_cons, dictGet_cons]
    split
    · exact .some hxy
    · exact ih

theorem dictGet_rel_self {α : Type} {R : α → α → Prop} {l : List (String × α)}
    (h : ∀ ks ∈ l, R ks.2 ks.2) (k : String) : Option.Rel R (dictGet l k) (dictGet l k) := by
  cases hk : dictGet l k with
  | none => exact .none
  | some v => exact .some (h (k, v) (mem_of_dictGet_eq_some hk))

theorem bound {h : Heap} {c : Nat} {m : List (String × Slot)} (hm : h.mappings[c]? = some m) :
    c < h.mappings.length :=
  (List.getElem?_eq_some_iff.mp hm).1

namespace Heap

theorem getElem?_setMapping_self {h : Heap} {c : Nat} (hc : c < h.mappings.length)
    (m : List (String × Slot)) : (h.setMapping c m).mappings[c]? = some m :=
  List.getElem?_set_self hc

theorem getElem?_setMapping_ne {h : Heap} {c c' : Nat} (hne : c ≠ c') (m : List (String × Slot)) :
    (h.setMapping c m).mappings[c']? = h.mappings[c']? :=
  List.getElem?_set_ne hne

@[simp] theorem length_setMapping (h : Heap) (c : Nat) (m : List (String × Slot)) :
    (h.setMapping c m).mappings.length = h.mappings.length := List.length_set _ _ _

/-- The value under key `k` of the mapping at `c`. -/
def lookup (h : Heap) (c : Nat) (k : String) : Option Slot :=
  (h.mappings[c]?).bind (dictGet · k)

theorem slotAt_cons (h : Heap) (x : Slot) (k : String) (ks : List String) :
    h.slotAt x (k :: ks) = ((h.childrenOf x).bind (h.lookup · k)).bind (h.slotAt · ks) := by
  rw [slotAt]; cases h.childrenOf x <;> rfl

theorem mem_of_lookup_eq_some {h : Heap} {c : Nat} {k : String} {z : Slot}
    (hz : h.lookup c k = some z) : ∃ m, h.mappings[c]? = some m ∧ (k, z) ∈ m := by
  cases hm : h.mappings[c]? with
  | none => rw [lookup, hm] at hz; cases hz
  | some m =>
    rw [lookup, hm, Option.some_bind] at hz
    exact ⟨m, rfl, mem_of_dictGet_eq_some hz⟩

theorem childrenOf_setMapping (h : Heap) (c : Nat) (m : List (String × Slot)) (x : Slot) :
    (h.setMapping c m).childrenOf x = h.childrenOf x := by
  cases x <;> rfl

theorem childrenOf_tree {h : Heap} {t : Nat} {tree : TreeObj} (ht : h.trees[t]? = some tree) :
    h.childrenOf (.tree t) = some tree.children := by
  rw [childrenOf, ht]; rfl

theorem children_eq_of_childrenOf {h : Heap} {t c : Nat} {tree : TreeObj}
    (hc : h.childrenOf (.tree t) = some c) (ht : h.trees[t]? = some tree) : tree.children = c :=
  Option.some.inj ((childrenOf_tree ht).symm.trans hc)

/-- Every tree a mapping refers to is one the heap has. -/
def Closed (h : Heap) : Prop :=
  ∀ (c : Nat) (m : List (String × Slot)), h.mappings[c]? = some m → ∀ ks ∈ m, ValidIn h ks.2

end Heap

variable (LF : String)

theorem treeFromTuples_made {h h' : Heap} {s : Slot} {t : Nat} (hs : treeFromTuples LF h s = .ok (h', t)) :
    h.Extends h' ∧ t = h.trees.length ∧ h'.trees.length = h.trees.length + 1 ∧
      ∃ tree, h'.trees[t]? = some tree ∧ Made h.mappings.length h'.mappings.length tree s := by
  rcases (treeFromTuples_eq_ok_iff LF h s h' t).mp hs with ⟨r, rfl, -, he⟩ | ⟨r, c, rfl, -, he⟩ <;>
    cases he
  · refine ⟨(Heap.extends_newMapping h).trans (Heap.extends_newTree _ _), rfl, ?_,
      ⟨{ properties := r }, h.mappings.length⟩, ?_, rfl, le_refl _, ?_⟩ <;>
      simp [Heap.newTree, Heap.newMapping]
  · refine ⟨Heap.extends_newTree _ _, rfl, ?_, ⟨{ properties := r }, c⟩, ?_, rfl, rfl⟩ <;>
      simp [Heap.newTree]

/-- A conversion that returns made one new tree for each value, in order. -/
theorem convertChildren_made {h h' : Heap} {cs : List (String × Slot)} {ts : List Nat}
    (hc : convertChildren LF h cs = .ok (h', ts)) :
    h.Extends h' ∧ ts = List.range' h.trees.length cs.length ∧
      h'.trees.length = h.trees.length + cs.length ∧
      List.Forall₂ (fun t ks => ∃ tree, h'.trees[t]? = some tree ∧
        Made h.mappings.length h'.mappings.length tree ks.2) ts cs := by
  induction cs generalizing h ts with
  | nil => cases hc; exact ⟨Heap.Extends.refl _, rfl, rfl, .nil⟩
  | cons ks cs ih =>
    obtain ⟨k, s⟩ := ks
    obtain ⟨h₁, t, ts', hs, hc', rfl⟩ := (convertChildren_cons_eq_ok_iff LF h k s cs h' ts).mp hc
    obtain ⟨he₁, rfl, hl₁, tree, ht₁, hmade⟩ := treeFromTuples_made LF hs
    obtain ⟨he, rfl, hl, hall⟩ := ih hc'
    refine ⟨he₁.trans he, by rw [hl₁, List.length_cons, List.range'_succ], by
      rw [hl, hl₁, List.length_cons]; omega, .cons ⟨tree, ?_, ?_⟩ (hall.imp ?_)⟩
    · rw [he.trees_getElem? (by omega), ht₁]
    · exact hmade.mono (le_refl _) he.length_mappings
    · rintro t' ks' ⟨tree', ht', hm'⟩
      exact ⟨tree', ht', hm'.mono he₁.length_mappings (le_refl _)⟩

/-! ## One pass of the loop body -/

/-- Reading a key of a mapping is the same after the heap grows. -/
theorem lookup_extends {h h' : Heap} (he : h.Extends h') (c : Nat) (k : String) :
    h'.lookup c k = h.lookup c k := by
  by_cases hc : c < h.mappings.length
  · rw [Heap.lookup, Heap.lookup, he.mappings_getElem? hc]
  · rw [Heap.lookup, Heap.lookup, List.getElem?_eq_none (Nat.le_of_not_lt hc)]
    cases hm : h'.mappings[c]? with
    | none => rfl
    | some m => rw [he.mappings_getElem?_new (Nat.le_of_not_lt hc) hm]; rfl

theorem childrenOf_extends {h h' : Heap} (he : h.Extends h') {x : Slot} (hx : ValidIn h x) :
    h'.childrenOf x = h.childrenOf x := by
  cases x with
  | tree t => simp only [Heap.childrenOf, he.trees_getElem? hx]
  | _ => rfl

/-- Walking from a value the old heap has is the same after the heap grows. -/
theorem slotAt_extends {h h' : Heap} (he : h.Extends h') (hwf : h.Closed) {x : Slot}
    (hx : ValidIn h x) (s : List String) : h'.slotAt x s = h.slotAt x s := by
  induction s generalizing x with
  | nil => rfl
  | cons k ks ih =>
    rw [Heap.slotAt_cons, Heap.slotAt_cons, childrenOf_extends he hx]
    cases h.childrenOf x with
    | none => rfl
    | some c =>
      rw [Option.some_bind, Option.some_bind, lookup_extends he]
      cases hz : h.lookup c k with
      | none => rfl
      | some z =>
        obtain ⟨m, hm, hzm⟩ := Heap.mem_of_lookup_eq_some hz
        exact ih (hwf c m hm _ hzm)

section Pass

variable {h h' : Heap} {c₀ : Nat} {cur : List (String × Slot)} {ts : List Nat}

theorem converted_rel {n n' : Nat}
    (hall : List.Forall₂ (fun t ks => ∃ tree, h'.trees[t]? = some tree ∧ Made n n' tree ks.2) ts cur) :
    List.Forall₂ (fun a b => a.1 = b.1 ∧ ∃ t tree, a.2 = .tree t ∧ h'.trees[t]? = some tree ∧
      Made n n' tree b.2) (converted cur ts) cur := by
  induction hall with
  | nil => exact .nil
  | cons hab _ ih =>
    obtain ⟨tree, ht, hmade⟩ := hab
    exact .cons ⟨rfl, _, tree, rfl, ht, hmade⟩ ih

/-- After the pass that converted the mapping at `c₀`, reading a key of any mapping gives
what it gave before, or a tree made from it. -/
theorem lookup_pass (hm : h.mappings[c₀]? = some cur) (hcv : convertChildren LF h cur = .ok (h', ts))
    (hwf : h.Closed) (c : Nat) (k : String) :
    Option.Rel (StepRel h (h'.setMapping c₀ (converted cur ts)))
      ((h'.setMapping c₀ (converted cur ts)).lookup c k) (h.lookup c k) := by
  obtain ⟨he, -, -, hall⟩ := convertChildren_made LF hcv
  by_cases hc : c = c₀
  · subst hc
    rw [Heap.lookup, Heap.lookup,
      Heap.getElem?_setMapping_self (Nat.lt_of_lt_of_le (bound hm) he.length_mappings), hm]
    exact dictGet_rel ((converted_rel hall).imp fun a b ⟨hk, t, tree, hx, ht, hmade⟩ =>
      ⟨hk, .inr ⟨t, tree, hx, ht, by simpa using hmade⟩⟩) k
  · rw [Heap.lookup, Heap.getElem?_setMapping_ne (Ne.symm hc), ← Heap.lookup, lookup_extends he]
    cases hm' : h.mappings[c]? with
    | none => rw [Heap.lookup, hm']; exact .none
    | some m => rw [Heap.lookup, hm']; exact dictGet_rel_self (fun ks hks => .inl ⟨rfl, hwf c m hm' ks hks⟩) k

/-- **One pass.**  Walking from a value after a pass meets, at every path, what the walk
from the value it stands for met before, or a tree made from that. -/
theorem slotAt_pass (hm : h.mappings[c₀]? = some cur) (hcv : convertChildren LF h cur = .ok (h', ts))
    (hwf : h.Closed) {x₂ x : Slot} (hx : StepRel h (h'.setMapping c₀ (converted cur ts)) x₂ x)
    (s : List String) :
    Option.Rel (StepRel h (h'.setMapping c₀ (converted cur ts)))
      ((h'.setMapping c₀ (converted cur ts)).slotAt x₂ s) (h.slotAt x s) := by
  obtain ⟨he, -, -, -⟩ := convertChildren_made LF hcv
  induction s generalizing x₂ x with
  | nil => exact .some hx
  | cons k ks ih =>
    rw [Heap.slotAt_cons, Heap.slotAt_cons]
    refine Option.rel_bind ?_ fun _ _ hxy => ih hxy
    rcases hx with ⟨rfl, hvalid⟩ | ⟨t, tree, rfl, ht, hmade⟩
    · rw [Heap.childrenOf_setMapping, childrenOf_extends he hvalid]
      cases h.childrenOf x₂ with
      | none => exact .none
      | some c => exact lookup_pass LF hm hcv hwf c k
    · rw [Heap.childrenOf_tree ht, Option.some_bind]
      cases x with
      | tuple r c => rw [hmade.2]; exact lookup_pass LF hm hcv hwf c k
      | tree _ => exact hmade.elim
      | record r =>
        have hne : c₀ ≠ tree.children := Nat.ne_of_lt (Nat.lt_of_lt_of_le (bound hm) hmade.2.1)
        rw [Heap.lookup, Heap.getElem?_setMapping_ne hne]
        cases hf : h'.mappings[tree.children]? with
        | none => exact .none
        | some m => rw [he.mappings_getElem?_new hmade.2.1 hf]; exact .none

end Pass

theorem validIn_of_not_tree {h : Heap} {x : Slot} (hx : x.isTree = false) : ValidIn h x := by
  cases x with
  | tree t => cases hx
  | _ => trivial

/-- A mapping made after the declarations is empty, so it has no key. -/
theorem lookup_fresh {h₀ h : Heap} (he : h₀.Extends h) {c : Nat} (hc : h₀.mappings.length ≤ c)
    (k : String) : h.lookup c k = none := by
  cases hm : h.mappings[c]? with
  | none => rw [Heap.lookup, hm]; rfl
  | some m => rw [Heap.lookup, hm, he.mappings_getElem?_new hc hm]; rfl

/-- Walking the declarations from a declared value meets only declared values. -/
theorem slotAt_not_tree {h : Heap} (hd : ∀ m ∈ h.mappings, ∀ ks ∈ m, ks.2.isTree = false)
    {x y : Slot} (hx : x.isTree = false) {s : List String} (hy : h.slotAt x s = some y) :
    y.isTree = false := by
  induction s generalizing x with
  | nil => cases hy; exact hx
  | cons k ks ih =>
    rw [Heap.slotAt_cons] at hy
    cases hc : h.childrenOf x with
    | none => rw [hc] at hy; cases hy
    | some c =>
      rw [hc, Option.some_bind] at hy
      cases hz : h.lookup c k with
      | none => rw [hz] at hy; cases hy
      | some z =>
        rw [hz, Option.some_bind] at hy
        obtain ⟨m, hm, hzm⟩ := Heap.mem_of_lookup_eq_some hz
        exact ih (hd m (List.getElem?_mem hm) _ hzm) hy

theorem Made.pathProperties_eq {n n' : Nat} {tree : TreeObj} {y : Slot} (h : Made n n' tree y) :
    y.record?.map ({ properties := · }) = some tree.pathProperties := by
  cases y with
  | record r => rw [h.1]; rfl
  | tuple r c => rw [h.1]; rfl
  | tree t => exact h.elim

/-- A value after a pass that stands for a value which stands for a declared one stands
for the declared one. -/
theorem StepRel.pass {n₀ : Nat} {h h₂ : Heap} {a b y : Slot} (hab : StepRel h h₂ a b)
    (hby : Refines n₀ h b y) (hn : n₀ ≤ h.mappings.length)
    (hlen : h.mappings.length ≤ h₂.mappings.length) (htr : h.trees <+: h₂.trees) :
    Refines n₀ h₂ a y := by
  rcases hab with ⟨rfl, hvalid⟩ | ⟨t, tree, rfl, ht, hmade⟩
  · rcases hby with hby | ⟨t, tree, rfl, ht, hmade⟩
    · exact .inl hby
    · obtain ⟨l, hl⟩ := htr
      refine .inr ⟨t, tree, rfl, ?_, hmade.mono (le_refl _) hlen⟩
      rw [← hl, List.getElem?_append_left hvalid, ht]
  · rcases hby with ⟨rfl, -⟩ | ⟨_, _, rfl, -⟩
    · exact .inr ⟨t, tree, rfl, ht, hmade.mono hn (le_refl _)⟩
    · exact hmade.elim

/-! ## The run invariant -/

section Run

variable {h₀ : Heap} {x₀ : Slot} {top : Nat}

theorem mem_converted {cur : List (String × Slot)} {ts : List Nat} {ks : String × Slot}
    (h : ks ∈ converted cur ts) : ∃ t ∈ ts, ks.2 = .tree t := by
  obtain ⟨i, hi, rfl⟩ := List.getElem_of_mem h
  simp only [converted, List.getElem_zipWith]
  exact ⟨_, List.getElem_mem _, rfl⟩

/-- What a mapping holds after the pass that converted the mapping at `c`: the converted
values there; elsewhere what it held, or nothing if it is new. -/
theorem getElem?_pass {h h' : Heap} {c c' : Nat} {cur m : List (String × Slot)} {ts : List Nat}
    (he : h.Extends h') (hm : h.mappings[c]? = some cur)
    (hm' : (h'.setMapping c (converted cur ts)).mappings[c']? = some m) :
    (c' = c ∧ m = converted cur ts) ∨ (c' ≠ c ∧ (h.mappings[c']? = some m ∨ m = [])) := by
  by_cases hc : c' = c
  · subst hc
    rw [Heap.getElem?_setMapping_self (Nat.lt_of_lt_of_le (bound hm) he.length_mappings)] at hm'
    exact .inl ⟨rfl, (Option.some.inj hm').symm⟩
  · rw [Heap.getElem?_setMapping_ne (Ne.symm hc)] at hm'
    refine .inr ⟨hc, ?_⟩
    by_cases hlt : c' < h.mappings.length
    · exact .inl (by rw [← he.mappings_getElem? hlt, hm'])
    · exact .inr (he.mappings_getElem?_new (Nat.le_of_not_lt hlt) hm')

variable (LF : String) {h h' : Heap} {t c : Nat} {todo ts : List Nat} {cur : List (String × Slot)}

theorem RunInv.closed (hinv : RunInv h₀ x₀ top h todo) : h.Closed := by
  intro c m hm ks hks
  cases hk : ks.2 with
  | tree t => exact (hinv.slots c m hm ks hks t hk).2
  | _ => trivial

/-- A tree after a pass that the pass did not make is one the heap had before it. -/
theorem getElem?_trees_pass (hcv : convertChildren LF h cur = .ok (h', ts)) {t' : Nat}
    {tree : TreeObj} (hn : t' ∉ ts) (ht : (h'.setMapping c (converted cur ts)).trees[t']? = some tree) :
    h.trees[t']? = some tree := by
  obtain ⟨he, hts, hlen, -⟩ := convertChildren_made LF hcv
  have := (List.getElem?_eq_some_iff.mp ht).1
  rw [hts, List.mem_range'_1] at hn
  simp only [Heap.setMapping_trees] at this ht
  rw [← he.trees_getElem? (by omega)]; exact ht

/-- The run starts from the top tree `tree_from_tuples` made. -/
theorem runInv_init (hd : h₀.Declarative x₀) (ht : treeFromTuples LF h₀ x₀ = .ok (h, top)) :
    RunInv h₀ x₀ top h [top] := by
  obtain ⟨he, rfl, hl, tree, htree, hmade⟩ := treeFromTuples_made LF ht
  have hdecl : ∀ (c : Nat) (m : List (String × Slot)), h.mappings[c]? = some m →
      ∀ ks ∈ m, ks.2.isTree = false := by
    intro c m hm ks hks
    by_cases hc : c < h₀.mappings.length
    · rw [he.mappings_getElem? hc] at hm
      exact hd.2 m (List.getElem?_mem hm) ks hks
    · rw [he.mappings_getElem?_new (Nat.le_of_not_lt hc) hm] at hks; cases hks
  refine
    { trees := he.trees
      length := he.length_mappings
      fresh := fun c m hc hm => he.mappings_getElem?_new hc hm
      slots := fun c m hm ks hks t hk => by simpa [hk, Slot.isTree] using hdecl c m hm ks hks
      walk := ?_
      top := ⟨le_refl _, by omega⟩
      stack := ?_
      nodup := List.nodup_singleton _
      popped := fun t _ _ hge hnot ht _ => ?_ }
  · intro s
    cases s with
    | nil => exact .some (.inr ⟨_, tree, rfl, htree, hmade⟩)
    | cons k ks =>
      rw [Heap.slotAt_cons, Heap.slotAt_cons, Heap.childrenOf_tree htree, Option.some_bind]
      cases x₀ with
      | tree _ => cases hd.1
      | record r => rw [lookup_fresh he hmade.2.1]; exact .none
      | tuple r c =>
        rw [hmade.2, lookup_extends he]
        show Option.Rel _ _ ((h₀.lookup c k).bind _)
        cases hz : h₀.lookup c k with
        | none => exact .none
        | some z =>
          obtain ⟨m, hm, hzm⟩ := Heap.mem_of_lookup_eq_some hz
          have hzt := hd.2 m (List.getElem?_mem hm) _ hzm
          rw [Option.some_bind, Option.some_bind,
            slotAt_extends he (fun c m hm ks hks => validIn_of_not_tree (hd.2 m (List.getElem?_mem hm) ks hks))
              (validIn_of_not_tree hzt)]
          cases hy : h₀.slotAt z ks with
          | none => exact .none
          | some y => exact .some (.inl ⟨rfl, slotAt_not_tree hd.2 hzt hy⟩)
  · intro t' ht'
    rw [List.mem_singleton.mp ht']
    exact ⟨le_refl _, by omega⟩
  · have := (List.getElem?_eq_some_iff.mp ht).1
    exact absurd (List.mem_singleton.mpr (by omega)) hnot

/-- **Step.**  One pass of the loop body keeps the invariant. -/
theorem runInv_step (hinv : RunInv h₀ x₀ top h (t :: todo)) (hc : h.childrenOf (.tree t) = some c)
    (hm : h.mappings[c]? = some cur) (hcv : convertChildren LF h cur = .ok (h', ts)) :
    RunInv h₀ x₀ top (h'.setMapping c (converted cur ts)) (ts.reverse ++ todo) := by
  obtain ⟨he, hts, hlen, -⟩ := convertChildren_made LF hcv
  have hold : h₀.trees.length ≤ h.trees.length := hinv.trees.length_le
  have hmem : ∀ t' ∈ ts, h.trees.length ≤ t' ∧ t' < h'.trees.length := by
    intro t' ht'; rw [hts, List.mem_range'_1] at ht'; omega
  refine
    { trees := hinv.trees.trans he.trees
      length := by rw [Heap.length_setMapping]; exact hinv.length.trans he.length_mappings
      fresh := ?_
      slots := ?_
      walk := fun s => ?_
      top := ⟨hinv.top.1, Nat.lt_of_lt_of_le hinv.top.2 he.length_trees⟩
      stack := ?_
      nodup := ?_
      popped := ?_ }
  · intro c' m hc' hm'
    rcases getElem?_pass he hm hm' with ⟨rfl, rfl⟩ | ⟨-, hm' | rfl⟩
    · rw [hinv.fresh c' cur hc' hm]; rfl
    · exact hinv.fresh c' m hc' hm'
    · rfl
  · intro c' m hm' ks hks t' hk
    rcases getElem?_pass he hm hm' with ⟨-, rfl⟩ | ⟨-, hm' | rfl⟩
    · obtain ⟨t'', ht'', hk'⟩ := mem_converted hks
      rw [hk] at hk'; cases hk'
      have := hmem _ ht''; exact ⟨by omega, this.2⟩
    · have := hinv.slots c' m hm' ks hks t' hk
      exact ⟨this.1, Nat.lt_of_lt_of_le this.2 he.length_trees⟩
    · cases hks
  · have hx : StepRel h (h'.setMapping c (converted cur ts)) (.tree top) (.tree top) :=
      .inl ⟨rfl, hinv.top.2⟩
    exact Option.rel_trans (slotAt_pass LF hm hcv hinv.closed hx s) (hinv.walk s)
      fun _ _ _ hab hby => hab.pass hby hinv.length
        (by rw [Heap.length_setMapping]; exact he.length_mappings) he.trees
  · intro t' ht'
    rw [Heap.setMapping_trees]
    rcases List.mem_append.mp ht' with ht' | ht'
    · have := hmem _ (List.mem_reverse.mp ht'); omega
    · have := hinv.stack t' (List.mem_cons_of_mem _ ht')
      exact ⟨this.1, Nat.lt_of_lt_of_le this.2 he.length_trees⟩
  · refine List.nodup_append.mpr ⟨List.nodup_reverse.mpr (hts ▸ List.nodup_range' _ _),
      (List.nodup_cons.mp hinv.nodup).2, fun a ha hb => ?_⟩
    have h₁ := hmem a (List.mem_reverse.mp ha)
    have h₂ := hinv.stack a (List.mem_cons_of_mem _ hb)
    omega
  · intro t' tree m hge hnot ht' hm'
    have ht := getElem?_trees_pass LF hcv (fun h => hnot (by simp [h])) ht'
    rcases getElem?_pass he hm hm' with ⟨-, rfl⟩ | ⟨hne, hm' | rfl⟩
    · intro ks hks
      obtain ⟨_, -, hk⟩ := mem_converted hks
      rw [hk]; rfl
    · have ht'' : t' ≠ t := by
        rintro rfl
        exact hne (Heap.children_eq_of_childrenOf hc ht)
      exact hinv.popped t' tree m hge (by simpa [ht''] using fun h => hnot (List.mem_append_right _ h))
        ht hm'
    · intro ks hks; cases hks

theorem RunInv.drop (hinv : RunInv h₀ x₀ top h (t :: todo)) (hc : h.childrenOf (.tree t) = some c)
    (hm : h.mappings[c]? = none) : RunInv h₀ x₀ top h todo :=
  { hinv with
    stack := fun t' ht' => hinv.stack t' (List.mem_cons_of_mem _ ht')
    nodup := (List.nodup_cons.mp hinv.nodup).2
    popped := fun t' tree m hge hnot ht hm' => by
      by_cases heq : t' = t
      · subst heq
        rw [Heap.children_eq_of_childrenOf hc ht, hm] at hm'; cases hm'
      · exact hinv.popped t' tree m hge (by simp [heq, hnot]) ht hm' }

/-- **Run.**  A run that returns keeps the invariant to its end. -/
theorem makeLoop_runInv {todo : List Nat} (hinv : RunInv h₀ x₀ top h todo)
    (hok : makeLoop LF h todo = .ok h') : RunInv h₀ x₀ top h' [] := by
  induction h, todo using makeLoop.induct LF with
  | case1 h => rw [makeLoop_nil] at hok; cases hok; exact hinv
  | case2 h t todo hc =>
    have := hinv.stack t (List.mem_cons_self _ _)
    simp [Heap.childrenOf, List.getElem?_eq_getElem this.2] at hc
  | case3 h t todo c hc hm ih =>
    rw [makeLoop_skip LF hc hm] at hok
    exact ih (hinv.drop hc hm) hok
  | case4 h t todo c hc cur hm e hcv => rw [makeLoop_error LF hc hm hcv] at hok; cases hok
  | case5 h t todo c hc cur hm h'' ts hcv ih =>
    rw [makeLoop_step LF hc hm hcv rfl] at hok
    exact ih (runInv_step LF hinv hc hm hcv) hok

/-- At the end of a run, the walk from a tree the run made meets only such trees. -/
theorem RunInv.slotAt_tree (hinv : RunInv h₀ x₀ top h []) {t : Nat}
    (ht : h₀.trees.length ≤ t ∧ t < h.trees.length) {s : List String} {y : Slot}
    (hy : h.slotAt (.tree t) s = some y) :
    ∃ t', y = .tree t' ∧ h₀.trees.length ≤ t' ∧ t' < h.trees.length := by
  induction s generalizing t with
  | nil => cases hy; exact ⟨t, rfl, ht⟩
  | cons k ks ih =>
    have htree : h.trees[t]? = some h.trees[t] := List.getElem?_eq_getElem ht.2
    rw [Heap.slotAt_cons, Heap.childrenOf_tree htree, Option.some_bind] at hy
    cases hz : h.lookup h.trees[t].children k with
    | none => rw [hz] at hy; cases hy
    | some z =>
      rw [hz, Option.some_bind] at hy
      obtain ⟨m, hm, hzm⟩ := Heap.mem_of_lookup_eq_some hz
      have hzt := hinv.popped t _ m ht.1 (List.not_mem_nil _) htree hm _ hzm
      cases z with
      | tree t' => exact ih (hinv.slots _ m hm _ hzm t' rfl) hy
      | _ => cases hzt

theorem Option.rel_some_right {α β : Type} {R : α → β → Prop} {a : Option α} {y : β}
    (h : Option.Rel R a (some y)) : ∃ x, a = some x ∧ R x y := by
  cases h with
  | some hr => exact ⟨_, rfl, hr⟩

theorem Option.rel_none_right {α β : Type} {R : α → β → Prop} {a : Option α}
    (h : Option.Rel R a none) : a = none := by
  cases h; rfl

/-- **End of a run.**  When the stack is empty, the tree at each path below the top is
the tree made from the declared value there. -/
theorem RunInv.nodeAt (hinv : RunInv h₀ x₀ top h []) (s : List String) :
    h.nodeAt top s = (h₀.recordAt x₀ s).map ({ properties := · }) := by
  have hwalk := hinv.walk s
  rw [Heap.nodeAt, Heap.recordAt]
  cases hy : h₀.slotAt x₀ s with
  | none => rw [hy] at hwalk; rw [Option.rel_none_right hwalk]; rfl
  | some y =>
    rw [hy] at hwalk
    obtain ⟨a, ha, hrel⟩ := Option.rel_some_right hwalk
    obtain ⟨t', rfl, -⟩ := hinv.slotAt_tree hinv.top ha
    rcases hrel with ⟨rfl, hnt⟩ | ⟨_, tree, ⟨⟩, htree, hmade⟩
    · cases hnt
    · rw [ha]
      dsimp only
      rw [htree, Option.some_bind, hmade.pathProperties_eq]; rfl

/-- A run of `make_from_tuples` that returns ends in a state that keeps the invariant
with an empty stack. -/
theorem RunInv.of_makeFromTuples (hd : h₀.Declarative x₀)
    (hok : makeFromTuples LF h₀ x₀ = .ok (h, top)) : RunInv h₀ x₀ top h [] := by
  obtain ⟨h₁, ht, hl⟩ := (makeFromTuples_eq_ok_iff LF h₀ x₀ h top).mp hok
  exact makeLoop_runInv LF (runInv_init LF hd ht) hl

end Run

end Lemmas

/-! ## What a run returns -/

/-- `({}, {"a": ({}, e), "b": ({}, e)})` where `e` is one empty dict object, at address 1. -/
def sharedEmptyHeap : Heap :=
  ⟨[[("a", .tuple PyDict.empty 1), ("b", .tuple PyDict.empty 1)], []], []⟩

end Objects

end Lkmc

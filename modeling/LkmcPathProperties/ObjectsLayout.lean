import LkmcPathProperties.ObjectsRun

/-!
# `make_from_tuples` on declarations laid out as a tree

The declarations form a tree when no non-empty children mapping is reached from two
places.  `Holds h x e A` reads the value `x` of the heap `h` as the entry `e`, through the
non-empty mappings at the addresses `A`; `A.Nodup` says that none is reached twice.  An
empty mapping may be shared: converting it writes nothing.  On such a heap the loop
raises exactly what the scan of `e` (`Scan`) raises, and otherwise returns the declared
tree:

    Holds h₀ x₀ e A → A.Nodup →
      errorOf (makeFromTuples LF h₀ x₀) = e.buildError LF         (errorOf_makeFromTuples_layout)

The loop keeps `TreeInv`: each tree on the stack has a mapping that still holds its
declared values (`Pending`), and the stack's mappings are pairwise different, so the
write of one pass touches no other tree's mapping.

A non-empty mapping reached twice is converted twice, and the second pass meets the
trees the first one wrote there: `make_from_tuples` then raises `TypeError` although
every record passes the schema check (`makeFromTuples_shared_mapping`), and it raises on
every such structure (`ObjectsShared`).
-/

namespace Lkmc

namespace Objects

/-- The address of a children mapping that a layout uses up: a non-empty mapping is
written by the pass that converts it; an empty one is not. -/
def owned (c : Nat) : List (String × Slot) → List Nat
  | [] => []
  | _ :: _ => [c]

mutual
/-- The value `x` of `h` is laid out as the entry `e`, through the non-empty children
mappings at the addresses `A`. -/
inductive Holds (h : Heap) : Slot → Entry → List Nat → Prop
  | record (r : PyDict) : Holds h (.record r) (.record r) []
  | tuple (r : PyDict) {c : Nat} {m : List (String × Slot)} {es : List (String × Entry)}
      {A : List Nat} (hm : h.mappings[c]? = some m) (hes : HoldsAll h m es A) :
      Holds h (.tuple r c) (.tuple r es) (owned c m ++ A)
/-- The values of a mapping are laid out as the entries of a children dict. -/
inductive HoldsAll (h : Heap) : List (String × Slot) → List (String × Entry) → List Nat → Prop
  | nil : HoldsAll h [] [] []
  | cons (k : String) {s : Slot} {e : Entry} {A : List Nat} {m : List (String × Slot)}
      {es : List (String × Entry)} {B : List Nat} (hs : Holds h s e A) (hm : HoldsAll h m es B) :
      HoldsAll h ((k, s) :: m) ((k, e) :: es) (A ++ B)
end

/-- A tree on the stack, with the declared children its mapping holds and the addresses
of the non-empty mappings below it. -/
structure Pend where
  tree : Nat
  children : List (String × Entry)
  addrs : List Nat

/-- The mapping of the tree `p.tree` holds values laid out as `p.children`. -/
def Pending (h : Heap) (p : Pend) : Prop :=
  ∃ c m A, h.childrenOf (.tree p.tree) = some c ∧ h.mappings[c]? = some m ∧
    HoldsAll h m p.children A ∧ p.addrs = owned c m ++ A

/-- What the rest of the run raises below a pending tree: the records of its children in
order, then their subtrees, the last first. -/
def Pend.error (LF : String) (p : Pend) : Option PyExc :=
  (childrenError LF p.children).or (Entry.scanErrors LF p.children)

/-- The invariant of the loop on a heap laid out as a tree. -/
structure TreeInv (h : Heap) (L : List Pend) : Prop where
  pending : ∀ p ∈ L, Pending h p
  nodup : (L.flatMap (·.addrs)).Nodup

/-! ## Frames -/

section Frame

theorem getElem?_of_isPrefix {α : Type} {l l' : List α} (hp : l <+: l') {i : Nat} {a : α}
    (h : l[i]? = some a) : l'[i]? = some a := by
  obtain ⟨t, rfl⟩ := hp
  rw [List.getElem?_append_left (List.getElem?_eq_some_iff.mp h).1, h]

theorem Heap.Extends.isPrefix {h h' : Heap} (he : h.Extends h') : h.mappings <+: h'.mappings := by
  obtain ⟨⟨k, hk⟩, -⟩ := he
  exact ⟨_, hk.symm⟩

mutual
/-- A layout survives new mappings and trees. -/
theorem Holds.mono {h h' : Heap} (hp : h.mappings <+: h'.mappings) :
    ∀ {x e A}, Holds h x e A → Holds h' x e A
  | _, _, _, .record r => .record r
  | _, _, _, .tuple r hm hes => .tuple r (getElem?_of_isPrefix hp hm) (HoldsAll.mono hp hes)
theorem HoldsAll.mono {h h' : Heap} (hp : h.mappings <+: h'.mappings) :
    ∀ {m es A}, HoldsAll h m es A → HoldsAll h' m es A
  | _, _, _, .nil => .nil
  | _, _, _, .cons k hs hm => .cons k (Holds.mono hp hs) (HoldsAll.mono hp hm)
end

/-- A write at `c₀` leaves a mapping the layout uses, unless the layout uses it up. -/
theorem getElem?_setMapping_of_owned {h : Heap} {c₀ c : Nat} {m m₀ : List (String × Slot)}
    (hc₀ : h.mappings[c₀]? = some [] → m₀ = []) (hm : h.mappings[c]? = some m)
    (hA : c₀ ∉ owned c m) : (h.setMapping c₀ m₀).mappings[c]? = some m := by
  by_cases heq : c₀ = c
  · subst heq
    cases m with
    | nil => rw [Heap.getElem?_setMapping_self (bound hm), hc₀ hm]
    | cons ks m => exact absurd (List.mem_singleton_self _) hA
  · rw [Heap.getElem?_setMapping_ne heq, hm]

mutual
/-- A layout survives a write at an address it does not use up, when the write keeps an
empty mapping empty. -/
theorem Holds.setMapping {h : Heap} {c₀ : Nat} {m₀ : List (String × Slot)}
    (hc₀ : h.mappings[c₀]? = some [] → m₀ = []) :
    ∀ {x e A}, Holds h x e A → c₀ ∉ A → Holds (h.setMapping c₀ m₀) x e A
  | _, _, _, .record r, _ => .record r
  | _, _, _, .tuple r hm hes, hA =>
    .tuple r (getElem?_setMapping_of_owned hc₀ hm fun h => hA (List.mem_append_left _ h))
      (HoldsAll.setMapping hc₀ hes fun h => hA (List.mem_append_right _ h))
theorem HoldsAll.setMapping {h : Heap} {c₀ : Nat} {m₀ : List (String × Slot)}
    (hc₀ : h.mappings[c₀]? = some [] → m₀ = []) :
    ∀ {m es A}, HoldsAll h m es A → c₀ ∉ A → HoldsAll (h.setMapping c₀ m₀) m es A
  | _, _, _, .nil, _ => .nil
  | _, _, _, .cons k hs hm, hA =>
    .cons k (Holds.setMapping hc₀ hs fun h => hA (List.mem_append_left _ h))
      (HoldsAll.setMapping hc₀ hm fun h => hA (List.mem_append_right _ h))
end

theorem validIn_of_childrenOf {h : Heap} {t c : Nat} (hc : h.childrenOf (.tree t) = some c) :
    ValidIn h (.tree t) := by
  cases ht : h.trees[t]? with
  | none => rw [Heap.childrenOf, ht] at hc; cases hc
  | some _ => exact (List.getElem?_eq_some_iff.mp ht).1

theorem Pending.of_extends {h h' : Heap} (he : h.Extends h') {p : Pend} (hp : Pending h p) :
    Pending h' p := by
  obtain ⟨c, m, A, hc, hm, hall, hA⟩ := hp
  exact ⟨c, m, A, by rw [childrenOf_extends he (validIn_of_childrenOf hc), hc],
    getElem?_of_isPrefix he.isPrefix hm, hall.mono he.isPrefix, hA⟩

theorem Pending.setMapping {h : Heap} {c₀ : Nat} {m₀ : List (String × Slot)}
    (hc₀ : h.mappings[c₀]? = some [] → m₀ = []) {p : Pend} (hp : Pending h p) (hA : c₀ ∉ p.addrs) :
    Pending (h.setMapping c₀ m₀) p := by
  obtain ⟨c, m, A, hc, hm, hall, hp⟩ := hp
  rw [hp] at hA
  exact ⟨c, m, A, by rw [Heap.childrenOf_setMapping, hc],
    getElem?_setMapping_of_owned hc₀ hm fun h => hA (List.mem_append_left _ h),
    hall.setMapping hc₀ fun h => hA (List.mem_append_right _ h), hp⟩

theorem Heap.setMapping_self {h : Heap} {c : Nat} {m : List (String × Slot)}
    (hm : h.mappings[c]? = some m) : h.setMapping c m = h := by
  obtain ⟨ms, trees⟩ := h
  show Heap.mk (ms.set c m) trees = Heap.mk ms trees
  rw [PrefixTree.set_of_getElem? hm]

theorem owned_of_ne_nil (c : Nat) {m : List (String × Slot)} (hm : m ≠ []) : owned c m = [c] := by
  cases m with
  | nil => exact absurd rfl hm
  | cons _ _ => rfl

theorem eq_of_mem_owned {c c' : Nat} {m : List (String × Slot)} (h : c' ∈ owned c m) : c' = c := by
  cases m with
  | nil => cases h
  | cons _ _ => exact List.mem_singleton.mp h

/-- The pass that converts the mapping at `c` keeps a pending tree whose layout does not
use that mapping up: writing back an empty mapping changes nothing. -/
theorem Pending.pass {h : Heap} {c : Nat} {cur : List (String × Slot)} (ts : List Nat)
    (hm : h.mappings[c]? = some cur) {p : Pend} (hp : Pending h p) (hA : cur ≠ [] → c ∉ p.addrs) :
    Pending (h.setMapping c (converted cur ts)) p := by
  cases cur with
  | nil => rwa [show converted [] ts = [] from rfl, Heap.setMapping_self hm]
  | cons ks cur =>
    exact hp.setMapping (fun h => by rw [hm] at h; cases h) (hA (List.cons_ne_nil _ _))

end Frame

/-! ## The loop on a layout -/

section Loop

variable (LF : String)

theorem childrenError_cons (k : String) (e : Entry) (es : List (String × Entry)) :
    childrenError LF ((k, e) :: es) = (recordError LF e.properties).or (childrenError LF es) :=
  findSome?_cons_eq_or _ _ _

theorem errorOf_prefixTree (h : Heap) (r : PyDict) (c : Nat) :
    errorOf (prefixTree LF h r c) = recordError LF r := by
  unfold prefixTree recordError
  cases PathProperties.new LF r <;> rfl

/-- `tree_from_tuples` on a laid-out value raises what the schema check of its record
raises, and otherwise makes a tree whose mapping holds the entry's children. -/
theorem treeFromTuples_layout {h : Heap} {s : Slot} {e : Entry} {B : List Nat} (hs : Holds h s e B) :
    errorOf (treeFromTuples LF h s) = recordError LF e.properties ∧
    ∀ h' t, treeFromTuples LF h s = .ok (h', t) →
      h.Extends h' ∧ t = h.trees.length ∧ Pending h' ⟨t, e.children, B⟩ := by
  refine ⟨by cases hs <;> exact errorOf_prefixTree LF _ _ _, fun h' t ht => ?_⟩
  obtain ⟨he, rfl, -, tree, htree, hmade⟩ := treeFromTuples_made LF ht
  have hc := Heap.childrenOf_tree htree
  refine ⟨he, rfl, ?_⟩
  cases hs with
  | record r =>
    have hlt : tree.children < h'.mappings.length := hmade.2.2
    have hm : h'.mappings[tree.children]? = some h'.mappings[tree.children] :=
      List.getElem?_eq_getElem hlt
    rw [he.mappings_getElem?_new hmade.2.1 hm] at hm
    exact ⟨_, [], [], hc, hm, .nil, rfl⟩
  | tuple r hm hes =>
    rw [hmade.2] at hc
    exact ⟨_, _, _, hc, getElem?_of_isPrefix he.isPrefix hm, hes.mono he.isPrefix, rfl⟩

/-- The `for child_key in cur_children` loop on laid-out values raises the first
exception of the children's records, and otherwise leaves one pending tree for each
child, in order, using up the child's mappings. -/
theorem convertChildren_layout {m : List (String × Slot)} :
    ∀ {h : Heap} {es : List (String × Entry)} {A : List Nat}, HoldsAll h m es A →
      errorOf (convertChildren LF h m) = childrenError LF es ∧
      ∀ h' ts, convertChildren LF h m = .ok (h', ts) → h.Extends h' ∧
        ∃ N : List Pend, N.map (·.tree) = ts ∧ N.map (·.children) = es.map (·.2.children) ∧
          N.flatMap (·.addrs) = A ∧ ∀ p ∈ N, Pending h' p := by
  induction m with
  | nil =>
    intro h es A hall
    cases hall
    refine ⟨rfl, fun h' ts hc => ?_⟩
    cases hc
    exact ⟨Heap.Extends.refl _, [], rfl, rfl, rfl, fun _ hp => nomatch hp⟩
  | cons ks m ih =>
    intro h es A hall
    obtain ⟨k, s⟩ := ks
    cases hall with
    | cons _ hs hall =>
      obtain ⟨herr, hok⟩ := treeFromTuples_layout LF hs
      rw [childrenError_cons, ← herr]
      refine ⟨?_, fun h' ts hc => ?_⟩
      · cases ht : treeFromTuples LF h s with
        | error ex => simp [convertChildren, ht]
        | ok r =>
          obtain ⟨h₁, t⟩ := r
          rw [errorOf_ok, Option.none_or, ← (ih (hall.mono (hok h₁ t ht).1.isPrefix)).1]
          simp only [convertChildren, ht, ok_bind]
          cases convertChildren LF h₁ m <;> rfl
      · obtain ⟨h₁, t, ts', ht, hc', rfl⟩ := (convertChildren_cons_eq_ok_iff LF h k s m h' ts).mp hc
        obtain ⟨he₁, -, hp⟩ := hok h₁ t ht
        obtain ⟨he', N, rfl, hNc, rfl, hNp⟩ := (ih (hall.mono he₁.isPrefix)).2 h' ts' hc'
        refine ⟨he₁.trans he', ⟨t, _, _⟩ :: N, rfl, by rw [List.map_cons, hNc]; rfl, rfl, ?_⟩
        rintro p (_ | ⟨_, hp'⟩)
        · exact hp.of_extends he'
        · exact hNp p hp'

theorem findSome?_reverse_of_map_eq {α β γ δ : Type} {l₁ : List α} {l₂ : List β} {f : α → γ}
    {g : β → γ} (F : γ → Option δ) (h : l₁.map f = l₂.map g) :
    l₁.reverse.findSome? (F ∘ f) = l₂.reverse.findSome? (F ∘ g) := by
  rw [← List.findSome?_map, ← List.findSome?_map, List.map_reverse, List.map_reverse, h]

/-- The trees a pass made, the last first, raise what the subtrees of the converted
children raise. -/
theorem findSome?_error_reverse {N : List Pend} {es : List (String × Entry)}
    (hNc : N.map (·.children) = es.map (·.2.children)) :
    N.reverse.findSome? (Pend.error LF) = Entry.scanErrors LF es := by
  have hF : ∀ e : Entry, e.scanError LF =
      (fun cs => (childrenError LF cs).or (Entry.scanErrors LF cs)) e.children :=
    Entry.scanError_eq LF
  rw [Entry.scanErrors_eq]
  simp only [hF]
  exact findSome?_reverse_of_map_eq (fun cs => (childrenError LF cs).or (Entry.scanErrors LF cs)) hNc

section Step

variable {h h' : Heap} {p : Pend} {L N : List Pend} {c : Nat} {cur : List (String × Slot)}
  {A : List Nat}

/-- The stack top's mapping holds its declared children. -/
theorem TreeInv.head (hinv : TreeInv h (p :: L)) (hc : h.childrenOf (.tree p.tree) = some c)
    (hm : h.mappings[c]? = some cur) : ∃ A, HoldsAll h cur p.children A ∧ p.addrs = owned c cur ++ A := by
  obtain ⟨c', m, A, hc', hm', hall, hA⟩ := hinv.pending p (List.mem_cons_self _ _)
  rw [hc] at hc'; cases hc'
  rw [hm] at hm'; cases hm'
  exact ⟨A, hall, hA⟩

/-- **Step.**  After the pass on the stack top, the trees it made are pending in its
place: the pass writes the top's own mapping, which no other pending tree uses up. -/
theorem TreeInv.pass (hinv : TreeInv h (p :: L)) (hm : h.mappings[c]? = some cur)
    (hA : p.addrs = owned c cur ++ A) (he : h.Extends h') (hNa : N.flatMap (·.addrs) = A)
    (hNp : ∀ q ∈ N, Pending h' q) (ts : List Nat) :
    TreeInv (h'.setMapping c (converted cur ts)) (N.reverse ++ L) := by
  have hnd := hinv.nodup
  rw [List.flatMap_cons, hA, List.append_assoc] at hnd
  have hcA : cur ≠ [] → c ∉ A ++ L.flatMap (·.addrs) := fun hne => by
    rw [owned_of_ne_nil c hne] at hnd
    exact (List.nodup_cons.mp hnd).1
  have hm' : h'.mappings[c]? = some cur := getElem?_of_isPrefix he.isPrefix hm
  refine ⟨fun q hq => ?_, ?_⟩
  · rcases List.mem_append.mp hq with hq | hq
    · refine (hNp q (List.mem_reverse.mp hq)).pass ts hm' fun hne hcq => hcA hne ?_
      rw [← hNa]
      exact List.mem_append_left _ (List.mem_flatMap.mpr ⟨q, List.mem_reverse.mp hq, hcq⟩)
    · refine ((hinv.pending q (List.mem_cons_of_mem _ hq)).of_extends he).pass ts hm'
        fun hne hcq => hcA hne ?_
      exact List.mem_append_right _ (List.mem_flatMap.mpr ⟨q, hq, hcq⟩)
  · rw [List.flatMap_append]
    refine (((List.reverse_perm N).flatMap_right _).append_right _).nodup_iff.mpr ?_
    rw [hNa]
    exact hnd.sublist (List.sublist_append_right _ _)

end Step

/-- **Loop on a layout.**  From a state that keeps `TreeInv`, the rest of the run raises
the first exception of the scans of the pending trees, the stack top first. -/
theorem makeLoop_layout {h : Heap} {todo : List Nat} {L : List Pend} (hinv : TreeInv h L)
    (htodo : todo = L.map (·.tree)) : errorOf (makeLoop LF h todo) = L.findSome? (Pend.error LF) := by
  induction h, todo using makeLoop.induct LF generalizing L with
  | case1 h =>
    obtain rfl : L = [] := List.map_eq_nil_iff.mp htodo.symm
    rw [makeLoop_nil]; rfl
  | case2 h t todo hc =>
    obtain ⟨p, L', rfl, rfl, -⟩ := List.map_eq_cons_iff.mp htodo.symm
    obtain ⟨c, m, A, hc', -⟩ := hinv.pending p (List.mem_cons_self _ _)
    rw [hc] at hc'; cases hc'
  | case3 h t todo c hc hm =>
    obtain ⟨p, L', rfl, rfl, -⟩ := List.map_eq_cons_iff.mp htodo.symm
    obtain ⟨c', m, A, hc', hm', -⟩ := hinv.pending p (List.mem_cons_self _ _)
    rw [hc] at hc'; cases hc'
    rw [hm] at hm'; cases hm'
  | case4 h t todo c hc cur hm ex hcv =>
    obtain ⟨p, L', rfl, rfl, -⟩ := List.map_eq_cons_iff.mp htodo.symm
    obtain ⟨A, hall, -⟩ := hinv.head hc hm
    rw [makeLoop_error LF hc hm hcv, findSome?_cons_eq_or, Pend.error,
      ← (convertChildren_layout LF hall).1, hcv]
    rfl
  | case5 h t todo c hc cur hm h' ts hcv ih =>
    obtain ⟨p, L', rfl, rfl, rfl⟩ := List.map_eq_cons_iff.mp htodo.symm
    obtain ⟨A, hall, hA⟩ := hinv.head hc hm
    obtain ⟨herr, hok⟩ := convertChildren_layout LF hall
    rw [hcv, errorOf_ok] at herr
    obtain ⟨he, N, rfl, hNc, hNa, hNp⟩ := hok h' _ hcv
    rw [makeLoop_step LF hc hm hcv rfl,
      ih (hinv.pass hm hA he hNa hNp _) (by rw [List.map_append, List.map_reverse]),
      List.findSome?_append, findSome?_cons_eq_or, Pend.error, ← herr, Option.none_or,
      findSome?_error_reverse LF hNc]

end Loop

/-! ## The outcome -/

section Outcome

variable (LF : String) {h₀ : Heap} {x₀ : Slot} {e : Entry} {A : List Nat}

/-- A key of a laid-out mapping leads to a laid-out value, the one the children dict has
under that key. -/
theorem HoldsAll.dictGet {h : Heap} {m : List (String × Slot)} {es : List (String × Entry)}
    {B : List Nat} (hall : HoldsAll h m es B) (k : String) :
    (dictGet m k = none ∧ dictGet es k = none) ∨
      ∃ z e' B', dictGet m k = some z ∧ dictGet es k = some e' ∧ Holds h z e' B' := by
  induction m generalizing es B with
  | nil => cases hall; exact .inl ⟨rfl, rfl⟩
  | cons ks m ih =>
    obtain ⟨k', s⟩ := ks
    cases hall with
    | cons _ hs hall =>
      rw [dictGet_cons, dictGet_cons]
      split
      · exact .inr ⟨_, _, _, rfl, rfl, hs⟩
      · exact ih hall

/-- The heap has, at each sequence of segment names, the record the entry has there. -/
theorem Holds.recordAt {h : Heap} {x : Slot} (hl : Holds h x e A) (s : List String) :
    h.recordAt x s = e.recordAt s := by
  induction s generalizing x e A with
  | nil => cases hl <;> rfl
  | cons k s ih =>
    rw [Heap.recordAt, Heap.slotAt_cons, Option.bind_assoc, Entry.recordAt]
    cases hl with
    | record r => rfl
    | tuple r hm hes =>
      show ((h.lookup _ k).bind fun z => (h.slotAt z s).bind Slot.record?) = _
      rw [Heap.lookup, hm, Option.some_bind]
      rcases hes.dictGet k with ⟨hz, he⟩ | ⟨z, e', B', hz, he, hB⟩
      · rw [hz, Entry.children, he]; rfl
      · rw [hz, Entry.children, he, Option.some_bind, Option.some_bind, ← ih hB]; rfl

/-- **Exact outcome on a tree.**  On declarations laid out as a tree, `make_from_tuples`
raises exactly the first exception of the scan of the entry they read as. -/
theorem errorOf_makeFromTuples_layout (hl : Holds h₀ x₀ e A) (hA : A.Nodup) :
    errorOf (makeFromTuples LF h₀ x₀) = e.buildError LF := by
  obtain ⟨herr, hok⟩ := treeFromTuples_layout LF hl
  rw [Entry.buildError, ← herr]
  cases ht : treeFromTuples LF h₀ x₀ with
  | error ex => simp only [makeFromTuples, ht, error_bind]; rfl
  | ok r =>
    obtain ⟨h₁, top⟩ := r
    obtain ⟨-, -, hp⟩ := hok h₁ top ht
    have hinv : TreeInv h₁ [⟨top, e.children, A⟩] :=
      ⟨fun p hp' => by rw [List.mem_singleton.mp hp']; exact hp, by simpa using hA⟩
    have hloop := makeLoop_layout LF hinv rfl
    simp only [findSome?_cons_eq_or, List.findSome?_nil, Option.or_none, Pend.error, List.map_cons,
      List.map_nil] at hloop
    rw [← Entry.scanError_eq] at hloop
    rw [errorOf_ok, Option.none_or, ← hloop]
    simp only [makeFromTuples, ht, ok_bind]
    cases makeLoop LF h₁ [top] <;> rfl

/-- **`make_from_tuples` on a tree of declarations.**  When no non-empty children dict
is reached from two places, `make_from_tuples` raises `ValueError` exactly when a record
of the structure has a key outside `default_properties`; otherwise it returns a tree with
a node at each sequence of segment names where the structure has an entry, holding that
entry's record. -/
theorem makeFromTuples_correct (hd : h₀.Declarative x₀) (hl : Holds h₀ x₀ e A) (hA : A.Nodup) :
    ((∃ msg, makeFromTuples LF h₀ x₀ = .error (.valueError msg)) ↔ ∃ r ∈ e.records, ¬r.Known LF) ∧
    ((∀ r ∈ e.records, r.Known LF) → ∃ h top, makeFromTuples LF h₀ x₀ = .ok (h, top) ∧
      ∀ s, (h.nodeAt top s).map (·.properties) = e.recordAt s) := by
  have herr := errorOf_makeFromTuples_layout LF hl hA
  rcases e.buildError_spec LF with ⟨hnone, hall⟩ | ⟨r, hr, hunk, msg, hsome⟩
  · obtain ⟨⟨h, top⟩, hok⟩ := errorOf_eq_none_iff.mp (herr.trans hnone)
    refine ⟨⟨fun ⟨_, h'⟩ => (by rw [hok] at h'; cases h'), fun ⟨r, hr, hn⟩ => (hn (hall r hr)).elim⟩,
      fun _ => ⟨h, top, hok, fun s => ?_⟩⟩
    rw [(RunInv.of_makeFromTuples LF hd hok).nodeAt, hl.recordAt]
    cases e.recordAt s <;> rfl
  · exact ⟨⟨fun _ => ⟨r, hr, hunk⟩, fun _ => ⟨msg, errorOf_eq_some_iff.mp (herr.trans hsome)⟩⟩,
      fun hall => (hunk (hall r hr)).elim⟩

/-- The structure `sharedEmptyHeap` reads as: two pairs, each with an empty dict. -/
def sharedEmptyEntry : Entry :=
  .tuple PyDict.empty [("a", .tuple PyDict.empty []), ("b", .tuple PyDict.empty [])]

theorem holds_sharedEmpty : Holds sharedEmptyHeap (.tuple PyDict.empty 0) sharedEmptyEntry [0] :=
  .tuple _ rfl (.cons "a" (.tuple _ rfl .nil) (.cons "b" (.tuple _ rfl .nil) .nil))

/-- Two pairs share one empty children dict: the structure is still a tree, and the run
returns it. -/
theorem makeFromTuples_correct_shared_empty :
    ∃ h top, makeFromTuples "" sharedEmptyHeap (.tuple PyDict.empty 0) = .ok (h, top) ∧
      ∀ s, (h.nodeAt top s).map (·.properties) = sharedEmptyEntry.recordAt s :=
  (makeFromTuples_correct "" (by decide) holds_sharedEmpty (by decide)).2 (by decide)

/-- `ia = ({}, {"freestanding": {}})`, one object named twice: `({}, {"a": ia, "b": ia})`.
The mapping at address 1 is `ia`'s children dict. -/
def sharedHeap : Heap :=
  ⟨[[("a", .tuple PyDict.empty 1), ("b", .tuple PyDict.empty 1)],
    [("freestanding", .record PyDict.empty)]], []⟩

/-- The structure `sharedHeap` reads as. -/
def sharedEntry : Entry :=
  .tuple PyDict.empty [("a", .tuple PyDict.empty [("freestanding", .record PyDict.empty)]),
    ("b", .tuple PyDict.empty [("freestanding", .record PyDict.empty)])]

/-- A non-empty children dict reached from two places: every record passes the schema
check, yet `make_from_tuples` raises `TypeError`.  The pass for `b` writes a tree into
`ia`'s dict, and the pass for `a` then reads that tree as a record. -/
theorem makeFromTuples_shared_mapping :
    sharedHeap.Declarative (.tuple PyDict.empty 0) ∧
    Holds sharedHeap (.tuple PyDict.empty 0) sharedEntry [0, 1, 1] ∧
    (∀ r ∈ sharedEntry.records, r.Known "") ∧
    makeFromTuples "" sharedHeap (.tuple PyDict.empty 0) =
      .error (.typeError "\x27PrefixTree\x27 object is not iterable") := by
  refine ⟨by decide, .tuple _ rfl (.cons "a" (.tuple _ rfl (.cons "freestanding" (.record _) .nil))
    (.cons "b" (.tuple _ rfl (.cons "freestanding" (.record _) .nil)) .nil)), by decide, ?_⟩
  apply makeFromTuples_eq_error ""
  · rfl
  iterate 3
    apply makeLoop_step ""
    · rfl
    · rfl
    · rfl
  apply makeLoop_error ""
  · rfl
  · rfl
  · rfl

/-- **Build order on a tree of declarations.**  `make_from_tuples` raises exactly the
exception of the first failing record in the order of its work list (`Entry.buildError`);
when there is none, it returns the declared tree. -/
theorem makeFromTuples_eq_buildError (hd : h₀.Declarative x₀) (hl : Holds h₀ x₀ e A) (hA : A.Nodup) :
    match e.buildError LF with
    | some ex => makeFromTuples LF h₀ x₀ = .error ex
    | none => ∃ h top, makeFromTuples LF h₀ x₀ = .ok (h, top) ∧
        ∀ s, h.nodeAt top s = (e.recordAt s).map ({ properties := · }) := by
  have herr := errorOf_makeFromTuples_layout LF hl hA
  cases hb : e.buildError LF with
  | some ex => exact errorOf_eq_some_iff.mp (herr.trans hb)
  | none =>
    obtain ⟨⟨h, top⟩, hok⟩ := errorOf_eq_none_iff.mp (herr.trans hb)
    exact ⟨h, top, hok, fun s => by rw [(RunInv.of_makeFromTuples LF hd hok).nodeAt, hl.recordAt]⟩

/-- On the tree whose two pairs share an empty dict, the run returns the declared tree. -/
theorem makeFromTuples_eq_buildError_shared_empty :
    ∃ h top, makeFromTuples "" sharedEmptyHeap (.tuple PyDict.empty 0) = .ok (h, top) ∧
      ∀ s, h.nodeAt top s = (sharedEmptyEntry.recordAt s).map ({ properties := · }) :=
  makeFromTuples_eq_buildError "" (by decide) holds_sharedEmpty (by decide)

end Outcome

end Objects

end Lkmc

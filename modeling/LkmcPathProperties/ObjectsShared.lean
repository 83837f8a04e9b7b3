import LkmcPathProperties.ObjectsLayout

/-!
# A children dict reached twice

`make_from_tuples` converts, in place, the children dict of every tree it pops.  When two
different sequences of segment names lead to pairs naming one non-empty dict, the loop
pops two trees with that dict as children, and the second pass meets the trees the first
one wrote there.  So a run returns only on declarations in which every non-empty dict is
reached once:

    h₀.slotAt x₀ s₁ = some (.tuple r₁ c) → h₀.slotAt x₀ s₂ = some (.tuple r₂ c) → s₁ ≠ s₂ →
      h₀.mappings[c]? = some (ks :: m) → ∃ ex, makeFromTuples LF h₀ x₀ = .error ex
                                                           (makeFromTuples_raises_of_shared)

A run keeps `OnceInv`: a tree is stored at one place at most and the top tree nowhere,
two trees popped with one children mapping have an empty one, and no mapping changes its
length.  At the end of a run, the walk from the top tree meets each tree at one sequence
of segment names only (`OnceInv.slotAt_inj`).
-/

namespace Lkmc

namespace Objects

/-- The tree `t` is the value at the `i`-th key of the mapping at `c`. -/
def StoredAt (h : Heap) (t c i : Nat) : Prop :=
  ∃ m k, h.mappings[c]? = some m ∧ m[i]? = some (k, .tree t)

/-- What a run of the loop from the declarations in `h₀`, with top tree `top`, keeps about
where the trees are stored. -/
structure OnceInv (h₀ : Heap) (top : Nat) (h : Heap) (todo : List Nat) : Prop where
  once : ∀ t c₁ i₁ c₂ i₂, StoredAt h t c₁ i₁ → StoredAt h t c₂ i₂ → c₁ = c₂ ∧ i₁ = i₂
  top : ∀ c i, ¬StoredAt h top c i
  popped : ∀ (t₁ t₂ : Nat) (tree₁ tree₂ : TreeObj) (m : List (String × Slot)), t₁ ≠ t₂ →
    t₁ ∉ todo → t₂ ∉ todo → h₀.trees.length ≤ t₁ → h₀.trees.length ≤ t₂ →
    h.trees[t₁]? = some tree₁ → h.trees[t₂]? = some tree₂ → tree₁.children = tree₂.children →
    h.mappings[tree₁.children]? = some m → m = []
  length : ∀ c, c < h₀.mappings.length →
    (h.mappings[c]?).map List.length = (h₀.mappings[c]?).map List.length

/-! ## Lemmas -/

section Lemmas

theorem storedAt_of_lookup {h : Heap} {c t : Nat} {k : String} (hz : h.lookup c k = some (.tree t)) :
    ∃ (i : Nat) (m : List (String × Slot)), h.mappings[c]? = some m ∧ m[i]? = some (k, .tree t) := by
  obtain ⟨m, hm, hmem⟩ := Heap.mem_of_lookup_eq_some hz
  obtain ⟨i, hi⟩ := List.mem_iff_getElem?.mp hmem
  exact ⟨i, m, hm, hi⟩

/-- The `i`-th value a pass writes is the `i`-th new tree. -/
theorem getElem?_converted {cur : List (String × Slot)} {ts : List Nat} {i t : Nat} {k : String}
    (h : (converted cur ts)[i]? = some (k, .tree t)) : ts[i]? = some t := by
  rw [converted, List.getElem?_zipWith] at h
  split at h
  · cases h; assumption
  · cases h

/-- A mapping whose values are all trees and none a tree is empty. -/
theorem eq_nil_of_isTree {m : List (String × Slot)} (h₁ : ∀ ks ∈ m, ks.2.isTree = true)
    (h₂ : ∀ ks ∈ m, ks.2.isTree = false) : m = [] := by
  cases m with
  | nil => rfl
  | cons ks m =>
    have := h₁ ks (List.mem_cons_self _ _)
    rw [h₂ ks (List.mem_cons_self _ _)] at this
    cases this

theorem Heap.slotAt_append_singleton (h : Heap) (x : Slot) (s : List String) (k : String) :
    h.slotAt x (s ++ [k]) = (h.slotAt x s).bind fun y => (h.childrenOf y).bind (h.lookup · k) := by
  induction s generalizing x with
  | nil =>
    rw [List.nil_append, Heap.slotAt_cons]
    show _ = (h.childrenOf x).bind (h.lookup · k)
    cases (h.childrenOf x).bind (h.lookup · k) <;> rfl
  | cons k' s ih =>
    rw [List.cons_append, Heap.slotAt_cons, Heap.slotAt_cons]
    cases (h.childrenOf x).bind (h.lookup · k') with
    | none => rfl
    | some z => exact ih z

theorem Heap.lookup_of_slotAt_append {h : Heap} {x z : Slot} {s : List String} {k : String}
    (hz : h.slotAt x (s ++ [k]) = some z) :
    ∃ y c, h.slotAt x s = some y ∧ h.childrenOf y = some c ∧ h.lookup c k = some z := by
  rw [Heap.slotAt_append_singleton] at hz
  cases hy : h.slotAt x s with
  | none => rw [hy] at hz; cases hz
  | some y =>
    rw [hy, Option.some_bind] at hz
    cases hc : h.childrenOf y with
    | none => rw [hc] at hz; cases hz
    | some c => rw [hc, Option.some_bind] at hz; exact ⟨y, c, rfl, hc, hz⟩

variable {h₀ : Heap} {x₀ : Slot} {top : Nat}

/-- A tree stored in a mapping during a run is one the run made. -/
theorem RunInv.storedAt_lt {h : Heap} {todo : List Nat} (hrun : RunInv h₀ x₀ top h todo)
    {t c i : Nat} (hs : StoredAt h t c i) : h₀.trees.length ≤ t ∧ t < h.trees.length := by
  obtain ⟨m, k, hm, hi⟩ := hs
  exact hrun.slots c m hm _ (List.getElem?_mem hi) t rfl

/-- What a pass stores: the new trees in the converted mapping, and elsewhere what was
stored before. -/
theorem storedAt_pass {h h' : Heap} {c c' i t : Nat} {cur : List (String × Slot)} {ts : List Nat}
    (he : h.Extends h') (hm : h.mappings[c]? = some cur)
    (hs : StoredAt (h'.setMapping c (converted cur ts)) t c' i) :
    (c' = c ∧ ts[i]? = some t) ∨ (c' ≠ c ∧ StoredAt h t c' i) := by
  obtain ⟨m, k, hm', hi⟩ := hs
  rcases getElem?_pass he hm hm' with ⟨rfl, rfl⟩ | ⟨hne, hold | rfl⟩
  · exact .inl ⟨rfl, getElem?_converted hi⟩
  · exact .inr ⟨hne, m, k, hold, hi⟩
  · cases hi

variable (LF : String) {h h' : Heap} {t c : Nat} {todo ts : List Nat} {cur : List (String × Slot)}

/-- The run starts with no tree stored anywhere. -/
theorem onceInv_init (hd : h₀.Declarative x₀) (ht : treeFromTuples LF h₀ x₀ = .ok (h, top)) :
    OnceInv h₀ top h [top] := by
  obtain ⟨he, rfl, hl, -⟩ := treeFromTuples_made LF ht
  have hnone : ∀ t c i, ¬StoredAt h t c i := fun t c i hs => by
    obtain ⟨m, k, hm, hi⟩ := hs
    by_cases hc : c < h₀.mappings.length
    · rw [he.mappings_getElem? hc] at hm
      have := hd.2 m (List.getElem?_mem hm) _ (List.getElem?_mem hi)
      cases this
    · rw [he.mappings_getElem?_new (Nat.le_of_not_lt hc) hm] at hi; cases hi
  refine ⟨fun t _ _ _ _ hs => (hnone t _ _ hs).elim, hnone _,
    fun t₁ t₂ _ _ _ hne _ _ hge₁ hge₂ ht₁ ht₂ _ _ => ?_, fun c hc => by rw [he.mappings_getElem? hc]⟩
  have h₁ := (List.getElem?_eq_some_iff.mp ht₁).1
  have h₂ := (List.getElem?_eq_some_iff.mp ht₂).1
  omega

/-- **Step.**  One pass of the loop body keeps `OnceInv`. -/
theorem onceInv_step (hrun : RunInv h₀ x₀ top h (t :: todo)) (honce : OnceInv h₀ top h (t :: todo))
    (hc : h.childrenOf (.tree t) = some c) (hm : h.mappings[c]? = some cur)
    (hcv : convertChildren LF h cur = .ok (h', ts)) :
    OnceInv h₀ top (h'.setMapping c (converted cur ts)) (ts.reverse ++ todo) := by
  obtain ⟨he, hts, -, -⟩ := convertChildren_made LF hcv
  obtain ⟨-, hlts, hnt⟩ := convertChildren_eq_ok LF hcv
  have hmem : ∀ {t' i}, ts[i]? = some t' → h.trees.length ≤ t' := fun hi => by
    have := List.getElem?_mem hi
    rw [hts, List.mem_range'_1] at this; omega
  have hcur : ∀ u tree, u ≠ t → u ∉ todo → h₀.trees.length ≤ u → h.trees[u]? = some tree →
      tree.children = c → cur = [] := fun u tree hne hn hge hu hch =>
    eq_nil_of_isTree (hrun.popped u tree cur hge (by simp [hne, hn]) hu (hch ▸ hm)) hnt
  refine ⟨fun t' c₁ i₁ c₂ i₂ hs₁ hs₂ => ?_, fun c' i hs => ?_,
    fun t₁ t₂ tree₁ tree₂ m hne hn₁ hn₂ hge₁ hge₂ ht₁ ht₂ hch hm' => ?_, fun c' hc' => ?_⟩
  · rcases storedAt_pass he hm hs₁ with ⟨rfl, hi₁⟩ | ⟨-, ho₁⟩ <;>
      rcases storedAt_pass he hm hs₂ with ⟨rfl, hi₂⟩ | ⟨-, ho₂⟩
    · exact ⟨rfl, List.getElem?_inj (List.getElem?_eq_some_iff.mp hi₁).1
        (hts ▸ List.nodup_range' _ _) (hi₁.trans hi₂.symm)⟩
    · have := hmem hi₁; have := hrun.storedAt_lt ho₂; omega
    · have := hmem hi₂; have := hrun.storedAt_lt ho₁; omega
    · exact honce.once t' c₁ i₁ c₂ i₂ ho₁ ho₂
  · rcases storedAt_pass he hm hs with ⟨-, hi⟩ | ⟨-, ho⟩
    · have := hmem hi; have := hrun.top.2; omega
    · exact honce.top c' i ho
  · have ht₁' := getElem?_trees_pass LF hcv (fun h => hn₁ (by simp [h])) ht₁
    have ht₂' := getElem?_trees_pass LF hcv (fun h => hn₂ (by simp [h])) ht₂
    have hpop : ∀ u, u ≠ t → u ∉ ts.reverse ++ todo → u ∉ t :: todo := fun u hne hn hu =>
      (List.mem_cons.mp hu).elim hne fun h => hn (List.mem_append_right _ h)
    rcases getElem?_pass he hm hm' with ⟨hcc, rfl⟩ | ⟨hcc, hm'' | rfl⟩
    · by_cases h₁ : t₁ = t
      · rw [hcur t₂ tree₂ (h₁ ▸ hne).symm (fun h => hn₂ (by simp [h])) hge₂ ht₂' (hch ▸ hcc)]
        rfl
      · rw [hcur t₁ tree₁ h₁ (fun h => hn₁ (by simp [h])) hge₁ ht₁' hcc]
        rfl
    · have h₁ : t₁ ≠ t := by rintro rfl; exact hcc (Heap.children_eq_of_childrenOf hc ht₁')
      have h₂ : t₂ ≠ t := by rintro rfl; exact hcc (hch.trans (Heap.children_eq_of_childrenOf hc ht₂'))
      exact honce.popped t₁ t₂ tree₁ tree₂ m hne (hpop t₁ h₁ hn₁) (hpop t₂ h₂ hn₂) hge₁ hge₂
        ht₁' ht₂' hch hm''
    · rfl
  · by_cases hcc : c' = c
    · subst hcc
      rw [Heap.getElem?_setMapping_self (Nat.lt_of_lt_of_le (bound hm) he.length_mappings), ← honce.length c' hc',
        hm, Option.map_some', Option.map_some', converted, List.length_zipWith, hlts, Nat.min_self]
    · have hlt : c' < h.mappings.length := Nat.lt_of_lt_of_le hc' hrun.length
      rw [Heap.getElem?_setMapping_ne (Ne.symm hcc), he.mappings_getElem? hlt, honce.length c' hc']

theorem OnceInv.drop (honce : OnceInv h₀ top h (t :: todo)) (hc : h.childrenOf (.tree t) = some c)
    (hm : h.mappings[c]? = none) : OnceInv h₀ top h todo := by
  refine { honce with popped := fun t₁ t₂ tree₁ tree₂ m hne hn₁ hn₂ hge₁ hge₂ ht₁ ht₂ hch hm' => ?_ }
  by_cases h₁ : t₁ = t
  · subst h₁; rw [Heap.children_eq_of_childrenOf hc ht₁, hm] at hm'; cases hm'
  by_cases h₂ : t₂ = t
  · subst h₂; rw [hch, Heap.children_eq_of_childrenOf hc ht₂, hm] at hm'; cases hm'
  exact honce.popped t₁ t₂ tree₁ tree₂ m hne (by simp [h₁, hn₁]) (by simp [h₂, hn₂]) hge₁ hge₂
    ht₁ ht₂ hch hm'

/-- **Run.**  A run that returns keeps `OnceInv` to its end. -/
theorem makeLoop_onceInv (hrun : RunInv h₀ x₀ top h todo) (honce : OnceInv h₀ top h todo)
    (hok : makeLoop LF h todo = .ok h') : OnceInv h₀ top h' [] := by
  induction h, todo using makeLoop.induct LF with
  | case1 h => rw [makeLoop_nil] at hok; cases hok; exact honce
  | case2 h t todo hc =>
    have := hrun.stack t (List.mem_cons_self _ _)
    simp [Heap.childrenOf, List.getElem?_eq_getElem this.2] at hc
  | case3 h t todo c hc hm ih =>
    rw [makeLoop_skip LF hc hm] at hok
    exact ih (hrun.drop hc hm) (honce.drop hc hm) hok
  | case4 h t todo c hc cur hm e hcv => rw [makeLoop_error LF hc hm hcv] at hok; cases hok
  | case5 h t todo c hc cur hm h'' ts hcv ih =>
    rw [makeLoop_step LF hc hm hcv rfl] at hok
    exact ih (runInv_step LF hrun hc hm hcv) (onceInv_step LF hrun honce hc hm hcv) hok

theorem OnceInv.of_makeFromTuples (hd : h₀.Declarative x₀)
    (hok : makeFromTuples LF h₀ x₀ = .ok (h, top)) : OnceInv h₀ top h [] := by
  obtain ⟨h₁, ht, hl⟩ := (makeFromTuples_eq_ok_iff LF h₀ x₀ h top).mp hok
  exact makeLoop_onceInv LF (runInv_init LF hd ht) (onceInv_init LF hd ht) hl

/-- At the end of a run, the walk from the top tree meets a tree at one sequence of
segment names only. -/
theorem OnceInv.slotAt_inj (hrun : RunInv h₀ x₀ top h []) (honce : OnceInv h₀ top h [])
    {s₁ s₂ : List String} {t : Nat} (h₁ : h.slotAt (.tree top) s₁ = some (.tree t))
    (h₂ : h.slotAt (.tree top) s₂ = some (.tree t)) : s₁ = s₂ := by
  have hnot : ∀ {s : List String} {k : String}, h.slotAt (.tree top) (s ++ [k]) ≠ some (.tree top) := by
    intro s k hs
    obtain ⟨y, c, -, -, hz⟩ := Heap.lookup_of_slotAt_append hs
    obtain ⟨i, m, hm, hi⟩ := storedAt_of_lookup hz
    exact honce.top c i ⟨m, k, hm, hi⟩
  induction s₁ using List.reverseRecOn generalizing s₂ t with
  | nil =>
    cases h₁
    induction s₂ using List.reverseRecOn with
    | nil => rfl
    | append_singleton s₂ k _ => exact (hnot h₂).elim
  | append_singleton s₁ k₁ ih =>
    induction s₂ using List.reverseRecOn with
    | nil => cases h₂; exact (hnot h₁).elim
    | append_singleton s₂ k₂ _ =>
      obtain ⟨y₁, c₁, hy₁, hc₁, hz₁⟩ := Heap.lookup_of_slotAt_append h₁
      obtain ⟨y₂, c₂, hy₂, hc₂, hz₂⟩ := Heap.lookup_of_slotAt_append h₂
      obtain ⟨i₁, m₁, hm₁, hi₁⟩ := storedAt_of_lookup hz₁
      obtain ⟨i₂, m₂, hm₂, hi₂⟩ := storedAt_of_lookup hz₂
      obtain ⟨rfl, rfl⟩ := honce.once t c₁ i₁ c₂ i₂ ⟨m₁, k₁, hm₁, hi₁⟩ ⟨m₂, k₂, hm₂, hi₂⟩
      rw [hm₁] at hm₂; cases hm₂
      rw [hi₁] at hi₂; cases hi₂
      obtain ⟨p₁, rfl, hge₁, hlt₁⟩ := hrun.slotAt_tree hrun.top hy₁
      obtain ⟨p₂, rfl, hge₂, hlt₂⟩ := hrun.slotAt_tree hrun.top hy₂
      have htree₁ : h.trees[p₁]? = some h.trees[p₁] := List.getElem?_eq_getElem hlt₁
      have htree₂ : h.trees[p₂]? = some h.trees[p₂] := List.getElem?_eq_getElem hlt₂
      have e₁ := Heap.children_eq_of_childrenOf hc₁ htree₁
      have e₂ := Heap.children_eq_of_childrenOf hc₂ htree₂
      by_cases hp : p₁ = p₂
      · subst hp; rw [ih hy₁ hy₂]
      · have := honce.popped p₁ p₂ _ _ m₁ hp (List.not_mem_nil _) (List.not_mem_nil _) hge₁ hge₂
          htree₁ htree₂ (e₁.trans e₂.symm) (e₁ ▸ hm₁)
        subst this; cases hi₁

end Lemmas

/-! ## A shared dict makes the run raise -/

/-- **A non-empty children dict reached twice.**  When two different sequences of segment
names lead to pairs that name one non-empty children dict, `make_from_tuples` raises. -/
theorem makeFromTuples_raises_of_shared (LF : String) {h₀ : Heap} {x₀ : Slot}
    (hd : h₀.Declarative x₀) (s₁ s₂ : List String) (hs : s₁ ≠ s₂) {r₁ r₂ : PyDict} {c : Nat}
    (h₁ : h₀.slotAt x₀ s₁ = some (.tuple r₁ c)) (h₂ : h₀.slotAt x₀ s₂ = some (.tuple r₂ c))
    {ks : String × Slot} {m : List (String × Slot)} (hc : h₀.mappings[c]? = some (ks :: m)) :
    ∃ ex, makeFromTuples LF h₀ x₀ = .error ex := by
  cases hok : makeFromTuples LF h₀ x₀ with
  | error ex => exact ⟨ex, rfl⟩
  | ok r =>
    obtain ⟨h, top⟩ := r
    have hrun := RunInv.of_makeFromTuples LF hd hok
    have honce := OnceInv.of_makeFromTuples LF hd hok
    have hat : ∀ {s : List String} {r : PyDict}, h₀.slotAt x₀ s = some (.tuple r c) →
        ∃ t tree, h.slotAt (.tree top) s = some (.tree t) ∧ h₀.trees.length ≤ t ∧
          h.trees[t]? = some tree ∧ tree.children = c := by
      intro s r hs
      have hwalk := hrun.walk s
      rw [hs] at hwalk
      obtain ⟨a, ha, hrel⟩ := Option.rel_some_right hwalk
      obtain ⟨t, rfl, hge, -⟩ := hrun.slotAt_tree hrun.top ha
      rcases hrel with ⟨⟨⟩, -⟩ | ⟨_, tree, ⟨⟩, htree, hmade⟩
      exact ⟨t, tree, ha, hge, htree, hmade.2⟩
    obtain ⟨t₁, tree₁, hs₁, hge₁, ht₁, hc₁⟩ := hat h₁
    obtain ⟨t₂, tree₂, hs₂, hge₂, ht₂, hc₂⟩ := hat h₂
    have hne : t₁ ≠ t₂ := by
      rintro rfl
      exact hs (honce.slotAt_inj hrun hs₁ hs₂)
    have hlen := honce.length c (bound hc)
    rw [hc] at hlen
    cases hm' : h.mappings[c]? with
    | none => rw [hm'] at hlen; cases hlen
    | some m' =>
      have := honce.popped t₁ t₂ tree₁ tree₂ m' hne (List.not_mem_nil _) (List.not_mem_nil _)
        hge₁ hge₂ ht₁ ht₂ (hc₁.trans hc₂.symm) (hc₁ ▸ hm')
      subst this
      rw [hm'] at hlen
      cases hlen

/-- In `sharedHeap`, the pairs at `a` and at `b` name one non-empty dict. -/
theorem makeFromTuples_raises_of_shared_sharedHeap :
    ∃ ex, makeFromTuples "" sharedHeap (.tuple PyDict.empty 0) = .error ex :=
  makeFromTuples_raises_of_shared "" (by decide) ["a"] ["b"] (by decide) rfl rfl rfl

end Objects

end Lkmc

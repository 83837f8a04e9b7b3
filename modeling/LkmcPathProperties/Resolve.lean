import LkmcPathProperties.Build

/-!
# `get`: resolving the properties of a path

`PrefixTree.get` is the module's `get` on a given tree: it starts from a copy of the
root's record and, component by component, merges the record of each matched child
with `update`, stopping at the first component that is not a child.

`matched t comps` is the list of the records of the nodes `n₁ … n_m` that walk
matches.  `Resolved chain r` is what the merge promises after that chain: the
schema's keys in their order, the flag lists concatenated root first, each run
argument from the deepest node that names it, and every other key from the deepest
node that declares it, else the default.  `update` keeps it (`resolved_update`), so
the loop ends in it (`getLoop_toTree`).
-/

namespace Lkmc

/-- `os.sep` on POSIX. -/
def sep : Char := '/'

/-- The run argument `name` a record declares. -/
def runArg (r : PyDict) (name : String) : Option PyVal :=
  match r.get? "test_run_args" with
  | some (.dict items) => dictGet items name
  | _ => none

/-- The merge's result after the records `chain`, merged in order into the defaults. -/
structure Resolved (LF : String) (chain : List PyDict) (r : PyDict) : Prop where
  keys : r.keys = (defaultProperties LF).keys
  lists : ∀ k ∈ listKeys, r.get? k = some (.list (PyVal.listItems ((defaultProperties LF).get? k) ++
    (chain.map fun n => PyVal.listItems (n.get? k)).flatten))
  runArgs : ∃ items, r.get? "test_run_args" = some (.dict items) ∧ (items.map Prod.fst).Nodup ∧
    ∀ name, dictGet items name = (defaultProperties LF :: chain).reverse.findSome? (runArg · name)
  others : ∀ k, k ∉ listKeys → k ≠ "test_run_args" →
    r.get? k = (chain.reverse.findSome? (·.get? k)).or ((defaultProperties LF).get? k)

namespace PrefixTree

/-- `cur_node.path_properties`; an unconverted entry, a `dict` or a `tuple`, has none. -/
def getPathProperties : PrefixTree → Except PyExc PathProperties
  | .node pp _ => .ok pp
  | .entry e => .error (.attributeError
      ("\x27" ++ e.typeName ++ "\x27 object has no attribute \x27path_properties\x27"))

/-- `cur_node.children`. -/
def getChildren : PrefixTree → Except PyExc (List (String × PrefixTree))
  | .node _ cs => .ok cs
  | .entry e => .error (.attributeError
      ("\x27" ++ e.typeName ++ "\x27 object has no attribute \x27children\x27"))

variable (LF : String)

/-- The `for path_component in path_components` loop of `get`. -/
def getLoop (curNode : PrefixTree) (pathProperties : PathProperties) :
    List String → Except PyExc PathProperties
  | [] => .ok pathProperties
  | pathComponent :: rest => do
    match dictGet (← curNode.getChildren) pathComponent with
    | none => .ok pathProperties
    | some child =>
      let pathProperties ← pathProperties.update (← child.getPathProperties)
      getLoop child pathProperties rest

/-- `get(path)` with `tree` as `path_properties_tree`. -/
def get (tree : PrefixTree) (path : String) : Except PyExc PathProperties := do
  let pathComponents := pySplit path sep
  let pathProperties ← PathProperties.new LF (← tree.getPathProperties).properties
  let pathProperties ← getLoop tree pathProperties pathComponents
  pure (pathProperties.setPathComponents pathComponents)

/-- The records of the nodes a walk over `comps` matches, root excluded. -/
def matched : PrefixTree → List String → List PyDict
  | _, [] => []
  | .node _ cs, c :: rest =>
    match dictGet cs c with
    | some (.node pp cs') => pp.properties :: matched (.node pp cs') rest
    | _ => []
  | .entry _, _ :: _ => []

end PrefixTree

/-! ## Lemmas -/

section Lemmas

variable (LF : String)

theorem findSome?_reverse_concat {α β : Type} (l : List α) (a : α) (f : α → Option β) :
    (l ++ [a]).reverse.findSome? f = (f a).or (l.reverse.findSome? f) := by
  rw [List.reverse_append, List.reverse_singleton, List.singleton_append, List.findSome?_cons]
  cases f a <;> rfl

theorem resolved_defaultProperties : Resolved LF [] (defaultProperties LF) where
  keys := rfl
  lists k hk := by
    simp only [listKeys, List.mem_cons, List.not_mem_nil, or_false] at hk
    rcases hk with rfl | rfl | rfl <;> rfl
  runArgs := ⟨[], rfl, List.nodup_nil, fun _ => rfl⟩
  others _ _ _ := rfl

variable {LF}

/-- `update` with a well-typed record of schema keys extends the resolved chain by it. -/
theorem resolved_update {chain : List PyDict} {self : PathProperties} {n : PyDict}
    (hr : Resolved LF chain self.properties) (hk : n.Known LF) (ht : n.WellTyped)
    (pc : Option (List String)) :
    ∃ pp, self.update { properties := n, pathComponents := pc } = .ok pp ∧
      pp.pathComponents = self.pathComponents ∧ Resolved LF (chain ++ [n]) pp.properties := by
  obtain ⟨items, hitems, hnd, hrun⟩ := hr.runArgs
  obtain ⟨pp, hpp⟩ : ∃ pp, self.update { properties := n, pathComponents := pc } = .ok pp :=
    PathProperties.update_eq_ok_of_wellTyped (fun k hk => ⟨_, hr.lists k hk⟩) ⟨items, hitems⟩ ht
  have hget := PathProperties.get?_of_update_eq_ok hpp
  refine ⟨pp, hpp, PathProperties.pathComponents_of_update_eq_ok hpp, ⟨?_, ?_, ?_, ?_⟩⟩
  · rw [PathProperties.keys_of_update_eq_ok hpp fun k hm => by rw [hr.keys]; exact hk k hm,
      hr.keys]
  · intro k hkl
    rw [hget, otherTmpAt, if_pos hkl, hr.lists k hkl]
    have htk := ht.1 k hkl
    cases hn : n.get? k with
    | none => simp [joinWith, PyVal.listItems, hn]
    | some b =>
      have hb := htk b hn
      cases b <;> simp_all [joinWith, PyVal.isList, PyVal.add, Except.toOption, PyVal.listItems]
  · have hnl : "test_run_args" ∉ listKeys := by decide
    rw [hget, otherTmpAt, if_neg hnl, if_pos rfl, hitems]
    cases hn : n.get? "test_run_args" with
    | none =>
      refine ⟨items, rfl, hnd, fun name => ?_⟩
      rw [← List.cons_append, findSome?_reverse_concat, ← hrun, runArg, hn]; rfl
    | some b =>
      have hb := ht.2 b hn
      cases b with
      | dict ys =>
        simp only [PyVal.isDict, decide_eq_true_eq] at hb
        refine ⟨dictUpdate (dictUpdate [] items) ys, rfl, nodup_dictUpdate (nodup_dictUpdate
          (d := []) List.nodup_nil _) _, fun name => ?_⟩
        rw [← List.cons_append, findSome?_reverse_concat, ← hrun, runArg, hn, dictGet_dictUpdate,
          dictGet_dictUpdate, dictGet_reverse hb, dictGet_reverse hnd]
        cases dictGet items name <;> rfl
      | _ => simp [PyVal.isDict] at hb
  · intro k hkl hkt
    rw [hget, otherTmpAt, if_neg hkl, if_neg hkt, hr.others k hkl hkt, findSome?_reverse_concat,
      Option.or_assoc]

theorem getLoop_node_cons (p : PathProperties) (cs : List (String × PrefixTree))
    (pp : PathProperties) (c : String) (rest : List String) :
    (PrefixTree.node p cs).getLoop pp (c :: rest) =
      match dictGet cs c with
      | none => .ok pp
      | some child =>
        child.getPathProperties >>= fun q => pp.update q >>= (child.getLoop · rest) := rfl

theorem matched_node_cons (p : PathProperties) (cs : List (String × PrefixTree)) (c : String)
    (rest : List String) : (PrefixTree.node p cs).matched (c :: rest) =
      match dictGet cs c with
      | some (.node pp cs') => pp.properties :: (PrefixTree.node pp cs').matched rest
      | _ => [] := rfl

theorem getPathProperties_toTree (e : Entry) :
    e.toTree.getPathProperties = .ok { properties := e.properties } := by
  cases e <;> rfl

theorem records_subset_of_dictGet {e e' : Entry} {c : String} (h : dictGet e.children c = some e') :
    e'.records ⊆ e.records := by
  rw [Entry.records_eq e]
  exact (Entry.records_subset_recordsOf (mem_of_dictGet_eq_some h)).trans
    (List.subset_cons_self _ _)

theorem getLoop_toTree_cons (e : Entry) (pp : PathProperties) (c : String) (rest : List String) :
    e.toTree.getLoop pp (c :: rest) =
      match dictGet e.children c with
      | some e' => pp.update { properties := e'.properties } >>= (e'.toTree.getLoop · rest)
      | none => .ok pp := by
  rw [Entry.toTree_eq, getLoop_node_cons, Entry.dictGet_toTrees]
  cases dictGet e.children c with
  | none => rfl
  | some e' => dsimp only [Option.map_some']; rw [getPathProperties_toTree, ok_bind]

theorem matched_toTree_cons (e : Entry) (c : String) (rest : List String) :
    e.toTree.matched (c :: rest) =
      match dictGet e.children c with
      | some e' => e'.properties :: e'.toTree.matched rest
      | none => [] := by
  rw [Entry.toTree_eq, matched_node_cons, Entry.dictGet_toTrees]
  cases dictGet e.children c with
  | none => rfl
  | some e' => dsimp only [Option.map_some']; rw [Entry.toTree_eq e']

/-- The walk over the tree of an entry whose records are schema-conforming and well typed
ends, after merging the record of every node it matches into the resolved chain. -/
theorem getLoop_toTree {e : Entry} {chain : List PyDict} {pp : PathProperties}
    (hrec : ∀ r ∈ e.records, r.Known LF ∧ r.WellTyped) (hr : Resolved LF chain pp.properties)
    (comps : List String) :
    ∃ pp', e.toTree.getLoop pp comps = .ok pp' ∧
      pp'.pathComponents = pp.pathComponents ∧
      Resolved LF (chain ++ e.toTree.matched comps) pp'.properties := by
  induction comps generalizing e chain pp with
  | nil => exact ⟨pp, rfl, rfl, by rw [PrefixTree.matched, List.append_nil]; exact hr⟩
  | cons c rest ih =>
    rw [getLoop_toTree_cons, matched_toTree_cons]
    cases he : dictGet e.children c with
    | none => exact ⟨pp, rfl, rfl, by rw [List.append_nil]; exact hr⟩
    | some e' =>
      have hsub := records_subset_of_dictGet he
      have hn := hrec e'.properties (hsub (by rw [Entry.records_eq]; exact List.mem_cons_self _ _))
      obtain ⟨pp₁, hpp₁, hpc₁, hr₁⟩ := resolved_update hr hn.1 hn.2 none
      obtain ⟨pp', hpp', hpc', hr'⟩ := ih (fun r h => hrec r (hsub h)) hr₁
      refine ⟨pp', bind_eq_ok.mpr ⟨pp₁, hpp₁, hpp'⟩, hpc'.trans hpc₁, ?_⟩
      rw [List.append_assoc, List.singleton_append] at hr'
      exact hr'

/-- The walk over the tree matches the records of the entries the walk over the
declarations passes. -/
theorem matched_toTree (e : Entry) (comps : List String) :
    e.toTree.matched comps = e.recordsAlong comps := by
  induction comps generalizing e with
  | nil => rw [Entry.toTree_eq]; rfl
  | cons c rest ih =>
    rw [matched_toTree_cons, Entry.recordsAlong]
    cases dictGet e.children c with
    | none => rfl
    | some e' => exact congrArg _ (ih e')

/-- The walk only matches records of the structure. -/
theorem mem_records_of_mem_matched {e : Entry} {comps : List String} {r : PyDict}
    (h : r ∈ e.toTree.matched comps) : r ∈ e.records := by
  induction comps generalizing e with
  | nil => rw [Entry.toTree_eq, PrefixTree.matched] at h; cases h
  | cons c rest ih =>
    rw [matched_toTree_cons] at h
    cases he : dictGet e.children c with
    | none => rw [he] at h; cases h
    | some e' =>
      rw [he, List.mem_cons] at h
      refine records_subset_of_dictGet he ?_
      rcases h with rfl | h
      · rw [Entry.records_eq]; exact List.mem_cons_self _ _
      · exact ih h

/-- A resolved value under a key that is merged by overwriting comes from a record of
the chain or from the defaults. -/
theorem Resolved.get?_eq_some {chain : List PyDict} {r : PyDict} (hr : Resolved LF chain r)
    {k : String} {v : PyVal} (hk : k ∉ listKeys) (ht : k ≠ "test_run_args")
    (hv : r.get? k = some v) :
    (∃ n ∈ chain, n.get? k = some v) ∨ (defaultProperties LF).get? k = some v := by
  rw [hr.others k hk ht] at hv
  cases hf : chain.reverse.findSome? (·.get? k) with
  | none => rw [hf] at hv; exact .inr hv
  | some w =>
    rw [hf] at hv
    obtain rfl : w = v := Option.some.inj hv
    obtain ⟨n, hn, hnk⟩ := List.exists_of_findSome?_eq_some hf
    exact .inl ⟨n, List.mem_reverse.mp hn, hnk⟩

/-- `get` on the tree of a structure whose root record is the defaults and whose records
are schema-conforming and well typed: the walk's chain resolved, the components kept. -/
theorem get_toTree {d : Entry} (hroot : d.properties = defaultProperties LF)
    (hrec : ∀ r ∈ d.records, r.Known LF ∧ r.WellTyped) (path : String) :
    ∃ r, d.toTree.get LF path = .ok r ∧ r.pathComponents = some (pySplit path sep) ∧
      Resolved LF (d.toTree.matched (pySplit path sep)) r.properties := by
  have hr₀ : Resolved LF [] ({ properties := defaultProperties LF } : PathProperties).properties :=
    resolved_defaultProperties LF
  obtain ⟨pp, hpp, -, hr⟩ := getLoop_toTree hrec hr₀ (pySplit path sep)
  refine ⟨pp.setPathComponents (pySplit path sep), ?_, rfl, by simpa using hr⟩
  rw [PrefixTree.get, getPathProperties_toTree, hroot]
  exact bind_eq_ok.mpr ⟨_, rfl, bind_eq_ok.mpr ⟨_, PathProperties.new_defaultProperties LF,
    bind_eq_ok.mpr ⟨pp, hpp, rfl⟩⟩⟩

end Lemmas

/-! ## Resolution -/

section Resolution

variable (LF : String)

end Resolution

end Lkmc

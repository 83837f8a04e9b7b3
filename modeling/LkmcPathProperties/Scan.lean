import LkmcPathProperties.Build

/-!
# The order in which `make_from_tuples` checks records

The work list pops the reference pushed last, and one pass of the loop converts every
child of the popped node before any of them is popped.  So the records are checked
top first, then, at each node, its children in order, and then the subtrees below
those children, last child first.  `Entry.scanError` writes that order as a recursion
over the declarations, and the loop returns the declared tree or raises exactly the
first exception of that scan:

    makeFromTuples LF d = match d.buildError LF with
      | some ex => .error ex
      | none => .ok d.toTree                              (makeFromTuples_eq_scan)

The work is done by `makeLoop_eq_scan`: from any state of the loop that keeps
`LoopInv`, the rest of the run raises the first exception over the half-built nodes
still on the stack, its top first.
-/

namespace Lkmc

variable (LF : String)

/-- The exception `PathProperties.__init__` raises on a record, if any. -/
def recordError (r : PyDict) : Option PyExc :=
  errorOf (PathProperties.new LF r)

/-- The first exception of the `for child_key in cur_children` loop over `children`. -/
def childrenError (children : List (String × Entry)) : Option PyExc :=
  children.findSome? fun kc => recordError LF kc.2.properties

mutual
/-- The first exception raised below an entry whose own record has passed: the records
of its children in order, then the subtrees of its children, last child first. -/
def Entry.scanError : Entry → Option PyExc
  | .record _ => none
  | .tuple _ children => (childrenError LF children).or (Entry.scanErrors children)
/-- The subtrees of `children`, the last one first. -/
def Entry.scanErrors : List (String × Entry) → Option PyExc
  | [] => none
  | (_, e) :: children => (Entry.scanErrors children).or e.scanError
end

/-- The first exception `make_from_tuples` raises on `d`, if any. -/
def Entry.buildError (d : Entry) : Option PyExc :=
  (recordError LF d.properties).or (d.scanError LF)

namespace PrefixTree

/-- The declared entries among a node's children. -/
def entries : List (String × PrefixTree) → List (String × Entry)
  | [] => []
  | (k, .entry e) :: cs => (k, e) :: entries cs
  | (_, .node _ _) :: cs => entries cs

/-- What the rest of the run raises below the half-built node at `π`, read back as the
entry it was built from. -/
def pendingError (top : PrefixTree) (π : List Nat) : Option PyExc :=
  match top.getAt π with
  | some (.node pp cs) => (Entry.tuple pp.properties (entries cs)).scanError LF
  | _ => none

end PrefixTree

/-! ## Lemmas -/

section Lemmas

theorem findSome?_congr_of_mem {α β : Type} {l : List α} {f g : α → Option β}
    (h : ∀ a ∈ l, f a = g a) : l.findSome? f = l.findSome? g := by
  induction l with
  | nil => rfl
  | cons a l ih =>
    rw [findSome?_cons_eq_or, findSome?_cons_eq_or, h a (List.mem_cons_self _ _),
      ih fun b hb => h b (List.mem_cons_of_mem _ hb)]

/-- Scanning the indices of `l` from the last is scanning `l` reversed. -/
theorem findSome?_range_reverse {α β : Type} (l : List α) (f : α → Option β) :
    (List.range l.length).reverse.findSome? (fun i => l[i]?.bind f) = l.reverse.findSome? f := by
  induction l using List.reverseRecOn with
  | nil => rfl
  | append_singleton l a ih =>
    rw [List.length_append, List.length_singleton, List.range_succ]
    simp only [List.reverse_append, List.reverse_singleton, List.singleton_append,
      findSome?_cons_eq_or, List.getElem?_concat_length, Option.some_bind]
    rw [← ih]
    congr 1
    exact findSome?_congr_of_mem fun i hi => by
      rw [List.getElem?_append_left (List.mem_range.mp (List.mem_reverse.mp hi))]

theorem Entry.scanError_eq (e : Entry) :
    e.scanError LF = (childrenError LF e.children).or (Entry.scanErrors LF e.children) := by
  cases e <;> rfl

theorem Entry.scanErrors_eq (es : List (String × Entry)) :
    Entry.scanErrors LF es = es.reverse.findSome? (·.2.scanError LF) := by
  induction es with
  | nil => rfl
  | cons kc es ih =>
    rw [Entry.scanErrors, ih, List.reverse_cons, List.findSome?_append, findSome?_cons_eq_or,
      List.findSome?_nil, Option.or_none]

theorem recordError_eq (e : Entry) : recordError LF e.properties =
    match PrefixTree.treeFromTuples LF (.entry e) with
    | .error ex => some ex
    | .ok _ => none := by
  simp only [recordError, PrefixTree.treeFromTuples, PrefixTree.new]
  cases PathProperties.new LF e.properties <;> rfl

/-- The children's loop raises the first exception of the children's records. -/
theorem childrenError_eq (es : List (String × Entry)) : childrenError LF es =
    match PrefixTree.convertChildren LF (es.map fun kc => (kc.1, .entry kc.2)) with
    | .error ex => some ex
    | .ok _ => none := by
  induction es with
  | nil => rfl
  | cons kc es ih =>
    rw [childrenError, findSome?_cons_eq_or, ← childrenError, ih, recordError_eq]
    simp only [List.map_cons, PrefixTree.convertChildren]
    cases PrefixTree.treeFromTuples LF (.entry kc.2) with
    | error ex => rfl
    | ok t => cases PrefixTree.convertChildren LF (es.map fun kc => (kc.1, .entry kc.2)) <;> rfl

namespace PrefixTree

theorem entries_map_entry (es : List (String × Entry)) :
    entries (es.map fun kc => (kc.1, .entry kc.2)) = es := by
  induction es with
  | nil => rfl
  | cons kc es ih => rw [List.map_cons, entries, ih]

theorem map_entries_of_isEntry {cs : List (String × PrefixTree)} (h : ∀ kc ∈ cs, kc.2.IsEntry) :
    (entries cs).map (fun kc => (kc.1, .entry kc.2)) = cs := by
  induction cs with
  | nil => rfl
  | cons kc cs ih =>
    obtain ⟨k, c⟩ := kc
    obtain ⟨e, rfl⟩ := exists_eq_entry_of_isEntry (h _ (List.mem_cons_self _ _))
    rw [entries, List.map_cons, ih fun kc hkc => h kc (List.mem_cons_of_mem _ hkc)]

theorem pendingError_of_getAt {top : PrefixTree} {π : List Nat} {pp : PathProperties}
    {es : List (String × Entry)} (h : top.getAt π = some (.node pp (es.map fun kc => (kc.1, .entry kc.2)))) :
    pendingError LF top π = (Entry.tuple pp.properties es).scanError LF := by
  simp only [pendingError, h, entries_map_entry]

section Step

variable {d : Entry} {top : PrefixTree} {π : List Nat} {todo : List (List Nat)}
  {pp : PathProperties} {es : List (String × Entry)} {cs cs' : List (String × PrefixTree)}

/-- The node popped holds its declared entries as children. -/
theorem map_entries_of_pending (hinv : LoopInv LF d top (π :: todo))
    (h : top.getAt π = some (.node pp cs)) : (entries cs).map (fun kc => (kc.1, .entry kc.2)) = cs := by
  obtain ⟨_, _, h₀, hent⟩ := hinv.pending π (List.mem_cons_self _ _)
  obtain ⟨rfl, rfl⟩ : pp = _ ∧ cs = _ := by simpa [h] using h₀
  exact map_entries_of_isEntry hent

/-- After a pass of the body, the new child at index `i` raises what its entry's scan
raises. -/
theorem pendingError_child (h : top.getAt π = some (.node pp (es.map fun kc => (kc.1, .entry kc.2))))
    (hc : convertChildren LF (es.map fun kc => (kc.1, .entry kc.2)) = .ok cs') (i : Nat) :
    pendingError LF (top.setAt π (.node pp cs')) (π ++ [i]) = es[i]?.bind (·.2.scanError LF) := by
  cases hi : es[i]? with
  | none =>
    have hrel := convertChildren_getElem? LF hc i
    rw [List.getElem?_map, hi, Option.map_none'] at hrel
    cases hi' : cs'[i]? with
    | none => rw [pendingError, getAt_setAt_append (by simp [h]), getAt_node_cons, hi']; rfl
    | some _ => rw [hi'] at hrel; cases hrel
  | some kc =>
    have hkc : (es.map fun kc => (kc.1, PrefixTree.entry kc.2))[i]? = some (kc.1, .entry kc.2) := by
      rw [List.getElem?_map, hi]; rfl
    rw [Option.some_bind, pendingError_of_getAt LF (getAt_converted_child LF h hc hkc).2,
      Entry.scanError_eq LF kc.2]
    rfl

/-- From a state that keeps the invariant, the rest of the run returns the declared tree
or raises the first exception over the nodes on the stack, its top first. -/
theorem makeLoop_eq_scan (hinv : LoopInv LF d top todo) :
    makeLoop LF top todo = match todo.findSome? (pendingError LF top) with
      | some ex => .error ex
      | none => .ok d.toTree := by
  induction top, todo using makeLoop.induct LF with
  | case1 top =>
    rw [makeLoop]
    rcases makeLoop_spec LF hinv with ⟨h, -⟩ | ⟨_, _, _, _, _, h⟩ <;> rw [makeLoop] at h
    · exact h
    · cases h
  | case2 top π todo pp cs h cs' hc ih =>
    have hcs := map_entries_of_pending LF hinv h
    generalize entries cs = es at hcs
    subst hcs
    rw [makeLoop_step LF h hc, ih (loopInv_step LF hinv h hc), List.findSome?_append,
      List.findSome?_map, findSome?_cons_eq_or, pendingError_of_getAt LF h, Entry.scanError_eq,
      Entry.children, childrenError_eq, hc, Option.none_or, Entry.scanErrors_eq, List.length_map,
      ← findSome?_range_reverse es]
    congr 2
    · exact findSome?_congr_of_mem fun i _ => pendingError_child LF h hc i
    · exact findSome?_congr_of_mem fun ρ hρ => by
        rw [pendingError, pendingError, getAt_setAt_apart (hinv.apart LF ρ hρ).1 (hinv.apart LF ρ hρ).2]
  | case3 top π todo pp cs h ex hc =>
    have hcs := map_entries_of_pending LF hinv h
    rw [← hcs] at h hc
    rw [makeLoop_error LF h hc, findSome?_cons_eq_or, pendingError_of_getAt LF h,
      Entry.scanError_eq, Entry.children, childrenError_eq, hc]
    rfl
  | case4 top π todo hnot _ =>
    obtain ⟨pp, cs, h, -⟩ := hinv.pending π (List.mem_cons_self _ _)
    exact (hnot pp cs h).elim

end Step

end PrefixTree

end Lemmas

/-! ## The outcome of `make_from_tuples` -/

/-- **Build order.**  `make_from_tuples(d)` returns the declared tree when no record
fails the schema check, and otherwise raises exactly the exception of the first failing
record in the order of its work list: the top record, then at each node the records of
its children in order, then the subtrees of the children, the last child first. -/
theorem makeFromTuples_eq_scan (d : Entry) :
    PrefixTree.makeFromTuples LF d = match d.buildError LF with
      | some ex => .error ex
      | none => .ok d.toTree := by
  rw [Entry.buildError, recordError_eq, PrefixTree.makeFromTuples]
  cases ht : PrefixTree.treeFromTuples LF (.entry d) with
  | error ex => rfl
  | ok top =>
    obtain ⟨_, he, -, rfl⟩ := (PrefixTree.treeFromTuples_eq_ok_iff LF _ _).mp ht
    cases he
    rw [ok_bind, PrefixTree.makeLoop_eq_scan LF (PrefixTree.loopInv_init LF ht),
      findSome?_cons_eq_or, List.findSome?_nil, Option.or_none,
      PrefixTree.pendingError_of_getAt LF (PrefixTree.getAt_nil _)]
    cases d <;> rfl

/-- The scan raises exactly when a record fails the schema check, and then raises a
`ValueError`. -/
theorem Entry.buildError_spec (d : Entry) :
    (d.buildError LF = none ∧ ∀ r ∈ d.records, r.Known LF) ∨
    ∃ r ∈ d.records, ¬r.Known LF ∧ ∃ msg, d.buildError LF = some (.valueError msg) := by
  have hscan := makeFromTuples_eq_scan LF d
  rcases PrefixTree.makeFromTuples_spec LF d with ⟨hok, hall⟩ | ⟨r, hr, key, hkey, hunk, herr⟩
  · refine .inl ⟨?_, hall⟩
    cases hb : d.buildError LF with
    | none => rfl
    | some ex => rw [hb] at hscan; rw [hscan] at hok; cases hok
  · refine .inr ⟨r, hr, fun hk => hunk (hk key hkey), "Unknown key: " ++ key, ?_⟩
    cases hb : d.buildError LF with
    | none => rw [hb] at hscan; rw [hscan] at herr; cases herr
    | some ex => rw [hb] at hscan; rw [hscan] at herr; cases herr; rfl

/- The subtree of `b`, declared last, is checked before the subtree of `a`. -/
example : (Entry.tuple (defaultProperties "")
    [("a", .tuple PyDict.empty [("x", .record (PyDict.ofList [("x", .none)]))]),
     ("b", .tuple PyDict.empty [("y", .record (PyDict.ofList [("y", .none)]))])]).buildError "" =
      some (.valueError "Unknown key: y") := by decide

end Lkmc

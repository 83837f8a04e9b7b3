import Mathlib.Data.List.Infix
import Mathlib.Data.List.Nodup

/-!
# The part of Python that `path_properties.py` runs on

Values (`PyVal`), the exceptions the module can raise (`PyExc`), dicts with string
keys as insertion-ordered item lists (`PyDict`, whose distinct keys are a field),
truthiness, `in`, `+`, `{**a, **b}`, list indexing, `str.split` and
`os.path.splitext`.  Whatever can raise returns `Except PyExc`.

    dictGet (dictUpdate d o) k = (dictGet o.reverse k).or (dictGet d k)   (dictGet_dictUpdate)
    pyAll cs = .ok true ↔ ∀ c ∈ cs, c () = .ok true                        (pyAll_eq_ok_true)
-/

namespace Lkmc

/-! ## Values -/

/-- The members of `signal.Signals` that the declarations name. -/
inductive Signals where
  | SIGABRT | SIGFPE | SIGHUP | SIGILL | SIGSEGV
  deriving DecidableEq, Repr

/-- The number of a signal on Linux: `Signals` is an `IntEnum`. -/
def Signals.value : Signals → Int
  | .SIGABRT => 6
  | .SIGFPE => 8
  | .SIGHUP => 1
  | .SIGILL => 4
  | .SIGSEGV => 11

/-- A Python value as property records hold it.  A `set` keeps its elements in a list,
a `dict` its items in insertion order. -/
inductive PyVal where
  | none
  | bool (b : Bool)
  | int (n : Int)
  | str (s : String)
  | signal (s : Signals)
  | list (xs : List PyVal)
  | set (xs : List PyVal)
  | dict (items : List (String × PyVal))

/-- The exceptions the module raises, with their messages. -/
inductive PyExc where
  | valueError (msg : String)
  | typeError (msg : String)
  | keyError (key : String)
  | indexError (msg : String)
  | attributeError (msg : String)
  deriving DecidableEq, Repr

namespace PyVal

def typeName : PyVal → String
  | .none => "NoneType"
  | .bool _ => "bool"
  | .int _ => "int"
  | .str _ => "str"
  | .signal _ => "Signals"
  | .list _ => "list"
  | .set _ => "set"
  | .dict _ => "dict"

/-- `bool(v)`.  A `Signals` member is an `IntEnum` whose value is never 0. -/
def truthy : PyVal → Bool
  | .none => false
  | .bool b => b
  | .int n => n != 0
  | .str s => !s.isEmpty
  | .signal _ => true
  | .list xs => !xs.isEmpty
  | .set xs => !xs.isEmpty
  | .dict items => !items.isEmpty

/-- `v == x` for a string `x`. -/
def isStr (x : String) : PyVal → Bool
  | .str s => s == x
  | _ => false

/-- `x in v` for a string `x`: a substring test on a `str`, an element test on a `list`
or a `set`, a key test on a `dict`; other values are not iterable. -/
def contains (v : PyVal) (x : String) : Except PyExc Bool :=
  match v with
  | .str s => .ok (decide (x.toList <:+: s.toList))
  | .list xs => .ok (xs.any (isStr x))
  | .set xs => .ok (xs.any (isStr x))
  | .dict items => .ok (items.any (·.1 == x))
  | v => .error (.typeError ("argument of type \x27" ++ v.typeName ++ "\x27 is not iterable"))

/- On a `str`, `in` searches for a substring: `'x86' in 'x86_64'` holds, `'arm' in 'x86_64'`
does not. -/
example : contains (.str "x86_64") "x86" = .ok true ∧ contains (.str "x86_64") "arm" = .ok false :=
  ⟨rfl, rfl⟩

/-- The value of a `bool`, an `int` or a `Signals` member as a number. -/
def asInt? : PyVal → Option Int
  | .bool b => some (if b then 1 else 0)
  | .int n => some n
  | .signal s => some s.value
  | _ => Option.none

/-- `a + b`: lists and strings concatenate, numbers add, anything else raises. -/
def add : PyVal → PyVal → Except PyExc PyVal
  | .list xs, .list ys => .ok (.list (xs ++ ys))
  | .str s, .str t => .ok (.str (s ++ t))
  | .list _, b => .error (.typeError
      ("can only concatenate list (not \"" ++ b.typeName ++ "\") to list"))
  | .str _, b => .error (.typeError
      ("can only concatenate str (not \"" ++ b.typeName ++ "\") to str"))
  | a, b => match a.asInt?, b.asInt? with
    | some m, some n => .ok (.int (m + n))
    | _, _ => .error (.typeError ("unsupported operand type(s) for +: \x27" ++ a.typeName ++
        "\x27 and \x27" ++ b.typeName ++ "\x27"))

end PyVal

/-! ## Dict items -/

section Items

variable {α : Type}

/-- `d[k]` on a dict's items. -/
def dictGet : List (String × α) → String → Option α
  | [], _ => none
  | (k', v) :: d, k => if k' = k then some v else dictGet d k

/-- `d[k] = v` on a dict's items: an existing key keeps its place, a new key goes last. -/
def dictSet : List (String × α) → String → α → List (String × α)
  | [], k, v => [(k, v)]
  | (k', v') :: d, k, v => if k' = k then (k, v) :: d else (k', v') :: dictSet d k v

/-- `d.update(o)`: `d[k] = v` for each item of `o` in order. -/
def dictUpdate (d o : List (String × α)) : List (String × α) :=
  o.foldl (fun d kv => dictSet d kv.1 kv.2) d

@[simp] theorem dictGet_nil (k : String) : dictGet ([] : List (String × α)) k = none := rfl

theorem dictGet_cons (k' k : String) (v : α) (d : List (String × α)) :
    dictGet ((k', v) :: d) k = if k' = k then some v else dictGet d k := rfl

theorem dictGet_dictSet (d : List (String × α)) (k k' : String) (v : α) :
    dictGet (dictSet d k v) k' = if k = k' then some v else dictGet d k' := by
  induction d with
  | nil => rfl
  | cons kv d ih =>
    obtain ⟨k'', v''⟩ := kv
    by_cases h : k'' = k
    · subst h; by_cases h' : k'' = k' <;> simp [dictSet, dictGet_cons, h']
    · by_cases h' : k'' = k' <;> by_cases h'' : k = k' <;> simp_all [dictSet, dictGet_cons]

theorem keys_dictSet (d : List (String × α)) (k : String) (v : α) :
    (dictSet d k v).map Prod.fst =
      if k ∈ d.map Prod.fst then d.map Prod.fst else d.map Prod.fst ++ [k] := by
  induction d with
  | nil => rfl
  | cons kv d ih =>
    obtain ⟨k'', v''⟩ := kv
    by_cases h : k'' = k
    · subst h; simp [dictSet]
    · simp only [dictSet, if_neg h, List.map_cons, ih, List.mem_cons, Ne.symm h, false_or]
      split <;> rfl

theorem nodup_dictSet {d : List (String × α)} (hd : (d.map Prod.fst).Nodup) (k : String) (v : α) :
    ((dictSet d k v).map Prod.fst).Nodup := by
  rw [keys_dictSet]
  split
  · exact hd
  · exact hd.append (List.nodup_singleton k) fun x hx hk =>
      ‹k ∉ _› (List.mem_singleton.mp hk ▸ hx)

theorem nodup_dictUpdate {d : List (String × α)} (hd : (d.map Prod.fst).Nodup)
    (o : List (String × α)) : ((dictUpdate d o).map Prod.fst).Nodup := by
  induction o generalizing d with
  | nil => exact hd
  | cons kv o ih => exact ih (nodup_dictSet hd kv.1 kv.2)

theorem dictGet_append (a b : List (String × α)) (k : String) :
    dictGet (a ++ b) k = (dictGet a k).or (dictGet b k) := by
  induction a with
  | nil => rfl
  | cons kv a ih =>
    obtain ⟨k', v⟩ := kv
    by_cases h : k' = k <;> simp [dictGet_cons, h, ih]

theorem dictGet_dictUpdate (d o : List (String × α)) (k : String) :
    dictGet (dictUpdate d o) k = (dictGet o.reverse k).or (dictGet d k) := by
  induction o generalizing d with
  | nil => rfl
  | cons kv o ih =>
    simp only [dictUpdate, List.foldl_cons] at ih ⊢
    obtain ⟨k', v⟩ := kv
    rw [ih, dictGet_dictSet, List.reverse_cons, dictGet_append, Option.or_assoc]
    by_cases h : k' = k <;> simp [dictGet_cons, h]

theorem mem_of_dictGet_eq_some {d : List (String × α)} {k : String} {v : α}
    (h : dictGet d k = some v) : (k, v) ∈ d := by
  induction d with
  | nil => cases h
  | cons kv d ih =>
    rw [dictGet_cons] at h
    split at h
    · cases h; subst ‹kv.1 = k›; exact List.mem_cons_self _ _
    · exact List.mem_cons_of_mem _ (ih h)

theorem dictGet_eq_none_iff (d : List (String × α)) (k : String) :
    dictGet d k = none ↔ k ∉ d.map Prod.fst := by
  induction d with
  | nil => simp
  | cons kv d ih =>
    obtain ⟨k', v⟩ := kv
    by_cases h : k' = k
    · subst h; simp [dictGet_cons]
    · rw [dictGet_cons, if_neg h, ih]
      simp only [List.map_cons, List.mem_cons, Ne.symm h, false_or]

/-- On distinct keys an item is found exactly when it is present. -/
theorem dictGet_eq_some_iff {d : List (String × α)} (hd : (d.map Prod.fst).Nodup)
    (k : String) (v : α) : dictGet d k = some v ↔ (k, v) ∈ d := by
  refine ⟨mem_of_dictGet_eq_some, fun hm => ?_⟩
  induction d with
  | nil => cases hm
  | cons kv d ih =>
    obtain ⟨k', v'⟩ := kv
    simp only [List.map_cons, List.nodup_cons] at hd
    rcases List.mem_cons.mp hm with h | h
    · cases h; simp [dictGet_cons]
    · have hne : k' ≠ k := fun e => hd.1 (e ▸ List.mem_map_of_mem Prod.fst h)
      rw [dictGet_cons, if_neg hne]
      exact ih hd.2 h

theorem dictGet_reverse {d : List (String × α)} (hd : (d.map Prod.fst).Nodup) (k : String) :
    dictGet d.reverse k = dictGet d k := by
  have hr : (d.reverse.map Prod.fst).Nodup := by rw [List.map_reverse]; exact List.nodup_reverse.mpr hd
  refine Option.ext fun v => ?_
  rw [Option.mem_def, Option.mem_def, dictGet_eq_some_iff hr, dictGet_eq_some_iff hd, List.mem_reverse]

end Items

/-! ## Dicts -/

/-- A Python `dict` with string keys: its items in insertion order, keys distinct. -/
structure PyDict where
  items : List (String × PyVal)
  nodup : (items.map Prod.fst).Nodup

namespace PyDict

def empty : PyDict := ⟨[], List.nodup_nil⟩

def keys (d : PyDict) : List String := d.items.map Prod.fst

def get? (d : PyDict) (k : String) : Option PyVal := dictGet d.items k

/-- `d[k]`, raising `KeyError` when `k` is missing. -/
def getItem (d : PyDict) (k : String) : Except PyExc PyVal :=
  match d.get? k with
  | some v => .ok v
  | none => .error (.keyError k)

/-- `d[k] = v`. -/
def set (d : PyDict) (k : String) (v : PyVal) : PyDict :=
  ⟨dictSet d.items k v, nodup_dictSet d.nodup k v⟩

/-- `d[k] = v` for each item in order. -/
def setAll (d : PyDict) (items : List (String × PyVal)) : PyDict :=
  items.foldl (fun d kv => d.set kv.1 kv.2) d

/-- `d.update(o)`. -/
def update (d o : PyDict) : PyDict := d.setAll o.items

/-- The dict a display `{k₁: v₁, …}` evaluates to: a repeated key keeps its first
place and its last value. -/
def ofList (items : List (String × PyVal)) : PyDict := empty.setAll items

@[simp] theorem get?_set (d : PyDict) (k k' : String) (v : PyVal) :
    (d.set k v).get? k' = if k = k' then some v else d.get? k' :=
  dictGet_dictSet d.items k k' v

theorem keys_set (d : PyDict) (k : String) (v : PyVal) :
    (d.set k v).keys = if k ∈ d.keys then d.keys else d.keys ++ [k] :=
  keys_dictSet d.items k v

theorem setAll_items (d : PyDict) (items : List (String × PyVal)) :
    (d.setAll items).items = dictUpdate d.items items := by
  induction items generalizing d with
  | nil => rfl
  | cons kv items ih => exact ih (d.set kv.1 kv.2)

/-- Setting keys `d` already has keeps `d`'s keys in their order. -/
theorem keys_setAll {d : PyDict} {items : List (String × PyVal)}
    (h : ∀ kv ∈ items, kv.1 ∈ d.keys) : (d.setAll items).keys = d.keys := by
  induction items generalizing d with
  | nil => rfl
  | cons kv items ih =>
    have hk : (d.set kv.1 kv.2).keys = d.keys := by
      rw [keys_set, if_pos (h kv (List.mem_cons_self _ _))]
    exact (ih fun kv' hm => hk ▸ h kv' (List.mem_cons_of_mem _ hm)).trans hk

/-- After `d.update(o)` a key holds `o`'s value if `o` has it, else `d`'s. -/
@[simp] theorem get?_update (d o : PyDict) (k : String) :
    (d.update o).get? k = (o.get? k).or (d.get? k) := by
  simp only [get?, update, setAll_items, dictGet_dictUpdate, dictGet_reverse o.nodup]

theorem keys_update {d o : PyDict} (h : ∀ k ∈ o.keys, k ∈ d.keys) : (d.update o).keys = d.keys :=
  keys_setAll fun kv hm => h kv.1 (List.mem_map_of_mem Prod.fst hm)

/-- A display's key holds the value of its last item with that key. -/
theorem get?_ofList (items : List (String × PyVal)) (k : String) :
    (ofList items).get? k = dictGet items.reverse k := by
  simp only [get?, ofList, setAll_items, dictGet_dictUpdate]; cases dictGet items.reverse k <;> rfl

theorem getItem_eq_ok_iff (d : PyDict) (k : String) (v : PyVal) :
    d.getItem k = .ok v ↔ d.get? k = some v := by
  unfold getItem; split <;> simp_all

theorem get?_eq_none_iff (d : PyDict) (k : String) : d.get? k = none ↔ k ∉ d.keys :=
  dictGet_eq_none_iff d.items k

end PyDict

namespace PyVal

/-- `{**a, **b}`: a new dict with the items of `a`, then those of `b`. -/
def mergeDicts : PyVal → PyVal → Except PyExc PyVal
  | .dict xs, .dict ys => .ok (.dict (dictUpdate (dictUpdate [] xs) ys))
  | .dict _, b => .error (.typeError ("\x27" ++ b.typeName ++ "\x27 object is not a mapping"))
  | a, _ => .error (.typeError ("\x27" ++ a.typeName ++ "\x27 object is not a mapping"))

end PyVal

/-! ## Lists and strings -/

/-- `xs[i]` on a Python list; a negative index counts from the end. -/
def pyIndex {α : Type} (xs : List α) (i : Int) : Except PyExc α :=
  let j := if i < 0 then i + xs.length else i
  match (if 0 ≤ j then xs[j.toNat]? else none) with
  | some x => .ok x
  | none => .error (.indexError "list index out of range")

/-- `s.split(sep)` on characters, for a one-character separator. -/
def splitChars (sep : Char) : List Char → List (List Char)
  | [] => [[]]
  | c :: cs =>
    let ws := splitChars sep cs
    if c = sep then [] :: ws else (c :: ws.headD []) :: ws.tail

/-- `s.split(sep)` for a one-character separator: empty fields are kept. -/
def pySplit (s : String) (sep : Char) : List String := (splitChars sep s.toList).map String.mk

/-- `os.path.splitext(p)[1]` on POSIX: from the last `.` of the last segment to the end,
or `""` when the segment has no `.` or only dots before its last one. -/
def splitextExt (p : String) : String :=
  let name := (p.toList.reverse.takeWhile (· != '/')).reverse
  let afterDot := (name.reverse.takeWhile (· != '.')).reverse
  if afterDot.length < name.length ∧
      (name.take (name.length - afterDot.length - 1)).any (· != '.') then
    String.mk ('.' :: afterDot)
  else ""

theorem splitChars_ne_nil (sep : Char) (cs : List Char) : splitChars sep cs ≠ [] := by
  cases cs with
  | nil => simp [splitChars]
  | cons c cs => unfold splitChars; split <;> simp

theorem pySplit_ne_nil (s : String) (sep : Char) : pySplit s sep ≠ [] := by
  simpa [pySplit] using splitChars_ne_nil sep s.toList

/-- Splitting at a separator between `xs` and `ys` splits each side. -/
theorem splitChars_append_sep (sep : Char) (xs ys : List Char) :
    splitChars sep (xs ++ sep :: ys) = splitChars sep xs ++ splitChars sep ys := by
  induction xs with
  | nil => simp [splitChars]
  | cons c xs ih =>
    obtain ⟨w, ws, hw⟩ := List.exists_cons_of_ne_nil (splitChars_ne_nil sep xs)
    rw [List.cons_append, splitChars, ih, splitChars, hw]
    split_ifs <;> rfl

/-! ## Tests with `and`, `or`, `not` -/

/-- `a and b and …` as a test: operands are evaluated in order until one is false. -/
def pyAll : List (Unit → Except PyExc Bool) → Except PyExc Bool
  | [] => .ok true
  | c :: cs => do if (← c ()) then pyAll cs else pure false

/-- `a or b or …` as a test: operands are evaluated in order until one is true. -/
def pyAny : List (Unit → Except PyExc Bool) → Except PyExc Bool
  | [] => .ok false
  | c :: cs => do if (← c ()) then pure true else pyAny cs

/-- `not a`. -/
def pyNot (a : Except PyExc Bool) : Except PyExc Bool := (!·) <$> a

/-- The exception a computation raises, if any. -/
def errorOf {ε α : Type} : Except ε α → Option ε
  | .error e => some e
  | .ok _ => none

@[simp] theorem errorOf_ok {ε α : Type} (a : α) : errorOf (.ok a : Except ε α) = none := rfl

@[simp] theorem errorOf_error {ε α : Type} (e : ε) : errorOf (.error e : Except ε α) = some e := rfl

theorem errorOf_eq_some_iff {ε α : Type} {x : Except ε α} {e : ε} :
    errorOf x = some e ↔ x = .error e := by
  cases x <;> simp

theorem errorOf_eq_none_iff {ε α : Type} {x : Except ε α} : errorOf x = none ↔ ∃ a, x = .ok a := by
  cases x <;> simp

@[simp] theorem pure_eq_ok {ε α : Type} (a : α) : (pure a : Except ε α) = .ok a := rfl

@[simp] theorem ok_bind {ε α β : Type} (a : α) (f : α → Except ε β) :
    (Except.ok a >>= f) = f a := rfl

@[simp] theorem error_bind {ε α β : Type} (e : ε) (f : α → Except ε β) :
    (Except.error e >>= f) = .error e := rfl

theorem findSome?_cons_eq_or {α β : Type} (a : α) (l : List α) (f : α → Option β) :
    (a :: l).findSome? f = (f a).or (l.findSome? f) := by
  rw [List.findSome?_cons]; cases f a <;> rfl

theorem bind_eq_ok {ε α β : Type} {x : Except ε α} {f : α → Except ε β} {b : β} :
    x >>= f = .ok b ↔ ∃ a, x = .ok a ∧ f a = .ok b := by
  cases x <;> simp [bind, Except.bind]

theorem pyAll_eq_ok_true (cs : List (Unit → Except PyExc Bool)) :
    pyAll cs = .ok true ↔ ∀ c ∈ cs, c () = .ok true := by
  induction cs with
  | nil => simp [pyAll]
  | cons c cs ih =>
    simp only [pyAll, bind_eq_ok, List.mem_cons, forall_eq_or_imp]
    constructor
    · rintro ⟨b, hc, hb⟩
      cases b
      · cases hb
      · exact ⟨hc, ih.mp hb⟩
    · rintro ⟨hc, hcs⟩
      exact ⟨true, hc, ih.mpr hcs⟩

theorem pyAny_eq_ok_false (cs : List (Unit → Except PyExc Bool)) :
    pyAny cs = .ok false ↔ ∀ c ∈ cs, c () = .ok false := by
  induction cs with
  | nil => simp [pyAny]
  | cons c cs ih =>
    simp only [pyAny, bind_eq_ok, List.mem_cons, forall_eq_or_imp]
    constructor
    · rintro ⟨b, hc, hb⟩
      cases b
      · exact ⟨hc, ih.mp hb⟩
      · cases hb
    · rintro ⟨hc, hcs⟩
      exact ⟨false, hc, ih.mpr hcs⟩

theorem pyAll_ok {cs : List (Unit → Except PyExc Bool)} (h : cs.Forall fun c => ∃ b, c () = .ok b) :
    ∃ b, pyAll cs = .ok b := by
  rw [List.forall_iff_forall_mem] at h
  induction cs with
  | nil => exact ⟨true, rfl⟩
  | cons c cs ih =>
    obtain ⟨b, hb⟩ := h c (List.mem_cons_self _ _)
    obtain ⟨b', hb'⟩ := ih fun c' hc' => h c' (List.mem_cons_of_mem _ hc')
    cases b
    · exact ⟨false, by simp only [pyAll, hb]; rfl⟩
    · exact ⟨b', by simp only [pyAll, hb]; exact hb'⟩

theorem pyAny_ok {cs : List (Unit → Except PyExc Bool)} (h : cs.Forall fun c => ∃ b, c () = .ok b) :
    ∃ b, pyAny cs = .ok b := by
  rw [List.forall_iff_forall_mem] at h
  induction cs with
  | nil => exact ⟨false, rfl⟩
  | cons c cs ih =>
    obtain ⟨b, hb⟩ := h c (List.mem_cons_self _ _)
    obtain ⟨b', hb'⟩ := ih fun c' hc' => h c' (List.mem_cons_of_mem _ hc')
    cases b
    · exact ⟨b', by simp only [pyAny, hb]; exact hb'⟩
    · exact ⟨true, by simp only [pyAny, hb]; rfl⟩

theorem pyNot_ok {a : Except PyExc Bool} (h : ∃ b, a = .ok b) : ∃ b, pyNot a = .ok b := by
  obtain ⟨b, rfl⟩ := h
  exact ⟨!b, rfl⟩

@[simp] theorem pyNot_eq_ok (a : Except PyExc Bool) (b : Bool) :
    pyNot a = .ok b ↔ a = .ok !b := by
  cases a <;> simp [pyNot, Functor.map, Except.map, Bool.not_eq_eq_eq_not]

end Lkmc

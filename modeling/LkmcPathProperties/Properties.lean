import LkmcPathProperties.Python

/-!
# `PathProperties`: the schema, one path's record, and `update`

`defaultProperties` is the class attribute `default_properties`, which is also the
schema: `PathProperties.new` (`__init__`) raises `ValueError` on any other key.
`PathProperties.update` merges a more specific record into the running one; the
three flag lists concatenate (`_update_list`), the run arguments merge name by name
(`_update_dict`), and every other key is overwritten.

    new LF r = .ok pp ↔ r.Known LF ∧ pp = { properties := r }            (new_eq_ok_iff)
    update self other = .ok pp →
      pp.properties.get? k = (otherTmpAt k (self k) (other k)).or (self k)   (get?_of_update_eq_ok)
    self.properties.Mergeable →
      errorOf (self.update other) = mergeError other.properties            (errorOf_update)
-/

namespace Lkmc

section Schema

variable (LF : String)

def defaultCStd : String := "c11"

def defaultCxxStd : String := "c++17"

/-- The items of `PathProperties.default_properties`.  `LF` is `shell_helpers.LF`, the
token that ends each group of flags. -/
def defaultItems : List (String × PyVal) := [
  ("allowed_archs", .none),
  ("arm_aarch32", .bool false),
  ("baremetal", .bool false),
  ("c_std", .str defaultCStd),
  ("cc_flags", .list [
    .str "-Wall", .str LF,
    .str "-Werror", .str LF,
    .str "-Wextra", .str LF,
    .str "-Wno-unused-function", .str LF,
    .str "-ggdb3", .str LF,
    .str "-fno-pie", .str LF,
    .str "-no-pie", .str LF]),
  ("cc_flags_after", .list [.str "-lm", .str LF]),
  ("cc_pedantic", .bool true),
  ("cxx_std", .str defaultCxxStd),
  ("disrupts_system", .bool false),
  ("exit_status", .int 0),
  ("extra_objs", .list []),
  ("extra_objs_disable_baremetal_bootloader", .bool false),
  ("extra_objs_lkmc_common", .bool false),
  ("gem5_unimplemented_instruction", .bool false),
  ("qemu_unimplemented_instruction", .bool false),
  ("qemu_x86_64_int_syscall", .bool false),
  ("interactive", .bool false),
  ("more_than_1s", .bool false),
  ("no_build", .bool false),
  ("no_executable", .bool false),
  ("requires_argument", .bool false),
  ("requires_dynamic_library", .bool false),
  ("requires_m5ops", .bool false),
  ("requires_syscall_getcpu", .bool false),
  ("requires_semihosting", .bool false),
  ("requires_kernel_modules", .bool false),
  ("requires_sudo", .bool false),
  ("signal_generated_by_os", .bool false),
  ("signal_received", .none),
  ("skip_run_unclassified", .bool false),
  ("test_run_args", .dict []),
  ("userland", .bool false)]

/-- The schema's keys, in the order of `default_properties`. -/
def defaultKeys : List String := [
    "allowed_archs", "arm_aarch32", "baremetal", "c_std", "cc_flags", "cc_flags_after",
    "cc_pedantic", "cxx_std", "disrupts_system", "exit_status", "extra_objs",
    "extra_objs_disable_baremetal_bootloader", "extra_objs_lkmc_common",
    "gem5_unimplemented_instruction", "qemu_unimplemented_instruction",
    "qemu_x86_64_int_syscall", "interactive", "more_than_1s", "no_build", "no_executable",
    "requires_argument", "requires_dynamic_library", "requires_m5ops",
    "requires_syscall_getcpu", "requires_semihosting", "requires_kernel_modules",
    "requires_sudo", "signal_generated_by_os", "signal_received", "skip_run_unclassified",
    "test_run_args", "userland"]

theorem keys_defaultItems : (defaultItems LF).map Prod.fst = defaultKeys := rfl

/-- `PathProperties.default_properties`, the schema: its literal repeats no key. -/
def defaultProperties : PyDict :=
  ⟨defaultItems LF, by rw [keys_defaultItems]; decide⟩

theorem keys_defaultProperties : (defaultProperties LF).keys = defaultKeys := keys_defaultItems LF

/-- A record uses only keys of the schema. -/
def PyDict.Known (r : PyDict) : Prop := ∀ k ∈ r.keys, k ∈ (defaultProperties LF).keys

instance (r : PyDict) : Decidable (r.Known LF) :=
  inferInstanceAs (Decidable (∀ k ∈ r.keys, k ∈ (defaultProperties LF).keys))

end Schema

/-- A `PathProperties` object: its `properties` dict and, once `set_path_components`
has run, the components of its path. -/
structure PathProperties where
  properties : PyDict
  pathComponents : Option (List String) := none

namespace PathProperties

variable (LF : String)

/-- `PathProperties(properties)`: raises on the first key not in `default_properties`. -/
def new (properties : PyDict) : Except PyExc PathProperties :=
  match properties.keys.find? (fun key => key ∉ (defaultProperties LF).keys) with
  | some key => .error (.valueError ("Unknown key: " ++ key))
  | none => .ok { properties }

/-- `self[key]`. -/
def getItem (self : PathProperties) (key : String) : Except PyExc PyVal :=
  self.properties.getItem key

def setPathComponents (self : PathProperties) (pathComponents : List String) : PathProperties :=
  { self with pathComponents := some pathComponents }

/-- `self.path_components`, which only `set_path_components` creates. -/
def getPathComponents (self : PathProperties) : Except PyExc (List String) :=
  match self.pathComponents with
  | some pathComponents => .ok pathComponents
  | none => .error (.attributeError
      "\x27PathProperties\x27 object has no attribute \x27path_components\x27")

theorem new_eq_ok_iff (r : PyDict) (pp : PathProperties) :
    new LF r = .ok pp ↔ r.Known LF ∧ pp = { properties := r } := by
  unfold new PyDict.Known
  split
  · rename_i key hkey
    have hm := List.mem_of_find?_eq_some hkey
    have hu := List.find?_some hkey
    simp only [decide_eq_true_eq] at hu
    simp only [reduceCtorEq, false_iff, not_and]
    exact fun h => absurd (h key hm) hu
  · rename_i hnone
    simp only [List.find?_eq_none, decide_eq_true_eq, not_not] at hnone
    simp only [Except.ok.injEq, eq_comm]
    exact ⟨fun h => ⟨hnone, h⟩, And.right⟩

/-- `__init__` fails exactly on a record with a key outside the schema, and its message
names the first such key. -/
theorem new_eq_error_iff (r : PyDict) (e : PyExc) :
    new LF r = .error e ↔ ∃ key, r.keys.find? (· ∉ (defaultProperties LF).keys) = some key ∧
      e = .valueError ("Unknown key: " ++ key) := by
  unfold new
  cases r.keys.find? (fun key => key ∉ (defaultProperties LF).keys) <;> simp [eq_comm]

/-- The defaults pass their own check. -/
theorem new_defaultProperties :
    new LF (defaultProperties LF) = .ok { properties := defaultProperties LF } :=
  (new_eq_ok_iff LF _ _).mpr ⟨fun _ hk => hk, rfl⟩

end PathProperties

/-! ## `update` -/

/-- The keys whose lists `update` concatenates. -/
def listKeys : List String := ["cc_flags", "cc_flags_after", "extra_objs"]

/-- The value `op` leaves under a key, given `self`'s and `other_tmp_properties`'s. -/
def joinWith (op : PyVal → PyVal → Except PyExc PyVal) :
    Option PyVal → Option PyVal → Option PyVal
  | some a, some b => (op a b).toOption
  | _, b => b

/-- What `update` leaves under `k` in `other_tmp_properties`. -/
def otherTmpAt (k : String) (a b : Option PyVal) : Option PyVal :=
  if k ∈ listKeys then joinWith PyVal.add a b
  else if k = "test_run_args" then joinWith PyVal.mergeDicts a b
  else b

namespace PathProperties

/-- The body shared by `_update_list` and `_update_dict`: when both records have `key`,
`other_tmp_properties[key]` becomes `op self[key] other_tmp_properties[key]`. -/
def updateWith (op : PyVal → PyVal → Except PyExc PyVal) (self otherTmp : PyDict)
    (key : String) : Except PyExc PyDict :=
  match self.get? key, otherTmp.get? key with
  | some a, some b => (otherTmp.set key ·) <$> op a b
  | _, _ => .ok otherTmp

/-- `_update_dict`. -/
def updateDict (self otherTmp : PyDict) (key : String) : Except PyExc PyDict :=
  updateWith PyVal.mergeDicts self otherTmp key

/-- `_update_list`. -/
def updateList (self otherTmp : PyDict) (key : String) : Except PyExc PyDict :=
  updateWith PyVal.add self otherTmp key

/-- `update`: `other`'s record, its flag lists and run arguments merged with `self`'s,
overwrites `self`'s. -/
def update (self other : PathProperties) : Except PyExc PathProperties := do
  let otherTmp := other.properties
  let otherTmp ← updateList self.properties otherTmp "cc_flags"
  let otherTmp ← updateList self.properties otherTmp "cc_flags_after"
  let otherTmp ← updateList self.properties otherTmp "extra_objs"
  let otherTmp ← updateDict self.properties otherTmp "test_run_args"
  pure { self with properties := self.properties.update otherTmp }

section UpdateWith

variable {op : PyVal → PyVal → Except PyExc PyVal} {s o o' : PyDict} {key : String}

theorem get?_of_updateWith (h : updateWith op s o key = .ok o') (k : String) :
    o'.get? k = if key = k then joinWith op (s.get? key) (o.get? key) else o.get? k := by
  unfold updateWith at h
  cases hs : s.get? key <;> cases ho : o.get? key <;> simp only [hs, ho] at h
  case some.some a b =>
    cases hop : op a b <;> simp only [hop, Functor.map, Except.map, reduceCtorEq,
      Except.ok.injEq] at h
    subst h
    by_cases hk : key = k <;> simp [hk, joinWith, hop, Except.toOption]
  all_goals
    cases h
    by_cases hk : key = k <;> simp [hk, joinWith, ← ho]

theorem keys_of_updateWith (h : updateWith op s o key = .ok o') : o'.keys = o.keys := by
  unfold updateWith at h
  cases hs : s.get? key <;> cases ho : o.get? key <;> simp only [hs, ho] at h
  case some.some a b =>
    cases hop : op a b <;> simp only [hop, Functor.map, Except.map, reduceCtorEq,
      Except.ok.injEq] at h
    subst h
    have hk : key ∈ o.keys := by
      by_contra hn; rw [← PyDict.get?_eq_none_iff] at hn; simp [hn] at ho
    rw [PyDict.keys_set, if_pos hk]
  all_goals cases h; rfl

/-- `updateWith` raises only when `op` raises on the two values. -/
theorem updateWith_eq_ok_of (h : ∀ a b, s.get? key = some a → o.get? key = some b →
    ∃ v, op a b = .ok v) : ∃ o', updateWith op s o key = .ok o' := by
  unfold updateWith
  cases hs : s.get? key <;> cases ho : o.get? key <;> simp only
  case some.some a b =>
    obtain ⟨v, hv⟩ := h a b hs ho
    exact ⟨_, by rw [hv]; rfl⟩
  all_goals exact ⟨_, rfl⟩

end UpdateWith

variable {self other pp : PathProperties}

theorem update_eq_ok_iff : update self other = .ok pp ↔
    ∃ o₁, updateList self.properties other.properties "cc_flags" = .ok o₁ ∧
    ∃ o₂, updateList self.properties o₁ "cc_flags_after" = .ok o₂ ∧
    ∃ o₃, updateList self.properties o₂ "extra_objs" = .ok o₃ ∧
    ∃ o₄, updateDict self.properties o₃ "test_run_args" = .ok o₄ ∧
    pp = { self with properties := self.properties.update o₄ } := by
  simp only [update, bind_eq_ok, pure, Except.pure, Except.ok.injEq, @eq_comm _ _ pp]

/-- After a successful `update`, a key holds the merged value if `other` has it, else
`self`'s value. -/
theorem get?_of_update_eq_ok (h : update self other = .ok pp) (k : String) :
    pp.properties.get? k = (otherTmpAt k (self.properties.get? k)
      (other.properties.get? k)).or (self.properties.get? k) := by
  obtain ⟨o₁, h₁, o₂, h₂, o₃, h₃, o₄, h₄, rfl⟩ := update_eq_ok_iff.mp h
  simp only [PyDict.get?_update, get?_of_updateWith h₄, get?_of_updateWith h₃,
    get?_of_updateWith h₂, get?_of_updateWith h₁, otherTmpAt, listKeys]
  by_cases k₁ : k = "cc_flags"; · subst k₁; simp
  by_cases k₂ : k = "cc_flags_after"; · subst k₂; simp
  by_cases k₃ : k = "extra_objs"; · subst k₃; simp
  by_cases k₄ : k = "test_run_args"; · subst k₄; simp
  simp [Ne.symm k₁, Ne.symm k₂, Ne.symm k₃, Ne.symm k₄, k₁, k₂, k₃, k₄]

theorem pathComponents_of_update_eq_ok (h : update self other = .ok pp) :
    pp.pathComponents = self.pathComponents := by
  obtain ⟨_, _, _, _, _, _, _, _, rfl⟩ := update_eq_ok_iff.mp h
  rfl

/-- `update` with keys `self` already has keeps `self`'s keys in their order. -/
theorem keys_of_update_eq_ok (h : update self other = .ok pp)
    (hk : ∀ k ∈ other.properties.keys, k ∈ self.properties.keys) :
    pp.properties.keys = self.properties.keys := by
  obtain ⟨o₁, h₁, o₂, h₂, o₃, h₃, o₄, h₄, rfl⟩ := update_eq_ok_iff.mp h
  refine PyDict.keys_update fun k hm => hk k ?_
  rwa [keys_of_updateWith h₄, keys_of_updateWith h₃, keys_of_updateWith h₂,
    keys_of_updateWith h₁] at hm

/-- `update` reads only `self`'s record, and keeps `self`'s components. -/
theorem update_setPathComponents (self other : PathProperties) (pcs : List String) :
    (self.setPathComponents pcs).update other = (·.setPathComponents pcs) <$> self.update other := by
  simp only [update, setPathComponents, map_bind, map_pure]

end PathProperties

/-! ## `update` on well-typed records -/

namespace PyVal

def isList : PyVal → Bool
  | .list _ => true
  | _ => false

/-- A dict, its names distinct as in any Python dict. -/
def isDict : PyVal → Bool
  | .dict items => decide (items.map Prod.fst).Nodup
  | _ => false

/-- The items of a list value; a record without the key adds none. -/
def listItems : Option PyVal → List PyVal
  | some (.list xs) => xs
  | _ => []

end PyVal

/-- A record's values have the kinds `update` merges: a list under each flag key, a
dict under `test_run_args`. -/
def PyDict.WellTyped (r : PyDict) : Prop :=
  (∀ k ∈ listKeys, ∀ v ∈ r.get? k, v.isList) ∧ ∀ v ∈ r.get? "test_run_args", v.isDict

instance (r : PyDict) : Decidable r.WellTyped :=
  inferInstanceAs (Decidable ((∀ k ∈ listKeys, ∀ v ∈ r.get? k, v.isList) ∧
    ∀ v ∈ r.get? "test_run_args", v.isDict))

theorem wellTyped_defaultProperties (LF : String) : (defaultProperties LF).WellTyped := by
  refine ⟨fun k hk v hv => ?_, fun v hv => ?_⟩
  · simp only [listKeys, List.mem_cons, List.not_mem_nil, or_false] at hk
    rcases hk with rfl | rfl | rfl <;> cases hv <;> rfl
  · cases hv; rfl

namespace PathProperties

theorem updateList_ok {s o : PyDict} (key : String) (hs : ∃ xs, s.get? key = some (.list xs))
    (ho : ∀ v ∈ o.get? key, v.isList) : ∃ o', updateList s o key = .ok o' := by
  refine updateWith_eq_ok_of fun a b ha hb => ?_
  obtain ⟨xs, hxs⟩ := hs
  rw [hxs, Option.some.injEq] at ha
  subst ha
  have := ho b hb
  cases b <;> simp_all [PyVal.isList, PyVal.add]

theorem updateDict_ok {s o : PyDict} (key : String) (hs : ∃ items, s.get? key = some (.dict items))
    (ho : ∀ v ∈ o.get? key, v.isDict) : ∃ o', updateDict s o key = .ok o' := by
  refine updateWith_eq_ok_of fun a b ha hb => ?_
  obtain ⟨items, hitems⟩ := hs
  rw [hitems, Option.some.injEq] at ha
  subst ha
  have := ho b hb
  cases b <;> simp_all [PyVal.isDict, PyVal.mergeDicts]

/-- `update` raises nothing when `self` holds lists and a dict where it merges, and
`other` is well-typed. -/
theorem update_eq_ok_of_wellTyped {self other : PathProperties}
    (hl : ∀ k ∈ listKeys, ∃ xs, self.properties.get? k = some (.list xs))
    (hd : ∃ items, self.properties.get? "test_run_args" = some (.dict items))
    (ho : other.properties.WellTyped) : ∃ pp, update self other = .ok pp := by
  have keep : ∀ {o o' : PyDict} {op key} (k : String), key ≠ k →
      updateWith op self.properties o key = .ok o' → o'.get? k = o.get? k := fun k hk h => by
    rw [get?_of_updateWith h, if_neg hk]
  obtain ⟨o₁, h₁⟩ := updateList_ok "cc_flags" (hl _ (by simp [listKeys]))
    (ho.1 _ (by simp [listKeys]))
  obtain ⟨o₂, h₂⟩ := updateList_ok "cc_flags_after" (hl _ (by simp [listKeys]))
    (by rw [keep _ (by decide) h₁]; exact ho.1 _ (by simp [listKeys]))
  obtain ⟨o₃, h₃⟩ := updateList_ok "extra_objs" (hl _ (by simp [listKeys]))
    (by rw [keep _ (by decide) h₂, keep _ (by decide) h₁]; exact ho.1 _ (by simp [listKeys]))
  obtain ⟨o₄, h₄⟩ := updateDict_ok "test_run_args" hd
    (by rw [keep _ (by decide) h₃, keep _ (by decide) h₂, keep _ (by decide) h₁]; exact ho.2)
  exact ⟨_, update_eq_ok_iff.mpr ⟨o₁, h₁, o₂, h₂, o₃, h₃, o₄, h₄, rfl⟩⟩

end PathProperties

/-! ## What `update` raises -/

/-- A record holding the kinds of values `update` merges into: a list under each flag key
and a dict under `test_run_args`. -/
structure PyDict.Mergeable (r : PyDict) : Prop where
  lists : ∀ k ∈ listKeys, ∃ xs, r.get? k = some (.list xs)
  runArgs : ∃ items, r.get? "test_run_args" = some (.dict items)

/-- The exception `update` raises on `other`'s record into a mergeable one: `self[key] +
other[key]` on the first flag key whose value is not a list, else `{**self[key],
**other[key]}` when the run arguments are not a dict. -/
def mergeError (other : PyDict) : Option PyExc :=
  (listKeys.findSome? fun k => (other.get? k).bind (errorOf <| PyVal.add (.list []) ·)).or
    ((other.get? "test_run_args").bind (errorOf <| PyVal.mergeDicts (.dict []) ·))

namespace PathProperties

/-- One merge step, then the rest: it raises what `op` raises on `other`'s value under
`key`, else what the rest raises, which does not depend on the value under `key`. -/
theorem errorOf_updateWith_bind {β : Type} {op : PyVal → PyVal → Except PyExc PyVal}
    {op₀ : PyVal → Except PyExc PyVal} {s o o' : PyDict} {key : String} {a : PyVal}
    (hop : ∀ b, errorOf (op a b) = errorOf (op₀ b)) (hs : s.get? key = some a)
    (hkey : o'.get? key = o.get? key) {g : PyDict → Except PyExc β} {E : Option PyExc}
    (hg : ∀ o'', (∀ k, key ≠ k → o''.get? k = o'.get? k) → errorOf (g o'') = E) :
    errorOf (updateWith op s o' key >>= g) = ((o.get? key).bind (errorOf <| op₀ ·)).or E := by
  unfold updateWith
  rw [hs, ← hkey]
  cases ho : o'.get? key with
  | none => exact hg o' fun _ _ => rfl
  | some b =>
    dsimp only
    rw [Option.some_bind, ← hop b]
    cases op a b with
    | error ex => rfl
    | ok v =>
      rw [errorOf_ok, Option.none_or]
      exact hg _ fun k hk => by rw [PyDict.get?_set, if_neg hk]

/-- The last merge step raises what `op` raises on `other`'s value under `key`. -/
theorem errorOf_updateWith_pure {β : Type} {op : PyVal → PyVal → Except PyExc PyVal}
    {op₀ : PyVal → Except PyExc PyVal} {s o o' : PyDict} {key : String} {a : PyVal}
    (hop : ∀ b, errorOf (op a b) = errorOf (op₀ b)) (hs : s.get? key = some a)
    (hkey : o'.get? key = o.get? key) (f : PyDict → β) :
    errorOf (updateWith op s o' key >>= fun o'' => pure (f o'')) =
      (o.get? key).bind (errorOf <| op₀ ·) :=
  (errorOf_updateWith_bind hop hs hkey fun o'' _ => errorOf_ok (f o'')).trans Option.or_none

/-- Into a mergeable record, `update` raises exactly `mergeError` of `other`'s record. -/
theorem errorOf_update {self : PathProperties} (hm : self.properties.Mergeable)
    (other : PathProperties) :
    errorOf (self.update other) = mergeError other.properties := by
  obtain ⟨xs₁, h₁⟩ := hm.lists "cc_flags" (by decide)
  obtain ⟨xs₂, h₂⟩ := hm.lists "cc_flags_after" (by decide)
  obtain ⟨xs₃, h₃⟩ := hm.lists "extra_objs" (by decide)
  obtain ⟨items, h₄⟩ := hm.runArgs
  have hadd : ∀ xs b, errorOf (PyVal.add (.list xs) b) = errorOf (PyVal.add (.list []) b) := by
    intro xs b; cases b <;> rfl
  have hmerge : ∀ b, errorOf (PyVal.mergeDicts (.dict items) b) =
      errorOf (PyVal.mergeDicts (.dict []) b) := by
    intro b; cases b <;> rfl
  let e : String → Option PyExc := fun k =>
    (other.properties.get? k).bind (errorOf <| PyVal.add (.list []) ·)
  have hE : mergeError other.properties = (e "cc_flags").or ((e "cc_flags_after").or
      ((e "extra_objs").or ((other.properties.get? "test_run_args").bind
        (errorOf <| PyVal.mergeDicts (.dict []) ·)))) := by
    simp only [mergeError, listKeys, findSome?_cons_eq_or, List.findSome?_nil, Option.or_none,
      Option.or_assoc]
  rw [hE]
  exact errorOf_updateWith_bind (hadd xs₁) h₁ rfl fun o₁ hk₁ =>
    errorOf_updateWith_bind (hadd xs₂) h₂ (hk₁ _ (by decide)) fun o₂ hk₂ =>
    errorOf_updateWith_bind (hadd xs₃) h₃ ((hk₂ _ (by decide)).trans (hk₁ _ (by decide)))
      fun o₃ hk₃ => errorOf_updateWith_pure hmerge h₄ ((hk₃ _ (by decide)).trans
        ((hk₂ _ (by decide)).trans (hk₁ _ (by decide)))) _

/-- A successful `update` into a mergeable record leaves a mergeable record. -/
theorem mergeable_of_update_eq_ok {self other pp : PathProperties} (hm : self.properties.Mergeable)
    (h : update self other = .ok pp) : pp.properties.Mergeable := by
  have hget := get?_of_update_eq_ok h
  constructor
  · intro k hk
    obtain ⟨xs, hxs⟩ := hm.lists k hk
    rw [hget, otherTmpAt, if_pos hk, hxs]
    cases other.properties.get? k with
    | none => exact ⟨xs, rfl⟩
    | some b => cases b <;> exact ⟨_, rfl⟩
  · obtain ⟨items, hitems⟩ := hm.runArgs
    have hnl : "test_run_args" ∉ listKeys := by decide
    rw [hget, otherTmpAt, if_neg hnl, if_pos rfl, hitems]
    cases other.properties.get? "test_run_args" with
    | none => exact ⟨items, rfl⟩
    | some b => cases b <;> exact ⟨_, rfl⟩

end PathProperties

end Lkmc

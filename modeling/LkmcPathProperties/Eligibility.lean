import LkmcPathProperties.Properties

/-!
# `should_be_built` and `should_be_tested`

The two predicates the build and test scripts ask of a path's resolved properties.
Each is an `and` of tests evaluated left to right: a lookup that misses raises
`KeyError`, and the `libs` filter reads `path_components[2]` after checking only
`len(path_components) > 1`.

    shouldBeTested self env = .ok true →
      shouldBeBuilt self env true = .ok true ∧ shouldBeBuilt self env false = .ok true
                                                      (shouldBeBuilt_of_shouldBeTested)
    shouldBeBuilt self env link = .error e ↔
      ReadsMissingPackage pcs env ∧ e = .indexError "list index out of range"
                                                      (shouldBeBuilt_eq_error_iff)

The second holds for a record with every schema key whose `allowed_archs` is `None` or
something `in` can search, and so does its counterpart for `should_be_tested`.  A build
that asks for more packages or extensions drops no path (`eligible_of_widens`).
-/

namespace Lkmc

/-- The `env` dict of the build and test scripts, with the keys the two predicates read. -/
structure Env where
  arch : String
  mode : String
  emulator : String
  package : List String
  packageAll : Bool
  buildInExts : List String
  baremetalBuildInExts : List String
  deriving DecidableEq, Repr

namespace PyVal

/-- `v is None`. -/
def isNone : PyVal → Bool
  | .none => true
  | _ => false

/-- A value that `x in v` searches without raising. -/
def isContainer : PyVal → Bool
  | .str _ | .list _ | .set _ | .dict _ => true
  | _ => false

end PyVal

namespace PathProperties

/-- `self[key]` as the operand of a test. -/
def test (self : PathProperties) (key : String) : Except PyExc Bool :=
  (·.truthy) <$> self.getItem key

/-- `len(path_components) > 1 and path_components[1] == 'libs' and not env['package_all']
and not path_components[2] in env['package']`. -/
def libsExcluded (pathComponents : List String) (env : Env) : Except PyExc Bool :=
  pyAll [
    fun _ => pure (decide (pathComponents.length > 1)),
    fun _ => return (← pyIndex pathComponents 1) == "libs",
    fun _ => pure !env.packageAll,
    fun _ => return !env.package.contains (← pyIndex pathComponents 2)]

/-- `env['mode'] == mode and (not self[key] or not ext in exts)`, for the userland and
the baremetal builds. -/
def modeExcluded (self : PathProperties) (env : Env) (mode key : String) (exts : List String)
    (ext : String) : Except PyExc Bool :=
  pyAll [
    fun _ => pure (env.mode == mode),
    fun _ => pyAny [fun _ => pyNot (self.test key), fun _ => pure !exts.contains ext]]

/-- `self['allowed_archs'] is None or env['arch'] in self['allowed_archs']`. -/
def archAllowed (self : PathProperties) (env : Env) : Except PyExc Bool :=
  pyAny [
    fun _ => return (← self.getItem "allowed_archs").isNone,
    fun _ => self.getItem "allowed_archs" >>= (·.contains env.arch)]

/-- The operands of the `and` that `should_be_built` returns. -/
def buildTests (self : PathProperties) (env : Env) (link : Bool) (pathComponents : List String)
    (ext : String) : List (Unit → Except PyExc Bool) := [
  fun _ => pyNot (libsExcluded pathComponents env),
  fun _ => pyNot (self.test "no_build"),
  fun _ => self.archAllowed env,
  fun _ => pyNot (pyAny [
    fun _ => self.modeExcluded env "userland" "userland" env.buildInExts ext,
    fun _ => self.modeExcluded env "baremetal" "baremetal" env.baremetalBuildInExts ext]),
  fun _ => pyNot (pyAll [fun _ => pure link, fun _ => self.test "no_executable"])]

/-- `PathProperties.should_be_built(env, link)`. -/
def shouldBeBuilt (self : PathProperties) (env : Env) (link : Bool := false) :
    Except PyExc Bool := do
  let pathComponents ← self.getPathComponents
  let ext := splitextExt (← pyIndex pathComponents (-1))
  pyAll (self.buildTests env link pathComponents ext)

/-- The operands of the `and` that `should_be_tested` returns after `should_be_built`. -/
def runTests (self : PathProperties) (env : Env) : List (Unit → Except PyExc Bool) := [
  fun _ => pyNot (pyAll [
    fun _ => pure (env.mode == "baremetal"),
    fun _ => pyAny [fun _ => self.test "arm_aarch32", fun _ => self.test "signal_generated_by_os"]]),
  fun _ => pyNot (self.test "disrupts_system"),
  fun _ => pyNot (self.test "interactive"),
  fun _ => pyNot (self.test "more_than_1s"),
  fun _ => pyNot (self.test "no_executable"),
  fun _ => pyNot (self.test "requires_argument"),
  fun _ => pyNot (self.test "requires_kernel_modules"),
  fun _ => pyNot (self.test "requires_sudo"),
  fun _ => pyNot (self.test "skip_run_unclassified"),
  fun _ => pyNot (self.test "qemu_x86_64_int_syscall"),
  fun _ => pyNot (pyAll [
    fun _ => pure (env.emulator == "gem5"),
    fun _ => pyAny [
      fun _ => self.test "gem5_unimplemented_instruction",
      fun _ => return !(← self.getItem "signal_received").isNone,
      fun _ => self.test "requires_dynamic_library",
      fun _ => self.test "requires_semihosting",
      fun _ => self.test "requires_syscall_getcpu"]]),
  fun _ => pyNot (pyAll [
    fun _ => pure (env.emulator == "qemu"),
    fun _ => pyAny [
      fun _ => self.test "requires_m5ops",
      fun _ => pyAll [
        fun _ => pure (env.mode == "baremetal"),
        fun _ => self.test "qemu_unimplemented_instruction"]]])]

/-- `PathProperties.should_be_tested(env)`. -/
def shouldBeTested (self : PathProperties) (env : Env) : Except PyExc Bool :=
  pyAll ((fun _ => self.shouldBeBuilt env) :: self.runTests env)

end PathProperties

/-- The `libs` filter reads a third component that is not there: the path has two
components, the second `libs`, and the build does not take every package. -/
def ReadsMissingPackage (pathComponents : List String) (env : Env) : Prop :=
  pathComponents.length = 2 ∧ pathComponents[1]? = some "libs" ∧ env.packageAll = false

instance (pathComponents : List String) (env : Env) :
    Decidable (ReadsMissingPackage pathComponents env) :=
  inferInstanceAs (Decidable (_ ∧ _ ∧ _))

/-- The flags `should_be_tested` checks under every target, in its order. -/
def runFlags : List String :=
  ["disrupts_system", "interactive", "more_than_1s", "no_executable", "requires_argument",
    "requires_kernel_modules", "requires_sudo", "skip_run_unclassified", "qemu_x86_64_int_syscall"]

/-- `env'` asks for at least what `env` asks for: the same target, more packages and
more extensions to build. -/
structure Env.Widens (env env' : Env) : Prop where
  arch : env'.arch = env.arch
  mode : env'.mode = env.mode
  emulator : env'.emulator = env.emulator
  package : env.package ⊆ env'.package
  packageAll : env.packageAll = true → env'.packageAll = true
  buildInExts : env.buildInExts ⊆ env'.buildInExts
  baremetalBuildInExts : env.baremetalBuildInExts ⊆ env'.baremetalBuildInExts

/-! ## Lemmas -/

theorem PyVal.contains_ok {v : PyVal} (h : v.isContainer) (x : String) :
    ∃ b, v.contains x = .ok b := by
  cases v <;> first | exact ⟨_, rfl⟩ | cases h

/-- `update` replaces the flags in `runFlags`: none is a list or the run arguments. -/
theorem runFlags_replaced : ∀ k ∈ runFlags, k ∉ listKeys ∧ k ≠ "test_run_args" := by decide

namespace PathProperties

variable {self : PathProperties} {env : Env}

theorem shouldBeBuilt_eq_ok_true_iff {link : Bool} : self.shouldBeBuilt env link = .ok true ↔
    ∃ pcs, self.getPathComponents = .ok pcs ∧ ∃ last, pyIndex pcs (-1) = .ok last ∧
      ∀ c ∈ self.buildTests env link pcs (splitextExt last), c () = .ok true := by
  simp only [shouldBeBuilt, bind_eq_ok, pyAll_eq_ok_true]

/-- A path that is tested is built, linked or not. -/
theorem shouldBeBuilt_of_shouldBeTested (h : self.shouldBeTested env = .ok true) :
    self.shouldBeBuilt env true = .ok true ∧ self.shouldBeBuilt env false = .ok true := by
  simp only [shouldBeTested, runTests, pyAll_eq_ok_true, List.forall_mem_cons,
    List.not_mem_nil, false_implies, implies_true, and_true, pyNot_eq_ok] at h
  obtain ⟨hb, -, -, -, -, hexe, -⟩ := h
  refine ⟨?_, hb⟩
  obtain ⟨pcs, hpcs, last, hlast, hall⟩ := shouldBeBuilt_eq_ok_true_iff.mp hb
  refine shouldBeBuilt_eq_ok_true_iff.mpr ⟨pcs, hpcs, last, hlast, ?_⟩
  simp only [buildTests, List.forall_mem_cons, List.not_mem_nil, false_implies, implies_true,
    and_true] at hall ⊢
  obtain ⟨h₁, h₂, h₃, h₄, -⟩ := hall
  refine ⟨h₁, h₂, h₃, h₄, ?_⟩
  simp only [pyNot_eq_ok, pyAll, hexe]
  rfl

theorem shouldBeBuilt_of_shouldBeTested_hello :
    let pp : PathProperties :=
      ⟨(defaultProperties "").set "userland" (.bool true), some ["userland", "c", "hello.c"]⟩
    let env : Env := ⟨"x86_64", "userland", "qemu", [], false, [".c"], []⟩
    pp.shouldBeTested env = .ok true ∧
      pp.shouldBeBuilt env true = .ok true ∧ pp.shouldBeBuilt env false = .ok true := by
  intro pp env
  have h : pp.shouldBeTested env = .ok true := rfl
  exact ⟨h, shouldBeBuilt_of_shouldBeTested h⟩

theorem pyIndex_last_ok {α : Type} {xs : List α} (h : xs ≠ []) :
    ∃ x, pyIndex xs (-1) = .ok x := by
  obtain ⟨ys, y, rfl⟩ := List.eq_nil_or_concat xs |>.resolve_left h
  have hj : -1 + ((ys.length : Int) + 1) = ys.length := by omega
  have h0 : (0 : Int) ≤ ys.length := by omega
  exact ⟨y, by simp [pyIndex, hj, h0]⟩

theorem getItem_ok_of_mem {key : String} (h : key ∈ self.properties.keys) :
    ∃ v, self.getItem key = .ok v := by
  cases hv : self.properties.get? key with
  | none => exact absurd ((PyDict.get?_eq_none_iff _ _).mp hv) (not_not.mpr h)
  | some v => exact ⟨v, (PyDict.getItem_eq_ok_iff _ _ _).mpr hv⟩

theorem shouldBeBuilt_eq {pcs : List String} {last : String} {link : Bool}
    (hpc : self.pathComponents = some pcs) (hlast : pyIndex pcs (-1) = .ok last) :
    self.shouldBeBuilt env link = pyAll (self.buildTests env link pcs (splitextExt last)) := by
  simp only [shouldBeBuilt, getPathComponents, hpc, ok_bind, hlast]

theorem libsExcluded_eq_error_iff (pcs : List String) (env : Env) (e : PyExc) :
    libsExcluded pcs env = .error e ↔
      ReadsMissingPackage pcs env ∧ e = .indexError "list index out of range" := by
  rcases pcs with _ | ⟨a, _ | ⟨b, _ | ⟨c, rest⟩⟩⟩
  · simp [libsExcluded, pyAll, ReadsMissingPackage]
  · simp [libsExcluded, pyAll, ReadsMissingPackage]
  · simp [libsExcluded, pyAll, pyIndex, ReadsMissingPackage]
    by_cases hb : b = "libs" <;> cases hp : env.packageAll <;> simp [hb, hp, @eq_comm _ e]
  · simp [libsExcluded, pyAll, pyIndex, ReadsMissingPackage]
    split_ifs <;> simp

theorem libsExcluded_ok {pcs : List String} (h : ¬ReadsMissingPackage pcs env) :
    ∃ b, libsExcluded pcs env = .ok b := by
  cases hl : libsExcluded pcs env with
  | ok b => exact ⟨b, rfl⟩
  | error e => exact absurd ((libsExcluded_eq_error_iff pcs env e).mp hl).1 h

/-- The `libs` filter raises before any lookup. -/
theorem shouldBeBuilt_of_readsMissingPackage {pcs : List String} {link : Bool}
    (hpc : self.pathComponents = some pcs) (hm : ReadsMissingPackage pcs env) :
    self.shouldBeBuilt env link = .error (.indexError "list index out of range") := by
  obtain ⟨last, hlast⟩ := pyIndex_last_ok (List.ne_nil_of_length_pos (by rw [hm.1]; decide))
  rw [shouldBeBuilt_eq hpc hlast, buildTests, pyAll,
    (libsExcluded_eq_error_iff pcs env _).mpr ⟨hm, rfl⟩]
  rfl

theorem shouldBeTested_of_readsMissingPackage {pcs : List String}
    (hpc : self.pathComponents = some pcs) (hm : ReadsMissingPackage pcs env) :
    self.shouldBeTested env = .error (.indexError "list index out of range") := by
  rw [shouldBeTested, pyAll, shouldBeBuilt_of_readsMissingPackage hpc hm, error_bind]

theorem test_eq_ok {key : String} {v : PyVal} (h : self.properties.get? key = some v) :
    self.test key = .ok v.truthy := by
  rw [test, getItem, (PyDict.getItem_eq_ok_iff _ _ _).mpr h]
  rfl

/-- The architecture test passes on `None` and is `env['arch'] in allowed_archs`
otherwise. -/
theorem archAllowed_eq {v : PyVal} (haa : self.properties.get? "allowed_archs" = some v) :
    self.archAllowed env = if v.isNone then .ok true else v.contains env.arch := by
  have hv : self.getItem "allowed_archs" = .ok v := (PyDict.getItem_eq_ok_iff _ _ _).mpr haa
  cases h : v.isNone
  · simp only [archAllowed, pyAny, hv, h, ok_bind, pure_eq_ok, if_false]
    cases v.contains env.arch with
    | error => rfl
    | ok b => cases b <;> rfl
  · simp [archAllowed, pyAny, hv, h]

theorem archAllowed_of_shouldBeBuilt {link : Bool} (h : self.shouldBeBuilt env link = .ok true) :
    self.archAllowed env = .ok true := by
  obtain ⟨_, _, _, _, hall⟩ := shouldBeBuilt_eq_ok_true_iff.mp h
  exact hall _ (List.mem_cons_of_mem _ (List.mem_cons_of_mem _ (List.mem_cons_self _ _)))

/-- A path whose `allowed_archs` is a one-element set is built only for that architecture. -/
theorem arch_of_shouldBeBuilt {a : String} {link : Bool}
    (haa : self.properties.get? "allowed_archs" = some (.set [.str a]))
    (h : self.shouldBeBuilt env link = .ok true) : env.arch = a := by
  have h₃ := archAllowed_of_shouldBeBuilt h
  simp [archAllowed_eq haa, PyVal.isNone, PyVal.contains, PyVal.isStr] at h₃
  exact h₃.symm

/-- A path one of whose flags in `runFlags` is set is not tested, whatever the target. -/
theorem shouldBeTested_ne_of_runFlag {key : String} (hk : key ∈ runFlags)
    (htk : self.test key = .ok true) : self.shouldBeTested env ≠ .ok true := by
  intro h
  simp only [shouldBeTested, runTests, pyAll_eq_ok_true, List.forall_mem_cons, pyNot_eq_ok,
    Bool.not_true] at h
  simp only [runFlags, List.mem_cons, List.not_mem_nil, or_false] at hk
  rcases hk with rfl | rfl | rfl | rfl | rfl | rfl | rfl | rfl | rfl <;> simp [htk] at h

/-! ## A wider build -/

/-- The `libs` filter lets a path through when it has no third component to test, or the
build takes every package or names the third component. -/
theorem libsExcluded_eq_ok_false_iff (pcs : List String) (env : Env) :
    libsExcluded pcs env = .ok false ↔ pcs.length ≤ 1 ∨ pcs[1]? ≠ some "libs" ∨
      env.packageAll = true ∨ ∃ p, pcs[2]? = some p ∧ p ∈ env.package := by
  rcases pcs with _ | ⟨a, _ | ⟨b, _ | ⟨c, rest⟩⟩⟩
  · simp [libsExcluded, pyAll]
  · simp [libsExcluded, pyAll]
  · by_cases hb : b = "libs" <;> cases hp : env.packageAll <;>
      simp [libsExcluded, pyAll, pyIndex, hb, hp]
  · by_cases hb : b = "libs" <;> cases hp : env.packageAll <;>
      simp [libsExcluded, pyAll, pyIndex, hb, hp]

/-- A mode filter lets a path through in another mode, or when the path declares the
mode and its extension is one the mode builds. -/
theorem modeExcluded_eq_ok_false_iff {mode key ext : String} {exts : List String} :
    self.modeExcluded env mode key exts ext = .ok false ↔
      env.mode ≠ mode ∨ (self.test key = .ok true ∧ ext ∈ exts) := by
  unfold modeExcluded
  by_cases hmode : env.mode = mode
  · cases ht : self.test key with
    | error e => simp [pyAll, pyAny, pyNot, ht, hmode, Functor.map, Except.map]
    | ok b =>
      cases b <;> by_cases hx : ext ∈ exts <;>
        simp [pyAll, pyAny, pyNot, ht, hmode, hx, Functor.map, Except.map]
  · simp [pyAll, hmode]

section Widens

variable {env' : Env} (hw : env.Widens env')
include hw

theorem libsExcluded_widen {pcs : List String} (h : libsExcluded pcs env = .ok false) :
    libsExcluded pcs env' = .ok false := by
  rw [libsExcluded_eq_ok_false_iff] at h ⊢
  exact h.imp_right (Or.imp_right (Or.imp hw.packageAll fun ⟨p, hp, hm⟩ => ⟨p, hp, hw.package hm⟩))

theorem modeExcluded_widen {mode key ext : String} {exts exts' : List String} (he : exts ⊆ exts')
    (h : self.modeExcluded env mode key exts ext = .ok false) :
    self.modeExcluded env' mode key exts' ext = .ok false := by
  rw [modeExcluded_eq_ok_false_iff] at h ⊢
  rw [hw.mode]
  exact h.imp_right fun ⟨ht, hx⟩ => ⟨ht, he hx⟩

theorem shouldBeBuilt_widen {link : Bool} (h : self.shouldBeBuilt env link = .ok true) :
    self.shouldBeBuilt env' link = .ok true := by
  obtain ⟨pcs, hpcs, last, hlast, hall⟩ := shouldBeBuilt_eq_ok_true_iff.mp h
  refine shouldBeBuilt_eq_ok_true_iff.mpr ⟨pcs, hpcs, last, hlast, ?_⟩
  have harch : self.archAllowed env' = self.archAllowed env := by simp only [archAllowed, hw.arch]
  simp only [buildTests, List.forall_mem_cons, List.not_mem_nil, false_implies, implies_true,
    and_true, pyNot_eq_ok, Bool.not_true, pyAny_eq_ok_false, harch] at hall ⊢
  obtain ⟨h₁, h₂, h₃, ⟨h₄, h₅⟩, h₆⟩ := hall
  exact ⟨libsExcluded_widen hw h₁, h₂, h₃, ⟨modeExcluded_widen hw hw.buildInExts h₄,
    modeExcluded_widen hw hw.baremetalBuildInExts h₅⟩, h₆⟩

/-- **A wider build.**  A build for the same architecture, mode and emulator that takes
more packages or more extensions builds every path the narrower build built, linked or
not, and tests every path it tested. -/
theorem eligible_of_widens :
    (∀ link, self.shouldBeBuilt env link = .ok true → self.shouldBeBuilt env' link = .ok true) ∧
    (self.shouldBeTested env = .ok true → self.shouldBeTested env' = .ok true) := by
  refine ⟨fun _ => shouldBeBuilt_widen hw, fun h => ?_⟩
  have hrun : self.runTests env' = self.runTests env := by
    simp only [runTests, hw.mode, hw.emulator]
  simp only [shouldBeTested, pyAll_eq_ok_true, List.forall_mem_cons, hrun] at h ⊢
  exact ⟨shouldBeBuilt_widen hw h.1, h.2⟩

end Widens

theorem eligible_of_widens_libdrm :
    let pp : PathProperties :=
      ⟨(defaultProperties "").set "userland" (.bool true),
        some ["userland", "libs", "libdrm", "drm.c"]⟩
    let env : Env := ⟨"x86_64", "userland", "qemu", ["libdrm"], false, [".c"], []⟩
    let env' : Env := ⟨"x86_64", "userland", "qemu", ["libdrm", "libx11"], false, [".c", ".S"], []⟩
    env.Widens env' ∧
      (∀ link, pp.shouldBeBuilt env link = .ok true → pp.shouldBeBuilt env' link = .ok true) ∧
      (pp.shouldBeTested env = .ok true → pp.shouldBeTested env' = .ok true) := by
  intro pp env env'
  have hw : env.Widens env' :=
    ⟨rfl, rfl, rfl, by simp [env, env'], nofun, by simp [env, env'], fun _ h => h⟩
  exact ⟨hw, eligible_of_widens hw⟩

section Schema

variable {LF : String} (hkeys : self.properties.keys = (defaultProperties LF).keys)
include hkeys

theorem getItem_ok {key : String} (hk : key ∈ defaultKeys) : ∃ v, self.getItem key = .ok v :=
  getItem_ok_of_mem (by rw [hkeys, keys_defaultProperties]; exact hk)

theorem test_ok {key : String} (hk : key ∈ defaultKeys) : ∃ b, self.test key = .ok b := by
  obtain ⟨v, hv⟩ := getItem_ok hkeys hk
  exact ⟨v.truthy, by rw [test, hv]; rfl⟩

theorem modeExcluded_ok {mode key ext : String} {exts : List String} (hk : key ∈ defaultKeys) :
    ∃ b, self.modeExcluded env mode key exts ext = .ok b :=
  pyAll_ok ⟨⟨_, rfl⟩, pyAny_ok ⟨pyNot_ok (test_ok hkeys hk), ⟨_, rfl⟩⟩⟩

theorem archAllowed_ok
    (harch : ∀ v ∈ self.properties.get? "allowed_archs", v.isNone ∨ v.isContainer) :
    ∃ b, self.archAllowed env = .ok b := by
  obtain ⟨v, hv⟩ : ∃ v, self.getItem "allowed_archs" = .ok v := getItem_ok hkeys (by decide)
  rcases harch v ((PyDict.getItem_eq_ok_iff _ _ _).mp hv) with hn | hc
  · cases v <;> simp only [PyVal.isNone, reduceCtorEq] at hn
    exact ⟨true, by rw [archAllowed, pyAny, hv]; rfl⟩
  · obtain ⟨b, hb⟩ := PyVal.contains_ok hc env.arch
    exact pyAny_ok ⟨⟨_, by rw [hv]; rfl⟩, ⟨b, by rw [hv, ok_bind, hb]⟩⟩

/-- With every schema key present and `allowed_archs` searchable, only the `libs` filter
can raise. -/
theorem shouldBeBuilt_ok {pcs : List String} {link : Bool} (hpc : self.pathComponents = some pcs)
    (hne : pcs ≠ [])
    (harch : ∀ v ∈ self.properties.get? "allowed_archs", v.isNone ∨ v.isContainer)
    (hm : ¬ReadsMissingPackage pcs env) : ∃ b, self.shouldBeBuilt env link = .ok b := by
  obtain ⟨last, hlast⟩ := pyIndex_last_ok hne
  rw [shouldBeBuilt_eq hpc hlast]
  exact pyAll_ok ⟨pyNot_ok (libsExcluded_ok hm), pyNot_ok (test_ok hkeys (by decide)),
    archAllowed_ok hkeys harch,
    pyNot_ok (pyAny_ok ⟨modeExcluded_ok hkeys (by decide), modeExcluded_ok hkeys (by decide)⟩),
    pyNot_ok (pyAll_ok ⟨⟨_, rfl⟩, test_ok hkeys (by decide)⟩)⟩

theorem runTests_ok : (self.runTests env).Forall fun c => ∃ b, c () = .ok b := by
  have t : ∀ {key}, key ∈ defaultKeys → ∃ b, self.test key = .ok b := test_ok hkeys
  obtain ⟨v, hv⟩ : ∃ v, self.getItem "signal_received" = .ok v := getItem_ok hkeys (by decide)
  have hsig : ∃ b, (do return !(← self.getItem "signal_received").isNone) = Except.ok b :=
    ⟨_, by rw [hv]; rfl⟩
  exact ⟨pyNot_ok (pyAll_ok ⟨⟨_, rfl⟩, pyAny_ok ⟨t (by decide), t (by decide)⟩⟩),
    pyNot_ok (t (by decide)), pyNot_ok (t (by decide)), pyNot_ok (t (by decide)),
    pyNot_ok (t (by decide)), pyNot_ok (t (by decide)), pyNot_ok (t (by decide)),
    pyNot_ok (t (by decide)), pyNot_ok (t (by decide)), pyNot_ok (t (by decide)),
    pyNot_ok (pyAll_ok ⟨⟨_, rfl⟩, pyAny_ok ⟨t (by decide), hsig, t (by decide), t (by decide),
      t (by decide)⟩⟩),
    pyNot_ok (pyAll_ok ⟨⟨_, rfl⟩,
      pyAny_ok ⟨t (by decide), pyAll_ok ⟨⟨_, rfl⟩, t (by decide)⟩⟩⟩)⟩

/-- `should_be_built` raises exactly where the `libs` filter reads a missing component. -/
theorem shouldBeBuilt_eq_error_iff {pcs : List String} {link : Bool}
    (hpc : self.pathComponents = some pcs) (hne : pcs ≠ [])
    (harch : ∀ v ∈ self.properties.get? "allowed_archs", v.isNone ∨ v.isContainer) (e : PyExc) :
    self.shouldBeBuilt env link = .error e ↔
      ReadsMissingPackage pcs env ∧ e = .indexError "list index out of range" := by
  by_cases hm : ReadsMissingPackage pcs env
  · rw [shouldBeBuilt_of_readsMissingPackage hpc hm, Except.error.injEq, eq_comm]
    exact (and_iff_right hm).symm
  · obtain ⟨b, hb⟩ := shouldBeBuilt_ok hkeys hpc hne harch hm
    rw [hb]
    exact ⟨nofun, fun h => absurd h.1 hm⟩

/-- `should_be_tested` raises exactly where `should_be_built` does. -/
theorem shouldBeTested_eq_error_iff {pcs : List String}
    (hpc : self.pathComponents = some pcs) (hne : pcs ≠ [])
    (harch : ∀ v ∈ self.properties.get? "allowed_archs", v.isNone ∨ v.isContainer) (e : PyExc) :
    self.shouldBeTested env = .error e ↔
      ReadsMissingPackage pcs env ∧ e = .indexError "list index out of range" := by
  by_cases hm : ReadsMissingPackage pcs env
  · rw [shouldBeTested_of_readsMissingPackage hpc hm, Except.error.injEq, eq_comm]
    exact (and_iff_right hm).symm
  · obtain ⟨b, hb⟩ : ∃ b, self.shouldBeTested env = .ok b :=
      pyAll_ok ⟨shouldBeBuilt_ok hkeys hpc hne harch hm, runTests_ok hkeys⟩
    rw [hb]
    exact ⟨nofun, fun h => absurd h.1 hm⟩

end Schema

end PathProperties

end Lkmc

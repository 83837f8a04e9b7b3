import LkmcPathProperties.Eligibility
import LkmcPathProperties.Walk

/-!
# `path_properties_tuples`, `path_properties_tree` and the module's `get`

The declarations of the repository's examples, the tree built from them when the
module is imported, and `get` on it.  The declarations are one literal, so no children
dict is reached from two places and the `Entry` model of `make_from_tuples` applies
(`ObjectsBuild`).  Every record of the declarations uses schema keys only and is well
typed (`records_ok`), so importing the module builds the declared tree
(`pathPropertiesTree_eq`), and `get` returns, for every path, the
defaults merged with the declared records along it (`get_resolved_along`).  On those,
`should_be_built` and `should_be_tested` raise exactly when the `libs` filter reads a
third component that is missing (`get_shouldBeBuilt_eq_error_iff`); `userland/libs` is
such a path (`get_userland_libs_raises`).  Every path under one of the architecture
directories is built only for its architecture (`get_built_only_for_arch`), and no
path under `userland/libs` is tested under gem5 (`get_libs_not_tested_on_gem5`), and a
run flag an entry sets keeps every path under it out of the tests
(`get_not_tested_of_runFlag`).
-/

namespace Lkmc

/-- `gnu_extension_properties`. -/
def gnuExtensionProperties : PyDict :=
  PyDict.ofList [("c_std", .str "gnu11"), ("cc_pedantic", .bool false), ("cxx_std", .str "gnu++17")]

section Data

variable (LF : String)

/-- `freestanding_properties`. -/
def freestandingProperties : PyDict :=
  PyDict.ofList [
    ("baremetal", .bool false),
    ("cc_flags", .list [
      .str "-ffreestanding", .str LF,
      .str "-nostdlib", .str LF,
      .str "-static", .str LF]),
    ("extra_objs_lkmc_common", .bool false)]

/-- `path_properties_tuples`.  Each dict display is written as its items; the one that
names `proc_events.c` twice is built as Python builds it. -/
def pathPropertiesTuples : Entry :=
  .tuple (defaultProperties LF) [
    ("baremetal", .tuple (PyDict.ofList [("baremetal", .bool true)]) [
      ("arch", .tuple (PyDict.ofList []) [
        ("arm", .tuple (PyDict.ofList [("allowed_archs", .set [.str "arm"])]) [
          ("multicore.S", .record (PyDict.ofList [("test_run_args", .dict [("cpus", .int 2)])])),
          ("no_bootloader", .tuple (PyDict.ofList [
              ("extra_objs_disable_baremetal_bootloader", .bool true)]) [
            ("gem5_exit.S", .record (PyDict.ofList [("requires_m5ops", .bool true)])),
            ("semihost_exit.S", .record (PyDict.ofList [("requires_semihosting", .bool true)]))]),
          ("return1.S", .record (PyDict.ofList [("exit_status", .int 1)])),
          ("semihost_exit.S", .record (PyDict.ofList [("requires_semihosting", .bool true)]))]),
        ("aarch64", .tuple (PyDict.ofList [("allowed_archs", .set [.str "aarch64"])]) [
          ("multicore.S", .record (PyDict.ofList [("test_run_args", .dict [("cpus", .int 2)])])),
          ("no_bootloader", .tuple (PyDict.ofList [
              ("extra_objs_disable_baremetal_bootloader", .bool true)]) [
            ("gem5_exit.S", .record (PyDict.ofList [("requires_m5ops", .bool true)])),
            ("semihost_exit.S", .record (PyDict.ofList [("requires_semihosting", .bool true)])),
            ("wfe_loop.S", .record (PyDict.ofList [("more_than_1s", .bool true)]))]),
          ("return1.S", .record (PyDict.ofList [("exit_status", .int 1)])),
          ("semihost_exit.S", .record (PyDict.ofList [("requires_semihosting", .bool true)])),
          ("svc.c", .record (PyDict.ofList [("cc_pedantic", .bool false)])),
          ("timer.c", .record (PyDict.ofList [("skip_run_unclassified", .bool true)]))])]),
      ("lib", .record (PyDict.ofList [("no_executable", .bool true)])),
      ("getchar.c", .record (PyDict.ofList [("interactive", .bool true)]))]),
    ("kernel_modules", .tuple (PyDict.ofList []) [
      ("float.c", .record (PyDict.ofList [("allowed_archs", .str "x86_64")]))]),
    ("lkmc.c", .record (PyDict.ofList [("baremetal", .bool true), ("userland", .bool true)])),
    ("userland", .tuple (PyDict.ofList [("userland", .bool true)]) [
      ("arch", .tuple (PyDict.ofList [
          ("baremetal", .bool true),
          ("extra_objs_lkmc_common", .bool true)]) [
        ("arm", .tuple (PyDict.ofList [
            ("allowed_archs", .set [.str "arm"]),
            ("cc_flags", .list [
              .str "-Xassembler", .str "-mfpu=crypto-neon-fp-armv8.1", .str LF,
              .str "-Xassembler", .str "-meabi=5", .str LF,
              .str "-marm", .str LF,
              .str "-masm-syntax-unified", .str LF])]) [
          ("inline_asm", .tuple (PyDict.ofList []) [
            ("freestanding", .record (freestandingProperties LF))]),
          ("freestanding", .record (freestandingProperties LF)),
          ("lkmc_assert_eq_fail.S", .record (PyDict.ofList [
              ("signal_received", .signal .SIGABRT)])),
          ("lkmc_assert_memcmp_fail.S", .record (PyDict.ofList [
              ("signal_received", .signal .SIGABRT)])),
          ("udf.S", .record (PyDict.ofList [
              ("signal_generated_by_os", .bool true),
              ("signal_received", .signal .SIGILL)])),
          ("vcvta.S", .record (PyDict.ofList [
              ("arm_aarch32", .bool true),
              ("gem5_unimplemented_instruction", .bool true)]))]),
        ("aarch64", .tuple (PyDict.ofList [("allowed_archs", .set [.str "aarch64"])]) [
          ("inline_asm", .tuple (PyDict.ofList []) [
            ("freestanding", .record (freestandingProperties LF))]),
          ("freestanding", .record (freestandingProperties LF)),
          ("lkmc_assert_eq_fail.S", .record (PyDict.ofList [
              ("signal_received", .signal .SIGABRT)])),
          ("lkmc_assert_memcmp_fail.S", .record (PyDict.ofList [
              ("signal_received", .signal .SIGABRT)])),
          ("udf.S", .record (PyDict.ofList [
              ("signal_generated_by_os", .bool true),
              ("signal_received", .signal .SIGILL)])),
          ("sve.S", .record (PyDict.ofList [
              ("gem5_unimplemented_instruction", .bool true)]))]),
        ("x86_64", .tuple (PyDict.ofList [("allowed_archs", .set [.str "x86_64"])]) [
          ("freestanding", .tuple (freestandingProperties LF) [
            ("linux", .tuple (PyDict.ofList []) [
              ("int_system_call.S", .record (PyDict.ofList [
                  ("qemu_x86_64_int_syscall", .bool true)]))])]),
          ("inline_asm", .tuple (PyDict.ofList []) [
            ("freestanding", .record (freestandingProperties LF))]),
          ("intrinsics", .tuple (PyDict.ofList []) [
            ("rdtscp.c", .record (PyDict.ofList [
                ("gem5_unimplemented_instruction", .bool true),
                ("qemu_unimplemented_instruction", .bool true)]))]),
          ("div_overflow.S", .record (PyDict.ofList [("signal_received", .signal .SIGFPE)])),
          ("div_zero.S", .record (PyDict.ofList [("signal_received", .signal .SIGFPE)])),
          ("lkmc_assert_eq_fail.S", .record (PyDict.ofList [
              ("signal_received", .signal .SIGABRT)])),
          ("lkmc_assert_memcmp_fail.S", .record (PyDict.ofList [
              ("signal_received", .signal .SIGABRT)])),
          ("popcnt.S", .record (PyDict.ofList [
              ("qemu_unimplemented_instruction", .bool true)])),
          ("rdrand.S", .record (PyDict.ofList [
              ("gem5_unimplemented_instruction", .bool true),
              ("qemu_unimplemented_instruction", .bool true)])),
          ("rdtscp.S", .record (PyDict.ofList [
              ("qemu_unimplemented_instruction", .bool true)])),
          ("ring0.c", .record (PyDict.ofList [("signal_received", .signal .SIGSEGV)])),
          ("vfmadd132pd.S", .record (PyDict.ofList [
              ("gem5_unimplemented_instruction", .bool true),
              ("qemu_unimplemented_instruction", .bool true)]))]),
        ("lkmc_assert_fail.S", .record (PyDict.ofList [("signal_received", .signal .SIGABRT)]))]),
      ("c", .tuple (PyDict.ofList [("baremetal", .bool true)]) [
        ("abort.c", .record (PyDict.ofList [("signal_received", .signal .SIGABRT)])),
        ("assert_fail.c", .record (PyDict.ofList [("signal_received", .signal .SIGABRT)])),
        ("exit1.c", .record (PyDict.ofList [("exit_status", .int 1)])),
        ("exit2.c", .record (PyDict.ofList [("exit_status", .int 2)])),
        ("false.c", .record (PyDict.ofList [("exit_status", .int 1)])),
        ("file_write_read.c", .record (PyDict.ofList [("baremetal", .bool false)])),
        ("getchar.c", .record (PyDict.ofList [("interactive", .bool true)])),
        ("infinite_loop.c", .record (PyDict.ofList [("more_than_1s", .bool true)])),
        ("out_of_memory.c", .record (PyDict.ofList [("disrupts_system", .bool true)])),
        ("return1.c", .record (PyDict.ofList [("exit_status", .int 1)])),
        ("return2.c", .record (PyDict.ofList [("exit_status", .int 2)]))]),
      ("cpp", .tuple (PyDict.ofList []) [
        ("atomic.cpp", .record (PyDict.ofList [
            ("test_run_args", .dict [("cpus", .int 3)]),
            ("gem5_unimplemented_instruction", .bool true)])),
        ("count.cpp", .record (PyDict.ofList [("more_than_1s", .bool true)])),
        ("sleep_for.cpp", .record (PyDict.ofList [("more_than_1s", .bool true)]))]),
      ("gcc", .tuple gnuExtensionProperties [
        ("openmp.c", .record (PyDict.ofList [("cc_flags", .list [.str "-fopenmp", .str LF])]))]),
      ("gdb_tests", .record (PyDict.ofList [("baremetal", .bool true)])),
      ("kernel_modules", .record (PyDict.ofList (gnuExtensionProperties.items ++
        (PyDict.ofList [("requires_kernel_modules", .bool true)]).items))),
      ("libs", .tuple (PyDict.ofList [("requires_dynamic_library", .bool true)]) [
        ("libdrm", .record (PyDict.ofList [("requires_sudo", .bool true)]))]),
      ("linux", .tuple gnuExtensionProperties (dictUpdate [] [
        ("ctrl_alt_del.c", .record (PyDict.ofList [("requires_sudo", .bool true)])),
        ("init_env_poweroff.c", .record (PyDict.ofList [("requires_sudo", .bool true)])),
        ("myinsmod.c", .record (PyDict.ofList [("requires_sudo", .bool true)])),
        ("myrmmod.c", .record (PyDict.ofList [("requires_sudo", .bool true)])),
        ("pagemap_dump.c", .record (PyDict.ofList [("requires_argument", .bool true)])),
        ("poweroff.c", .record (PyDict.ofList [("requires_sudo", .bool true)])),
        ("proc_events.c", .record (PyDict.ofList [("requires_sudo", .bool true)])),
        ("proc_events.c", .record (PyDict.ofList [("requires_sudo", .bool true)])),
        ("sched_getaffinity.c", .record (PyDict.ofList [("requires_syscall_getcpu", .bool true)])),
        ("sched_getaffinity_threads.c", .record (PyDict.ofList [
            ("more_than_1s", .bool true),
            ("requires_syscall_getcpu", .bool true)])),
        ("time_boot.c", .record (PyDict.ofList [("requires_sudo", .bool true)])),
        ("virt_to_phys_user.c", .record (PyDict.ofList [("requires_argument", .bool true)]))])),
      ("posix", .tuple (PyDict.ofList []) [
        ("count.c", .record (PyDict.ofList [("more_than_1s", .bool true)])),
        ("count_to.c", .record (PyDict.ofList [("more_than_1s", .bool true)])),
        ("kill.c", .record (PyDict.ofList [
            ("baremetal", .bool true),
            ("signal_received", .signal .SIGHUP)])),
        ("pthread_count.c", .record (PyDict.ofList [
            ("more_than_1s", .bool true),
            ("test_run_args", .dict [("cpus", .int 2)])])),
        ("pthread_self.c", .record (PyDict.ofList [("test_run_args", .dict [("cpus", .int 2)])])),
        ("sleep_forever.c", .record (PyDict.ofList [("more_than_1s", .bool true)])),
        ("virt_to_phys_test.c", .record (PyDict.ofList [("more_than_1s", .bool true)]))])])]

/-- `path_properties_tree`. -/
def pathPropertiesTree : Except PyExc PrefixTree :=
  PrefixTree.makeFromTuples LF (pathPropertiesTuples LF)

/-- The module's `get(path)`. -/
def get (path : String) : Except PyExc PathProperties := do
  (← pathPropertiesTree LF).get LF path

/-! ## The declarations are well formed -/

/-- Every record of the declarations uses schema keys only, holds lists and a dict where
`update` merges, and declares `allowed_archs` as `None` or something `in` searches. -/
theorem records_ok : ∀ r ∈ (pathPropertiesTuples LF).records, r.Known LF ∧ r.WellTyped ∧
    ∀ v ∈ r.get? "allowed_archs", v.isNone ∨ v.isContainer :=
  of_decide_eq_true (by rfl)

/-- `make_from_tuples` builds the declared tree when the module is imported. -/
theorem pathPropertiesTree_eq : pathPropertiesTree LF = .ok (pathPropertiesTuples LF).toTree := by
  rcases PrefixTree.makeFromTuples_spec LF (pathPropertiesTuples LF) with
    ⟨hok, -⟩ | ⟨r, hr, key, hkey, hunk, -⟩
  · exact hok
  · exact absurd ((records_ok LF r hr).1 key hkey) hunk

/-- `get(path)` returns, for every path, the defaults merged with the records the walk
over its components matches. -/
theorem get_eq_resolved (path : String) : ∃ r, get LF path = .ok r ∧
    r.pathComponents = some (pySplit path sep) ∧
    Resolved LF ((pathPropertiesTuples LF).toTree.matched (pySplit path sep)) r.properties := by
  obtain ⟨r, hr, hpc, hres⟩ := get_toTree (d := pathPropertiesTuples LF) rfl
    (fun r h => ⟨(records_ok LF r h).1, (records_ok LF r h).2.1⟩) path
  exact ⟨r, by rw [get, pathPropertiesTree_eq, ok_bind, hr], hpc, hres⟩

/-- For every path, `get` merges into the defaults the records of the declared entries
its components walk through. -/
theorem get_resolved_along (path : String) : ∃ r, get LF path = .ok r ∧
    r.pathComponents = some (pySplit path sep) ∧
    Resolved LF ((pathPropertiesTuples LF).recordsAlong (pySplit path sep)) r.properties := by
  obtain ⟨r, hr, hpc, hres⟩ := get_eq_resolved LF path
  rw [matched_toTree] at hres
  exact ⟨r, hr, hpc, hres⟩

theorem allowedArchs_of_get {path : String} {r : PathProperties} (h : get LF path = .ok r) :
    ∀ v ∈ r.properties.get? "allowed_archs", v.isNone ∨ v.isContainer := by
  obtain ⟨r', hr', -, hres⟩ := get_eq_resolved LF path
  obtain rfl : r' = r := Except.ok.inj (hr'.symm.trans h)
  intro v hv
  rcases hres.get?_eq_some (by decide) (by decide) hv with ⟨n, hn, hnv⟩ | hd
  · exact (records_ok LF n (mem_records_of_mem_matched hn)).2.2 v hnv
  · cases hd
    exact .inl rfl

/-! ## `should_be_built` and `should_be_tested` on `get` -/

/-- On what `get` returns, `should_be_built` and `should_be_tested` raise exactly when the
`libs` filter reads a missing third component, and then raise `IndexError`. -/
theorem get_shouldBeBuilt_eq_error_iff (path : String) (env : Env) (link : Bool) (e : PyExc) :
    ∃ r, get LF path = .ok r ∧
      (r.shouldBeBuilt env link = .error e ↔ ReadsMissingPackage (pySplit path sep) env ∧
        e = .indexError "list index out of range") ∧
      (r.shouldBeTested env = .error e ↔ ReadsMissingPackage (pySplit path sep) env ∧
        e = .indexError "list index out of range") := by
  obtain ⟨r, hr, hpc, hres⟩ := get_eq_resolved LF path
  have hne := pySplit_ne_nil path sep
  have harch := allowedArchs_of_get LF hr
  exact ⟨r, hr, PathProperties.shouldBeBuilt_eq_error_iff hres.keys hpc hne harch e,
    PathProperties.shouldBeTested_eq_error_iff hres.keys hpc hne harch e⟩

/-- `userland/libs` is a directory of the declarations; without `package_all` both
predicates raise `IndexError` on it. -/
theorem get_userland_libs_raises (env : Env) (link : Bool) : ∃ r, get LF "userland/libs" = .ok r ∧
    r.shouldBeBuilt { env with packageAll := false } link =
      .error (.indexError "list index out of range") ∧
    r.shouldBeTested { env with packageAll := false } =
      .error (.indexError "list index out of range") := by
  obtain ⟨r, hr, hpc, -⟩ := get_eq_resolved LF "userland/libs"
  have hsplit : pySplit "userland/libs" sep = ["userland", "libs"] := rfl
  rw [hsplit] at hpc
  have hm : ReadsMissingPackage ["userland", "libs"] { env with packageAll := false } :=
    ⟨rfl, rfl, rfl⟩
  exact ⟨r, hr, PathProperties.shouldBeBuilt_of_readsMissingPackage hpc hm,
    PathProperties.shouldBeTested_of_readsMissingPackage hpc hm⟩

/-! ## Architecture directories -/

/-- A value an entry of the declarations gives a key that no entry below it declares holds
for every path whose components start with the entry's. -/
theorem get_of_entryAt {path : String} {r : PathProperties} (hr : get LF path = .ok r)
    (dir : List String) (hp : dir <+: pySplit path sep) {E : Entry}
    (hE : (pathPropertiesTuples LF).entryAt dir = some E) (k : String)
    (hk : k ∉ listKeys) (ht : k ≠ "test_run_args") {v : PyVal} (hv : E.properties.get? k = some v)
    (hnone : ∀ n ∈ Entry.recordsOf E.children, k ∉ n.keys) : r.properties.get? k = some v := by
  obtain ⟨r', hr', -, hres⟩ := get_eq_resolved LF path
  obtain rfl := Except.ok.inj (hr'.symm.trans hr)
  obtain ⟨rest, hrest⟩ := hp
  rw [matched_toTree, ← hrest, Entry.recordsAlong_append_of_entryAt hE] at hres
  rw [hres.get?_append_of_none hk ht fun n hn =>
    (PyDict.get?_eq_none_iff n k).mpr (hnone n (Entry.mem_recordsOf_of_mem_recordsAlong hn))]
  rcases eq_or_ne dir [] with rfl | hdir
  · cases hE
    exact hv
  · obtain ⟨A, hA⟩ := Entry.recordsAlong_of_entryAt hE hdir
    rw [hA, List.reverse_append, List.reverse_singleton, List.singleton_append,
      findSome?_cons_eq_or, hv]
    rfl

/-- **Architecture directories.**  Every path under one of the architecture directories
of the declarations is built only for that directory's architecture. -/
theorem get_built_only_for_arch {dir arch : String}
    (h : (dir, arch) ∈ [("baremetal/arch/arm", "arm"), ("baremetal/arch/aarch64", "aarch64"),
      ("userland/arch/arm", "arm"), ("userland/arch/aarch64", "aarch64"),
      ("userland/arch/x86_64", "x86_64")])
    (q : String) {r : PathProperties} (hr : get LF (dir ++ "/" ++ q) = .ok r) {env : Env}
    {link : Bool} (hb : r.shouldBeBuilt env link = .ok true) : env.arch = arch := by
  refine PathProperties.arch_of_shouldBeBuilt ?_ hb
  simp only [List.mem_cons, Prod.mk.injEq, List.not_mem_nil, or_false] at h
  rcases h with ⟨rfl, rfl⟩ | ⟨rfl, rfl⟩ | ⟨rfl, rfl⟩ | ⟨rfl, rfl⟩ | ⟨rfl, rfl⟩
  all_goals
    exact get_of_entryAt LF hr _ ⟨_, (pySplit_append_sep _ _).symm⟩ rfl "allowed_archs"
      (by decide) (by decide) rfl (of_decide_eq_true (by rfl))

theorem get_built_only_for_arch_udf :
    let env : Env := ⟨"arm", "userland", "qemu", [], false, [".S"], []⟩
    ∃ r, ("userland/arch/arm", "arm") ∈ [("baremetal/arch/arm", "arm"),
      ("baremetal/arch/aarch64", "aarch64"), ("userland/arch/arm", "arm"),
      ("userland/arch/aarch64", "aarch64"), ("userland/arch/x86_64", "x86_64")] ∧
      get "" ("userland/arch/arm" ++ "/" ++ "udf.S") = .ok r ∧
      r.shouldBeBuilt env true = .ok true ∧ env.arch = "arm" := by
  intro env
  have hcomp : ((pathPropertiesTuples "").toTree.get "" ("userland/arch/arm" ++ "/" ++ "udf.S") >>=
      fun r => r.shouldBeBuilt env true) = .ok true := by rfl
  obtain ⟨r, hr, hb⟩ := bind_eq_ok.mp hcomp
  have hget : get "" ("userland/arch/arm" ++ "/" ++ "udf.S") = .ok r := by
    rw [get, pathPropertiesTree_eq, ok_bind, hr]
  exact ⟨r, by simp, hget, hb, get_built_only_for_arch "" (by simp) "udf.S" hget hb⟩

/-- **Libraries under gem5.**  `userland/libs` declares `requires_dynamic_library` and no
entry below it declares it again, so no path under it is tested under gem5. -/
theorem get_libs_not_tested_on_gem5 (q : String) {r : PathProperties}
    (hr : get LF ("userland/libs" ++ "/" ++ q) = .ok r) {env : Env} (hemu : env.emulator = "gem5") :
    r.shouldBeTested env ≠ .ok true := by
  have htest : r.test "requires_dynamic_library" = .ok true :=
    PathProperties.test_eq_ok (get_of_entryAt LF hr _ ⟨_, (pySplit_append_sep _ _).symm⟩ rfl
      "requires_dynamic_library" (by decide) (by decide) rfl (of_decide_eq_true (by rfl)))
  intro h
  simp only [PathProperties.shouldBeTested, PathProperties.runTests, pyAll_eq_ok_true,
    List.forall_mem_cons, pyNot_eq_ok, Bool.not_true, hemu] at h
  obtain ⟨-, -, -, -, -, -, -, -, -, -, -, hgem, -⟩ := h
  simp only [pyAll, pure_eq_ok, ok_bind, beq_self_eq_true, if_true] at hgem
  obtain ⟨b, hb, hif⟩ := bind_eq_ok.mp hgem
  cases b
  · have hd := (pyAny_eq_ok_false _).mp hb (fun _ => r.test "requires_dynamic_library") (by simp)
    rw [htest] at hd
    cases hd
  · simp at hif

theorem get_libs_not_tested_on_gem5_libdrm :
    let env : Env := ⟨"x86_64", "userland", "gem5", ["libdrm"], false, [".c"], []⟩
    ∃ r, get "" ("userland/libs" ++ "/" ++ "libdrm/drm.c") = .ok r ∧ env.emulator = "gem5" ∧
      r.shouldBeTested env ≠ .ok true := by
  intro env
  obtain ⟨r, hr, -⟩ := get_eq_resolved "" ("userland/libs" ++ "/" ++ "libdrm/drm.c")
  exact ⟨r, hr, rfl, get_libs_not_tested_on_gem5 "" "libdrm/drm.c" hr rfl⟩

/-- **Run flags.**  An entry of the declarations that sets one of the flags
`should_be_tested` checks under every target, where no entry below it declares the flag
again, keeps every path under it out of the tests. -/
theorem get_not_tested_of_runFlag {path : String} {r : PathProperties} (hr : get LF path = .ok r)
    (dir : List String) (hp : dir <+: pySplit path sep) {E : Entry}
    (hE : (pathPropertiesTuples LF).entryAt dir = some E) (k : String) (hk : k ∈ runFlags)
    {v : PyVal} (hv : E.properties.get? k = some v) (htv : v.truthy = true)
    (hnone : ∀ n ∈ Entry.recordsOf E.children, k ∉ n.keys) (env : Env) :
    r.shouldBeTested env ≠ .ok true := by
  obtain ⟨hl, ht⟩ := runFlags_replaced k hk
  have htest := PathProperties.test_eq_ok (get_of_entryAt LF hr dir hp hE k hl ht hv hnone)
  rw [htv] at htest
  exact PathProperties.shouldBeTested_ne_of_runFlag hk htest

theorem get_not_tested_of_runFlag_kernel_modules :
    let env : Env := ⟨"x86_64", "userland", "qemu", [], true, [".c"], []⟩
    ∃ r, get "" "userland/kernel_modules/hello.c" = .ok r ∧
      "requires_kernel_modules" ∈ runFlags ∧ r.shouldBeTested env ≠ .ok true := by
  intro env
  obtain ⟨r, hr, -⟩ := get_eq_resolved "" "userland/kernel_modules/hello.c"
  exact ⟨r, hr, by decide, get_not_tested_of_runFlag "" hr ["userland", "kernel_modules"]
    ⟨["hello.c"], rfl⟩ rfl "requires_kernel_modules" (by decide) rfl rfl
    (of_decide_eq_true (by rfl)) env⟩

end Data

end Lkmc

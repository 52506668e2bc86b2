import SelfDb.Loader.Protection
import SelfDb.Loader.StackProofs

/-! The initial stack of `run_native`: whatever fits in its 8 MiB is found by the
program it jumps to. -/
namespace SelfDb
open Paging Binary

/-- What `build_stack` pushes behind the strings. -/
def nativeExtras (caller : Caller) (path : CString) : List Bytes :=
  [nativeRandom caller, x86_64.stored, path.stored]

/-- The pairs of `aux`, with that of the vDSO if there is one. -/
def nativeNaux (caller : Caller) : Nat :=
  if wrap (caller.getauxval atSysinfoEhdr) ≠ 0 then 20 else 19

theorem nativeAux_length (caller : Caller) (exe : NativeObject) (interp : Option InterpObject)
    (random platform execfn : Nat) :
    (nativeAux caller exe interp random platform execfn).length = nativeNaux caller := by
  rw [nativeAux, nativeNaux]
  split <;> rfl

/-- The bytes that the data and the vector take. -/
def nativeStackBytes (caller : Caller) (path : CString) (argv envp : List CString) : Nat :=
  dataSize (stackData argv envp (nativeExtras caller path)) +
    8 * vectorWords argv.length envp.length (nativeNaux caller)

/-- The stack pointer that `build_stack` returns. -/
def nativePointer (high : Nat) (caller : Caller) (path : CString) (argv envp : List CString) :
    Nat :=
  startPointer high (stackData argv envp (nativeExtras caller path))
    (vectorWords argv.length envp.length (nativeNaux caller))

theorem nativeBuildStack_ok {argv envp : List CString} (exe : NativeObject)
    (interp : Option InterpObject)
    (args : calloc os argv.length = .ok ()) (env : calloc os envp.length = .ok ())
    (fits : nativeStackBytes caller path argv envp ≤ high) (small : high < 2 ^ 64)
    (writable : WritableIn mem (nativePointer high caller path argv envp) high) :
    ∃ random platform execfn,
      startExtras high argv envp (nativeExtras caller path) =
        [(random, nativeRandom caller), (platform, x86_64.stored), (execfn, path.stored)] ∧
      nativeBuildStack os caller argv.length argv envp exe interp path high mem =
        .ok (nativePointer high caller path argv envp,
          (stackStores high (stackData argv envp (nativeExtras caller path))
            (nativePointer high caller path argv envp)
            (startVector high argv envp (nativeAux caller exe interp random platform execfn))).foldl
            Memory.store mem) := by
  have below := align16_le (high - dataSize (stackData argv envp (nativeExtras caller path)) -
    8 * vectorWords argv.length envp.length (nativeNaux caller))
  rw [← startPointer, ← nativePointer] at below
  rw [nativeStackBytes] at fits
  have whole : argv.take argv.length = argv := List.take_length
  have room : dataSize (stackData (argv.take argv.length) envp (nativeExtras caller path)) ≤
      high := by
    rw [whole]
    omega
  have strings := strings_ok le_rfl room small (writable.mono (by rw [whole]; omega) le_rfl)
  rw [whole] at strings
  have data := extrasTop_room (whole ▸ room)
  have items : dataSize (nativeExtras caller path) =
    dataSize [nativeRandom caller, x86_64.stored, path.stored] := rfl
  have extras := pushBytes_three (items ▸ data.2.1) (by omega)
    ((writable.startStrings argv envp).mono (by omega) data.1)
  obtain ⟨random, platform, execfn, mem₁, mem₂, places, last, pushRandom, pushPlatform,
    pushExecfn⟩ := extras
  refine ⟨random, platform, execfn, ?_, ?_⟩
  · rw [startExtras, nativeExtras, places]
    rfl
  · have cursor := align16_cursor fits small
    rw [items, ← last, ← nativePointer] at cursor
    have naux := nativeAux_length caller exe interp random platform execfn
    have pointer : nativePointer high caller path argv envp = startPointer high
        (stackData argv envp (nativeExtras caller path)) (vectorWords argv.length envp.length
          (nativeAux caller exe interp random platform execfn).length) := by
      rw [naux]
      rfl
    have written := storeVector_ok pointer (by rw [naux]; exact fits) small writable
    simp only [nativeBuildStack, args, env, strings.1, strings.2, ok_bind, pushRandom, pushStr,
      pushPlatform, pushExecfn, naux, cursor]
    change (storeWords (startVector high argv envp _) _ _ >>= _) = _
    exact congrArg (· >>= _) written

theorem nativeAux_split {random platform execfn : Nat}
    (small : random < 2 ^ 64 ∧ platform < 2 ^ 64 ∧ execfn < 2 ^ 64)
    (caller : Caller) (exe : NativeObject) (interp : Option InterpObject) :
    ∃ pairs, nativeAux caller exe interp random platform execfn = pairs ++ [(atNull, 0)] ∧
      ∀ pair ∈ pairs, Pair pair := by
  refine ⟨_, rfl, ?_⟩
  rw [List.forall_mem_append]
  constructor
  · simp only [List.forall_mem_cons, List.not_mem_nil, false_implies, implies_true, and_true, Pair,
      atPhdr, atPhent, atPhnum, atPagesz, atBase, atFlags, atEntry, atUid, atEuid, atGid, atEgid,
      atSecure, atClktck, atHwcap, atHwcap2, atRandom, atPlatform, atExecfn, pageSize, wrap, sizeT]
    omega
  · split
    · rw [List.forall_mem_singleton]
      exact pair_wrap (by decide) _
    · simp

/-- `build_stack` only stores into the stack: the run up to there is `runNative`. -/
theorem enterNative_runNative
    (entered : enterNative os caller files conn path argv envp mem = .ok (sp, entry, after)) :
    ∃ start, runNative os files conn mem = .ok start ∧ after.prot = start.memory.prot ∧
      entry = (start.interp.map InterpObject.entry).getD start.exe.entry := by
  simp only [enterNative, nativeStack, nativeBuildStack, pushStr, bind_eq_ok_iff,
    orDie_eq_ok_iff] at entered
  obtain ⟨em, found, _, machine, ⟨exe, mem₁⟩, mapped, ⟨interp, mem₂⟩, linked, ⟨_, _⟩,
    ⟨stk, reserved, _, _, ⟨_, _, _⟩, args, _, _, ⟨_, _, _⟩, env, ⟨_, _⟩, random, ⟨_, _⟩, platform,
    ⟨_, _⟩, execfn, _, stored, result⟩, result'⟩ := entered
  obtain ⟨rfl, rfl⟩ := Prod.mk.inj (Except.ok.inj result)
  obtain ⟨rfl, same⟩ := Prod.mk.inj (Except.ok.inj result')
  obtain ⟨rfl, rfl⟩ := Prod.mk.inj same
  refine ⟨⟨exe, interp, mem₂.mapAnonymous stk nativeStackSize .readWrite⟩, ?_, ?_, rfl⟩
  · simp only [runNative, bind_eq_ok_iff, orDie_eq_ok_iff]
    refine ⟨em, found, _, machine, ⟨exe, mem₁⟩, mapped, ⟨interp, mem₂⟩, linked, _, ?_, rfl⟩
    rw [mapStack, reserved]
  · rw [storeWords_prot stored, (pushBytes_inv execfn).2, (pushBytes_inv platform).2,
      (pushBytes_inv random).2, pushStrs_prot env, pushStrs_prot args]

/-- Whatever fits in the stack of `run_native` is what the program finds: its
arguments, its environment and the pairs, above the vector that points to them. -/
theorem nativeStack_started {argv envp : List CString} (exe : NativeObject)
    (interp : Option InterpObject)
    (reserved : os.reserve mem nativeStackSize = some base) (page : base % pageSize = 0)
    (room : base + nativeStackSize < 2 ^ 64) (args : calloc os argv.length = .ok ())
    (env : calloc os envp.length = .ok ())
    (fits : nativeStackBytes caller path argv envp ≤ nativeStackSize) :
    ∃ sp after random platform execfn,
      nativeStack os caller exe interp path argv envp mem = .ok (sp, after) ∧
      Started base (base + nativeStackSize) argv envp
        (nativeAux caller exe interp random platform execfn)
        [(random, nativeRandom caller), (platform, x86_64.stored), (execfn, path.stored)] sp
        after := by
  obtain ⟨aligned, inside, below⟩ := startPointer_fits page fits
  rw [← nativePointer] at aligned inside below
  have writable := (writableIn_mapAnonymous page mem).mono inside (le_refl (base + nativeStackSize))
  obtain ⟨random, platform, execfn, extras, built⟩ :=
    nativeBuildStack_ok exe interp args env (fits.trans (Nat.le_add_left _ base)) room writable
  have entered : nativeStack os caller exe interp path argv envp mem =
      nativeBuildStack os caller argv.length argv envp
      exe interp path (base + nativeStackSize)
        (mem.mapAnonymous base nativeStackSize .readWrite) := by
    have top : wrap (base + nativeStackSize) = base + nativeStackSize := Nat.mod_eq_of_lt room
    rw [nativeStack, reserved, orDie, ok_bind, top]
  refine ⟨_, _, random, platform, execfn, entered.trans built, ?_⟩
  have data := startData_within below
  rw [extras] at data
  simp only [List.forall_mem_append, List.forall_mem_cons] at data
  obtain ⟨_, _, ⟨_, _, first⟩, ⟨_, _, second⟩, ⟨_, _, third⟩, _⟩ := data
  have small : random < 2 ^ 64 ∧ platform < 2 ^ 64 ∧ execfn < 2 ^ 64 := by omega
  rw [← nativeAux_length caller exe interp random platform execfn] at below
  rw [← extras]
  exact started_of_stores (nativeAux_split small caller exe interp) aligned inside below room _

/-- A loader without vDSO and random bytes of its own. -/
def bareCaller : Caller := ⟨fun _ => 0, none, 0, 0, 0, 0⟩

/-- `p`, and an argument and a variable for it. -/
def programName : CString := ⟨[0x70], by decide⟩
def someArgument : CString := ⟨[0x61, 0x62], by decide⟩
def someVariable : CString := ⟨[0x58, 0x3d], by decide⟩

theorem nativeStack_started_lowest :
    ∃ sp after random platform execfn,
      nativeStack .lowest bareCaller ⟨0x2000, 0x2040, 0x2000, 1, phdrSize⟩ none programName
        [programName, someArgument]
        [someVariable] unmappedSpace = .ok (sp, after) ∧
      Started 0x1000000 (0x1000000 + nativeStackSize) [programName, someArgument] [someVariable]
        (nativeAux bareCaller ⟨0x2000, 0x2040, 0x2000, 1, phdrSize⟩ none random platform execfn)
        [(random, nativeRandom bareCaller), (platform, x86_64.stored), (execfn, programName.stored)]
        sp after :=
  nativeStack_started ⟨0x2000, 0x2040, 0x2000, 1, phdrSize⟩ none (by decide +kernel) (by decide)
    (by decide) (by decide) (by decide) (by decide)

end SelfDb

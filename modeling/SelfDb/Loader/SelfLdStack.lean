import SelfDb.Loader.NativeStack

/-! The initial stack of `run_selfld`, for one argument and in 1 MiB. -/
namespace SelfDb
open Paging Binary

def selfldExtras (caller : Caller) : List Bytes := [selfldRandom caller]

theorem selfldRandom_length (caller : Caller) : (selfldRandom caller).length = 16 := by
  rw [selfldRandom]
  cases caller.random with
  | none => rfl
  | some random => exact random.2

/-- The pairs of this `aux`. -/
def selfldNaux : Nat := 9

theorem selfldAux_length (caller : Caller) (entry phdr phnum random : Nat) :
    (selfldAux caller entry phdr phnum random).length = selfldNaux := rfl

def selfldStackBytes (caller : Caller) (argv envp : List CString) : Nat :=
  dataSize (stackData argv envp (selfldExtras caller)) +
    8 * vectorWords argv.length envp.length selfldNaux

def selfldPointer (high : Nat) (caller : Caller) (argv envp : List CString) : Nat :=
  startPointer high (stackData argv envp (selfldExtras caller))
    (vectorWords argv.length envp.length selfldNaux)

theorem selfldAux_split {entry random : Nat} (small : random < 2 ^ 64) (caller : Caller) :
    ∃ pairs, selfldAux caller entry 0 0 random = pairs ++ [(atNull, 0)] ∧
      ∀ pair ∈ pairs, Pair pair := by
  refine ⟨[(atPhdr, 0), (atPhnum, 0), (atPhent, phdrSize), (atPagesz, pageSize),
    (atEntry, wrap entry), (atBase, 0), (atRandom, random),
    (atSysinfoEhdr, wrap (caller.getauxval atSysinfoEhdr))], rfl, ?_⟩
  simp only [List.forall_mem_cons, List.not_mem_nil, false_implies, implies_true, and_true, Pair,
    atPhdr, atPhnum, atPhent, atPagesz, atEntry, atBase, atRandom, atSysinfoEhdr, phdrSize,
    pageSize, wrap]
  omega

theorem selfldBuildStack_ok {argv envp : List CString} (entry : Nat)
    (reserved : os.reserve mem selfldStackSize = some base) (page : base % pageSize = 0)
    (room : base + selfldStackSize < 2 ^ 64) (args : calloc os argc = .ok ())
    (env : calloc os envp.length = .ok ()) (enough : argc ≤ argv.length)
    (fits : selfldStackBytes caller (argv.take argc) envp ≤ selfldStackSize) :
    ∃ random, startExtras (base + selfldStackSize) (argv.take argc) envp (selfldExtras caller) =
        [(random, selfldRandom caller)] ∧
      selfldBuildStack os caller argc argv envp entry 0 0 mem =
        .ok (selfldPointer (base + selfldStackSize) caller (argv.take argc) envp,
          (stackStores (base + selfldStackSize)
            (stackData (argv.take argc) envp (selfldExtras caller))
            (selfldPointer (base + selfldStackSize) caller (argv.take argc) envp)
            (startVector (base + selfldStackSize) (argv.take argc) envp
              (selfldAux caller entry 0 0 random))).foldl Memory.store
                (mem.mapAnonymous base selfldStackSize .readWrite)) := by
  have top : wrap (base + selfldStackSize) = base + selfldStackSize := Nat.mod_eq_of_lt room
  have count : (argv.take argc).length = argc := List.length_take_of_le enough
  obtain ⟨_, inside, below⟩ := startPointer_fits page fits
  rw [← selfldPointer] at inside below
  have fits' := fits.trans (Nat.le_add_left selfldStackSize base)
  rw [selfldStackBytes] at fits'
  have writable := (writableIn_mapAnonymous page mem).mono inside (le_refl (base + selfldStackSize))
  have data : dataSize (stackData (argv.take argc) envp (selfldExtras caller)) ≤
      base + selfldStackSize := by omega
  have strings := strings_ok enough data room (writable.mono (by omega) le_rfl)
  have extras := extrasTop_room data
  have item : dataSize (selfldExtras caller) = (selfldRandom caller).length + 0 := rfl
  have pushed := pushBytes_ok (selfldRandom caller) (by omega) (by omega)
    ((writable.startStrings (argv.take argc) envp).mono (by omega) extras.1)
  have cursor := align16_cursor fits' room
  rw [item, Nat.add_zero, ← selfldPointer, count] at cursor
  refine ⟨_, rfl, ?_⟩
  generalize last : extrasTop (base + selfldStackSize) (argv.take argc) envp -
    (selfldRandom caller).length = random
  rw [last] at pushed cursor
  have pointer : selfldPointer (base + selfldStackSize) caller (argv.take argc) envp =
      startPointer (base + selfldStackSize) (stackData (argv.take argc) envp (selfldExtras caller))
        (vectorWords (argv.take argc).length envp.length
          (selfldAux caller entry 0 0 random).length) := rfl
  have written := storeVector_ok pointer fits' room writable
  rw [startVector, count] at written ⊢
  simp only [selfldBuildStack, reserved, orDie, ok_bind, args, env, top, strings.1, strings.2,
    pushed, selfldAux_length, cursor]
  rw [← last] at written ⊢
  exact congrArg (· >>= fun after =>
    .ok (selfldPointer (base + selfldStackSize) caller (argv.take argc) envp, after)) written

/-- The first `argc` arguments are passed on when they fit. -/
theorem selfldBuildStack_started {argv envp : List CString} (entry : Nat)
    (reserved : os.reserve mem selfldStackSize = some base) (page : base % pageSize = 0)
    (room : base + selfldStackSize < 2 ^ 64) (args : calloc os argc = .ok ())
    (env : calloc os envp.length = .ok ()) (enough : argc ≤ argv.length)
    (fits : selfldStackBytes caller (argv.take argc) envp ≤ selfldStackSize) :
    ∃ sp after random, selfldBuildStack os caller argc argv envp entry 0 0 mem = .ok (sp, after) ∧
      Started base (base + selfldStackSize) (argv.take argc) envp
        (selfldAux caller entry 0 0 random)
        [(random, selfldRandom caller)] sp after := by
  obtain ⟨aligned, inside, below⟩ := startPointer_fits page fits
  rw [← selfldPointer] at aligned inside below
  obtain ⟨random, extras, built⟩ :=
    selfldBuildStack_ok entry reserved page room args env enough fits
  refine ⟨_, _, random, built, ?_⟩
  have data := startData_within below
  rw [extras] at data
  simp only [List.forall_mem_append, List.forall_mem_singleton] at data
  obtain ⟨_, _, _, _, inside'⟩ := data
  have small : random < 2 ^ 64 := by omega
  rw [← selfldAux_length caller entry 0 0 random] at below
  rw [← extras]
  exact started_of_stores (selfldAux_split small caller) aligned inside below room _

/-! What a run that gets through has done, whether or not all fits. -/

/-- `build_stack` has come to the vector with this cursor, and stores it last. -/
theorem selfldBuildStack_inv {argv envp : List CString} (entry : Nat)
    (built : selfldBuildStack os caller argc argv envp entry 0 0 mem = .ok (sp, after))
    (reserved : os.reserve mem selfldStackSize = some base)
    (small : dataSize ((argv.take argc).map CString.stored) + dataSize (envp.map CString.stored) <
      2 ^ 63) :
    ∃ ap ep random before, argc ≤ argv.length ∧ ap.length = argc ∧ ep.length = envp.length ∧
      random < 2 ^ 64 ∧
      wrap (random + dataSize (stackData (argv.take argc) envp (selfldExtras caller))) =
        wrap (base + selfldStackSize) ∧
      sp = align16 (sub64 random (8 * vectorWords argc envp.length selfldNaux)) ∧
      storeWords (stackVector argc ap ep (selfldAux caller entry 0 0 random)) sp before =
        .ok after := by
  simp only [selfldBuildStack, bind_eq_ok_iff, orDie_eq_ok_iff] at built
  obtain ⟨stk, answered, _, _, _, _, ⟨ap, p₁, mem₁⟩, args, ⟨ep, p₂, mem₂⟩, env, ⟨random, mem₃⟩,
    pushed, last, stored, result⟩ := built
  obtain ⟨rfl, rfl⟩ := Prod.mk.inj (Except.ok.inj result)
  obtain rfl := Option.some.inj (answered.symm.trans reserved)
  obtain ⟨enough, apLength, below₁, cursor₁⟩ := pushStrs_inv args (wrap_lt _) (by omega)
  obtain ⟨_, epLength, below₂, cursor₂⟩ := pushStrs_inv env below₁ (by rw [List.take_length]; omega)
  obtain ⟨rfl, _⟩ := pushBytes_inv pushed
  refine ⟨ap, ep, _, mem₃, enough, apLength, epLength, wrap_lt _, ?_, rfl, stored⟩
  rw [List.take_length] at cursor₂
  have item : dataSize (selfldExtras caller) = (selfldRandom caller).length + 0 := rfl
  rw [dataSize_stackData, item, selfldRandom_length]
  simp only [wrap] at cursor₁ cursor₂ ⊢
  omega

/-- The count is what `build_stack` was called with. -/
theorem selfldBuildStack_argc {argv envp : List CString} {entry : Nat}
    (built : selfldBuildStack os caller argc argv envp entry 0 0 mem = .ok (sp, after))
    (reserved : os.reserve mem selfldStackSize = some base)
    (small : dataSize (argv.map CString.stored) + dataSize (envp.map CString.stored) < 2 ^ 63)
    (inside : sp + 8 * vectorWords argc envp.length selfldNaux < 2 ^ 64) :
    after.word sp = argc := by
  have front := CString.dataSize_take_le argc argv
  obtain ⟨ap, ep, random, before, _, apLength, epLength, _, _, _, stored⟩ :=
    selfldBuildStack_inv entry built reserved (by omega)
  have count := CString.length_le_dataSize argv
  have length := stackVector_length argc ap ep (selfldAux caller entry 0 0 random)
  rw [apLength, epLength, selfldAux_length] at length
  rw [← length] at inside
  exact storeWords_first stored (by omega) inside

/-- A vector that lies in the stack leaves room for all that was pushed. -/
theorem selfldBuildStack_fits {argv envp : List CString} {entry : Nat}
    (built : selfldBuildStack os caller argv.length argv envp entry 0 0 mem = .ok (sp, after))
    (reserved : os.reserve mem selfldStackSize = some base) (room : base + selfldStackSize < 2 ^ 64)
    (small : dataSize (argv.map CString.stored) + dataSize (envp.map CString.stored) ≤ 6 * 2 ^ 20)
    (low : base ≤ sp) (high : sp + 8 * vectorWords argv.length envp.length selfldNaux ≤
      base + selfldStackSize) :
    selfldStackBytes caller argv envp ≤ selfldStackSize := by
  obtain ⟨ap, ep, random, _, _, _, _, below, cursor, pointer, _⟩ :=
    selfldBuildStack_inv entry built reserved (by rw [List.take_length]; omega)
  have args := CString.length_le_dataSize argv
  have env := CString.length_le_dataSize envp
  have item : dataSize (selfldExtras caller) = 16 := congrArg (· + 0) (selfldRandom_length caller)
  rw [List.take_length, dataSize_stackData, item] at cursor
  rw [selfldStackBytes, dataSize_stackData, item]
  simp only [wrap, sub64, align16, vectorWords, selfldNaux] at cursor pointer high ⊢
  omega

/-- `build_stack` maps the stack and stores: this is the end of the run as `enterSelfld` has it. -/
theorem startSelfld_enterSelfld
    (started : startSelfld world caller maindb path argv envp mem = .ok (out, sp, after)) :
    ∃ entered, enterSelfld world maindb path mem = .ok (out, entered) ∧
      after.prot = entered.prot := by
  simp only [startSelfld, selfldBuildStack, bind_eq_ok_iff, orDie_eq_ok_iff] at started
  obtain ⟨linked, reached, ⟨_, _⟩, ⟨stk, reserved, _, _, _, _, ⟨_, _, _⟩, args, ⟨_, _, _⟩, env,
    ⟨_, _⟩, pushed, _, stored, result⟩, result'⟩ := started
  obtain ⟨rfl, rfl⟩ := Prod.mk.inj (Except.ok.inj result)
  obtain ⟨rfl, same⟩ := Prod.mk.inj (Except.ok.inj result')
  obtain ⟨rfl, rfl⟩ := Prod.mk.inj same
  refine ⟨linked.memory.mapAnonymous stk selfldStackSize .readWrite, ?_, ?_⟩
  · rw [enterSelfld, reached, ok_bind, mapStack, reserved]
    rfl
  · rw [storeWords_prot stored, (pushBytes_inv pushed).2, pushStrs_prot env, pushStrs_prot args]

/-- The program is entered with all its arguments and its environment, on the stack. -/
def PassesOn (world : World) (caller : Caller) (maindb : Connection) (path : String)
    (argv envp : List CString) (mem : Memory) (out : Linked) (base : Nat) : Prop :=
  ∃ sp after random, startSelfld world caller maindb path argv envp mem = .ok (out, sp, after) ∧
    Started base (base + selfldStackSize) argv envp (selfldAux caller out.main.entry 0 0 random)
      [(random, selfldRandom caller)] sp after

theorem startSelfld_eq (reached : runSelfld world maindb path mem = .ok out) :
    startSelfld world caller maindb path argv envp mem =
      (selfldBuildStack world.os caller 1 argv envp out.main.entry 0 0 out.memory >>= fun run =>
        .ok (out, run)) := by
  rw [startSelfld, reached, ok_bind]
  rfl

section Invocation
variable {world : World} {caller : Caller} {maindb : Connection} {path : String} {mem : Memory}
    {out : Linked}
  {argv envp : List CString} {base : Nat}

/-- Only an invocation with one argument is passed on, and only one that fits. -/
theorem PassesOn.single (passes : PassesOn world caller maindb path argv envp mem out base)
    (reached : runSelfld world maindb path mem = .ok out)
    (reserved : world.os.reserve out.memory selfldStackSize = some base)
    (page : base % pageSize = 0) (room : base + selfldStackSize < 2 ^ 64)
    (delivered :
      dataSize (argv.map CString.stored) + dataSize (envp.map CString.stored) ≤ 6 * 2 ^ 20) :
    argv.length = 1 ∧ selfldStackBytes caller argv envp ≤ selfldStackSize := by
  obtain ⟨sp, after, random, run, started⟩ := passes
  rw [startSelfld_eq reached, bind_eq_ok_iff] at run
  obtain ⟨⟨sp', after'⟩, built, same⟩ := run
  cases same
  obtain ⟨_, _, vector, _⟩ := started.apart
  have first : after.word sp = argv.length := vector 0 _ rfl
  obtain ⟨low, high⟩ := started.inside
  rw [selfldAux_length] at high
  have inside : sp + 8 * vectorWords 1 envp.length selfldNaux < 2 ^ 64 := by
    simp only [pageSize, selfldStackSize, vectorWords] at page room high ⊢
    omega
  have single := (selfldBuildStack_argc built reserved (by omega) inside).symm.trans first
  rw [single] at built
  exact ⟨single.symm, selfldBuildStack_fits built reserved room delivered low high⟩

/-- The invocation is passed on as a whole exactly when it has one argument and
fits in the stack, with the random bytes and the vector. -/
theorem startSelfld_passes_iff (reached : runSelfld world maindb path mem = .ok out)
    (reserved : world.os.reserve out.memory selfldStackSize = some base)
    (page : base % pageSize = 0)
    (room : base + selfldStackSize < 2 ^ 64) (args : calloc world.os 1 = .ok ())
    (env : calloc world.os envp.length = .ok ()) (delivered :
      dataSize (argv.map CString.stored) + dataSize (envp.map CString.stored) ≤ 6 * 2 ^ 20) :
    PassesOn world caller maindb path argv envp mem out base ↔
      argv.length = 1 ∧ selfldStackBytes caller argv envp ≤ selfldStackSize := by
  refine ⟨fun passes => passes.single reached reserved page room delivered, ?_⟩
  rintro ⟨single, fits⟩
  have whole : argv.take 1 = argv := List.take_of_length_le single.le
  have started := selfldBuildStack_started out.main.entry reserved page room args env single.ge
    (whole.symm ▸ fits)
  rw [whole] at started
  obtain ⟨sp, after, random, built, started⟩ := started
  refine ⟨sp, after, random, ?_, started⟩
  rw [startSelfld_eq reached, built]
  rfl

end Invocation

theorem codeWorld_run : ∃ out,
    runSelfld codeWorld linkedLow.connect "/main.self" unmappedSpace = .ok out ∧
    Os.lowest.reserve out.memory selfldStackSize = some 0x2000000 :=
  exists_of_map_decide (by decide +kernel)

theorem startSelfld_passes_iff_codeWorld :
    ∃ out, runSelfld codeWorld linkedLow.connect "/main.self" unmappedSpace = .ok out ∧
      (PassesOn codeWorld bareCaller linkedLow.connect "/main.self" [programName]
        [someVariable] unmappedSpace out
          0x2000000 ↔
        [programName].length = 1 ∧ selfldStackBytes bareCaller [programName] [someVariable] ≤
        selfldStackSize) := by
  obtain ⟨out, reached, reserved⟩ := codeWorld_run
  exact ⟨out, reached, startSelfld_passes_iff reached reserved (by decide) (by decide) (by decide)
    (by decide) (by decide)⟩

/-- Of two arguments the program finds the first. -/
theorem startSelfld_drops :
    ∃ out sp after random, startSelfld codeWorld bareCaller linkedLow.connect "/main.self"
      [programName, someArgument]
        [someVariable] unmappedSpace = .ok (out, sp, after) ∧
      Started 0x2000000 (0x2000000 + selfldStackSize) [programName] [someVariable]
        (selfldAux bareCaller out.main.entry 0 0 random)
        [(random, selfldRandom bareCaller)] sp after ∧
      ¬ PassesOn codeWorld bareCaller linkedLow.connect "/main.self" [programName, someArgument]
        [someVariable]
        unmappedSpace out 0x2000000 := by
  obtain ⟨out, reached, reserved⟩ := codeWorld_run
  have args : calloc Os.lowest 1 = .ok () := by decide
  have env : calloc Os.lowest [someVariable].length = .ok () := by decide
  have fits : selfldStackBytes bareCaller ([programName, someArgument].take 1) [someVariable] ≤
      selfldStackSize := by
    decide
  obtain ⟨sp, after, random, built, started⟩ :=
    selfldBuildStack_started out.main.entry reserved (by decide) (by decide) args env
      (by decide) fits
  refine ⟨out, sp, after, random, ?_, started, fun passes => ?_⟩
  · rw [startSelfld_eq reached]
    exact congrArg (· >>= fun run => .ok (out, run)) built
  · exact absurd (passes.single reached reserved (by decide) (by decide) (by decide)).1 (by decide)

end SelfDb

import SelfDb.Loader.NativeRun
import SelfDb.Loader.NativeStack

/-! The hand-off: the stack is made beside what was loaded, and what the loader found mapped is as
it was when it jumps. -/
namespace SelfDb
open Paging Binary

/-- Filling a new stack leaves alone what was mapped. -/
theorem stack_untouched {os : Os} (fresh : os.Fresh) (reserved : os.reserve mem size = some base)
    {stores : List Store} (within : ∀ w ∈ stores, w.Within base (base + size))
    (small : a < 2 ^ 64) (present : IsMapped mem a) :
    Untouched mem (stores.foldl Memory.store (mem.mapAnonymous base size .readWrite)) a := by
  have outside : ¬ InSpan base size a := fresh.outside reserved present
  refine (fresh.untouched reserved present .readWrite 0).trans (.stores (fun w member => ?_) _)
  exact (within w member).byteAt_none (fresh.room reserved) small outside

/-! Native mode. -/

theorem nativeStack_untouched {os : Os} (fresh : os.Fresh) (below : os.Below nativeStackSize)
    {argv envp : List CString}
    (fits : nativeStackBytes caller path argv envp ≤ nativeStackSize)
    (made : nativeStack os caller exe interp path argv envp mem = .ok (sp, after)) :
    ∀ a < 2 ^ 64, IsMapped mem a → Untouched mem after a := by
  simp only [nativeStack, bind_eq_ok_iff, orDie_eq_ok_iff] at made
  obtain ⟨base, reserved, made⟩ := made
  have page := fresh.aligned reserved
  have room := below reserved
  have args : calloc os argv.length = .ok () := by
    simp only [nativeBuildStack, bind_eq_ok_iff] at made
    exact made.choose_spec.1
  have env : calloc os envp.length = .ok () := by
    simp only [nativeBuildStack, bind_eq_ok_iff] at made
    obtain ⟨_, _, _, _, _, env, _⟩ := made
    exact env
  have top : wrap (base + nativeStackSize) = base + nativeStackSize := Nat.mod_eq_of_lt room
  obtain ⟨_, inside, ends⟩ := startPointer_fits page fits
  rw [← nativePointer] at inside ends
  have writable := (writableIn_mapAnonymous page mem).mono inside (le_refl (base + nativeStackSize))
  obtain ⟨random, platform, execfn, -, built⟩ :=
    nativeBuildStack_ok exe interp args env (fits.trans (Nat.le_add_left _ base)) room writable
  rw [top, built] at made
  cases made
  intro a small present
  refine stack_untouched fresh reserved (fun w member => ?_) small present
  refine (stackStores_within ?_ w member).mono inside le_rfl
  rwa [startVector_length, nativeAux_length]

theorem enterNative_steps
    (entered : enterNative os caller files conn path argv envp mem = .ok (sp, entry, after)) :
    ∃ exe interp first second, mapProgram os conn mem = .ok (exe, first) ∧
      mapInterpIf os files (selfGetText conn .interp) first = .ok (interp, second) ∧
      nativeStack os caller exe interp path argv envp second = .ok (sp, after) ∧
      entry = (interp.map InterpObject.entry).getD exe.entry := by
  simp only [enterNative, bind_eq_ok_iff] at entered
  obtain ⟨_, _, _, _, ⟨exe, first⟩, program, ⟨interp, second⟩, interpreter, ⟨_, _⟩, stack,
    result⟩ := entered
  cases result
  exact ⟨exe, interp, first, second, program, interpreter, stack, rfl⟩

section Native
variable {os : Os} {caller : Caller} {files : String → Option Bytes} {data : Bytes} {db : Database}
  {path : CString} {argv envp : List CString}

/-- The jump of native mode: both programs are as their files have them when the interpreter, or
else the program, is entered on the stack. -/
theorem enterNative_program (fresh : os.Fresh) (below : os.Below nativeStackSize)
    (self : SelfOf data db) (theirs : InterpIsSelf files db.connect)
    (fits : nativeStackBytes caller path argv envp ≤ nativeStackSize)
    (entered : enterNative os caller files db.connect path argv envp mem =
      .ok (sp, entry, after)) :
    ∃ exe interp, BothLoaded files db.connect data ⟨exe, interp, after⟩ ∧
      entry = (interp.map InterpObject.entry).getD exe.entry := by
  obtain ⟨exe, interp, _, _, program, interpreter, stack, begins⟩ := enterNative_steps entered
  obtain ⟨-, loaded⟩ := programs_placed fresh self theirs program interpreter
  exact ⟨exe, interp, loaded after (nativeStack_untouched fresh below fits stack), begins⟩

/-- The loader finds itself as it was: of what was mapped before, native mode replaces the pages
that a program without a load bias is linked at, and nothing else. -/
theorem enterNative_untouched (fresh : os.Fresh) (below : os.Below nativeStackSize)
    (self : SelfOf data db) (theirs : InterpIsSelf files db.connect)
    (fits : nativeStackBytes caller path argv envp ≤ nativeStackSize)
    (entered : enterNative os caller files db.connect path argv envp mem =
      .ok (sp, entry, after)) :
    ∀ a < 2 ^ 64, IsMapped mem a → ¬ FixedPage data a → Untouched mem after a := by
  obtain ⟨_, _, _, _, program, interpreter, stack, -⟩ := enterNative_steps entered
  obtain ⟨frame, -⟩ := programs_placed fresh self theirs program interpreter
  intro a small present off
  have before := frame a small present off
  have mapped := before.isMapped present
  exact before.trans (nativeStack_untouched fresh below fits stack a small mapped)

end Native

/-- A file whose PT_LOAD entry maps all of it and whose interpreter is `/i`. -/
def dynamicFile : Bytes :=
  let ehdr : RawEhdr := {
    ident := elfMagic ++ [2, 1, 1, 0] ++ List.replicate 8 0
    type := etDyn
    machine := emX86_64
    version := 1
    entry := 0x40
    phoff := ehdrSize
    shoff := 0
    flags := 0
    ehsize := ehdrSize
    phentsize := phdrSize
    phnum := 2
    shentsize := 0
    shnum := 0
    shstrndx := 0 }
  ehdr.bytes ++ RawPhdr.bytes ⟨ptLoad, 5, 0, 0, 0, 179, 300, 0x1000⟩ ++
    RawPhdr.bytes ⟨ptInterp, 4, 176, 176, 176, 3, 3, 1⟩ ++ [47, 105, 0]

theorem dynamicFile_apart : LoadsApart dynamicFile := by
  have load : ∀ i < entryCount dynamicFile, (entryAt dynamicFile i).type = ptLoad → i = 0 := by
    decide +kernel
  refine ⟨by decide +kernel, by decide +kernel, fun i bound j before here => ?_⟩
  have first := load i bound here
  omega

def dynamicFiles (path : String) : Option Bytes := if path = "/i" then some mappedFile else none

theorem dynamicFiles_self (conn : Connection) : InterpIsSelf dynamicFiles conn := by
  intro path file _ opened
  obtain ⟨other, theirs⟩ := mappedFile_converted
  rw [dynamicFiles] at opened
  split at opened
  · cases opened
    exact ⟨other, ⟨_, theirs⟩, mappedFile_table.1⟩
  · cases opened

/-- A page of the loader is mapped. -/
def loaderSpace : Memory := unmappedSpace.lay ⟨0x1000000, pageSize, .readOnly, ⟨0x1000000, [7]⟩⟩

theorem dynamicFile_enters : ∃ db, SelfOf dynamicFile db ∧ ∃ sp entry after,
    enterNative .lowest bareCaller dynamicFiles db.connect programName
      [programName, someArgument] [someVariable] loaderSpace = .ok (sp, entry, after) := by
  have ran : ∃ db, convert (.ok .none) dynamicFile = .ok db ∧
      (enterNative .lowest bareCaller dynamicFiles db.connect programName
        [programName, someArgument] [someVariable] loaderSpace).toOption.isSome :=
    exists_of_map_decide (by decide +kernel)
  obtain ⟨db, converted, ran⟩ := ran
  obtain ⟨⟨sp, entry, after⟩, entered⟩ := exists_of_isSome ran
  exact ⟨db, ⟨⟨_, converted⟩, dynamicFile_apart⟩, sp, entry, after, entered⟩

theorem enterNative_program_dynamicFile :
    ∃ (db : Database) (sp entry : Nat) (after : Memory),
      enterNative .lowest bareCaller dynamicFiles db.connect programName
        [programName, someArgument] [someVariable] loaderSpace = .ok (sp, entry, after) ∧
      ∃ exe interp, BothLoaded dynamicFiles db.connect dynamicFile ⟨exe, interp, after⟩ ∧
        entry = (interp.map InterpObject.entry).getD exe.entry := by
  obtain ⟨db, self, sp, entry, after, entered⟩ := dynamicFile_enters
  exact ⟨db, sp, entry, after, entered, enterNative_program Os.lowest_fresh
    (Os.lowest_below (by decide)) self (dynamicFiles_self _) (by decide) entered⟩

theorem enterNative_untouched_dynamicFile :
    ∃ (db : Database) (sp entry : Nat) (after : Memory),
      enterNative .lowest bareCaller dynamicFiles db.connect programName
        [programName, someArgument] [someVariable] loaderSpace = .ok (sp, entry, after) ∧
      Untouched loaderSpace after 0x1000000 := by
  obtain ⟨db, self, sp, entry, after, entered⟩ := dynamicFile_enters
  refine ⟨db, sp, entry, after, entered, ?_⟩
  have moved : ¬ FixedPage dynamicFile 0x1000000 := fun fixed => fixed.1 (by decide +kernel)
  exact enterNative_untouched Os.lowest_fresh (Os.lowest_below (by decide)) self
    (dynamicFiles_self _) (by decide) entered 0x1000000 (by decide) rfl moved

end SelfDb

import SelfDb.Loader.Layout
import SelfDb.Loader.RunNative
import SelfDb.Paging.Stack

/-! `build_stack` of `loader/native.c` and of `loader/selfld.c`, and the ends of
the two runs: the stack is mapped, filled, and the program entered with it. -/
namespace SelfDb
open Paging Binary

def atNull : Nat := 0
def atPhdr : Nat := 3
def atPhent : Nat := 4
def atPhnum : Nat := 5
def atPagesz : Nat := 6
def atBase : Nat := 7
def atFlags : Nat := 8
def atEntry : Nat := 9
def atUid : Nat := 11
def atEuid : Nat := 12
def atGid : Nat := 13
def atEgid : Nat := 14
def atPlatform : Nat := 15
def atHwcap : Nat := 16
def atClktck : Nat := 17
def atSecure : Nat := 23
def atRandom : Nat := 25
def atHwcap2 : Nat := 26
def atExecfn : Nat := 31
def atSysinfoEhdr : Nat := 33

/-- What the loaders ask about their own process. `random` are the 16 bytes that
its AT_RANDOM points to, if it has one. -/
structure Caller where
  getauxval : Nat → Nat
  random : Option {bytes : Bytes // bytes.length = 16}
  uid : Nat
  euid : Nat
  gid : Nat
  egid : Nat

/-- An array of pointers: a NULL from `calloc` is written through with the first one. -/
def calloc (os : Os) (count : Nat) : Run Unit :=
  if count = 0 ∨ os.malloc (8 * count) then .ok () else .error .fault

/-- `push_bytes`: the address is the new cursor too. -/
def pushBytes (mem : Memory) (p : Nat) (bytes : Bytes) : Run (Nat × Memory) := do
  let p := sub64 p bytes.length
  let mem ← memcpy mem p bytes bytes.length
  return (p, mem)

def pushStr (mem : Memory) (p : Nat) (str : CString) : Run (Nat × Memory) :=
  pushBytes mem p str.stored

/-- Both string loops: behind the last string is a NULL, and that is not one. -/
def pushStrs : Nat → List CString → Nat → Memory → Run (List Nat × Nat × Memory)
  | 0, _, p, mem => .ok ([], p, mem)
  | _ + 1, [], _, _ => .error .fault
  | count + 1, str :: rest, p, mem => do
    let (p, mem) ← pushStr mem p str
    let (pointers, last, mem) ← pushStrs count rest p mem
    return (p :: pointers, last, mem)

/-- `v[k++] = ..` from the stack pointer on. -/
def storeWords : List Nat → Nat → Memory → Run Memory
  | [], _, mem => .ok mem
  | word :: rest, a, mem => do
    let mem ← memcpy mem a (leBytes 8 word) 8
    storeWords rest (wrap (a + 8)) mem

/-- The words that are left room for. -/
def vectorWords (argc envc naux : Nat) : Nat := 1 + argc + 1 + envc + 1 + 2 * naux

/-! native.c -/

/-- `(uint8_t)(i * 7 + 1)`. -/
def nativeRandom (caller : Caller) : Bytes :=
  (caller.random.map Subtype.val).getD ((List.range 16).map fun i => UInt8.ofNat (i * 7 + 1))

def x86_64 : CString := ⟨[0x78, 0x38, 0x36, 0x5f, 0x36, 0x34], by decide⟩

/-- The pairs of `aux`. -/
def nativeAux (caller : Caller) (exe : NativeObject) (interp : Option InterpObject)
    (random platform execfn : Nat) :
    List (Nat × Nat) :=
  [(atPhdr, wrap exe.phdr), (atPhent, sizeT exe.phent), (atPhnum, sizeT exe.phnum),
    (atPagesz, pageSize), (atBase, wrap ((interp.map InterpObject.loadBias).getD 0)), (atFlags, 0),
    (atEntry, wrap exe.entry), (atUid, wrap caller.uid), (atEuid, wrap caller.euid),
    (atGid, wrap caller.gid), (atEgid, wrap caller.egid), (atSecure, 0),
    (atClktck, wrap (caller.getauxval atClktck)), (atHwcap, wrap (caller.getauxval atHwcap)),
    (atHwcap2, wrap (caller.getauxval atHwcap2)), (atRandom, random), (atPlatform, platform),
    (atExecfn, execfn)] ++
    (if wrap (caller.getauxval atSysinfoEhdr) ≠ 0 then
      [(atSysinfoEhdr, wrap (caller.getauxval atSysinfoEhdr))] else []) ++ [(atNull, 0)]

/-- `build_stack`; `p` is the top of the buffer. -/
def nativeBuildStack (os : Os) (caller : Caller) (argc : Nat) (argv envp : List CString)
    (exe : NativeObject)
    (interp : Option InterpObject) (execPath : CString) (p : Nat) (mem : Memory) :
    Run (Nat × Memory) := do
  calloc os argc
  let (argp, p, mem) ← pushStrs argc argv p mem
  calloc os envp.length
  let (envpp, p, mem) ← pushStrs envp.length envp p mem
  let (random, mem) ← pushBytes mem p (nativeRandom caller)
  let (platform, mem) ← pushStr mem random x86_64
  let (execfn, mem) ← pushStr mem platform execPath
  let aux := nativeAux caller exe interp random platform execfn
  let sp := align16 (sub64 execfn (8 * vectorWords argc envp.length aux.length))
  let mem ← storeWords (stackVector argc argp envpp aux) sp mem
  return (sp, mem)

/-- The part of `run_native` that makes the stack. -/
def nativeStack (os : Os) (caller : Caller) (exe : NativeObject) (interp : Option InterpObject)
    (path : CString) (argv envp : List CString) (mem : Memory) : Run (Nat × Memory) := do
  let stk ← orDie .mapStack (os.reserve mem nativeStackSize)
  nativeBuildStack os caller argv.length argv envp exe interp path (wrap (stk + nativeStackSize))
    (mem.mapAnonymous stk nativeStackSize .readWrite)

/-- `run_native` up to the jump: the stack pointer, the entry, and the memory. -/
def enterNative (os : Os) (caller : Caller) (files : String → Option Bytes) (conn : Connection)
    (path : CString) (argv envp : List CString) (mem : Memory) : Run (Nat × Nat × Memory) := do
  let em ← selfMetaInt conn .em
  orDie (.machine em) (if em = emX86_64 then some () else none)
  let (exe, mem) ← mapProgram os conn mem
  let (interp, mem) ← mapInterpIf os files (selfGetText conn .interp) mem
  let (sp, mem) ← nativeStack os caller exe interp path argv envp mem
  return (sp, (interp.map InterpObject.entry).getD exe.entry, mem)

/-! selfld.c -/

/-- `"selfldselfld1234"`. -/
def selfldRandom (caller : Caller) : Bytes :=
  (caller.random.map Subtype.val).getD
    [0x73, 0x65, 0x6c, 0x66, 0x6c, 0x64, 0x73, 0x65, 0x6c, 0x66, 0x6c, 0x64, 0x31, 0x32, 0x33, 0x34]

def selfldAux (caller : Caller) (entry phdr phnum random : Nat) : List (Nat × Nat) :=
  [(atPhdr, phdr), (atPhnum, phnum), (atPhent, phdrSize), (atPagesz, pageSize),
    (atEntry, wrap entry), (atBase, 0), (atRandom, random),
    (atSysinfoEhdr, wrap (caller.getauxval atSysinfoEhdr)), (atNull, 0)]

/-- `build_stack`, with the stack that it maps. -/
def selfldBuildStack (os : Os) (caller : Caller) (argc : Nat) (argv envp : List CString)
    (entry phdr phnum : Nat) (mem : Memory) : Run (Nat × Memory) := do
  let stk ← orDie .mapStack (os.reserve mem selfldStackSize)
  let mem := mem.mapAnonymous stk selfldStackSize .readWrite
  calloc os argc
  calloc os envp.length
  let (ap, p, mem) ← pushStrs argc argv (wrap (stk + selfldStackSize)) mem
  let (ep, p, mem) ← pushStrs envp.length envp p mem
  let (random, mem) ← pushBytes mem p (selfldRandom caller)
  let aux := selfldAux caller entry phdr phnum random
  let sp := align16 (sub64 random (8 * vectorWords argc envp.length aux.length))
  let mem ← storeWords (stackVector argc ap ep aux) sp mem
  return (sp, mem)

/-- `run_selfld` up to the jump. -/
def startSelfld (world : World) (caller : Caller) (maindb : Connection) (path : String)
    (argv envp : List CString) (mem : Memory) : Run (Linked × Nat × Memory) := do
  let out ← runSelfld world maindb path mem
  let (sp, mem) ← selfldBuildStack world.os caller 1 argv envp out.main.entry 0 0 out.memory
  return (out, sp, mem)

end SelfDb

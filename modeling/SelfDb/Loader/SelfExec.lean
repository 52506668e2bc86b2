import SelfDb.Loader.Program
import SelfDb.Unix.Files

/-! `loader/self-exec.c`: the choice of the mode, and memfd mode, which writes the rebuilt image
to a file in memory and executes it. -/
namespace SelfDb
open Unix Binary

/-- The answers of the kernel to `memfd_create` and to the writes behind it. -/
structure MemfdAnswers where
  create : Option Nat
  writes : List (Option Nat)

/-- The messages of `main`, `self_open` and `run_memfd`. -/
inductive ExecDie where
  | usage
  | cannotOpen (path : String)
  | rebuild
  | memfdCreate
  | writeMemfd
  | execveat
  | unknownMode (mode : String)

/-- `errno` is the text for `%m`. -/
def ExecDie.text (errno : String) : ExecDie → String
  | .usage => "usage: self-exec <program.self> [args...]"
  | .cannotOpen path => path ++ ": cannot open or not a SELF database"
  | .rebuild => "failed to reconstruct ELF image from rows"
  | .memfdCreate => "memfd_create: " ++ errno
  | .writeMemfd => "write memfd: " ++ errno
  | .execveat => "execveat memfd: " ++ errno
  | .unknownMode mode => "unknown SELF_MODE '" ++ mode ++ "' (memfd|native|selfld)"

/-- What comes of the process. The last one is a write that has not been answered. -/
inductive SelfExec where
  | died (stderr : String) (status : Nat)
  | executes (file : OpenFile) (argv envp : List String)
  | native (conn : Connection) (path : String) (argv envp : List String)
  | selfld (conn : Connection) (path : String) (argv envp : List String)
  | fault (kind : Fault)
  | waiting

/-- What `self-exec` finds outside: the files that `self_db_open` accepts, the allocations, and
the answers of the kernel. -/
structure ExecWorld where
  files : String → Option Connection
  heap : Heap
  memfd : MemfdAnswers
  accepts : OpenFile → Bool
  errno : String

namespace ExecWorld

def die (world : ExecWorld) (argv0 : String) (why : ExecDie) : SelfExec :=
  .died (argv0 ++ ": " ++ why.text world.errno ++ "\n") 127

def runMemfd (world : ExecWorld) (argv0 : String) (conn : Connection) (argv envp : List String) :
    SelfExec :=
  match selfBuildElf world.heap conn with
  | .null => world.die argv0 .rebuild
  | .fault kind => .fault kind
  | .image img =>
    match world.memfd.create with
    | none => world.die argv0 .memfdCreate
    | some _ =>
      match writeLoop img world.memfd.writes 0 .empty with
      | .failed _ => world.die argv0 .writeMemfd
      | .waiting _ => .waiting
      | .done file =>
        -- `execveat` only comes back when it has failed
        if world.accepts file then .executes file argv envp else world.die argv0 .execveat

/-- `main`; `setting` is SELF_MODE. -/
def main (world : ExecWorld) (setting : Option String) (argv envp : List String) : SelfExec :=
  let mode := setting.getD "memfd"
  match argv with
  | argv0 :: path :: rest =>
    match world.files path with
    | none => world.die argv0 (.cannotOpen path)
    | some conn =>
      if mode = "memfd" then world.runMemfd argv0 conn (path :: rest) envp
      else if mode = "native" then .native conn path (path :: rest) envp
      else if mode = "selfld" then .selfld conn path (path :: rest) envp
      else world.die argv0 (.unknownMode mode)
  | short => world.die (short.headD "(null)") .usage

/-- The kernel makes the file, takes all of the image and executes it. -/
structure Executes (world : ExecWorld) (img : Bytes) : Prop where
  created : world.memfd.create.isSome
  written : Answered img.length world.memfd.writes
  accepted : world.accepts ⟨img, img.length⟩ = true

/-- An image that is built is executed if the kernel does its part, and else the process dies, or
is still writing. -/
theorem runMemfd_image {world : ExecWorld} (built : selfBuildElf world.heap conn = .image img)
    (argv0 : String) (argv envp : List String) :
    (world.Executes img ∧
      world.runMemfd argv0 conn argv envp = .executes ⟨img, img.length⟩ argv envp) ∨
    (¬ world.Executes img ∧ (world.runMemfd argv0 conn argv envp = .waiting ∨
      ∃ why, world.runMemfd argv0 conn argv envp = world.die argv0 why)) := by
  have through : (∃ file, writeLoop img world.memfd.writes 0 .empty = .done file) ↔
    Answered img.length world.memfd.writes := writeLoop_done_iff
  simp only [runMemfd, built]
  cases created : world.memfd.create with
  | none =>
    refine .inr ⟨fun executes => ?_, .inr ⟨_, rfl⟩⟩
    have made := executes.created
    rw [created] at made
    cases made
  | some fd =>
    cases ran : writeLoop img world.memfd.writes 0 .empty with
    | failed file =>
      refine .inr ⟨fun executes => ?_, .inr ⟨_, rfl⟩⟩
      obtain ⟨_, done⟩ := through.mpr executes.written
      cases ran.symm.trans done
    | waiting file =>
      refine .inr ⟨fun executes => ?_, .inl rfl⟩
      obtain ⟨_, done⟩ := through.mpr executes.written
      cases ran.symm.trans done
    | done file =>
      obtain rfl := writeLoop_whole (.start img) ran
      by_cases accepted : world.accepts ⟨img, img.length⟩ = true
      · exact .inl ⟨⟨created ▸ rfl, through.mp ⟨_, ran⟩, accepted⟩, if_pos accepted⟩
      · exact .inr ⟨fun executes => accepted executes.accepted, .inr ⟨_, if_neg accepted⟩⟩

/-- What is executed is the whole image that was built. -/
theorem main_executes {world : ExecWorld}
    (ran : world.main setting argv envp = .executes file args env) :
    ∃ argv0 path rest conn img, argv = argv0 :: path :: rest ∧ world.files path = some conn ∧
      selfBuildElf world.heap conn = .image img ∧ file = ⟨img, img.length⟩ ∧
      args = path :: rest ∧ env = envp := by
  rcases argv with _ | ⟨argv0, _ | ⟨path, rest⟩⟩
  · cases ran
  · cases ran
  · cases opened : world.files path with
    | none =>
      simp only [main, opened] at ran
      cases ran
    | some conn =>
      simp only [main, opened] at ran
      split at ran
      · cases built : selfBuildElf world.heap conn with
        | null =>
          simp only [runMemfd, built] at ran
          cases ran
        | fault kind =>
          simp only [runMemfd, built] at ran
          cases ran
        | image img =>
          rcases runMemfd_image built argv0 (path :: rest) envp with
            ⟨_, executes⟩ | ⟨_, stopped | ⟨_, stopped⟩⟩
          · cases executes.symm.trans ran
            exact ⟨_, _, _, _, _, rfl, opened, built, rfl, rfl, rfl⟩
          · cases stopped.symm.trans ran
          · cases stopped.symm.trans ran
      · split at ran
        · cases ran
        · split at ran <;> cases ran

end ExecWorld

/-- `self-exec` executes the program of the file or nothing, with the arguments behind its own
name. -/
theorem selfExec_program {world : ExecWorld} (plain : Plain data)
    (above : ehdrSize ≤ (RawEhdr.read data).phoff) (converted : convert lief data = .ok db)
    (opened : world.files path = some db.connect) (setting : Option String)
    (argv0 : String) (rest envp : List String) :
    (∀ file args env, world.main setting (argv0 :: path :: rest) envp = .executes file args env →
      SameProgram data file.content ∧ args = path :: rest ∧ env = envp) ∧
    (setting.getD "memfd" = "memfd" → Allocates world.heap data →
      ∃ img, SameProgram data img ∧
        ((world.Executes img ∧ world.main setting (argv0 :: path :: rest) envp =
          .executes ⟨img, img.length⟩ (path :: rest) envp) ∨
        (¬ world.Executes img ∧ (world.main setting (argv0 :: path :: rest) envp = .waiting ∨
          ∃ why, world.main setting (argv0 :: path :: rest) envp = world.die argv0 why)))) := by
  have conv := convert_sound converted
  refine ⟨fun file args env ran => ?_, fun mode allocates => ?_⟩
  · obtain ⟨_, _, _, conn, img, same, found, built, rfl, rfl, rfl⟩ := ExecWorld.main_executes ran
    cases same
    cases opened.symm.trans found
    exact ⟨selfBuildElf_program plain above conv built, rfl, rfl⟩
  · obtain ⟨img, built⟩ := selfBuildElf_exists plain.loads conv allocates
    refine ⟨img, selfBuildElf_program plain above conv built, ?_⟩
    have memfd : world.main setting (argv0 :: path :: rest) envp =
        world.runMemfd argv0 db.connect (path :: rest) envp := by
      simp only [ExecWorld.main, opened, if_pos mode]
    rw [memfd]
    exact ExecWorld.runMemfd_image built argv0 _ envp

/-- A kernel that takes a hundred bytes at a time. -/
def slowWorld (db : Database) : ExecWorld where
  files path := if path = "/main.self" then some db.connect else none
  heap := .ample
  memfd := ⟨some 3, [some 100, some 100]⟩
  accepts _ := true
  errno := ""

theorem selfExec_program_mappedFile :
    ∃ db img, convert (.ok .none) mappedFile = .ok db ∧ SameProgram mappedFile img ∧
      (slowWorld db).main none ["self-exec", "/main.self", "x"] ["A=1"] =
        .executes ⟨img, img.length⟩ ["/main.self", "x"] ["A=1"] := by
  have ran : ∃ db, convert (.ok .none) mappedFile = .ok db ∧
      (match (slowWorld db).main none ["self-exec", "/main.self", "x"] ["A=1"] with
        | .executes _ _ _ => true
        | _ => false) = true := exists_of_map_decide (by decide +kernel)
  obtain ⟨db, converted, ran⟩ := ran
  have opened : (slowWorld db).files "/main.self" = some db.connect := rfl
  have allocates : Allocates .ample mappedFile := ⟨rfl, fun _ _ => rfl, rfl⟩
  obtain ⟨_, whole⟩ := selfExec_program mappedFile_plain
    mappedFile_wellFormed.above converted opened none "self-exec" ["x"] ["A=1"]
  obtain ⟨img, same, executed | ⟨_, waiting | ⟨_, died⟩⟩⟩ := whole rfl allocates
  · exact ⟨db, img, converted, same, executed.2⟩
  · rw [waiting] at ran
    cases ran
  · rw [died] at ran
    cases ran

end SelfDb

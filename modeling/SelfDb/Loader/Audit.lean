import SelfDb.Loader.Providers
import SelfDb.Selfconv.ElfImage

/-! `loader/audit.c`: ld.so asks for a soname, and is given the file of a row of
the resolver database, or a memfd that the rows of a SELF file are built into. -/
namespace SelfDb
open Paging

/-- What the audit library finds outside: the files that `self_db_open` accepts,
the allocations, and the memfds that can be created and written. -/
structure Audit where
  files : String → Option Connection
  heap : Heap
  memfd : String → Bytes → Option Nat
  malloc : Nat → Bool

/-- The object that ld.so is given, by the path of the row it comes from. -/
inductive Handed where
  | file (path : String)
  | memfd (path : String) (fd : Nat)
  deriving DecidableEq

namespace Handed

def path : Handed → String
  | file path => path
  | memfd path _ => path

/-- The string that `resolve` returns. -/
def text : Handed → String
  | file path => path
  | memfd _ fd => "/proc/self/fd/" ++ toString fd

end Handed

namespace Audit

def selfMaterializeMemfd (audit : Audit) (path tag : String) : Except Fault (Option Nat) :=
  match audit.files path with
  | none => .ok none
  | some conn =>
    match selfBuildElf audit.heap conn with
    | .null => .ok none
    | .fault kind => .error kind
    | .image img => .ok (audit.memfd tag img)

def strdup (audit : Audit) (handed : Handed) : Option Handed :=
  if audit.malloc (handed.text.utf8ByteSize + 1) then some handed else none

/-- What `resolve` makes of a row; a kind it does not know is no hit. -/
def handRow (audit : Audit) (soname path : String) : ProviderKind → Except Fault (Option Handed)
  | .self =>
    (audit.selfMaterializeMemfd path soname).map fun fd => fd.bind fun fd => audit.strdup
    (.memfd path fd)
  | .elf => .ok (audit.strdup (.file path))
  | .other => .ok none

/-- `objects` is the statement on `g_db`, if that was opened. -/
def resolve (audit : Audit) (objects : Option (String → Query (String × ProviderKind)))
    (soname : String) :
    Except Fault (Option Handed) :=
  match objects.bind fun select => (select soname).rows.head? with
  | none => .ok none
  | some (path, kind) => audit.handRow soname path kind

/-- The object of the row can be given to ld.so: an ELF file as it is, a SELF file
that opens, whose image can be built and fits into a memfd. -/
inductive Delivers (audit : Audit) (soname : String) (row : ProviderRow) : Handed → Prop where
  | file : row.kind = .elf → audit.malloc (row.path.utf8ByteSize + 1) = true →
      Delivers audit soname row (.file row.path)
  | memfd : row.kind = .self → audit.files row.path = some conn →
      selfBuildElf audit.heap conn = .image img → audit.memfd soname img = some fd →
      audit.malloc ((Handed.memfd row.path fd).text.utf8ByteSize + 1) = true →
      Delivers audit soname row (.memfd row.path fd)

theorem Delivers.path_eq (delivers : Delivers audit soname row handed) :
    handed.path = row.path := by
  cases delivers <;> rfl

theorem strdup_eq_some_iff (audit : Audit) (handed given : Handed) :
    audit.strdup handed = some given ↔ audit.malloc (handed.text.utf8ByteSize + 1) = true ∧
      handed = given := by
  rw [strdup, Option.ite_none_right_eq_some, Option.some.injEq]

theorem selfMaterializeMemfd_eq_some_iff (audit : Audit) (path tag : String) (fd : Nat) :
    audit.selfMaterializeMemfd path tag = .ok (some fd) ↔
      ∃ conn img, audit.files path = some conn ∧ selfBuildElf audit.heap conn = .image img ∧
        audit.memfd tag img = some fd := by
  rw [selfMaterializeMemfd]
  cases audit.files path with
  | none => simp
  | some conn =>
    cases built : selfBuildElf audit.heap conn <;> simp [built]

theorem handRow_self_iff (audit : Audit) (soname path : String) (handed : Handed) :
    audit.handRow soname path .self = .ok (some handed) ↔
      ∃ fd, audit.selfMaterializeMemfd path soname = .ok (some fd) ∧
        audit.strdup (.memfd path fd) = some handed := by
  rw [handRow]
  cases audit.selfMaterializeMemfd path soname with
  | error fault => simp [Except.map]
  | ok fd => cases fd <;> simp [Except.map]

theorem handRow_iff (audit : Audit) (soname : String) (row : ProviderRow) (handed : Handed) :
    audit.handRow soname row.path row.kind = .ok (some handed) ↔
      audit.Delivers soname row handed := by
  constructor
  · intro returned
    cases kind : row.kind with
    | self =>
      rw [kind, handRow_self_iff] at returned
      obtain ⟨fd, made, duplicated⟩ := returned
      obtain ⟨conn, img, opened, built, created⟩ :=
        (selfMaterializeMemfd_eq_some_iff _ _ _ _).mp made
      obtain ⟨copied, rfl⟩ := (strdup_eq_some_iff _ _ _).mp duplicated
      exact .memfd kind opened built created copied
    | elf =>
      rw [kind, handRow, Except.ok.injEq, strdup_eq_some_iff] at returned
      obtain ⟨copied, rfl⟩ := returned
      exact .file kind copied
    | other =>
      rw [kind] at returned
      cases returned
  · rintro (⟨kind, copied⟩ | ⟨kind, opened, built, created, copied⟩)
    · rw [kind, handRow, Except.ok.injEq, strdup_eq_some_iff]
      exact ⟨copied, rfl⟩
    · rw [kind, handRow_self_iff]
      refine ⟨_, (selfMaterializeMemfd_eq_some_iff _ _ _ _).mpr ⟨_, _, opened, built, created⟩, ?_⟩
      exact (strdup_eq_some_iff _ _ _).mpr ⟨copied, rfl⟩

/-- What `resolve` returns on the row it is answered. -/
theorem resolve_eq_some_iff (audit : Audit) {select : String → Query (String × ProviderKind)}
    (answer : select soname = .cursor [(row.path, row.kind)] .done) (handed : Handed) :
    audit.resolve (some select) soname = .ok (some handed) ↔ audit.Delivers soname row handed := by
  rw [← handRow_iff]
  simp only [resolve, Option.bind_some, answer, Query.rows, List.head?_cons]

end Audit

namespace ResolverDb

/-- If the soname has a row of the machine, `resolve` hands over the object of one. -/
def HandsMachine (rdb : ResolverDb) (audit : Audit)
    (select : String → Query (String × ProviderKind)) (soname machine : String) : Prop :=
  (∃ row ∈ rdb.named soname, row.machine = some machine) →
    ∃ row ∈ rdb.named soname, row.machine = some machine ∧
      ∃ handed, audit.resolve (some select) soname = .ok (some handed) ∧ handed.path = row.path

/-- Beside a row of the machine there are only such rows, and each has an object to give. -/
def OnlyMachine (rdb : ResolverDb) (audit : Audit) (soname machine : String) : Prop :=
  (∃ row ∈ rdb.named soname, row.machine = some machine) →
    ∀ row ∈ rdb.named soname, row.machine = some machine ∧
      ∃ handed, audit.Delivers soname row handed

theorem handsMachine_iff (rdb : ResolverDb) (audit : Audit) (soname machine : String) :
    (∀ select, (∀ other, rdb.LimitOne other (fun row => (row.path, row.kind)) (select other)) →
      rdb.HandsMachine audit select soname machine) ↔ rdb.OnlyMachine audit soname machine := by
  constructor
  · intro hands offered row member
    obtain ⟨select, legal, answer⟩ := rdb.exists_limitOne (fun row => (row.path, row.kind)) member
    obtain ⟨given, present, suits, handed, returned, source⟩ := hands select legal offered
    have delivers := (audit.resolve_eq_some_iff answer handed).mp returned
    obtain rfl : row = given := rdb.eq_of_path ((rdb.mem_named soname row).mp member).1
      ((rdb.mem_named soname given).mp present).1 (delivers.path_eq.symm.trans source)
    exact ⟨suits, handed, delivers⟩
  · intro only select legal offered
    rcases legal soname with ⟨row, member, answer⟩ | ⟨none, _⟩
    · obtain ⟨suits, handed, delivers⟩ := only offered row member
      exact ⟨row, member, suits, handed, (audit.resolve_eq_some_iff answer handed).mpr delivers,
        delivers.path_eq⟩
    · obtain ⟨row, member, _⟩ := offered
      rw [none] at member
      cases member

/-- Both lookups ask for the soname alone. Over all answers the database may give,
`run_selfld` maps a usable row, and `resolve` hands over an object of the machine,
exactly when no other row shares the soname; a run that reaches the program then
has mapped usable rows. -/
theorem provider_iff (rdb : ResolverDb) (audit : Audit) (soname machine : String) :
    ((∀ world : World, world.Consults rdb → rdb.MapsUsable world soname machine) ↔
      rdb.OnlyUsable soname machine) ∧
    ((∀ select, (∀ other, rdb.LimitOne other (fun row => (row.path, row.kind)) (select other)) →
      rdb.HandsMachine audit select soname machine) ↔ rdb.OnlyMachine audit soname machine) ∧
    ∀ {world : World} {maindb path mem out}, world.Consults rdb →
      runSelfld world maindb path mem = .ok out →
      List.Forall₂ (fun needed obj => rdb.OnlyUsable needed machine →
        (∃ row ∈ rdb.objects.rows, row.Usable needed machine) →
        ∃ row ∈ rdb.objects.rows, row.Usable needed machine ∧ world.files row.path = some obj.conn)
        out.main.conn.needed.rows out.needed :=
  ⟨rdb.mapsUsable_iff soname machine, rdb.handsMachine_iff audit soname machine,
    fun consults reached => runSelfld_usable consults reached machine⟩

end ResolverDb

/-- A SELF library and an ELF one of another machine, which a scan found later. -/
def twoMachines : ResolverDb where
  objects := ⟨[⟨1, "/x86/libf.self", some "libf.so", some "x86_64", none, .self⟩,
    ⟨2, "/arm/libf.so", some "libf.so", some "aarch64", none, .elf⟩], by decide⟩
  uniquePaths := by decide

def scannedFiles (path : String) : Option Connection :=
  if path = "/main.self" then some callerOfF.connect
  else if path = "/x86/libf.self" then some (exporting 0x200 .empty .empty).connect
  else none

/-- The lookups go through the index. -/
def scannedWorld : World where
  os := .twoHoles
  files := scannedFiles
  resolver := some ⟨fun soname => .cursor ((twoMachines.firstIndexed soname).map (·.path)).toList
    .done, .prepareError⟩

def scannedSelect (soname : String) : Query (String × ProviderKind) :=
  .cursor ((twoMachines.firstIndexed soname).map fun row => (row.path, row.kind)).toList .done

def scannedAudit : Audit where
  files := scannedFiles
  heap := ⟨fun _ => true, fun _ _ => true, fun _ => true⟩
  memfd _ _ := some 3
  malloc _ := true

theorem scannedWorld_maps : ¬ scannedWorld.MapsNeeded "libf.so" "/x86/libf.self" := by
  intro maps
  have same := congrArg (fun run => run.toOption.isSome) (maps [] [] ⟨unmappedSpace, []⟩)
  revert same
  decide +kernel

/-- The index lists aarch64 before x86_64. The program does not start, although
there is a library for it, and ld.so is given the object of the other machine. -/
theorem provider_twoMachines :
    (∃ row ∈ twoMachines.objects.rows, row.Usable "libf.so" (machineName emX86_64)) ∧
    scannedWorld.Consults twoMachines ∧
    runSelfld scannedWorld callerOfF.connect "/main.self" unmappedSpace =
      .error (.die (.cannotOpen "/arm/libf.so")) ∧
    ¬ twoMachines.MapsUsable scannedWorld "libf.so" (machineName emX86_64) ∧
    (∀ other, twoMachines.LimitOne other (fun row => (row.path, row.kind)) (scannedSelect other)) ∧
    scannedAudit.resolve (some scannedSelect) "libf.so" = .ok (some (.file "/arm/libf.so")) ∧
    ¬ twoMachines.HandsMachine scannedAudit scannedSelect "libf.so" (machineName emX86_64) := by
  have offered : ∃ row ∈ twoMachines.objects.rows,
      row.Usable "libf.so" (machineName emX86_64) := by decide
  have given : scannedAudit.resolve (some scannedSelect) "libf.so" =
      .ok (some (.file "/arm/libf.so")) := by
    decide +kernel
  refine ⟨offered, ⟨_, rfl, fun soname => twoMachines.firstIndexed_limitOne soname _⟩,
    error_of_map (by decide +kernel), ?_,
    fun soname => twoMachines.firstIndexed_limitOne soname _, given, ?_⟩
  · intro maps
    obtain ⟨row, stored, usable, path⟩ := maps offered
    have only : ∀ row ∈ twoMachines.objects.rows, row.Usable "libf.so" (machineName emX86_64) →
      row.path = "/x86/libf.self" := by decide
    exact scannedWorld_maps (only row stored usable ▸ path)
  · intro hands
    obtain ⟨row, present, suits, handed, returned, source⟩ := hands (by decide)
    rw [given] at returned
    cases returned
    have only : ∀ row ∈ twoMachines.named "libf.so", row.machine = some (machineName emX86_64) →
      row.path ≠ "/arm/libf.so" := by decide
    exact only row present suits source.symm

end SelfDb

import SelfDb.Loader.Audit
import SelfDb.Loader.SelfExec
import SelfDb.Transition.Runs

/-! A process whose ld.so asks the audit library for its objects, one after the other. The memfds
that it is given stay, while the rest of the process opens and closes files of its own. -/
namespace SelfDb
open Unix Binary

/-- The end of a call: it returns, accesses memory outside every object, or is still in a write. -/
inductive AuditCall (α : Type) where
  | returned (value : α) (fds : Descriptors)
  | fault (kind : Fault)
  | waiting

/-- What one call of `la_objsearch` finds: the statement on `g_db` if `la_version` could open
that, and what `self_materialize_memfd` asks for. -/
structure Search where
  objects : Option (String → Query (String × ProviderKind))
  files : String → Option Connection
  heap : Heap
  memfd : MemfdAnswers
  malloc : Nat → Bool

namespace Search

/-- `self_materialize_memfd`; the last `lseek` rewinds the file. -/
def selfMaterializeMemfd (search : Search) (path : String) (fds : Descriptors) :
    AuditCall (Option Nat) :=
  match search.files path with
  | none => .returned none fds
  | some conn =>
    match selfBuildElf search.heap conn with
    | .null => .returned none fds
    | .fault kind => .fault kind
    | .image img =>
      match search.memfd.create with
      | none => .returned none fds
      | some fd =>
        match writeLoop img search.memfd.writes 0 .empty with
        | .failed _ => .returned none (Function.update fds fd none)
        | .waiting _ => .waiting
        | .done file => .returned (some fd) (Function.update fds fd (some file.rewind))

def strdup (search : Search) (handed : Handed) : Option Handed :=
  if search.malloc (handed.text.utf8ByteSize + 1) then some handed else none

def resolve (search : Search) (soname : String) (fds : Descriptors) : AuditCall (Option Handed) :=
  match search.objects.bind fun select => (select soname).rows.head? with
  | none => .returned none fds
  | some (path, .self) =>
    match search.selfMaterializeMemfd path fds with
    | .returned (some fd) fds => .returned (search.strdup (.memfd path fd)) fds
    | .returned none fds => .returned none fds
    | .fault kind => .fault kind
    | .waiting => .waiting
  | some (path, .elf) => .returned (search.strdup (.file path)) fds
  | some (_, .other) => .returned none fds

/-- `LA_SER_ORIG`. -/
def laSerOrig : Nat := 1

/-- The names that `la_objsearch` looks up. -/
def Intervenes (name : String) (flag : Nat) : Prop :=
  flag = laSerOrig ∧ ¬ "/proc/self/fd/".toList <+: name.toList ∧ '/' ∉ name.toList

instance (name : String) (flag : Nat) : Decidable (Intervenes name flag) :=
  inferInstanceAs (Decidable (_ ∧ _ ∧ _))

/-- `la_objsearch`: with no hit it returns the name that it was asked for. -/
def laObjsearch (search : Search) (name : String) (flag : Nat) (fds : Descriptors) :
    AuditCall (Option Handed) :=
  if Intervenes name flag then search.resolve name fds else .returned none fds

/-- The audit library of one call, with the kernel's answers to this call. -/
def audit (search : Search) : Audit where
  files := search.files
  heap := search.heap
  memfd _ img := search.memfd.create.bind fun fd =>
    match writeLoop img search.memfd.writes 0 .empty with
    | .done _ => some fd
    | _ => none
  malloc := search.malloc

variable {search : Search} {fds after : Descriptors} {soname name path : String} {flag : Nat}

/-- What a call that returns has done to the descriptors, and what it returns. -/
structure Effect (search : Search) (fds : Descriptors) (made : Option (String × Nat))
    (after : Descriptors) : Prop where
  frame : ∀ other, search.memfd.create ≠ some other → after other = fds other
  image : ∀ path fd, made = some (path, fd) → search.memfd.create = some fd ∧
    ∃ conn img, search.files path = some conn ∧ selfBuildElf search.heap conn = .image img ∧
      after fd = some ⟨img, 0⟩

theorem Effect.none (search : Search) (fds : Descriptors) : Effect search fds .none fds :=
  ⟨fun _ _ => rfl, fun _ _ made => by cases made⟩

theorem selfMaterializeMemfd_effect
    (returned : search.selfMaterializeMemfd path fds = .returned fd after) :
    Effect search fds (fd.map fun fd => (path, fd)) after := by
  rw [selfMaterializeMemfd] at returned
  cases opened : search.files path with
  | none =>
    simp only [opened] at returned
    cases returned
    exact .none search fds
  | some conn =>
    cases built : selfBuildElf search.heap conn with
    | null =>
      simp only [opened, built] at returned
      cases returned
      exact .none search fds
    | fault kind =>
      simp only [opened, built] at returned
      cases returned
    | image img =>
      cases created : search.memfd.create with
      | none =>
        simp only [opened, built, created] at returned
        cases returned
        exact .none search fds
      | some fd =>
        cases ran : writeLoop img search.memfd.writes 0 .empty with
        | failed file =>
          simp only [opened, built, created, ran] at returned
          cases returned
          refine ⟨fun other unused => ?_, fun _ _ made => by cases made⟩
          exact Function.update_of_ne (fun same : other = fd => unused (same ▸ created)) _ _
        | waiting file =>
          simp only [opened, built, created, ran] at returned
          cases returned
        | done file =>
          simp only [opened, built, created, ran] at returned
          cases returned
          obtain rfl := writeLoop_whole (.start img) ran
          refine ⟨fun other unused => ?_, fun path' fd' made => ?_⟩
          · exact Function.update_of_ne (fun same : other = fd => unused (same ▸ created)) _ _
          · cases made
            exact ⟨created, conn, img, opened, built, Function.update_self ..⟩

theorem resolve_effect (returned : search.resolve soname fds = .returned hit after) :
    (∀ other, search.memfd.create ≠ some other → after other = fds other) ∧
      ∀ path fd, hit = some (.memfd path fd) → Effect search fds (some (path, fd)) after := by
  rw [resolve] at returned
  split at returned
  · cases returned
    exact ⟨fun _ _ => rfl, fun _ _ made => by cases made⟩
  · next path row =>
    cases made : search.selfMaterializeMemfd path fds with
    | returned fd later =>
      have effect := selfMaterializeMemfd_effect made
      cases fd with
      | none =>
        simp only [made] at returned
        cases returned
        exact ⟨effect.frame, fun _ _ given => by cases given⟩
      | some fd =>
        simp only [made] at returned
        obtain ⟨copied, rfl⟩ := AuditCall.returned.inj returned
        refine ⟨effect.frame, fun path' fd' given => ?_⟩
        rw [given, strdup, Option.ite_none_right_eq_some] at copied
        cases copied.2
        exact effect
    | fault kind =>
      simp only [made] at returned
      cases returned
    | waiting =>
      simp only [made] at returned
      cases returned
  · next path row =>
    obtain ⟨copied, rfl⟩ := AuditCall.returned.inj returned
    refine ⟨fun _ _ => rfl, fun path' fd' given => ?_⟩
    rw [given, strdup, Option.ite_none_right_eq_some] at copied
    cases copied.2
  · cases returned
    exact ⟨fun _ _ => rfl, fun _ _ made => by cases made⟩

theorem laObjsearch_effect (returned : search.laObjsearch name flag fds = .returned hit after) :
    (∀ other, search.memfd.create ≠ some other → after other = fds other) ∧
      ∀ path fd, hit = some (.memfd path fd) → Effect search fds (some (path, fd)) after := by
  rw [laObjsearch] at returned
  split at returned
  · exact resolve_effect returned
  · cases returned
    exact ⟨fun _ _ => rfl, fun _ _ made => by cases made⟩

/-- A call gives a memfd when the row is a SELF file and the kernel does its part. -/
theorem laObjsearch_gives (asked : Intervenes name flag)
    (row : (search.objects.bind fun select => (select name).rows.head?) = some (path, .self))
    (opened : search.files path = some conn) (built : selfBuildElf search.heap conn = .image img)
    (created : search.memfd.create = some fd) (written : Answered img.length search.memfd.writes)
    (copied : search.malloc ((Handed.memfd path fd).text.utf8ByteSize + 1) = true) :
    search.laObjsearch name flag fds =
      .returned (some (.memfd path fd)) (Function.update fds fd (some ⟨img, 0⟩)) := by
  obtain ⟨file, ran⟩ : ∃ file, writeLoop img search.memfd.writes 0 .empty = .done file :=
    writeLoop_done_iff.mpr written
  obtain rfl := writeLoop_whole (.start img) ran
  have made : search.selfMaterializeMemfd path fds =
      .returned (some fd) (Function.update fds fd (some ⟨img, 0⟩)) := by
    simp only [selfMaterializeMemfd, opened, built, created, ran, OpenFile.rewind]
  rw [laObjsearch, if_pos asked]
  simp only [resolve, row, made, strdup, if_pos copied]

/-- A name that was rewritten once is not looked up again, and ld.so opens it as it is. -/
theorem laObjsearch_memfd (search : Search) (path : String) (fd flag : Nat) (fds : Descriptors) :
    search.laObjsearch (Handed.memfd path fd).text flag fds = .returned none fds := by
  refine if_neg fun ⟨_, _, plain⟩ => plain ?_
  rw [Handed.text, String.toList_append]
  exact List.mem_append_left _ (by decide)

/-- The answers are those of the library that the descriptors are left out of. -/
theorem selfMaterializeMemfd_audit
    (returned : search.selfMaterializeMemfd path fds = .returned fd after) (tag : String) :
    search.audit.selfMaterializeMemfd path tag = .ok fd := by
  rw [selfMaterializeMemfd] at returned
  rw [Audit.selfMaterializeMemfd]
  cases opened : search.files path with
  | none =>
    simp only [opened] at returned
    cases returned
    simp only [audit, opened]
  | some conn =>
    cases built : selfBuildElf search.heap conn with
    | null =>
      simp only [opened, built] at returned
      cases returned
      simp only [audit, opened, built]
    | fault kind =>
      simp only [opened, built] at returned
      cases returned
    | image img =>
      cases created : search.memfd.create with
      | none =>
        simp only [opened, built, created] at returned
        cases returned
        simp only [audit, opened, built, created, Option.bind_none]
      | some fd =>
        cases ran : writeLoop img search.memfd.writes 0 .empty with
        | waiting file =>
          simp only [opened, built, created, ran] at returned
          cases returned
        | _ =>
          simp only [opened, built, created, ran] at returned
          cases returned
          simp only [audit, opened, built, created, Option.bind_some, ran]

theorem resolve_audit (returned : search.resolve soname fds = .returned hit after) :
    search.audit.resolve search.objects soname = .ok hit := by
  rw [resolve] at returned
  rw [Audit.resolve]
  split at returned
  · next none =>
    cases returned
    rw [none]
  · next path row =>
    rw [row]
    change (search.audit.selfMaterializeMemfd path soname).map _ = _
    cases made : search.selfMaterializeMemfd path fds with
    | returned fd later =>
      rw [selfMaterializeMemfd_audit made]
      cases fd <;>
      · simp only [made] at returned
        cases returned
        rfl
    | fault kind =>
      simp only [made] at returned
      cases returned
    | waiting =>
      simp only [made] at returned
      cases returned
  · next path row =>
    cases returned
    rw [row]
    rfl
  · next path row =>
    cases returned
    rw [row]
    rfl

end Search

/-- A memfd that ld.so was given, with the database that it was built from. -/
structure Given where
  fd : Nat
  conn : Connection

structure Session where
  fds : Descriptors
  given : List Given

inductive SessionEvent where
  | search (found : Search) (name : String) (flag : Nat)
  | other (fd : Nat) (file : Option OpenFile)

namespace Session

/-- What is given with the answer to a call. -/
def gives (found : Search) : Option Handed → List Given
  | some (.memfd path fd) => ((found.files path).map fun conn => ⟨fd, conn⟩).toList
  | _ => []

def step (session : Session) : SessionEvent → Option Session
  | .search found name flag =>
    match found.laObjsearch name flag session.fds with
    | .returned hit fds => some ⟨fds, session.given ++ gives found hit⟩
    | .fault _ => none
    | .waiting => none
  | .other fd file => some { session with fds := Function.update session.fds fd file }

theorem step_search {session : Session} {found : Search} {name : String} {flag : Nat}
    (returned : found.laObjsearch name flag session.fds = .returned hit after) :
    session.step (.search found name flag) = some ⟨after, session.given ++ gives found hit⟩ := by
  rw [step, returned]

/-- The kernel answers with a descriptor that is free, and nothing else in the process touches
the files that were given. -/
def Allowed (session : Session) : SessionEvent → Prop
  | .search found _ _ => ∀ fd, found.memfd.create = some fd → session.fds fd = none
  | .other fd _ => ∀ g ∈ session.given, g.fd ≠ fd

/-- Every memfd that was given is open, rewound, and holds the image of its database. -/
structure Kept (session : Session) : Prop where
  distinct : (session.given.map Given.fd).Nodup
  images : ∀ g ∈ session.given, ∃ heap img, selfBuildElf heap g.conn = .image img ∧
    session.fds g.fd = some ⟨img, 0⟩

variable {name : String} {flag : Nat} {hit : Option Handed} {after before : Descriptors}

theorem mem_gives {found : Search} {hit : Option Handed} {g : Given} :
    g ∈ gives found hit ↔ ∃ path, hit = some (.memfd path g.fd) ∧
      found.files path = some g.conn := by
  obtain ⟨fd, conn⟩ := g
  constructor
  · intro member
    rcases hit with _ | path | ⟨path, fd'⟩
    · cases member
    · cases member
    · obtain ⟨conn', opened, same⟩ := Option.map_eq_some_iff.mp (Option.mem_toList.mp member)
      cases same
      exact ⟨path, rfl, opened⟩
  · rintro ⟨path, rfl, opened⟩
    exact Option.mem_toList.mpr (Option.map_eq_some_iff.mpr ⟨conn, opened, rfl⟩)

theorem gives_length (found : Search) (hit : Option Handed) : (gives found hit).length ≤ 1 := by
  rcases hit with _ | path | ⟨path, fd⟩
  · exact Nat.zero_le 1
  · exact Nat.zero_le 1
  · exact Option.length_toList_le

namespace Kept

theorem search {session : Session} (kept : session.Kept) {found : Search}
    (free : ∀ fd, found.memfd.create = some fd → session.fds fd = none)
    (returned : found.laObjsearch name flag session.fds = .returned hit after) :
    Kept ⟨after, session.given ++ gives found hit⟩ := by
  obtain ⟨frame, image⟩ := Search.laObjsearch_effect returned
  -- what was given is open, so its descriptor is not the one that the kernel answers with
  have apart : ∀ g ∈ session.given, found.memfd.create ≠ some g.fd := by
    intro g member created
    obtain ⟨_, _, _, present⟩ := kept.images g member
    rw [free g.fd created] at present
    cases present
  have made : ∀ g ∈ gives found hit, found.memfd.create = some g.fd ∧
      ∃ heap img, selfBuildElf heap g.conn = .image img ∧ after g.fd = some ⟨img, 0⟩ := by
    intro g member
    obtain ⟨path, given, opened⟩ := mem_gives.mp member
    obtain ⟨created, conn, img, found', built, present⟩ := (image path g.fd given).image _ _ rfl
    cases opened.symm.trans found'
    exact ⟨created, found.heap, img, built, present⟩
  refine ⟨?_, ?_⟩
  · rw [List.map_append, List.nodup_append]
    refine ⟨kept.distinct, ?_, ?_⟩
    · have one := gives_length found hit
      rcases new : gives found hit with _ | ⟨g, _ | ⟨_, _⟩⟩
      · exact List.nodup_nil
      · exact List.nodup_singleton _
      · rw [new, List.length_cons, List.length_cons] at one
        omega
    · intro fd old fd' new same
      obtain ⟨g, member, rfl⟩ := List.mem_map.mp old
      obtain ⟨g', member', rfl⟩ := List.mem_map.mp new
      exact apart g member (same ▸ (made g' member').1)
  · intro g member
    rcases List.mem_append.mp member with old | new
    · obtain ⟨heap, img, built, present⟩ := kept.images g old
      exact ⟨heap, img, built, (frame g.fd (apart g old)).trans present⟩
    · exact (made g new).2

theorem other {session : Session} (kept : session.Kept) (untouched : ∀ g ∈ session.given, g.fd ≠ fd)
    (file : Option OpenFile) :
    Kept { session with fds := Function.update session.fds fd file } := by
  refine ⟨kept.distinct, fun g member => ?_⟩
  obtain ⟨heap, img, built, present⟩ := kept.images g member
  exact ⟨heap, img, built, (Function.update_of_ne (untouched g member) _ _).trans present⟩

theorem step {session next : Session} (kept : session.Kept) (allowed : session.Allowed event)
    (stepped : session.step event = some next) : next.Kept := by
  cases event with
  | search found name flag =>
    cases returned : found.laObjsearch name flag session.fds with
    | returned hit after =>
      rw [step_search returned] at stepped
      cases stepped
      exact kept.search allowed returned
    | fault kind =>
      rw [Session.step, returned] at stepped
      cases stepped
    | waiting =>
      rw [Session.step, returned] at stepped
      cases stepped
  | other fd file =>
    cases stepped
    exact kept.other allowed file

end Kept

/-- However the calls and the rest of the process follow each other, ld.so finds behind every
name that it was given the program of the file whose rows were looked up. -/
theorem given_program (run : Transition.Run step Allowed ⟨before, []⟩ events session) :
    (session.given.map Given.fd).Nodup ∧ ∀ g ∈ session.given,
      (∃ heap img, selfBuildElf heap g.conn = .image img ∧ session.fds g.fd = some ⟨img, 0⟩ ∧
        ∀ data db lief, Plain data → ehdrSize ≤ (RawEhdr.read data).phoff →
          convert lief data = .ok db → g.conn = db.connect → SameProgram data img) ∧
      ∀ (search : Search) path flag later,
        search.laObjsearch (Handed.memfd path g.fd).text flag later = .returned none later := by
  have kept : session.Kept :=
    run.invariant (P := Kept) Kept.step ⟨List.nodup_nil, List.forall_mem_nil _⟩
  refine ⟨kept.distinct, fun g member => ⟨?_, fun search path flag later =>
    search.laObjsearch_memfd path g.fd flag later⟩⟩
  obtain ⟨heap, img, built, present⟩ := kept.images g member
  refine ⟨heap, img, built, present, fun data db lief plain above converted same => ?_⟩
  rw [same] at built
  exact selfBuildElf_program plain above (convert_sound converted) built

end Session

/-- A library that is found under every name, in the descriptor that is answered. -/
def findingSearch (db : Database) (fd : Nat) : Search where
  objects := some fun _ => .cursor [("/libf.self", .self)] .done
  files path := if path = "/libf.self" then some db.connect else none
  heap := .ample
  memfd := ⟨some fd, [some 100, some 100]⟩
  malloc _ := true

/-- After one library and a file that somebody else opened. -/
def someOpen (img : Bytes) : Descriptors :=
  Function.update (Function.update (fun _ => none) 3 (some ⟨img, 0⟩)) 4 (some .empty)

theorem findingSearch_gives {db : Database} (built : selfBuildElf .ample db.connect = .image img)
    (size : img.length ≤ 200) (name : String) (asked : Search.Intervenes name Search.laSerOrig)
    (fd : Nat) (fds : Descriptors) :
    (findingSearch db fd).laObjsearch name Search.laSerOrig fds =
      .returned (some (.memfd "/libf.self" fd)) (Function.update fds fd (some ⟨img, 0⟩)) :=
  Search.laObjsearch_gives asked rfl rfl built rfl ⟨[100, 100], [], rfl, size⟩ rfl

theorem given_program_findingSearch :
    ∃ db events session, convert (.ok .none) mappedFile = .ok db ∧
      Transition.Run Session.step Session.Allowed ⟨fun _ => none, []⟩ events session ∧
      session.given = [⟨3, db.connect⟩, ⟨5, db.connect⟩] ∧
      ∀ g ∈ session.given, ∃ img, session.fds g.fd = some ⟨img, 0⟩ ∧
        SameProgram mappedFile img := by
  have ran : ∃ db, convert (.ok .none) mappedFile = .ok db ∧
      (match selfBuildElf .ample db.connect with
        | .image img => decide (img.length ≤ 200)
        | _ => false) = true := exists_of_map_decide (by decide +kernel)
  obtain ⟨db, converted, size⟩ := ran
  cases built : selfBuildElf .ample db.connect with
  | image img =>
    rw [built] at size
    have small := of_decide_eq_true size
    have first := findingSearch_gives built small "libf.so" (by decide) 3 fun _ => none
    have second := findingSearch_gives built small "libg.so" (by decide) 5 (someOpen img)
    have run : Transition.Run Session.step Session.Allowed ⟨fun _ => none, []⟩
        [.search (findingSearch db 3) "libf.so" Search.laSerOrig, .other 4 (some .empty),
          .search (findingSearch db 5) "libg.so" Search.laSerOrig]
        ⟨Function.update (someOpen img) 5 (some ⟨img, 0⟩), [⟨3, db.connect⟩, ⟨5, db.connect⟩]⟩ := by
      refine .next (fun _ _ => rfl) (Session.step_search first) (.next ?_ rfl (.next ?_
        (Session.step_search second) (.refl _)))
      · exact List.forall_mem_singleton.mpr fun same : 3 = 4 => by omega
      · rintro _ ⟨⟩
        rfl
    refine ⟨db, _, _, converted, run, rfl, fun g member => ?_⟩
    obtain ⟨_, img, _, present, same⟩ := ((Session.given_program run).2 g member).1
    refine ⟨img, present, same mappedFile db _ mappedFile_plain mappedFile_wellFormed.above
      converted ?_⟩
    rcases List.mem_pair.mp member with rfl | rfl <;> rfl
  | _ =>
    rw [built] at size
    cases size

end SelfDb

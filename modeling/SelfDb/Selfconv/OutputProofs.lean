import SelfDb.Selfconv.Accepts
import SelfDb.Selfconv.Output

/-! Which file a conversion that raises leaves at the output path. -/
namespace SelfDb
open Binary Isolation Attempt

/-- There is an old file, and it cannot be removed. -/
def DatabaseCalls.Keeps (calls : DatabaseCalls) (before : Option Bytes) : Prop :=
  before.isSome = true ∧ Raised calls.remove

structure DatabaseCalls.Prepares (calls : DatabaseCalls) (script : List String) : Prop where
  connect : Returned calls.connect
  pageSize : Returned calls.pageSize
  create : ∀ name ∈ script, Returned (calls.create name)
  applicationId : Returned calls.applicationId
  userVersion : Returned calls.userVersion

/-- Nothing raises after the old file is removed. -/
structure DatabaseCalls.Completes (calls : DatabaseCalls) (script : List String) (fits : Prop)
    (last : Except PyError Unit) : Prop extends calls.Prepares script where
  insert : Returned calls.insert
  fits : fits
  commit : Returned calls.commit
  vacuum : Returned calls.vacuum
  last : Returned last

section
variable (image : Committed ρ → Bytes) (calls : DatabaseCalls) (script : List String)

/-- The file that is left by the first call to raise before there are rows. -/
inductive Unprepared : Option Bytes → Prop where
  | connect (raised : Raised calls.connect) : Unprepared none
  | pageSize (connect : Returned calls.connect) (raised : Raised calls.pageSize) :
      Unprepared (some (image (.scripted [])))
  | create (connect : Returned calls.connect) (pageSize : Returned calls.pageSize)
      (split : script = ran ++ name :: later)
      (created : ∀ other ∈ ran, Returned (calls.create other))
      (raised : Raised (calls.create name)) :
      Unprepared (some (image (.scripted ran)))
  | applicationId (connect : Returned calls.connect) (pageSize : Returned calls.pageSize)
      (created : ∀ name ∈ script, Returned (calls.create name))
      (raised : Raised calls.applicationId) :
      Unprepared (some (image (.scripted script)))
  | userVersion (connect : Returned calls.connect) (pageSize : Returned calls.pageSize)
      (created : ∀ name ∈ script, Returned (calls.create name))
      (applicationId : Returned calls.applicationId) (raised : Raised calls.userVersion) :
      Unprepared (some (image (.stamped script)))

/-- The file that is left by the first call to raise from the first INSERT on. -/
inductive Unwritten (rows : Except PyError α) (stored : α → ρ) (last : Except PyError Unit) :
    Option Bytes → Prop where
  | insert (raised : Raised calls.insert ∨ Raised rows ∨ Raised calls.commit) :
      Unwritten rows stored last (some (image (.identified script)))
  | vacuum (insert : Returned calls.insert) (filled : rows = .ok result)
      (commit : Returned calls.commit) (raised : Raised calls.vacuum) :
      Unwritten rows stored last (some (image (.filled script (stored result) false)))
  | last (insert : Returned calls.insert) (filled : rows = .ok result)
      (commit : Returned calls.commit) (vacuum : Returned calls.vacuum) (raised : Raised last) :
      Unwritten rows stored last (some (image (.filled script (stored result) true)))

/-- The file that is left by the first call to raise after the old file is removed. -/
def LeftBehind (rows : Except PyError α) (stored : α → ρ) (last : Except PyError Unit)
    (file : Option Bytes) : Prop :=
  Unprepared image calls script file ∨ calls.Prepares script ∧
    Unwritten image calls script rows stored last file

theorem raises_removeOld (before file : Option Bytes) :
    Raises (removeOld calls) before file ↔ calls.Keeps before ∧ before = file := by
  rw [removeOld, raises_get_bind, DatabaseCalls.Keeps]
  cases before with
  | none => simp
  | some old => simp

theorem returns_removeOld (before : Option Bytes) (u : Unit) (file : Option Bytes) :
    Returns (removeOld calls) before u file ↔ ¬ calls.Keeps before ∧ none = file := by
  rw [removeOld, returns_get_bind, DatabaseCalls.Keeps]
  cases before with
  | none => simp
  | some old => simp [not_raised_iff]

theorem raises_freshDatabase (before file : Option Bytes) :
    Raises (freshDatabase image calls script) before file ↔
      calls.Keeps before ∧ before = file ∨ ¬ calls.Keeps before ∧
        Unprepared image calls script file := by
  rw [freshDatabase, raises_bind_unit (returns_removeOld calls before), raises_removeOld]
  refine or_congr_right (and_congr_right fun _ => ?_)
  simp only [raises_callLeaving_bind, raises_call_bind,
    raises_each_bind calls.create (fun created => some (image (.scripted created))) [] script rfl,
    raises_callLeaving]
  constructor
  · rintro (⟨raised, rfl⟩ | ⟨connect, ⟨raised, rfl⟩ | ⟨u, pageSize, script⟩⟩)
    · exact .connect raised
    · exact .pageSize connect raised
    rcases script with ⟨ran, name, later, split, before, raised, rfl⟩ | ⟨created,
      ⟨raised, rfl⟩ | ⟨stamped, raised, rfl⟩⟩
    · exact .create connect ⟨u, pageSize⟩ split before raised
    · exact .applicationId connect ⟨u, pageSize⟩ created raised
    · exact .userVersion connect ⟨u, pageSize⟩ created stamped raised
  · intro unprepared
    cases unprepared with
    | connect raised => exact .inl ⟨raised, rfl⟩
    | pageSize connect raised => exact .inr ⟨connect, .inl ⟨raised, rfl⟩⟩
    | create connect pageSize split before raised =>
      obtain ⟨u, pageSize⟩ := pageSize
      exact .inr ⟨connect, .inr ⟨u, pageSize, .inl ⟨_, _, _, split, before, raised, rfl⟩⟩⟩
    | applicationId connect pageSize created raised =>
      obtain ⟨u, pageSize⟩ := pageSize
      exact .inr ⟨connect, .inr ⟨u, pageSize, .inr ⟨created, .inl ⟨raised, rfl⟩⟩⟩⟩
    | userVersion connect pageSize created stamped raised =>
      obtain ⟨u, pageSize⟩ := pageSize
      exact .inr ⟨connect, .inr ⟨u, pageSize, .inr ⟨created, .inr ⟨stamped, raised, rfl⟩⟩⟩⟩

theorem returns_freshDatabase (before : Option Bytes) (u : Unit) (file : Option Bytes) :
    Returns (freshDatabase image calls script) before u file ↔
      ¬ calls.Keeps before ∧ calls.Prepares script ∧ some (image (.identified script)) = file := by
  rw [freshDatabase, returns_bind_unit (returns_removeOld calls before)]
  refine and_congr_right fun _ => ?_
  simp only [returns_callLeaving_bind, returns_call_bind,
    returns_each_bind calls.create (fun created => some (image (.scripted created))) [] script rfl,
    returns_callLeaving]
  constructor
  · rintro ⟨connect, u, pageSize, created, stamped, versioned, same⟩
    exact ⟨⟨connect, ⟨u, pageSize⟩, created, stamped, versioned⟩, same⟩
  · rintro ⟨⟨connect, ⟨u, pageSize⟩, created, stamped, versioned⟩, same⟩
    exact ⟨connect, u, pageSize, created, stamped, versioned, same⟩

variable (rows : Except PyError α) (stored : α → ρ) (last : Except PyError Unit)

theorem raises_writeRows (file : Option Bytes) :
    Raises (writeRows image calls script rows stored last)
      (some (image (.identified script))) file ↔
      Unwritten image calls script rows stored last file := by
  simp only [writeRows, raises_callLeaving_bind, raises_call_bind, not_raises_pure]
  constructor
  · rintro (⟨raised, rfl⟩ | ⟨result, filled,
      ⟨raised, rfl⟩ | ⟨commit, ⟨raised, rfl⟩ | ⟨vacuum, ⟨raised, rfl⟩ | never⟩⟩⟩)
    · refine .insert ?_
      rcases (raised_bind_iff _ _).mp raised with first | ⟨_, _, second⟩
      · exact .inl first
      · exact .inr (.inl second)
    · exact .insert (.inr (.inr raised))
    · obtain ⟨u, insert, filled⟩ := bind_eq_ok_iff.mp filled
      exact .vacuum ⟨u, insert⟩ filled commit raised
    · obtain ⟨u, insert, filled⟩ := bind_eq_ok_iff.mp filled
      exact .last ⟨u, insert⟩ filled commit vacuum raised
    · obtain ⟨_, _, never⟩ := never
      exact never.elim
  · intro left
    cases left with
    | insert raised =>
      cases both : (calls.insert >>= fun _ => rows) with
      | error e => exact .inl ⟨⟨e, rfl⟩, rfl⟩
      | ok result =>
        obtain ⟨u, insert, filled⟩ := bind_eq_ok_iff.mp both
        rcases raised with ⟨e, raised⟩ | ⟨e, raised⟩ | raised
        · cases insert.symm.trans raised
        · cases filled.symm.trans raised
        · exact .inr ⟨result, rfl, .inl ⟨raised, rfl⟩⟩
    | vacuum insert filled commit raised =>
      obtain ⟨u, insert⟩ := insert
      exact .inr ⟨_, bind_eq_ok_iff.mpr ⟨u, insert, filled⟩, .inr ⟨commit, .inl ⟨raised, rfl⟩⟩⟩
    | last insert filled commit vacuum raised =>
      obtain ⟨u, insert⟩ := insert
      exact .inr ⟨_, bind_eq_ok_iff.mpr ⟨u, insert, filled⟩,
        .inr ⟨commit, .inr ⟨vacuum, .inl ⟨raised, rfl⟩⟩⟩⟩

theorem returns_writeRows (before : Option Bytes) (result : α) (file : Option Bytes) :
    Returns (writeRows image calls script rows stored last) before result file ↔
      (Returned calls.insert ∧ rows = .ok result ∧ Returned calls.commit ∧ Returned calls.vacuum ∧
        Returned last) ∧
        some (image (.filled script (stored result) true)) = file := by
  simp only [writeRows, returns_callLeaving_bind, returns_call_bind, returns_pure, bind_eq_ok_iff]
  constructor
  · rintro ⟨_, ⟨u, insert, filled⟩, commit, vacuum, v, last, rfl, same⟩
    exact ⟨⟨⟨u, insert⟩, filled, commit, vacuum, ⟨v, last⟩⟩, same⟩
  · rintro ⟨⟨⟨u, insert⟩, filled, commit, vacuum, ⟨v, last⟩⟩, same⟩
    exact ⟨result, ⟨u, insert, filled⟩, commit, vacuum, v, last, rfl, same⟩

variable (view : α → β)

theorem raises_writeDatabase (before file : Option Bytes) :
    Raises (writeDatabase image calls script rows stored last view) before file ↔
      calls.Keeps before ∧ before = file ∨
      ¬ calls.Keeps before ∧ LeftBehind image calls script rows stored last file := by
  simp only [writeDatabase, raises_bind, raises_freshDatabase, returns_freshDatabase,
    not_raises_pure, and_false, exists_false, or_false, LeftBehind]
  constructor
  · rintro ((kept | ⟨removed, unprepared⟩) | ⟨_, _, ⟨removed, prepared, rfl⟩, raised⟩)
    · exact .inl kept
    · exact .inr ⟨removed, .inl unprepared⟩
    · exact .inr ⟨removed,
        .inr ⟨prepared, (raises_writeRows image calls script rows stored last file).mp raised⟩⟩
  · rintro (kept | ⟨removed, unprepared | ⟨prepared, unwritten⟩⟩)
    · exact .inl (.inl kept)
    · exact .inl (.inr ⟨removed, unprepared⟩)
    · exact .inr ⟨(), _, ⟨removed, prepared, rfl⟩,
        (raises_writeRows image calls script rows stored last file).mpr unwritten⟩

theorem returns_writeDatabase (before : Option Bytes) :
    (∃ b file, Returns (writeDatabase image calls script rows stored last view) before b file) ↔
      ¬ calls.Keeps before ∧ calls.Completes script (Returned rows) last := by
  simp only [writeDatabase, returns_bind, returns_freshDatabase, returns_writeRows, returns_pure]
  constructor
  · rintro ⟨_, _, _, _, ⟨removed, prepared, _⟩, result, _,
      ⟨⟨insert, filled, commit, vacuum, last⟩, _⟩, _⟩
    exact ⟨removed, prepared, insert, ⟨result, filled⟩, commit, vacuum, last⟩
  · rintro ⟨removed, completes⟩
    obtain ⟨result, filled⟩ := completes.fits
    exact ⟨_, _, (), _, ⟨removed, completes.toPrepares, rfl⟩, result, _,
      ⟨⟨completes.insert, filled, completes.commit, completes.vacuum, completes.last⟩, rfl⟩, rfl,
      rfl⟩

/-- A file is kept, completed, or already what is left of the attempt. -/
theorem writeDatabase_allOrNothing_iff (before : Option Bytes) :
    AllOrNothing (writeDatabase image calls script rows stored last view) before ↔
      calls.Keeps before ∨
      calls.Completes script (Returned rows) last ∨
        LeftBehind image calls script rows stored last before := by
  rw [allOrNothing_iff, raises_writeDatabase, returns_writeDatabase]
  by_cases kept : calls.Keeps before <;> simp [kept]

end

/-- A call that raises leaves the file at the output path exactly when it raises before
the old file is gone, or it does not raise, or the file is already what it leaves. -/
theorem conversion_allOrNothing_iff (image : Committed SelfFile → Bytes)
    (closureImage : Committed Closure → Bytes)
    (calls : DatabaseCalls) (source : ElfSource) (withSections : Bool)
    (start counts : Except PyError Unit)
    (host : Host) (roots : List String) (withSegments : Bool) (before : Option Bytes) :
    (AllOrNothing (convertFile image calls source withSections) before ↔
      ∀ data b, source.read = .ok (data, b) →
      calls.Keeps before ∨
      calls.Completes schemaSql (ImageFits data ∧ LiefFits b withSections)
        (calls.close >>= fun _ => source.chmod) ∨
      LeftBehind image calls schemaSql (elf2self (some b) withSections data) id
        (calls.close >>= fun _ => source.chmod)
        before) ∧
    (AllOrNothing (closureFile closureImage calls start counts host roots withSegments) before ↔
      Raised start ∨ calls.Keeps before ∨
      calls.Completes closureSchema (RootsFit host roots withSegments)
        (counts >>= fun _ => calls.close) ∨
      LeftBehind closureImage calls closureSchema (buildClosure host roots withSegments) Prod.fst
        (counts >>= fun _ => calls.close) before) := by
  constructor
  · rw [convertFile, allOrNothing_call_bind, Prod.forall]
    refine forall₃_congr fun data b read => ?_
    have elf : Elf64 data := by
      simp only [ElfSource.read, bind_eq_ok_iff] at read
      obtain ⟨_, _, data', _, ⟨ehdr, phdrs⟩, parsed, _, _, _, _, result⟩ := read
      cases result
      exact ((parseImage_eq_ok_iff data ehdr phdrs).mp parsed).1
    rw [writeDatabase_allOrNothing_iff, propext (elf2self_returned b withSections elf)]
  · rw [closureFile, allOrNothing_call_bind,
      ← propext (buildClosure_returned host roots withSegments)]
    simp only [writeDatabase_allOrNothing_iff]
    cases start with
    | ok u => simp [Raised]
    | error e => simp [Raised]

/-! A symbol that SQLite cannot store, and a root that is not a complete ELF file. -/

/-- The first 100 bytes of a database file: its user version is at 60 and its
application id at 68, both big-endian. -/
def fileHeader (committed : Committed ρ) : Bytes :=
  sqliteMagic ++ List.replicate 44 0 ++ (leBytes 4 committed.userVersion).reverse ++
    List.replicate 4 0 ++ (leBytes 4 committed.applicationId).reverse ++ List.replicate 28 0

/-- No call raises. -/
def DatabaseCalls.quiet : DatabaseCalls :=
  ⟨.ok (), .ok (), .ok (), fun _ => .ok (), .ok (), .ok (), .ok (), .ok (), .ok (), .ok ()⟩

theorem DatabaseCalls.quiet_prepares (script : List String) : DatabaseCalls.quiet.Prepares script :=
  ⟨⟨(), rfl⟩, ⟨(), rfl⟩, fun _ _ => ⟨(), rfl⟩, ⟨(), rfl⟩, ⟨(), rfl⟩⟩

theorem DatabaseCalls.quiet_removes (before : Option Bytes) : ¬ DatabaseCalls.quiet.Keeps before :=
  fun ⟨_, _, raised⟩ => nomatch raised

/-- One absolute symbol, of value `2^63`. -/
def highSymbol : LiefBinary where
  libraries := []
  dynamicEntries := []
  dynamicSymbols := [
    ⟨"high", 2 ^ 63, 0, "TYPE.NOTYPE", "BINDING.GLOBAL", "GLOBAL", some 0xfff1, false, none,
    "VISIBILITY.DEFAULT"⟩]
  symtabSymbols := []
  relocations := []
  sections := []
  notes := []

def highSource : ElfSource := ⟨.ok (), .ok mappedFile, .ok (some highSymbol), .ok ()⟩

/-- A file that starts like an ELF file. -/
def magicOnly : Host where
  files _ := some elfMagic
  pathExists _ := true
  realpath path := path
  ldd _ := .ok []
  lief _ := none

theorem highSource_read : highSource.read = .ok (mappedFile, highSymbol) := by
  obtain ⟨image, parsed⟩ : ∃ image, parseImage mappedFile = .ok image :=
    exists_of_map_decide (P := fun _ => True) (by decide +kernel) |>.imp fun _ both => both.1
  simp only [ElfSource.read, highSource, ok_bind, parsed, orRaise]
  rfl

theorem conversion_replaces :
    (∃ left, Raises (convertFile fileHeader .quiet highSource true) (some [1]) (some left) ∧
      slice left 68 4 = [0x53, 0x45, 0x4C, 0x46]) ∧
    ¬ AllOrNothing (convertFile fileHeader .quiet highSource true) (some [1]) ∧
    ¬ AllOrNothing (closureFile fileHeader .quiet (.ok ()) (.ok ()) magicOnly ["/app"] true)
      (some [1]) := by
  have refused : elf2self (some highSymbol) true mappedFile = .error .overflowError :=
    error_of_map (by decide +kernel)
  have unparsed : buildClosure magicOnly ["/app"] true = .error .indexError :=
    error_of_map (by decide +kernel)
  have converting : Raises (convertFile fileHeader .quiet highSource true) (some [1])
      (some (fileHeader (.identified schemaSql : Committed SelfFile))) := by
    apply (raises_call_bind ..).mpr
    refine .inr ⟨_, highSource_read, ?_⟩
    apply (raises_writeDatabase ..).mpr
    exact .inr ⟨DatabaseCalls.quiet_removes _,
      .inr ⟨DatabaseCalls.quiet_prepares _, .insert (.inr (.inl ⟨_, refused⟩))⟩⟩
  have packing : Raises (closureFile fileHeader .quiet (.ok ()) (.ok ()) magicOnly ["/app"] true)
      (some [1])
      (some (fileHeader (.identified closureSchema : Committed Closure))) := by
    apply (raises_call_bind ..).mpr
    refine .inr ⟨(), rfl, ?_⟩
    apply (raises_writeDatabase ..).mpr
    exact .inr ⟨DatabaseCalls.quiet_removes _,
      .inr ⟨DatabaseCalls.quiet_prepares _, .insert (.inr (.inl ⟨_, unparsed⟩))⟩⟩
  refine ⟨⟨_, converting, by decide +kernel⟩, fun kept => ?_, fun kept => ?_⟩
  · exact absurd (kept _ converting) (by decide +kernel)
  · exact absurd (kept _ packing) (by decide +kernel)

end SelfDb

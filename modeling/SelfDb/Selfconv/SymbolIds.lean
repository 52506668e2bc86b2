import SelfDb.Loader.Strip

/-! The symbol that a relocation refers to. `convert` finds it again by name, among
all rows that it wrote for the dynamic symbols. -/
namespace SelfDb

/-- LIEF gives the relocation the dynamic symbol at an index, or none. -/
def RefersTo (b : LiefBinary) (r : LiefRelocation) : Option Nat → Prop
  | none => r.symbol = none
  | some i => ∃ sym, b.dynamicSymbols[i]? = some sym ∧ r.symbol = some sym.name

/-- The row that `_insert_symbols` writes when it comes to the dynamic symbol at an index. -/
def writtenRow (b : LiefBinary) (i : Nat) : Option SymbolRow := do
  let sym ← b.dynamicSymbols[i]?
  let before ← (insertSymbols .empty (b.dynamicSymbols.take i) .dynsym).toOption
  if sym.name = "" then none else some (symbolRow .dynsym sym before.nextKey)

/-- Every relocation row has the id of the row that was written for its very symbol. -/
def KeepsSymbols (b : LiefBinary) (refs : List (Option Nat))
    (relocations : List RelocationRow) : Prop :=
  relocations.map (·.symbol) = refs.map fun ref => (ref.bind (writtenRow b)).map (·.id)

instance (b : LiefBinary) (refs : List (Option Nat)) (relocations : List RelocationRow) :
    Decidable (KeepsSymbols b refs relocations) :=
  inferInstanceAs (Decidable (_ = _))

/-- No later dynamic symbol has the name of the one at `i`. -/
def LastOfName (b : LiefBinary) (i : Nat) : Prop :=
  ∀ sym ∈ b.dynamicSymbols[i]?, sym.name ≠ "" →
    ∀ other ∈ b.dynamicSymbols.drop (i + 1), other.name ≠ sym.name

/-! The `dict` by name: a later row replaces an earlier one. -/

def addIds (ids : Dict Int) (rows : List SymbolRow) : Dict Int :=
  rows.foldl (fun ids row => ids.insert row.name row.id) ids

theorem lookup_addIds_other {rows : List SymbolRow} (other : ∀ row ∈ rows, row.name ≠ name)
    (ids : Dict Int) :
    (addIds ids rows).lookup name = ids.lookup name := by
  induction rows generalizing ids with
  | nil => rfl
  | cons row rest ih =>
    rw [List.forall_mem_cons] at other
    exact (ih other.2 _).trans (AList.lookup_insert_ne other.1.symm)

theorem lookup_addIds_some {rows : List SymbolRow} (named : ∃ row ∈ rows, row.name = name)
    (ids : Dict Int) :
    ∃ row ∈ rows, (addIds ids rows).lookup name = some row.id := by
  induction rows generalizing ids with
  | nil => simp at named
  | cons row rest ih =>
    by_cases later : ∃ row ∈ rest, row.name = name
    · obtain ⟨found, member, answer⟩ := ih later (ids.insert row.name row.id)
      exact ⟨found, List.mem_cons_of_mem _ member, answer⟩
    · rw [List.exists_mem_cons_iff, or_iff_left later] at named
      subst named
      refine ⟨row, List.mem_cons_self, ?_⟩
      have other : ∀ other ∈ rest, other.name ≠ row.name :=
        fun other member same => later ⟨other, member, same⟩
      exact (lookup_addIds_other other _).trans (AList.lookup_insert _)

/-- The id that is found for the name of a row is that row's, unless a later row has the name. -/
theorem lookup_addIds_iff {later : List SymbolRow} {row : SymbolRow}
    (after : ∀ other ∈ later, row.id < other.id) (earlier : List SymbolRow) (ids : Dict Int) :
    (addIds ids (earlier ++ row :: later)).lookup row.name = some row.id ↔
    ∀ other ∈ later, other.name ≠ row.name := by
  have split : addIds ids (earlier ++ row :: later) =
      addIds ((addIds ids earlier).insert row.name row.id) later := by
    rw [addIds, List.foldl_append]
    rfl
  rw [split]
  constructor
  · intro found other member same
    obtain ⟨last, listed, answer⟩ := lookup_addIds_some ⟨other, member, same⟩
      ((addIds ids earlier).insert row.name row.id)
    have key := Option.some.inj (answer.symm.trans found)
    exact absurd (after last listed) (by omega)
  · intro others
    rw [lookup_addIds_other others, AList.lookup_insert]

/-! What `_insert_symbols` adds to the table. -/

theorem insertSymbol_inv (inserted : insertSymbol source table sym = .ok after) :
    after.rows = table.rows ++
      (if sym.name = "" then [] else [symbolRow source sym table.nextKey]) := by
  rw [insertSymbol] at inserted
  split at inserted
  · cases inserted
    rw [if_pos ‹_›, List.append_nil]
  · split at inserted
    · cases inserted
      rw [if_neg ‹_›]
      rfl
    · cases inserted

/-- Rows of this source, with the names of the symbols that have one. -/
theorem insertSymbols_inv {syms : List LiefSymbol}
    (inserted : insertSymbols table syms source = .ok after) :
    ∃ added, after.rows = table.rows ++ added ∧ (∀ row ∈ added, row.source = source) ∧
      added.map (·.name) = (syms.map (·.name)).filter (· ≠ "") := by
  induction syms generalizing table with
  | nil =>
    cases inserted
    exact ⟨[], (List.append_nil _).symm, by simp, rfl⟩
  | cons sym rest ih =>
    rw [insertSymbols, List.foldlM_cons, bind_eq_ok_iff] at inserted
    obtain ⟨next, first, later⟩ := inserted
    obtain ⟨added, rows, sources, names⟩ := ih later
    rw [rows, insertSymbol_inv first, List.append_assoc]
    refine ⟨_, rfl, ?_, ?_⟩
    · rw [List.forall_mem_append]
      refine ⟨?_, sources⟩
      split <;> simp [symbolRow]
    · rw [List.map_append, names, List.map_cons]
      by_cases unnamed : sym.name = "" <;> simp [unnamed, symbolRow]

/-- The table splits at the row of a named symbol. -/
theorem writtenRow_split (inserted : insertSymbols .empty b.dynamicSymbols .dynsym = .ok table)
    (found : b.dynamicSymbols[i]? = some sym) (named : sym.name ≠ "") :
    ∃ earlier row later, writtenRow b i = some row ∧ row = symbolRow .dynsym sym row.id ∧
      table.rows = earlier ++ row :: later ∧
      later.map (·.name) = ((b.dynamicSymbols.drop (i + 1)).map (·.name)).filter (· ≠ "") := by
  obtain ⟨bound, at_⟩ := List.getElem?_eq_some_iff.mp found
  have split : b.dynamicSymbols.take i ++ sym :: b.dynamicSymbols.drop (i + 1) =
      b.dynamicSymbols := by
    rw [← at_, ← List.drop_eq_getElem_cons bound, List.take_append_drop]
  rw [← split, insertSymbols, List.foldlM_append, bind_eq_ok_iff] at inserted
  obtain ⟨before, front, rest⟩ := inserted
  rw [List.foldlM_cons, bind_eq_ok_iff] at rest
  obtain ⟨next, written, rest⟩ := rest
  obtain ⟨later, rows, _, names⟩ := insertSymbols_inv rest
  have answer : insertSymbols .empty (b.dynamicSymbols.take i) .dynsym = .ok before := front
  refine ⟨before.rows, symbolRow .dynsym sym before.nextKey, later, ?_, rfl, ?_, names⟩
  · rw [writtenRow, found, answer]
    exact if_neg named
  · rw [rows, insertSymbol_inv written, if_neg named, List.append_assoc, List.singleton_append]

/-- The relocations, in the order of LIEF. -/
theorem insertRelocations_inv {relocations : List LiefRelocation}
    (inserted : relocations.foldlM (insertRelocation ids) table = .ok after) :
    after.rows.map (·.symbol) = table.rows.map (·.symbol) ++ relocations.map
      (relocationSymbol ids) := by
  induction relocations generalizing table with
  | nil =>
    cases inserted
    exact (List.append_nil _).symm
  | cons r rest ih =>
    rw [List.foldlM_cons, bind_eq_ok_iff] at inserted
    obtain ⟨next, first, later⟩ := inserted
    rw [insertRelocation] at first
    split at first
    · cases first
      rw [ih later, Table.insert, List.map_append, List.append_assoc]
      rfl
    · cases first

/-- Only rows of dynamic symbols come into the `dict`. -/
theorem symIds_eq {symbols table : SymbolTable}
    (dynamic : insertSymbols .empty syms .dynsym = .ok table)
    (static : insertSymbols table others .symtab = .ok symbols) :
    symIds symbols = addIds ∅ table.rows := by
  obtain ⟨dynRows, rows, dynSources, _⟩ := insertSymbols_inv dynamic
  obtain ⟨more, allRows, sources, _⟩ := insertSymbols_inv static
  have kept : table.rows.filter (·.source = .dynsym) = table.rows := by
    rw [List.filter_eq_self, rows]
    exact fun row member => decide_eq_true (dynSources row member)
  have dropped : more.filter (·.source = .dynsym) = [] := by
    rw [List.filter_eq_nil_iff]
    intro row member
    rw [sources row member]
    decide
  rw [symIds, allRows, List.filter_append, kept, dropped, List.append_nil, addIds]

/-- One relocation keeps its symbol exactly when no later one has the name. -/
theorem relocationSymbol_eq_iff
    (inserted : insertSymbols .empty b.dynamicSymbols .dynsym = .ok table)
    (refers : RefersTo b r ref) :
    relocationSymbol (addIds ∅ table.rows) r = (ref.bind (writtenRow b)).map (·.id) ↔
      ∀ i ∈ ref, LastOfName b i := by
  cases ref with
  | none =>
    rw [RefersTo] at refers
    simp [relocationSymbol, refers]
  | some i =>
    obtain ⟨sym, found, symbol⟩ := refers
    simp only [Option.mem_some, forall_eq', LastOfName, found, Option.bind_some]
    by_cases unnamed : sym.name = ""
    · have unwritten : writtenRow b i = none := by
        rw [writtenRow, found]
        cases (insertSymbols .empty (b.dynamicSymbols.take i) .dynsym).toOption <;> simp [unnamed]
      rw [relocationSymbol, symbol, unwritten, Option.bind_some, if_pos unnamed]
      simp [unnamed]
    · obtain ⟨earlier, row, later, written, columns, rows, names⟩ :=
        writtenRow_split inserted found unnamed
      have name : row.name = sym.name := congrArg SymbolRow.name columns
      have ordered := table.ordered
      rw [rows, List.pairwise_append, List.pairwise_cons] at ordered
      rw [relocationSymbol, symbol, written, Option.bind_some, if_neg unnamed, Option.map_some,
        rows, ← name, lookup_addIds_iff ordered.2.1.1]
      have same : row.name ∈ later.map (·.name) ↔
          row.name ∈ (b.dynamicSymbols.drop (i + 1)).map (·.name) := by
        rw [names, List.mem_filter, decide_eq_true_eq, name, and_iff_left unnamed]
      rw [List.mem_map, List.mem_map] at same
      constructor
      · intro others _ other member named
        obtain ⟨shadow, listed, named⟩ := same.mpr ⟨other, member, named⟩
        exact others shadow listed named
      · intro last other member named
        obtain ⟨shadow, listed, named⟩ := same.mp ⟨other, member, named⟩
        exact last (name ▸ unnamed) shadow listed named

/-- Two lists that agree entry by entry. -/
theorem map_eq_iff_of_forall₂ {R : α → β → Prop} {P : β → Prop} {f : α → γ} {g : β → γ}
    {xs : List α} {ys : List β}
    (related : List.Forall₂ R xs ys) (each : ∀ x y, R x y → (f x = g y ↔ P y)) :
    xs.map f = ys.map g ↔ ∀ y ∈ ys, P y := by
  induction related with
  | nil => simp
  | cons head _ ih =>
    rw [List.map_cons, List.map_cons, List.cons.injEq, each _ _ head, ih, List.forall_mem_cons]

/-- The row that is written for a symbol has its columns, and is in the table in the end. -/
theorem writtenRow_mem (linked : linkTables b = .ok link) (written : writtenRow b i = some row) :
    row ∈ link.symbols.rows ∧ ∃ sym ∈ b.dynamicSymbols[i]?, sym.name ≠ "" ∧
      row = symbolRow .dynsym sym row.id := by
  simp only [linkTables, bind_eq_ok_iff] at linked
  obtain ⟨table, dynamic, symbols, static, _, _, result⟩ := linked
  cases result
  have columns := written
  simp only [writtenRow, Option.bind_eq_bind, Option.bind_eq_some_iff] at columns
  obtain ⟨sym, found, _, _, answer⟩ := columns
  split at answer
  · cases answer
  · rename_i named
    obtain ⟨earlier, row', later, written', columns, rows, _⟩ :=
      writtenRow_split dynamic found named
    cases written.symm.trans written'
    obtain ⟨more, allRows, _⟩ := insertSymbols_inv static
    refine ⟨?_, sym, found, named, columns⟩
    rw [allRows, rows]
    simp

theorem linkTables_keeps_iff (linked : linkTables b = .ok link)
    (refers : List.Forall₂ (RefersTo b) b.relocations refs) :
    KeepsSymbols b refs link.relocations.rows ↔ ∀ ref ∈ refs, ∀ i ∈ ref, LastOfName b i := by
  simp only [linkTables, bind_eq_ok_iff] at linked
  obtain ⟨table, dynamic, symbols, static, relocations, looped, result⟩ := linked
  cases result
  rw [KeepsSymbols, insertRelocations_inv looped, symIds_eq dynamic static]
  exact map_eq_iff_of_forall₂ refers fun r ref => relocationSymbol_eq_iff dynamic

theorem elf2self_link (converted : elf2self (some b) withSections data = .ok file) :
    ∃ link, linkTables b = .ok link ∧ file.db.symbols = link.symbols ∧
      file.db.relocations = link.relocations := by
  simp only [elf2self, bind_eq_ok_iff] at converted
  obtain ⟨db, made, _, _, _, _, _, _, _, _, result⟩ := converted
  cases result
  obtain ⟨link, tables, _, symbols, relocations⟩ := convert_link made
  exact ⟨link, tables, symbols, relocations⟩

/-- The relocations of a converted file keep their symbols exactly when each refers
to the last dynamic symbol of its name. -/
theorem elf2self_keeps_iff (converted : elf2self (some b) withSections data = .ok file)
    (refers : List.Forall₂ (RefersTo b) b.relocations refs) :
    (∀ i row, writtenRow b i = some row →
      row ∈ file.db.symbols.rows ∧ ∃ sym ∈ b.dynamicSymbols[i]?, sym.name ≠ "" ∧
        row = symbolRow .dynsym sym row.id) ∧
    (KeepsSymbols b refs file.db.relocations.rows ↔ ∀ ref ∈ refs, ∀ i ∈ ref, LastOfName b i) := by
  obtain ⟨link, linked, symbols, relocations⟩ := elf2self_link converted
  rw [symbols, relocations]
  exact ⟨fun i row => writtenRow_mem linked, linkTables_keeps_iff linked refers⟩

theorem elf2self_keeps_iff_twoTables :
    ∃ file, elf2self (some twoTables) true mappedFile = .ok file ∧
      (∀ i row, writtenRow twoTables i = some row → row ∈ file.db.symbols.rows ∧
        ∃ sym ∈ twoTables.dynamicSymbols[i]?, sym.name ≠ "" ∧ row = symbolRow .dynsym sym row.id) ∧
      (KeepsSymbols twoTables [some 0] file.db.relocations.rows ↔
        ∀ ref ∈ [some 0], ∀ i ∈ ref, LastOfName twoTables i) := by
  obtain ⟨file, converted, _⟩ := twoTables_converted
  have refers : List.Forall₂ (RefersTo twoTables) twoTables.relocations [some 0] :=
    .cons ⟨_, rfl, rfl⟩ .nil
  exact ⟨file, converted, elf2self_keeps_iff converted refers⟩

/-- A library with two versions of one symbol, and a relocation by the older one. -/
def twoVersions : LiefBinary where
  libraries := []
  dynamicEntries := []
  dynamicSymbols := [
    ⟨"memcpy", 0x100, 8, "TYPE.FUNC", "BINDING.GLOBAL", "GLOBAL", some 1, true, some "GLIBC_2.2.5",
    "VISIBILITY.DEFAULT"⟩, ⟨"memcpy", 0x200, 8, "TYPE.FUNC", "BINDING.GLOBAL", "GLOBAL", some 1,
    true, some "GLIBC_2.14", "VISIBILITY.DEFAULT"⟩]
  symtabSymbols := []
  relocations := [⟨0, "TYPE.X86_64_GLOB_DAT", some "memcpy", 0⟩]
  sections := []
  notes := []

/-- The relocation gets the id of the newer version. -/
theorem elf2self_loses_version :
    List.Forall₂ (RefersTo twoVersions) twoVersions.relocations [some 0] ∧
    ∃ file, elf2self (some twoVersions) true mappedFile = .ok file ∧
      file.db.relocations.rows.map (·.symbol) = [some 2] ∧
        (writtenRow twoVersions 0).map (·.id) = some 1 ∧
      ¬ KeepsSymbols twoVersions [some 0] file.db.relocations.rows :=
  ⟨.cons ⟨_, rfl, rfl⟩ .nil, exists_of_map_decide (by decide +kernel)⟩

end SelfDb

import Mathlib.Algebra.Order.Ring.Int
import Mathlib.Data.List.Basic
import Mathlib.Data.List.Nodup
import Mathlib.Data.Rat.Defs

/-! The part of SQLite the programs rely on: stored values with their integer
conversion, tables keyed by an INTEGER PRIMARY KEY, and the outcome of running
one statement. -/
namespace SelfDb

/-- A stored value. A REAL is the number it stands for, an infinity `2 ^ 1024` or its negative. -/
inductive Value where
  | null
  | integer (value : Int)
  | real (value : Rat)
  | text (value : String)
  | blob (bytes : List UInt8)
  deriving DecidableEq

/-- The integers SQLite can store. -/
def Storable (value : Int) : Prop := -2 ^ 63 ≤ value ∧ value < 2 ^ 63

instance (value : Int) : Decidable (Storable value) := inferInstanceAs (Decidable (_ ∧ _))

def Value.Storable : Value → Prop
  | integer value => SelfDb.Storable value
  | _ => True

instance : (value : Value) → Decidable value.Storable
  | .integer value => inferInstanceAs (Decidable (SelfDb.Storable value))
  | .null => .isTrue trivial
  | .real _ => .isTrue trivial
  | .text _ => .isTrue trivial
  | .blob _ => .isTrue trivial

/-- The first 16 bytes of a database file. -/
def sqliteMagic : List UInt8 :=
  [83, 81, 76, 105, 116, 101, 32, 102, 111, 114, 109, 97, 116, 32, 51, 0]

def leadingDigits : Nat → List Char → Nat
  | value, c :: rest =>
    if c.isDigit then leadingDigits (10 * value + (c.toNat - 48)) rest else value
  | value, [] => value

/-- `sqlite3Isspace`: the blank, and the characters from the tab to the carriage return. -/
def isSpace (c : Char) : Bool := c = ' ' ∨ 9 ≤ c.toNat ∧ c.toNat ≤ 13

/-- `sqlite3_column_int64` on TEXT: the longest integer prefix, saturated. -/
def textToInt64 (text : List Char) : Int :=
  match text.dropWhile isSpace with
  | '-' :: digits => max (-2 ^ 63) (-(leadingDigits 0 digits : Int))
  | '+' :: digits => min (2 ^ 63 - 1) (leadingDigits 0 digits : Int)
  | digits => min (2 ^ 63 - 1) (leadingDigits 0 digits : Int)

/-- `sqlite3_column_int64` on REAL: truncated toward zero, saturated. -/
def realToInt64 (value : Rat) : Int :=
  max (-2 ^ 63) (min (2 ^ 63 - 1) (value.num.tdiv value.den))

/-- `sqlite3_column_int64`; a BLOB is read as a TEXT of its bytes. -/
def Value.columnInt64 : Value → Int
  | null => 0
  | integer value => value
  | real value => realToInt64 value
  | text value => textToInt64 value.toList
  | blob bytes => textToInt64 (bytes.map fun b => .ofNat b.toNat)

/-- Rows of a rowid table. The key is the INTEGER PRIMARY KEY, so the rows are
stored, scanned and ordered by it. -/
structure Table (α : Type) (key : α → Int) where
  rows : List α
  ordered : rows.Pairwise fun a b => key a < key b

namespace Table

def empty {key : α → Int} : Table α key := ⟨[], .nil⟩

/-- Inserting rows with the keys 0, 1, 2, ... in this order. -/
def enumerated {key : α → Int} (rows : List α)
    (keys : ∀ (i : Nat) row, rows[i]? = some row → key row = i) :
    Table α key where
  rows := rows
  ordered := by
    rw [List.pairwise_iff_getElem]
    intro i j hi hj before
    rw [keys i _ (List.getElem?_eq_getElem hi), keys j _ (List.getElem?_eq_getElem hj)]
    exact_mod_cast before

/-- Rows with the same key are the same row. -/
theorem eq_of_key {key : α → Int} (table : Table α key) (first : a ∈ table.rows)
    (second : b ∈ table.rows) (same : key a = key b) : a = b := by
  have distinct : (table.rows.map key).Nodup :=
    List.pairwise_map.mpr (table.ordered.imp fun before => before.ne)
  exact List.inj_on_of_nodup_map distinct first second same

/-- The key that SQLite gives to a new row: one more than the largest. -/
def nextKey {key : α → Int} (table : Table α key) : Int := (table.rows.getLast?.map key).getD 0 + 1

theorem lt_nextKey {key : α → Int} (table : Table α key) :
    ∀ row ∈ table.rows, key row < table.nextKey := by
  intro row member
  rw [nextKey]
  cases final : table.rows.getLast? with
  | none => simp [List.getLast?_eq_none_iff.mp final] at member
  | some last =>
    obtain ⟨front, split⟩ := List.getLast?_eq_some_iff.mp final
    have ordered := table.ordered
    rw [split, List.pairwise_append] at ordered
    rw [split, List.mem_append, List.mem_singleton] at member
    rcases member with earlier | rfl
    · exact (ordered.2.2 row earlier last List.mem_cons_self).trans (Int.lt_succ _)
    · exact Int.lt_succ _

/-- `INSERT` without a key. -/
def insert {key : α → Int} (table : Table α key) (row : Int → α) (keyed : ∀ id, key (row id) = id) :
    Table α key where
  rows := table.rows ++ [row table.nextKey]
  ordered := by
    refine List.pairwise_append.mpr ⟨table.ordered, List.pairwise_singleton _ _,
      fun other member last same => ?_⟩
    rw [List.mem_singleton.mp same, keyed]
    exact table.lt_nextKey other member

/-- `DELETE` of the rows that are not kept. -/
def keep {key : α → Int} (table : Table α key) (keeps : α → Bool) : Table α key where
  rows := table.rows.filter keeps
  ordered := table.ordered.filter keeps

/-- `UPDATE` of columns other than the key. -/
def map {key : α → Int} (table : Table α key) (change : α → α)
    (keyed : ∀ row, key (change row) = key row) :
    Table α key where
  rows := table.rows.map change
  ordered := by
    rw [List.pairwise_map]
    simpa only [keyed] using table.ordered

end Table

/-- How stepping a statement ends: `SQLITE_DONE`, or any error code. -/
inductive Ending where
  | done
  | error
  deriving DecidableEq

/-- The outcome of a whole statement. A failed prepare leaves a NULL statement,
and stepping that yields no row. -/
inductive Query (α : Type) where
  | prepareError
  | cursor (rows : List α) (ending : Ending)

def Query.rows : Query α → List α
  | prepareError => []
  | cursor rows _ => rows

end SelfDb

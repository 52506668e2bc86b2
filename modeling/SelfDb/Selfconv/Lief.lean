import Mathlib.Data.List.AList
import Mathlib.Data.List.Infix
import SelfDb.Selfconv.Python

/-! What the converters read of a `lief.ELF.Binary`. LIEF is a third-party
parser; a value of one of its enumerations is given by its `str`. -/
namespace SelfDb

structure LiefDynamicEntry where
  tag : String
  /-- The attribute `name`, if the entry has one. -/
  name : Option String
  /-- The attribute `runpath` or `rpath`. -/
  path : Option String
  array : Option (List Int)
  value : Int

structure LiefSymbol where
  name : String
  value : Int
  size : Int
  type : String
  binding : String
  /-- `binding.name` -/
  bindingName : String
  /-- `int(shndx)`, if it can be converted. -/
  shndx : Option Int
  hasVersion : Bool
  /-- `symbol_version.symbol_version_auxiliary.name`, if there is one and it can be read. -/
  versionAuxiliary : Option String
  visibility : String

structure LiefRelocation where
  address : Int
  type : String
  /-- `symbol.name`, if `has_symbol`. -/
  symbol : Option String
  addend : Int

structure LiefSection where
  name : String
  type : String
  /-- `int(type)`, if it can be converted. -/
  typeNumber : Option Int
  flags : Int
  virtualAddress : Int
  offset : Int
  size : Int
  entrySize : Int
  link : Int
  information : Int
  alignment : Int
  content : Bytes

structure LiefNote where
  type : String
  name : String
  description : Bytes

structure LiefBinary where
  libraries : List String
  dynamicEntries : List LiefDynamicEntry
  dynamicSymbols : List LiefSymbol
  symtabSymbols : List LiefSymbol
  relocations : List LiefRelocation
  sections : List LiefSection
  notes : List LiefNote

namespace Py

/-- `text.rsplit(".", 1)[-1]`. -/
def lastComponent (text : String) : String :=
  .ofList (text.toList.reverse.takeWhile (· ≠ '.')).reverse

/-- `text.lower()`, for ASCII. -/
def lower (text : String) : String := .ofList (text.toList.map Char.toLower)

def upper (text : String) : String := .ofList (text.toList.map Char.toUpper)

/-- `part in text`. -/
def isIn (part text : String) : Bool := part.toList <:+: text.toList

def removeprefix (text start : String) : String :=
  if start.toList.isPrefixOf text.toList then .ofList (text.toList.drop start.toList.length)
    else text

/-- `text.split(sep, 1)`: the parts before and after the first separator. -/
def splitOnce (sep : List Char) : List Char → Option (List Char × List Char)
  | [] => none
  | c :: rest =>
    if sep.isPrefixOf (c :: rest) then some ([], (c :: rest).drop sep.length)
    else (splitOnce sep rest).map fun parts => (c :: parts.1, parts.2)

/-- `c.isspace()`. -/
def isSpace (c : Char) : Bool :=
  let n := c.toNat
  (9 ≤ n && n ≤ 13) || (28 ≤ n && n ≤ 32) || (0x2000 ≤ n && n ≤ 0x200A) ||
    [0x85, 0xA0, 0x1680, 0x2028, 0x2029, 0x202F, 0x205F, 0x3000].contains n

def strip (text : List Char) : List Char :=
  ((text.dropWhile isSpace).reverse.dropWhile isSpace).reverse

def hexDigit (n : Nat) : Char := Char.ofNat (if n < 10 then 48 + n else 87 + n)

/-- `data.hex()`. -/
def hex (data : Bytes) : String :=
  .ofList (data.flatMap fun b => [hexDigit (b.toNat / 16), hexDigit (b.toNat % 16)])

end Py

/-- A `dict` from strings. -/
abbrev Dict (β : Type) := AList fun _ : String => β

/-- `_enum_name`. -/
def enumName (value : String) : String := Py.lower (Py.lastComponent value)

/-- `_symbol_version`. -/
def symbolVersion (sym : LiefSymbol) : Option String :=
  if sym.hasVersion then sym.versionAuxiliary else none

/-- `1 if shndx not in (0, None) else 0`. -/
def symbolDefined (sym : LiefSymbol) : Int := if sym.shndx.getD 0 ≠ 0 then 1 else 0

/-- `1 if (defined and sym.binding.name != "LOCAL") else 0`. -/
def symbolExported (sym : LiefSymbol) : Int :=
  if symbolDefined sym ≠ 0 ∧ sym.bindingName ≠ "LOCAL" then 1 else 0

end SelfDb

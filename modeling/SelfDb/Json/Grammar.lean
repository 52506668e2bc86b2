import SelfDb.Scanning.CString

/-! JSON texts as bytes, and the values that they denote. -/
namespace Json
open CString

abbrev Text := List UInt8

/-- A number is kept as it is written; a string is its UTF-8. -/
inductive Value where
  | null
  | bool (b : Bool)
  | number (text : Text)
  | string (bytes : Text)
  | array (items : List Value)
  | object (members : List (Text × Value))

def isBlank (b : UInt8) : Bool := b = 32 || b = 9 || b = 10 || b = 13

/-! Numbers. -/

structure Digits (text : Text) : Prop where
  nonempty : text ≠ []
  digits : ∀ b ∈ text, isdigit b = true

/-- No zero leads other digits. -/
structure IsInt (text : Text) : Prop extends Digits text where
  lead : text.head? = some '0'.toUInt8 → text = literal "0"

structure IsNumber (text : Text) : Prop where
  split : ∃ sign int frac exp, text = sign ++ int ++ frac ++ exp ∧
    (sign = [] ∨ sign = literal "-") ∧ IsInt int ∧
    (frac = [] ∨ ∃ digits, frac = '.'.toUInt8 :: digits ∧ Digits digits) ∧
    (exp = [] ∨ ∃ e ∈ ["e", "E"], ∃ s ∈ ["", "+", "-"], ∃ digits, exp = literal e ++ literal s ++
      digits ∧ Digits digits)

/-! Strings. -/

/-- A character that stands for itself. -/
def Unescaped (c : Char) : Prop := 32 ≤ c.toNat ∧ c ≠ '"' ∧ c ≠ '\\'

instance (c : Char) : Decidable (Unescaped c) := inferInstanceAs (Decidable (_ ∧ _))

/-- The character that `\` and another one stand for. -/
def escaped (b : UInt8) : Option UInt8 :=
  if b = '"'.toUInt8 ∨ b = '\\'.toUInt8 ∨ b = '/'.toUInt8 then some b
  else if b = 'b'.toUInt8 then some 8
  else if b = 'f'.toUInt8 then some 12
  else if b = 'n'.toUInt8 then some 10
  else if b = 'r'.toUInt8 then some 13
  else if b = 't'.toUInt8 then some 9
  else none

def hexDigit (b : UInt8) : Option Nat :=
  if isdigit b then some (b.toNat - 48)
  else if 65 ≤ tolower b - 32 ∧ tolower b - 32 ≤ 70 then some (tolower b - 32 - 55).toNat
  else none

/-- `\uXXXX` -/
structure CodeUnit (text : Text) (n : Nat) : Prop where
  split : ∃ a b c d ah bh ch dh, text = ['\\'.toUInt8, 'u'.toUInt8, a, b, c, d] ∧
    hexDigit a = some ah ∧ hexDigit b = some bh ∧ hexDigit c = some ch ∧ hexDigit d = some dh ∧
    n = ((ah * 16 + bh) * 16 + ch) * 16 + dh

/-- What is between the quotes, and the string. -/
inductive StringBody : Text → Text → Prop where
  | nil : StringBody [] []
  | char (c : Char) : Unescaped c → StringBody text bytes →
      StringBody (String.utf8EncodeChar c ++ text) (String.utf8EncodeChar c ++ bytes)
  | escape (e b : UInt8) : escaped e = some b → StringBody text bytes →
      StringBody ('\\'.toUInt8 :: e :: text) (b :: bytes)
  | unit (u : Text) (c : Char) : CodeUnit u c.toNat → StringBody text bytes →
      StringBody (u ++ text) (String.utf8EncodeChar c ++ bytes)
  /-- Surrogates stand in pairs. -/
  | pair (high low : Text) (h l : Nat) (c : Char) : CodeUnit high (0xd800 + h) → h < 0x400 →
      CodeUnit low (0xdc00 + l) → l < 0x400 → c.toNat = 0x10000 + h * 0x400 + l →
        StringBody text bytes →
      StringBody (high ++ low ++ text) (String.utf8EncodeChar c ++ bytes)

def quoted (text : Text) : Text := '"'.toUInt8 :: text ++ ['"'.toUInt8]

/-! Values. -/

def commas : List Text → Text
  | [] => []
  | first :: rest => first ++ rest.flatMap (','.toUInt8 :: ·)

/-- A member of an object: its key and its value, as written and as meant. -/
structure Member where
  before : Text
  keyText : Text
  after : Text
  key : Text
  valueText : Text
  value : Value

def Member.text (m : Member) : Text := m.before ++ quoted m.keyText ++ m.after ++ literal ":" ++
    m.valueText

structure Member.Keyed (m : Member) : Prop where
  blanks : ∀ b ∈ m.before ++ m.after, isBlank b = true
  key : StringBody m.keyText m.key

inductive Denotes : Text → Value → Prop where
  | nullText : Denotes (literal "null") .null
  | trueText : Denotes (literal "true") (.bool true)
  | falseText : Denotes (literal "false") (.bool false)
  | number : IsNumber text → Denotes text (.number text)
  | string : StringBody text bytes → Denotes (quoted text) (.string bytes)
  | array (blanks : Text) (items : List (Text × Value)) : (∀ b ∈ blanks, isBlank b = true) →
      (∀ item ∈ items, Denotes item.1 item.2) →
      Denotes (literal "[" ++ blanks ++ commas (items.map Prod.fst) ++ literal "]")
        (.array (items.map Prod.snd))
  | object (blanks : Text) (members : List Member) : (∀ b ∈ blanks, isBlank b = true) →
      (∀ m ∈ members, m.Keyed) → (∀ m ∈ members, Denotes m.valueText m.value) →
      Denotes (literal "\x7b" ++ blanks ++ commas (members.map Member.text) ++ literal "\x7d")
        (.object (members.map fun m => (m.key, m.value)))
  | blankBefore (b : UInt8) : isBlank b = true → Denotes text value → Denotes (b :: text) value
  | blankAfter (b : UInt8) : isBlank b = true → Denotes text value → Denotes (text ++ [b]) value

def WellFormed (text : Text) : Prop := ∃ value, Denotes text value

/-! The shortest text of a value. -/

/-- UTF-8 text whose characters stand for themselves. -/
def PlainString (bytes : Text) : Prop :=
  ∃ chars : List Char, (∀ c ∈ chars, Unescaped c) ∧ bytes = chars.flatMap String.utf8EncodeChar

def Value.canonical : Value → Text
  | .null => literal "null"
  | .bool b => if b then literal "true" else literal "false"
  | .number text => text
  | .string bytes => quoted bytes
  | .array items => literal "[" ++ commas (items.map canonical) ++ literal "]"
  | .object members =>
    literal "\x7b" ++ commas (members.map fun m => quoted m.1 ++ literal ":" ++ m.2.canonical) ++
      literal "\x7d"
decreasing_by
  all_goals
    have inside := List.sizeOf_lt_of_mem ‹_ ∈ _›
    simp only [Value.array.sizeOf_spec, Value.object.sizeOf_spec]
  · omega
  · have value : sizeOf m.2 < sizeOf m := by
      obtain ⟨key, value⟩ := m
      change sizeOf value < sizeOf (key, value)
      rw [Prod.mk.sizeOf_spec]
      omega
    omega

/-- The strings of the value are plain and its numbers are numbers. -/
inductive Plain : Value → Prop where
  | null : Plain .null
  | bool (b : Bool) : Plain (.bool b)
  | number : IsNumber text → Plain (.number text)
  | string : PlainString bytes → Plain (.string bytes)
  | array (items : List Value) : (∀ item ∈ items, Plain item) → Plain (.array items)
  | object (members : List (Text × Value)) : (∀ m ∈ members, PlainString m.1) →
    (∀ m ∈ members, Plain m.2) →
      Plain (.object members)

/-! ASCII characters that stand for themselves. -/

def isPrintable (b : UInt8) : Bool := 32 ≤ b && b < 128 && b ≠ '"'.toUInt8 && b ≠ '\\'.toUInt8

theorem char_of_printable (printable : isPrintable b = true) :
    Unescaped (Char.ofUInt8 b) ∧ String.utf8EncodeChar (Char.ofUInt8 b) = [b] := by
  have all : ∀ n < 128, isPrintable (UInt8.ofNat n) = true →
      Unescaped (Char.ofUInt8 (UInt8.ofNat n)) ∧
      String.utf8EncodeChar (Char.ofUInt8 (UInt8.ofNat n)) = [UInt8.ofNat n] := by decide +kernel
  have small : b.toNat < 128 := by
    simp only [isPrintable, Bool.and_eq_true, decide_eq_true_eq, UInt8.lt_iff_toNat_lt] at printable
    exact printable.1.1.2
  have this_ := all b.toNat small
  rw [UInt8.ofNat_toNat] at this_
  exact this_ printable

theorem plainString_printable (all : bytes.all isPrintable = true) : PlainString bytes := by
  have printable := List.all_eq_true.mp all
  refine ⟨bytes.map Char.ofUInt8, List.forall_mem_map.mpr fun b member =>
    (char_of_printable (printable b member)).1, ?_⟩
  rw [List.flatMap_map, List.flatMap_congr fun b member =>
    (char_of_printable (printable b member)).2]
  exact (List.flatMap_singleton' bytes).symm

/-- An ASCII byte in UTF-8 is a character of its own. -/
theorem mem_encode_ascii {b : UInt8} {c : Char} (small : b.toNat < 128)
    (member : b ∈ String.utf8EncodeChar c) :
    c.toNat = b.toNat := by
  have other (n : Nat) (high : 128 ≤ n) (byte : n < 256) : b ≠ UInt8.ofNat n := by
    rintro rfl
    rw [UInt8.toNat_ofNat'] at small
    omega
  rw [String.utf8EncodeChar] at member
  split at member
  · rw [List.mem_singleton] at member
    rw [member, UInt8.toNat_ofNat']
    change c.val.toNat = c.val.toNat % 256
    omega
  · -- All bytes of a longer encoding have their first bit set.
    split at member
    · simp only [List.mem_cons, List.not_mem_nil, or_false] at member
      rcases member with same | same <;> exact absurd same (other _ (by omega) (by omega))
    · split at member
      · simp only [List.mem_cons, List.not_mem_nil, or_false] at member
        rcases member with same | same | same <;> exact absurd same (other _ (by omega) (by omega))
      · simp only [List.mem_cons, List.not_mem_nil, or_false] at member
        rcases member with same | same | same | same <;> exact absurd same
          (other _ (by omega) (by omega))

theorem plainString_no_quote (plain : PlainString bytes) : '"'.toUInt8 ∉ bytes := by
  obtain ⟨chars, all, rfl⟩ := plain
  intro member
  obtain ⟨c, inside, encoded⟩ := List.mem_flatMap.mp member
  exact (all c inside).2.1 (Char.toNat_inj.mp (mem_encode_ascii (by decide) encoded))

/-! Numbers as they are printed. -/

theorem isInt_digitsOf (n : Nat) : IsInt (digitsOf n) := by
  refine ⟨⟨digitsOf_nonempty n, digitsOf_isdigit n⟩, fun zero => ?_⟩
  rcases Nat.eq_zero_or_pos n with rfl | positive
  · decide +kernel
  · exact absurd zero (digitsOf_head positive)

theorem isNumber_signedDigitsOf (n : Int) : IsNumber (signedDigitsOf n) := by
  rw [signedDigitsOf]
  split
  · exact ⟨literal "-", digitsOf n.natAbs, [], [], by simp [literal], .inr rfl,
      isInt_digitsOf _, .inl rfl, .inl rfl⟩
  · exact ⟨[], digitsOf n.natAbs, [], [], by simp, .inl rfl, isInt_digitsOf _, .inl rfl, .inl rfl⟩

theorem isNumber_digitsOf (n : Nat) : IsNumber (digitsOf n) := isNumber_signedDigitsOf n

/-! A text is at least as long as the shortest one, and that one is the only one of its length. -/

theorem CodeUnit.length (u : CodeUnit text n) : text.length = 6 := by
  obtain ⟨a, b, c, d, ah, bh, ch, dh, rfl, -⟩ := u.split
  rfl

theorem encode_length (c : Char) : (String.utf8EncodeChar c).length ≤ 4 := by
  rw [String.length_utf8EncodeChar]
  exact c.utf8Size_le_four

theorem stringBody_tight (body : StringBody text bytes) :
    bytes.length ≤ text.length ∧
      (text.length ≤ bytes.length → text = bytes ∧ PlainString bytes) := by
  induction body with
  | nil => exact ⟨Nat.le_refl _, fun _ => ⟨rfl, [], by simp, rfl⟩⟩
  | char c unescaped rest ih =>
    simp only [List.length_append]
    refine ⟨by omega, fun short => ?_⟩
    obtain ⟨rfl, chars, all, rfl⟩ := ih.2 (by omega)
    exact ⟨rfl, c :: chars, List.forall_mem_cons.mpr ⟨unescaped, all⟩, rfl⟩
  | escape e b known rest ih =>
    simp only [List.length_cons]
    exact ⟨by omega, fun short => by omega⟩
  | unit u c code rest ih =>
    have bound := encode_length c
    have six := code.length
    simp only [List.length_append]
    exact ⟨by omega, fun short => by omega⟩
  | pair high low h l c first hsmall second lsmall same rest ih =>
    have bound := encode_length c
    have six := first.length
    have more := second.length
    simp only [List.length_append]
    exact ⟨by omega, fun short => by omega⟩

theorem plainString_body (plain : PlainString bytes) : StringBody bytes bytes := by
  obtain ⟨chars, all, rfl⟩ := plain
  induction chars with
  | nil => exact .nil
  | cons c chars ih =>
    rw [List.forall_mem_cons] at all
    exact .char c all.1 (ih all.2)

theorem flatMap_tight {f g : α → Text} (items : List α)
    (shorter : ∀ a ∈ items, (g a).length ≤ (f a).length) :
    (items.flatMap g).length ≤ (items.flatMap f).length ∧
      ((items.flatMap f).length ≤ (items.flatMap g).length →
        ∀ a ∈ items, (f a).length ≤ (g a).length) := by
  induction items with
  | nil => simp
  | cons a rest ih =>
    rw [List.forall_mem_cons] at shorter
    obtain ⟨less, tight⟩ := ih shorter.2
    simp only [List.flatMap_cons, List.length_append, List.forall_mem_cons]
    exact ⟨by omega, fun short => ⟨by omega, tight (by omega)⟩⟩

/-- Equal concatenations of parts of equal lengths have equal parts. -/
theorem flatMap_parts {f g : α → Text} (items : List α)
    (lengths : ∀ a ∈ items, (f a).length = (g a).length)
    (same : items.flatMap f = items.flatMap g) : ∀ a ∈ items, f a = g a := by
  induction items with
  | nil => simp
  | cons a rest ih =>
    rw [List.forall_mem_cons] at lengths ⊢
    obtain ⟨first, later⟩ := List.append_inj same lengths.1
    exact ⟨first, ih lengths.2 later⟩

theorem commas_append (nonempty : first ≠ []) (second : List Text) :
    commas (first ++ second) = commas first ++ second.flatMap (','.toUInt8 :: ·) := by
  cases first with
  | nil => exact absurd rfl nonempty
  | cons a rest => simp only [List.cons_append, commas, List.flatMap_append, List.append_assoc]

/-- The commas as they are written by a loop that counts its turns. -/
theorem commas_zipIdx (items : List α) (f : α × Nat → Text) :
    commas (items.zipIdx.map f) = items.zipIdx.flatMap fun p =>
      (if p.2 = 0 then [] else literal ",") ++ f p := by
  cases items with
  | nil => rfl
  | cons first rest =>
    rw [List.zipIdx_cons, List.map_cons, commas, List.flatMap_cons, List.flatMap_map]
    congr 1
    refine List.flatMap_congr fun p member => ?_
    have later : 0 < p.2 := List.le_snd_of_mem_zipIdx member
    rw [if_neg (by omega)]
    rfl

theorem commas_length (parts : List Text) :
    (commas parts).length = (parts.flatMap (','.toUInt8 :: ·)).length - 1 := by
  cases parts with
  | nil => rfl
  | cons first rest => simp [commas]

/-- Leaving out an item makes the text shorter. -/
theorem commas_filter {f : α → Text} (items : List α) (keep : α → Bool) (nonempty : ∀ a, f a ≠ []) :
    (commas ((items.filter keep).map f)).length ≤ (commas (items.map f)).length ∧
      ((commas (items.map f)).length ≤ (commas ((items.filter keep).map f)).length →
        ∀ a ∈ items, keep a = true) := by
  have kept : ((items.filter keep).map f).flatMap (','.toUInt8 :: ·) =
      items.flatMap fun a => if keep a then ','.toUInt8 :: f a else [] := by
    rw [List.flatMap_map]
    induction items with
    | nil => rfl
    | cons a rest ih =>
      rw [List.filter_cons, List.flatMap_cons]
      split
      · rw [List.flatMap_cons, ih]
      · exact ih
  have shorter (a : α) (member : a ∈ items) :
      (if keep a then ','.toUInt8 :: f a else []).length ≤ (','.toUInt8 :: f a).length := by
    split
    · exact Nat.le_refl _
    · exact Nat.zero_le _
  obtain ⟨less, tight⟩ := flatMap_tight items shorter
  rw [commas_length, commas_length, kept, List.flatMap_map]
  refine ⟨by omega, fun short a member => ?_⟩
  -- One item has a comma and a character.
  have two : 2 ≤ (items.flatMap fun a => ','.toUInt8 :: f a).length := by
    obtain ⟨front, back, rfl⟩ := List.append_of_mem member
    have one := List.length_pos_of_ne_nil (nonempty a)
    simp only [List.flatMap_append, List.flatMap_cons, List.length_append, List.length_cons]
    omega
  have present := tight (by omega) a member
  by_contra absent
  rw [if_neg absent] at present
  simp at present

theorem commas_tight {f g : α → Text} (items : List α)
    (shorter : ∀ a ∈ items, (g a).length ≤ (f a).length) :
    (commas (items.map g)).length ≤ (commas (items.map f)).length ∧
      ((commas (items.map f)).length ≤ (commas (items.map g)).length →
        ∀ a ∈ items, (f a).length ≤ (g a).length) := by
  cases items with
  | nil => simp
  | cons first rest =>
    rw [List.forall_mem_cons] at shorter
    have behind (a : α) (member : a ∈ rest) :
        (','.toUInt8 :: g a).length ≤ (','.toUInt8 :: f a).length :=
      Nat.succ_le_succ (shorter.2 a member)
    obtain ⟨less, tight⟩ := flatMap_tight rest behind
    simp only [List.map_cons, commas, List.flatMap_map, List.length_append, List.forall_mem_cons]
    exact ⟨by omega, fun short => ⟨by omega, fun a member =>
      Nat.le_of_succ_le_succ (tight (by omega) a member)⟩⟩

theorem Value.canonical_array (items : List (Text × Value)) :
    (Value.array (items.map Prod.snd)).canonical =
    literal "[" ++ commas (items.map fun item => item.2.canonical) ++ literal "]" := by
  rw [Value.canonical, List.map_map]
  rfl

theorem Value.canonical_object (members : List Member) :
    (Value.object (members.map fun m => (m.key, m.value))).canonical =
      literal "\x7b" ++ commas
        (members.map fun m => quoted m.key ++ literal ":" ++ m.value.canonical) ++
        literal "\x7d" := by
  rw [Value.canonical, List.map_map]
  rfl

theorem quoted_length (text : Text) : (quoted text).length = text.length + 2 := by
  rw [quoted, List.length_append]
  rfl

theorem Member.Keyed.text_tight {m : Member} (keyed : m.Keyed)
    (shorter : m.value.canonical.length ≤ m.valueText.length)
    (tight : m.valueText.length ≤ m.value.canonical.length →
      m.valueText = m.value.canonical ∧ Plain m.value) :
    (quoted m.key ++ literal ":" ++ m.value.canonical).length ≤ m.text.length ∧
      (m.text.length ≤ (quoted m.key ++ literal ":" ++ m.value.canonical).length →
        m.text = quoted m.key ++ literal ":" ++ m.value.canonical ∧
          PlainString m.key ∧ Plain m.value) := by
  obtain ⟨keyShorter, keyTight⟩ := stringBody_tight keyed.key
  simp only [Member.text, List.length_append, quoted_length]
  refine ⟨by omega, fun short => ?_⟩
  obtain ⟨key, keyPlain⟩ := keyTight (by omega)
  obtain ⟨value, plain⟩ := tight (by omega)
  have before : m.before = [] := List.length_eq_zero_iff.mp (by omega)
  have after : m.after = [] := List.length_eq_zero_iff.mp (by omega)
  rw [key, value, before, after, List.nil_append, List.append_nil]
  exact ⟨rfl, keyPlain, plain⟩

theorem denotes_tight (denotes : Denotes text value) :
    value.canonical.length ≤ text.length ∧
      (text.length ≤ value.canonical.length → text = value.canonical ∧ Plain value) := by
  induction denotes with
  | nullText =>
    rw [Value.canonical]
    exact ⟨Nat.le_refl _, fun _ => ⟨rfl, .null⟩⟩
  | trueText =>
    rw [Value.canonical]
    exact ⟨Nat.le_refl _, fun _ => ⟨rfl, .bool true⟩⟩
  | falseText =>
    rw [Value.canonical]
    exact ⟨Nat.le_refl _, fun _ => ⟨rfl, .bool false⟩⟩
  | number number =>
    rw [Value.canonical]
    exact ⟨Nat.le_refl _, fun _ => ⟨rfl, .number number⟩⟩
  | string body =>
    obtain ⟨shorter, tight⟩ := stringBody_tight body
    rw [Value.canonical, quoted_length, quoted_length]
    refine ⟨by omega, fun short => ?_⟩
    obtain ⟨rfl, plain⟩ := tight (by omega)
    exact ⟨rfl, .string plain⟩
  | array blanks items blank valid ih =>
    obtain ⟨shorter, tight⟩ := commas_tight items fun item member => (ih item member).1
    rw [Value.canonical_array]
    simp only [List.length_append]
    refine ⟨by omega, fun short => ?_⟩
    have each := fun item member => (ih item member).2 (tight (by omega) item member)
    cases blanks with
    | nil =>
      refine ⟨?_, .array _ (List.forall_mem_map.mpr fun item member => (each item member).2)⟩
      rw [List.append_nil, List.map_congr_left fun item member => (each item member).1]
    | cons b blanks =>
      rw [List.length_cons] at short
      omega
  | object blanks members blank keyed valid ih =>
    have pair := fun m member => (keyed m member).text_tight (ih m member).1 (ih m member).2
    obtain ⟨shorter, tight⟩ := commas_tight members fun m member => (pair m member).1
    rw [Value.canonical_object]
    simp only [List.length_append]
    refine ⟨by omega, fun short => ?_⟩
    have each := fun m member => (pair m member).2 (tight (by omega) m member)
    cases blanks with
    | nil =>
      refine ⟨?_, .object _ (List.forall_mem_map.mpr fun m member => (each m member).2.1)
        (List.forall_mem_map.mpr fun m member => (each m member).2.2)⟩
      rw [List.append_nil, List.map_congr_left fun m member => (each m member).1]
    | cons b blanks =>
      rw [List.length_cons] at short
      omega
  | blankBefore b blank valid ih =>
    rw [List.length_cons]
    exact ⟨by omega, fun short => by omega⟩
  | blankAfter b blank valid ih =>
    rw [List.length_append, List.length_singleton]
    exact ⟨by omega, fun short => by omega⟩

theorem plain_denotes (plain : Plain value) : Denotes value.canonical value := by
  induction plain with
  | null =>
    rw [Value.canonical]
    exact .nullText
  | bool b =>
    rw [Value.canonical]
    cases b with
    | false => exact .falseText
    | true => exact .trueText
  | number number =>
    rw [Value.canonical]
    exact .number number
  | string plain =>
    rw [Value.canonical]
    exact .string (plainString_body plain)
  | array items plain ih =>
    have denotes := Denotes.array [] (items.map fun item => (item.canonical, item)) (by simp)
      (List.forall_mem_map.mpr ih)
    rw [List.map_map, List.map_map, List.append_nil] at denotes
    have same : items.map (Prod.snd ∘ fun item => (item.canonical, item)) = items := List.map_id _
    rw [same] at denotes
    rw [Value.canonical]
    exact denotes
  | object members keys values ih =>
    have denotes := Denotes.object [] (members.map fun m => ⟨[], m.1, [], m.1, m.2.canonical, m.2⟩)
      (by simp)
      (List.forall_mem_map.mpr fun m member => ⟨by simp, plainString_body (keys m member)⟩)
        (List.forall_mem_map.mpr ih)
    rw [List.map_map, List.map_map, List.append_nil] at denotes
    have same : members.map ((fun m : Member => (m.key, m.value)) ∘ fun m =>
        ⟨[], m.1, [], m.1, m.2.canonical, m.2⟩) =
        members := List.map_id _
    rw [same] at denotes
    rw [Value.canonical]
    refine Eq.mp ?_ denotes
    congr 4
    refine List.map_congr_left fun m _ => ?_
    simp [Member.text]

/-- A text that is no longer than the shortest one denotes the value exactly if it is that text. -/
theorem denotes_iff_canonical (short : text.length ≤ value.canonical.length) :
    Denotes text value ↔ text = value.canonical ∧ Plain value := by
  constructor
  · intro denotes
    exact (denotes_tight denotes).2 short
  · rintro ⟨rfl, plain⟩
    exact plain_denotes plain

/-- What a value can begin with. -/
theorem denotes_head (denotes : Denotes text value) :
    ∃ b, text.head? = some b ∧ (isBlank b ∨ isdigit b ∨ b ∈ literal "-ntf\"[\x7b") := by
  induction denotes with
  | nullText => exact ⟨_, rfl, by decide⟩
  | trueText => exact ⟨_, rfl, by decide⟩
  | falseText => exact ⟨_, rfl, by decide⟩
  | number number =>
    obtain ⟨sign, int, frac, exp, rfl, rfl | rfl, isInt, -⟩ := number.split
    · obtain ⟨d, digits, rfl⟩ := List.exists_cons_of_ne_nil isInt.nonempty
      exact ⟨d, rfl, .inr (.inl (isInt.digits d List.mem_cons_self))⟩
    · exact ⟨_, rfl, by decide⟩
  | string => exact ⟨_, rfl, by decide⟩
  | array => exact ⟨_, rfl, by decide⟩
  | object => exact ⟨_, rfl, by decide⟩
  | blankBefore b blank => exact ⟨b, rfl, .inl blank⟩
  | blankAfter b blank valid ih =>
    obtain ⟨first, head, kind⟩ := ih
    exact ⟨first, by rw [List.head?_append, head, Option.some_or], kind⟩

/-- A text that begins like no value is not JSON. -/
theorem not_denotes_of_head (head : text.head? = some b)
    (other : ¬ (isBlank b ∨ isdigit b ∨ b ∈ literal "-ntf\"[\x7b")) (value : Value) :
    ¬ Denotes text value := by
  intro denotes
  obtain ⟨first, begins, kind⟩ := denotes_head denotes
  obtain rfl := Option.some.inj (head.symm.trans begins)
  exact other kind

end Json

import Mathlib.Algebra.Order.Ring.Int
import Mathlib.Data.List.TakeWhile
import SelfDb.Scanning.Find

/-! C strings as lists of bytes, and the functions of `string.h`, `stdio.h` and
`stdlib.h` that read them, in the C locale. -/
namespace CString
open Scanning

/-- The bytes of an ASCII literal. -/
def literal (text : String) : List UInt8 := text.toList.map Char.toUInt8

/-- The string at the beginning of a buffer. -/
def cstr (buffer : List UInt8) : List UInt8 := buffer.takeWhile (· ≠ 0)

def isspace (b : UInt8) : Bool := b = 32 || (9 ≤ b && b ≤ 13)

def isdigit (b : UInt8) : Bool := 48 ≤ b && b ≤ 57

def isalnum (b : UInt8) : Bool := isdigit b || (65 ≤ b && b ≤ 90) || (97 ≤ b && b ≤ 122)

def tolower (b : UInt8) : UInt8 := if 65 ≤ b ∧ b ≤ 90 then b + 32 else b

/-- What is before the first occurrence, and what is behind it. -/
def strstr (text pat : List UInt8) : Option (List UInt8 × List UInt8) := find id pat text

def strcasestr (text pat : List UInt8) : Option (List UInt8 × List UInt8) :=
  find tolower (pat.map tolower) text

def memmem (block pat : List UInt8) : Option (List UInt8 × List UInt8) := find id pat block

/-- `%Ns`: the token and the rest. -/
def scanString (width : Nat) (text : List UInt8) : Option (List UInt8 × List UInt8) :=
  let start := text.dropWhile isspace
  let token := (start.take width).takeWhile fun b => !isspace b
  if token = [] then none else some (token, start.drop token.length)

def decimal (value : Nat) (digits : List UInt8) : Nat :=
  digits.foldl (fun n b => 10 * n + (b.toNat - 48)) value

/-- `strtol(text, NULL, 10)`. -/
def strtol (text : List UInt8) : Int :=
  match text.dropWhile isspace with
  | [] => 0
  | sign :: rest =>
    if sign = '-'.toUInt8 then max (-2 ^ 63) (-(decimal 0 (rest.takeWhile isdigit) : Int))
    else if sign = '+'.toUInt8 then min (2 ^ 63 - 1) (decimal 0 (rest.takeWhile isdigit) : Int)
    else min (2 ^ 63 - 1) (decimal 0 ((sign :: rest).takeWhile isdigit) : Int)

/-- `%zu`. -/
def digitsOf (n : Nat) : List UInt8 :=
  if n < 10 then [48 + n.toUInt8] else digitsOf (n / 10) ++ [48 + (n % 10).toUInt8]

/-- `%lld`. -/
def signedDigitsOf (n : Int) : List UInt8 :=
  if n < 0 then '-'.toUInt8 :: digitsOf n.natAbs else digitsOf n.natAbs

/-- What `snprintf` returns for a text; a length above INT_MAX is reported as -1. -/
def formattedLength (text : List UInt8) : Int := if text.length < 2 ^ 31 then text.length else -1

/-! `cstr` -/

theorem cstr_append (front back : List UInt8) (plain : 0 ∉ front) :
    cstr (front ++ back) = front ++ cstr back :=
  List.takeWhile_append_of_pos fun _ member => decide_eq_true fun null => plain (null ▸ member)

theorem cstr_plain (plain : 0 ∉ text) : cstr text = text := by
  have whole := cstr_append text [] plain
  rwa [List.append_nil, show cstr [] = [] from rfl, List.append_nil] at whole

theorem not_mem_cstr (buffer : List UInt8) : 0 ∉ cstr buffer := by
  intro null
  exact absurd (List.mem_takeWhile_imp null) (by decide)

theorem takeWhile_prefix_append (p : α → Bool) (front back : List α) :
    front.takeWhile p <+: (front ++ back).takeWhile p := by
  rw [List.takeWhile_append]
  split
  · exact (List.takeWhile_prefix p).trans (List.prefix_append _ _)
  · exact List.prefix_rfl

theorem cstr_prefix (front back : List UInt8) : cstr front <+: cstr (front ++ back) :=
  takeWhile_prefix_append _ front back

/-! `scanString` -/

theorem scanString_eq_none_iff (positive : 0 < width) (text : List UInt8) :
    scanString width text = none ↔ ∀ b ∈ text, isspace b = true := by
  simp only [scanString]
  cases start : text.dropWhile isspace with
  | nil =>
    rw [List.dropWhile_eq_nil_iff] at start
    simpa using start
  | cons b rest =>
    have visible : isspace b = false := by
      have first := List.dropWhile_get_zero_not isspace text (by rw [start]; exact Nat.succ_pos _)
      simpa [start] using first
    obtain ⟨n, rfl⟩ : ∃ n, width = n + 1 := ⟨width - 1, by omega⟩
    have member : b ∈ text := (List.dropWhile_suffix isspace).subset (start ▸ List.mem_cons_self)
    rw [List.take_succ_cons, List.takeWhile_cons_of_pos (by rw [visible]; rfl),
      if_neg (List.cons_ne_nil _ _)]
    constructor
    · intro none
      cases none
    · intro blank
      exact absurd (blank b member) (by rw [visible]; exact Bool.false_ne_true)

/-- The text is blanks, the token and the rest; the token ends at a blank or where it is full. -/
structure Token (width : Nat) (text token rest : List UInt8) : Prop where
  split : ∃ blanks, text = blanks ++ (token ++ rest) ∧ ∀ b ∈ blanks, isspace b = true
  nonempty : token ≠ []
  visible : ∀ b ∈ token, isspace b = false
  fits : token.length ≤ width
  whole : token.length < width → ∀ b ∈ rest.head?, isspace b = true

theorem takeWhile_take {token rest : List UInt8} (visible : ∀ b ∈ token, isspace b = false)
    (fits : token.length ≤ width) :
    ((token ++ rest).take width).takeWhile (fun b => !isspace b) =
      token ++ (rest.take (width - token.length)).takeWhile fun b => !isspace b := by
  rw [List.take_append, List.take_of_length_le fits,
    List.takeWhile_append_of_pos fun b member => by rw [visible b member]; rfl]

theorem scanString_eq_some_iff (width : Nat) (text token rest : List UInt8) :
    scanString width text = some (token, rest) ↔ Token width text token rest := by
  simp only [scanString]
  constructor
  · intro scanned
    split at scanned
    · cases scanned
    · next nonempty =>
      have blanks : text = text.takeWhile isspace ++ text.dropWhile isspace :=
        List.takeWhile_append_dropWhile.symm
      generalize text.dropWhile isspace = start at scanned nonempty blanks
      obtain ⟨token_eq, rest_eq⟩ := Prod.mk.inj (Option.some.inj scanned)
      have front : (start.take width).takeWhile (fun b => !isspace b) <+: start :=
        (List.takeWhile_prefix _).trans (List.take_prefix _ _)
      have joined := List.prefix_iff_eq_append.mp front
      have visible : ∀ b ∈ (start.take width).takeWhile (fun b => !isspace b), isspace b = false :=
        fun b member => by simpa using List.mem_takeWhile_imp member
      have fits : ((start.take width).takeWhile fun b => !isspace b).length ≤ width :=
        (List.takeWhile_prefix _).length_le.trans (List.length_take_le _ _)
      rw [token_eq] at nonempty joined visible fits rest_eq
      rw [rest_eq] at joined
      refine ⟨⟨_, by rw [joined]; exact blanks, fun b => List.mem_takeWhile_imp⟩, nonempty, visible,
        fits, fun room b first => ?_⟩
      -- A visible character behind the token would have been taken.
      obtain ⟨after, rfl⟩ := List.head?_eq_some_iff.mp first
      obtain ⟨left, more⟩ : ∃ left, width - token.length = left + 1 :=
        ⟨width - token.length - 1, by omega⟩
      rw [← joined, takeWhile_take visible fits, more, List.take_succ_cons,
        List.append_right_eq_self] at token_eq
      by_contra other
      rw [List.takeWhile_cons_of_pos (by simpa using other)] at token_eq
      cases token_eq
  · rintro ⟨⟨blanks, rfl, blank⟩, nonempty, visible, fits, whole⟩
    obtain ⟨b, token, rfl⟩ := List.exists_cons_of_ne_nil nonempty
    have stop : (rest.take (width - (b :: token).length)).takeWhile (fun b => !isspace b) = [] := by
      by_cases room : (b :: token).length < width
      · cases rest with
        | nil => rw [List.take_nil, List.takeWhile_nil]
        | cons c rest =>
          obtain ⟨left, more⟩ : ∃ left, width - (b :: token).length = left + 1 :=
            ⟨width - (b :: token).length - 1, by omega⟩
          rw [more, List.take_succ_cons, List.takeWhile_cons_of_neg (by simp [whole room c rfl])]
      · rw [Nat.sub_eq_zero_of_le (Nat.le_of_not_lt room), List.take_zero, List.takeWhile_nil]
    have start : (blanks ++ (b :: token ++ rest)).dropWhile isspace = b :: token ++ rest := by
      rw [List.dropWhile_append_of_pos blank, List.cons_append,
        List.dropWhile_cons_of_neg (by rw [visible b List.mem_cons_self]; exact Bool.false_ne_true)]
    rw [start, takeWhile_take visible fits, stop, List.append_nil, if_neg nonempty, List.drop_left]

/-- A token that something follows is complete. -/
theorem scanString_append (scanned : scanString width text = some (token, rest))
    (nonempty : rest ≠ [])
    (more : List UInt8) : scanString width (text ++ more) = some (token, rest ++ more) := by
  obtain ⟨⟨blanks, rfl, blank⟩, found, visible, fits, whole⟩ :=
    (scanString_eq_some_iff _ _ _ _).mp scanned
  refine (scanString_eq_some_iff _ _ _ _).mpr
    ⟨⟨blanks, by simp only [List.append_assoc], blank⟩, found, visible, fits, fun room => ?_⟩
  rw [List.head?_append_of_ne_nil _ nonempty]
  exact whole room

/-! `digitsOf` -/

theorem digit_toNat (small : d < 10) : (48 + d.toUInt8).toNat = 48 + d := by
  rw [UInt8.toNat_add, Nat.toUInt8_eq, UInt8.toNat_ofNat']
  change (48 + d % 256) % 256 = _
  omega

theorem digitsOf_isdigit (n : Nat) : ∀ b ∈ digitsOf n, isdigit b = true := by
  have digit (d : Nat) (small : d < 10) : isdigit (48 + d.toUInt8) = true := by
    simp only [isdigit, UInt8.le_iff_toNat_le, digit_toNat small, Bool.and_eq_true,
      decide_eq_true_eq]
    change 48 ≤ 48 + d ∧ 48 + d ≤ 57
    omega
  fun_induction digitsOf n with
  | case1 n small => simpa using digit n small
  | case2 n large ih =>
    intro b member
    rcases List.mem_append.mp member with earlier | last
    · exact ih b earlier
    · rw [List.mem_singleton] at last
      exact last ▸ digit _ (Nat.mod_lt _ (by decide))

theorem digitsOf_nonempty (n : Nat) : digitsOf n ≠ [] := by
  rw [digitsOf]
  split <;> simp

/-- There is no leading zero. -/
theorem digitsOf_head (positive : 0 < n) : (digitsOf n).head? ≠ some '0'.toUInt8 := by
  fun_induction digitsOf n with
  | case1 n small =>
    intro zero
    have digit := congrArg UInt8.toNat (Option.some.inj zero)
    rw [digit_toNat small] at digit
    change 48 + n = 48 at digit
    omega
  | case2 n large ih =>
    rw [List.head?_append_of_ne_nil _ (digitsOf_nonempty _)]
    exact ih (by omega)

theorem digitsOf_length_le (positive : 0 < width) (fits : n < 10 ^ width) :
    (digitsOf n).length ≤ width := by
  fun_induction digitsOf n generalizing width with
  | case1 n small => exact positive
  | case2 n large ih =>
    obtain ⟨k, rfl⟩ : ∃ k, width = k + 1 := ⟨width - 1, by omega⟩
    rw [Nat.pow_succ] at fits
    have more : 0 < k := by
      by_contra none
      rw [Nat.eq_zero_of_not_pos none] at fits
      omega
    have bound := ih more (by omega)
    rw [List.length_append, List.length_singleton]
    omega

theorem decimal_append (value : Nat) (front back : List UInt8) :
    decimal value (front ++ back) = decimal (decimal value front) back := List.foldl_append

theorem decimal_digitsOf (n : Nat) : decimal 0 (digitsOf n) = n := by
  fun_induction digitsOf n with
  | case1 n small =>
    change 10 * 0 + ((48 + n.toUInt8).toNat - 48) = n
    rw [digit_toNat small]
    omega
  | case2 n large ih =>
    rw [decimal_append, ih]
    change 10 * (n / 10) + ((48 + (n % 10).toUInt8).toNat - 48) = n
    rw [digit_toNat (Nat.mod_lt _ (by decide))]
    omega

/-! `strtol` -/

theorem le_decimal (value : Nat) (digits : List UInt8) : value ≤ decimal value digits := by
  induction digits generalizing value with
  | nil => exact Nat.le_refl _
  | cons b digits ih =>
    have grown : value ≤ 10 * value + (b.toNat - 48) := by omega
    exact grown.trans (ih _)

theorem decimal_takeWhile_le (front back : List UInt8) :
    decimal 0 (front.takeWhile isdigit) ≤ decimal 0 ((front ++ back).takeWhile isdigit) := by
  obtain ⟨digits, longer⟩ := takeWhile_prefix_append isdigit front back
  rw [← longer, decimal_append]
  exact le_decimal _ digits

/-- More text does not make a positive number smaller. -/
theorem strtol_append_le (text more : List UInt8) :
    (strtol text).toNat ≤ (strtol (text ++ more)).toNat := by
  rw [strtol, strtol, List.dropWhile_append]
  cases text.dropWhile isspace with
  | nil => exact Nat.zero_le _
  | cons sign rest =>
    have digits := decimal_takeWhile_le rest more
    have unsigned := decimal_takeWhile_le (sign :: rest) more
    rw [List.cons_append] at unsigned
    simp only [List.isEmpty_cons, Bool.false_eq_true, if_false, List.cons_append]
    split
    · omega
    · split <;> omega

/-- A printed number is read back, as far as it fits. -/
theorem strtol_digitsOf (blank : ∀ b ∈ blanks, isspace b = true) (n : Nat)
    (stops : ∀ b ∈ rest.head?, isdigit b = false) :
    strtol (blanks ++ (digitsOf n ++ rest)) = min (2 ^ 63 - 1) (n : Int) := by
  have digits := digitsOf_isdigit n
  have none : rest.takeWhile isdigit = [] := by
    cases rest with
    | nil => rfl
    | cons b rest => exact List.takeWhile_cons_of_neg (by simp [stops b rfl])
  have taken : (digitsOf n ++ rest).takeWhile isdigit = digitsOf n := by
    rw [List.takeWhile_append_of_pos digits, none, List.append_nil]
  have value := decimal_digitsOf n
  obtain ⟨first, more, split⟩ := List.exists_cons_of_ne_nil (digitsOf_nonempty n)
  rw [split] at digits taken value
  have digit : isdigit first = true := digits first List.mem_cons_self
  have other (b : UInt8) (noDigit : isdigit b = false) : first ≠ b := by
    rintro rfl
    cases digit.symm.trans noDigit
  have visible : isspace first = false := by
    by_contra space
    simp only [isspace, isdigit, Bool.not_eq_false, Bool.or_eq_true, Bool.and_eq_true,
      decide_eq_true_eq, UInt8.le_iff_toNat_le, ← UInt8.toNat_inj, UInt8.toNat_ofNat,
      Nat.reducePow, Nat.reduceMod] at space digit
    omega
  rw [strtol, split, List.dropWhile_append_of_pos blank, List.cons_append,
    List.dropWhile_cons_of_neg (by simp [visible])]
  simp only
  rw [if_neg (other _ (by decide)), if_neg (other _ (by decide)), ← List.cons_append, taken, value]

end CString

import Mathlib.Data.List.Infix
import Mathlib.Data.List.TakeWhile

/-! The file name and the parameters that SQLite takes from a `file:` URI. -/
namespace SqliteUri

def isxdigit (b : UInt8) : Bool := (48 ≤ b && b ≤ 57) || (65 ≤ b && b ≤ 70) || (97 ≤ b && b ≤ 102)

def hexToInt (b : UInt8) : UInt8 := if b ≤ 57 then b &&& 15 else (b &&& 15) + 9

/-- `%HH`. -/
def octet (c : UInt8) : List UInt8 → Option UInt8
  | high :: low :: _ =>
    if c = '%'.toUInt8 ∧ isxdigit high ∧ isxdigit low then some
      ((hexToInt high <<< 4) + hexToInt low) else none
  | _ => none

/-- The decoded name, up to `?` or `#`. The second and third character of `%HH` are
skipped; `%00` ends the name. -/
def nameFrom : Nat → List UInt8 → List UInt8
  | _, [] => []
  | skip + 1, _ :: rest => nameFrom skip rest
  | 0, c :: rest =>
    if c = '#'.toUInt8 ∨ c = '?'.toUInt8 then []
    else match octet c rest with
      | none => c :: nameFrom 0 rest
      | some o => if o = 0 then [] else o :: nameFrom 2 rest

/-- The parameters, not decoded. -/
def query (text : List UInt8) : List UInt8 :=
  ((text.takeWhile (· ≠ '#'.toUInt8)).dropWhile (· ≠ '?'.toUInt8)).tail

def slashes : List UInt8 := ['/'.toUInt8, '/'.toUInt8]

/-- The authority must be empty or `localhost`. -/
def authorities : List (List UInt8) := [[], "localhost".toList.map Char.toUInt8]

/-- The name and the parameters of what follows `file:`. -/
def parse (text : List UInt8) : Option (List UInt8 × List UInt8) :=
  if slashes.isPrefixOf text then
    if (text.drop 2).takeWhile (· ≠ '/'.toUInt8) ∈ authorities then
      let path := (text.drop 2).dropWhile (· ≠ '/'.toUInt8)
      some (nameFrom 0 path, query path)
    else none
  else some (nameFrom 0 text, query text)

/-- No character of the text has a meaning in a URI. -/
structure Plain (text : List UInt8) : Prop where
  not_fragment : '#'.toUInt8 ∉ text
  not_query : '?'.toUInt8 ∉ text
  not_octet : ∀ before c rest, text = before ++ c :: rest → octet c rest = none

theorem Plain.tail (plain : Plain (c :: rest)) : Plain rest where
  not_fragment inside := plain.not_fragment (List.mem_cons_of_mem _ inside)
  not_query inside := plain.not_query (List.mem_cons_of_mem _ inside)
  not_octet before d after split := plain.not_octet (c :: before) d after (by rw [split]; rfl)

theorem Plain.cons (here : octet c rest = none) (fragment : c ≠ '#'.toUInt8)
    (parameters : c ≠ '?'.toUInt8) (plain : Plain rest) : Plain (c :: rest) where
  not_fragment inside := (List.mem_cons.mp inside).elim
    (fun same => fragment same.symm) plain.not_fragment
  not_query inside := (List.mem_cons.mp inside).elim
    (fun same => parameters same.symm) plain.not_query
  not_octet before d after split := by
    cases before with
    | nil =>
      obtain ⟨rfl, rfl⟩ := List.cons_eq_cons.mp split
      exact here
    | cons e before => exact plain.not_octet before d after (List.cons_eq_cons.mp split).2

/-! A text that parameters follow. -/

/-- The `?` is no digit of an escape. -/
theorem octet_append (c : UInt8) (rest parameters : List UInt8) :
    octet c (rest ++ '?'.toUInt8 :: parameters) = octet c rest := by
  have digit : isxdigit '?'.toUInt8 = false := by decide
  match rest with
  | [] => cases parameters <;> simp [octet, digit]
  | [high] => simp [octet, digit]
  | high :: low :: rest => rfl

theorem octet_of_ne (other : c ≠ '%'.toUInt8) (rest : List UInt8) : octet c rest = none := by
  match rest with
  | [] => rfl
  | [_] => rfl
  | _ :: _ :: _ => exact if_neg fun escaped => other escaped.1

theorem octet_length (escaped : octet c rest = some o) : 2 ≤ rest.length := by
  match rest with
  | [] => cases escaped
  | [high] => cases escaped
  | high :: low :: rest => simp

theorem nameFrom_plain {text : List UInt8} (plain : Plain text) (parameters : List UInt8) :
    nameFrom 0 (text ++ '?'.toUInt8 :: parameters) = text := by
  induction text with
  | nil => simp [nameFrom]
  | cons c rest ih =>
    have special : ¬ (c = '#'.toUInt8 ∨ c = '?'.toUInt8) := by
      rintro (rfl | rfl)
      · exact plain.not_fragment List.mem_cons_self
      · exact plain.not_query List.mem_cons_self
    rw [List.cons_append, nameFrom, if_neg special, octet_append, plain.not_octet [] c rest rfl]
    exact congrArg (c :: ·) (ih plain.tail)

theorem query_plain {text : List UInt8} (plain : Plain text) (parameters : List UInt8) :
    query (text ++ '?'.toUInt8 :: parameters) = parameters.takeWhile (· ≠ '#'.toUInt8) := by
  have ordinary : ∀ c ∈ text, decide (c ≠ '#'.toUInt8) = true := by
    intro c inside
    rw [decide_eq_true_eq]
    rintro rfl
    exact plain.not_fragment inside
  have before : ∀ c ∈ text, decide (c ≠ '?'.toUInt8) = true := by
    intro c inside
    rw [decide_eq_true_eq]
    rintro rfl
    exact plain.not_query inside
  rw [query, List.takeWhile_append_of_pos ordinary, List.takeWhile_cons_of_pos (by decide),
    List.dropWhile_append_of_pos before, List.dropWhile_cons_of_neg (by decide)]
  rfl

/-- A name is never longer than the text. -/
theorem nameFrom_length (text parameters : List UInt8) (skip : Nat) (inside : skip ≤ text.length) :
    (nameFrom skip (text ++ '?'.toUInt8 :: parameters)).length + skip ≤ text.length := by
  induction text generalizing skip with
  | nil =>
    obtain rfl := Nat.le_zero.mp inside
    simp [nameFrom]
  | cons c rest ih =>
    rw [List.length_cons] at inside ⊢
    cases skip with
    | succ skip =>
      have shorter := ih skip (Nat.le_of_succ_le_succ inside)
      rw [List.cons_append, nameFrom]
      omega
    | zero =>
      rw [List.cons_append, nameFrom, octet_append]
      split
      · exact Nat.zero_le _
      · cases escaped : octet c rest with
        | none =>
          have shorter := ih 0 (Nat.zero_le _)
          simp only [List.length_cons]
          omega
        | some o =>
          have shorter := ih 2 (octet_length escaped)
          simp only
          split
          · exact Nat.zero_le _
          · rw [List.length_cons]
            omega

/-- The name has the length of the text only if it is the text. -/
theorem nameFrom_shorter {text : List UInt8} (special : ¬ Plain text) (parameters : List UInt8) :
    (nameFrom 0 (text ++ '?'.toUInt8 :: parameters)).length < text.length := by
  induction text with
  | nil =>
    exact absurd ⟨List.not_mem_nil, List.not_mem_nil,
      fun before c rest split => by simp at split⟩ special
  | cons c rest ih =>
    rw [List.cons_append, nameFrom, octet_append, List.length_cons]
    split
    · exact Nat.succ_pos _
    · next ordinary =>
      rw [not_or] at ordinary
      cases escaped : octet c rest with
      | none =>
        exact Nat.succ_lt_succ (ih fun plain => special (plain.cons escaped ordinary.1 ordinary.2))
      | some o =>
        have shorter := nameFrom_length rest parameters 2 (octet_length escaped)
        simp only
        split
        · exact Nat.succ_pos _
        · rw [List.length_cons]
          omega

/-! Slashes at the beginning. -/

theorem nameFrom_slash (text : List UInt8) :
    nameFrom 0 ('/'.toUInt8 :: text) = '/'.toUInt8 :: nameFrom 0 text := by
  rw [nameFrom, if_neg (by decide), octet_of_ne (by decide)]

/-- Decoding does not lengthen what is behind them. -/
theorem nameFrom_dropWhile_shorter {text : List UInt8} (special : ¬ Plain text)
    (parameters : List UInt8) :
    ((nameFrom 0 (text ++ '?'.toUInt8 :: parameters)).dropWhile (· = '/'.toUInt8)).length <
      (text.dropWhile (· = '/'.toUInt8)).length := by
  induction text with
  | nil =>
    exact absurd ⟨List.not_mem_nil, List.not_mem_nil,
      fun before c rest split => by simp at split⟩ special
  | cons c rest ih =>
    by_cases slash : c = '/'.toUInt8
    · subst slash
      rw [List.cons_append, nameFrom_slash, List.dropWhile_cons_of_pos (by decide),
        List.dropWhile_cons_of_pos (by decide)]
      exact ih fun plain =>
        special (plain.cons (octet_of_ne (by decide) rest) (by decide) (by decide))
    · rw [List.dropWhile_cons_of_neg (by rwa [decide_eq_true_eq])]
      exact Nat.lt_of_le_of_lt (List.dropWhile_suffix _).length_le
        (nameFrom_shorter special parameters)

/-! The authority. -/

theorem slashes_append (text parameters : List UInt8) :
    slashes.isPrefixOf (text ++ '?'.toUInt8 :: parameters) = slashes.isPrefixOf text := by
  have other : ('/'.toUInt8 == '?'.toUInt8) = false := by decide
  match text with
  | [] => simp [slashes, List.isPrefixOf, other]
  | [c] => simp [slashes, List.isPrefixOf, other]
  | c :: d :: rest => simp [slashes, List.isPrefixOf]

theorem parse_open (absent : ¬ slashes.isPrefixOf text) (parameters : List UInt8) :
    parse (text ++ '?'.toUInt8 :: parameters) =
      some (nameFrom 0 (text ++ '?'.toUInt8 :: parameters),
        query (text ++ '?'.toUInt8 :: parameters)) := by
  rw [parse, slashes_append, if_neg absent]

/-- Two slashes and an authority, up to the third slash. -/
theorem parse_slashes (ordinary : ∀ c ∈ authority, c ≠ '/'.toUInt8) (rest : List UInt8) :
    parse (slashes ++ (authority ++ '/'.toUInt8 :: rest)) =
      if authority ∈ authorities then some
        (nameFrom 0 ('/'.toUInt8 :: rest), query ('/'.toUInt8 :: rest))
      else none := by
  have each : ∀ c ∈ authority, decide (c ≠ '/'.toUInt8) = true :=
    fun c member => decide_eq_true (ordinary c member)
  have dropped : (slashes ++ (authority ++ '/'.toUInt8 :: rest)).drop 2 = authority ++
      '/'.toUInt8 :: rest := rfl
  rw [parse, if_pos (List.isPrefixOf_iff_prefix.mpr (List.prefix_append _ _)), dropped,
    List.takeWhile_append_of_pos each, List.takeWhile_cons_of_neg (by decide), List.append_nil,
    List.dropWhile_append_of_pos each, List.dropWhile_cons_of_neg (by decide)]

/-- The parameters are no part of the authority. -/
theorem parse_eq_some (parsed : parse (text ++ '?'.toUInt8 :: parameters) = some (name, q)) :
    (¬ slashes.isPrefixOf text ∧ name = nameFrom 0 (text ++ '?'.toUInt8 :: parameters)) ∨
    ∃ authority rest, text = slashes ++ (authority ++ '/'.toUInt8 :: rest) ∧
      authority ∈ authorities ∧
      name = nameFrom 0 ('/'.toUInt8 :: rest ++ '?'.toUInt8 :: parameters) := by
  by_cases double : slashes.isPrefixOf text
  · obtain ⟨rest, rfl⟩ := List.isPrefixOf_iff_prefix.mp double
    by_cases slash : '/'.toUInt8 ∈ rest
    · obtain ⟨authority, after, rfl, absent⟩ := List.eq_append_cons_of_mem slash
      have split := parse_slashes (fun c member same => absent (same ▸ member))
        (after ++ '?'.toUInt8 :: parameters)
      rw [List.append_assoc, List.append_assoc, List.cons_append, split,
        Option.ite_none_right_eq_some, Option.some.injEq, Prod.mk.injEq] at parsed
      exact .inr ⟨authority, after, rfl, parsed.1, parsed.2.1.symm⟩
    · have each : ∀ c ∈ rest, decide (c ≠ '/'.toUInt8) = true :=
        fun c member => decide_eq_true fun same => slash (same ▸ member)
      have dropped : (slashes ++ rest ++ '?'.toUInt8 :: parameters).drop 2 = rest ++
          '?'.toUInt8 :: parameters := rfl
      have query : ∀ authority ∈ authorities, '?'.toUInt8 ∉ authority := by decide
      rw [parse, slashes_append, if_pos double, dropped, List.takeWhile_append_of_pos each,
        List.takeWhile_cons_of_pos (by decide),
        if_neg fun member => query _ member (by simp)] at parsed
      cases parsed
  · rw [parse_open double, Option.some.injEq, Prod.mk.injEq] at parsed
    exact .inl ⟨double, parsed.1.symm⟩

/-- Of the slashes at the beginning, one is kept. -/
def collapse (name : List UInt8) : List UInt8 :=
  if name.head? = some '/'.toUInt8 then '/'.toUInt8 :: name.dropWhile (· = '/'.toUInt8) else name

theorem collapse_slash (rest : List UInt8) :
    collapse ('/'.toUInt8 :: rest) = '/'.toUInt8 :: rest.dropWhile (· = '/'.toUInt8) := by
  rw [collapse, if_pos List.head?_cons, List.dropWhile_cons_of_pos (by decide)]

theorem collapse_length (name : List UInt8) : (collapse name).length ≤ name.length := by
  rw [collapse]
  split
  · next slash =>
    obtain ⟨rest, rfl⟩ := List.head?_eq_some_iff.mp slash
    rw [List.dropWhile_cons_of_pos (by decide), List.length_cons, List.length_cons]
    exact Nat.succ_le_succ (List.dropWhile_suffix _).length_le
  · exact Nat.le_refl _

/-- The name of a text that is not the name is another one, even up to slashes at its beginning. -/
theorem collapse_parse (parsed : parse (text ++ '?'.toUInt8 :: parameters) = some (name, q))
    (special : ¬ (Plain text ∧ ∀ rest, text = slashes ++ rest → rest.head? = some '/'.toUInt8)) :
    (collapse name).length < (collapse text).length := by
  rcases parse_eq_some parsed with ⟨single, rfl⟩ | ⟨authority, rest, rfl, member, rfl⟩
  · have escaped : ¬ Plain text := fun plain =>
      special ⟨plain, fun rest same => absurd
        (List.isPrefixOf_iff_prefix.mpr ⟨rest, same.symm⟩) single⟩
    by_cases slash : text.head? = some '/'.toUInt8
    · obtain ⟨rest, rfl⟩ := List.head?_eq_some_iff.mp slash
      have shorter := nameFrom_dropWhile_shorter escaped parameters
      rw [List.cons_append, nameFrom_slash] at shorter ⊢
      rw [List.dropWhile_cons_of_pos (by decide), List.dropWhile_cons_of_pos (by decide)] at shorter
      rw [collapse_slash, collapse_slash, List.length_cons, List.length_cons]
      exact Nat.succ_lt_succ shorter
    · have whole : collapse text = text := if_neg slash
      rw [whole]
      exact Nat.lt_of_le_of_lt (collapse_length _) (nameFrom_shorter escaped parameters)
  · simp only [authorities, List.mem_cons, List.not_mem_nil, or_false] at member
    rcases member with rfl | rfl
    · have escaped : ¬ Plain ('/'.toUInt8 :: rest) := by
        intro plain
        refine special ⟨(plain.cons (octet_of_ne (by decide) _) (by decide) (by decide)).cons
          (octet_of_ne (by decide) _) (by decide) (by decide), fun after same => ?_⟩
        rw [← List.append_cancel_left same]
        rfl
      have shorter := nameFrom_dropWhile_shorter escaped parameters
      rw [List.cons_append, nameFrom_slash] at shorter ⊢
      rw [List.dropWhile_cons_of_pos (by decide), List.dropWhile_cons_of_pos (by decide)] at shorter
      have whole : collapse (slashes ++ ([] ++ '/'.toUInt8 :: rest)) =
          '/'.toUInt8 :: rest.dropWhile (· = '/'.toUInt8) := by
        rw [List.nil_append, slashes, List.cons_append, List.cons_append, List.nil_append,
          collapse_slash, List.dropWhile_cons_of_pos (by decide),
          List.dropWhile_cons_of_pos (by decide)]
      rw [whole, collapse_slash, List.length_cons, List.length_cons]
      exact Nat.succ_lt_succ shorter
    · have name := Nat.le_trans (collapse_length _)
        (nameFrom_length ('/'.toUInt8 :: rest) parameters 0 (Nat.zero_le _))
      have localhost : collapse
          (slashes ++ ("localhost".toList.map Char.toUInt8 ++ '/'.toUInt8 :: rest)) =
          '/'.toUInt8 :: ("localhost".toList.map Char.toUInt8 ++ '/'.toUInt8 :: rest) := rfl
      rw [localhost, List.length_cons, List.length_append]
      exact Nat.lt_succ_of_le (Nat.le_trans name (Nat.le_add_left _ _))

end SqliteUri

import Mathlib.Data.List.DropRight
import SelfDb.Paging.Layers
import SelfDb.Scanning.Find
import SelfDb.Selfconv.Closure

/-! What `ldd` prints, and what `_ldd_map` reads back of it. -/
namespace SelfDb
namespace Py

/-- The characters at which `splitlines` ends a line. -/
def isLineBreak (c : Char) : Bool :=
  let n := c.toNat
  (10 ≤ n && n ≤ 13) || (28 ≤ n && n ≤ 30) || [0x85, 0x2028, 0x2029].contains n

/-- `splitlines` behind the beginning of a line; `cr` is whether a `\r` has just ended one. -/
def splitlinesFrom (line : List Char) (cr : Bool) : List Char → List (List Char)
  | [] => if line = [] then [] else [line]
  | c :: rest =>
    if cr && c = '\n' then splitlinesFrom line false rest
    else if isLineBreak c then line :: splitlinesFrom [] (c = '\r') rest
    else splitlinesFrom (line ++ [c]) false rest

/-- `text.splitlines()`. -/
def splitlines (text : List Char) : List String := (splitlinesFrom [] false text).map .ofList

/-- What is behind the last line break. -/
def lastLine (text : List Char) : List Char :=
  (text.reverse.takeWhile fun c => !isLineBreak c).reverse

end Py

/-- A line of `ldd`. -/
inductive LddItem where
  /-- `libfoo.so => /nix/store/.../libfoo.so (0x...)` -/
  | found (soname path : String) (address : List (Fin 16))
  | notFound (soname : String)
  /-- The vdso and the loader. -/
  | other (text : String)

namespace LddItem

def text : LddItem → List Char
  | found soname path address =>
    '\t' :: soname.toList ++ ([' ', '=', '>'] ++ (' ' :: path.toList ++ ([' ', '(', '0', 'x'] ++
      address.map (fun digit => Py.hexDigit digit.val) ++ [')'])))
  | notFound soname =>
    '\t' :: soname.toList ++ ([' ', '=', '>'] ++ [' ', 'n', 'o', 't', ' ', 'f', 'o', 'u', 'n', 'd'])
  | other text => text.toList

/-- What `ldd` can print: the paths are absolute and exist, and no soname holds an arrow. -/
def Shaped (pathExists : String → Bool) : LddItem → Prop
  | found soname path _ =>
    ¬ ['=', '>'] <:+: soname.toList ∧ path.toList.head? = some '/' ∧ pathExists path
  | notFound soname => ¬ ['=', '>'] <:+: soname.toList
  | other text => ¬ ['=', '>'] <:+: text.toList

end LddItem

/-- The standard output; the newline translation of `text=True` leaves the lines as they are. -/
def lddStdout (items : List LddItem) : List Char := items.flatMap fun item => item.text ++ ['\n']

/-- The host on which `ldd` prints the items. -/
def Host.printing (host : Host) (realpath : String → String) (items : List LddItem) : Host :=
  { host with realpath, ldd := fun _ => .ok (Py.splitlines (lddStdout items)) }

/-- The map from the sonames to the real paths of the paths that are printed for them. -/
def ReadBack (realpath : String → String) (items : List LddItem) (resolved : Dict String) : Prop :=
  ∀ soname value, resolved.lookup soname = some value ↔
    ∃ path address, .found soname path address ∈ items ∧ realpath path = value

/-- No character of the line can be taken for a separator or for a blank around a name. -/
structure LddPlain (soname path : String) : Prop where
  soname_strip : Py.strip soname.toList = soname.toList
  path_strip : Py.strip path.toList = path.toList
  soname_line : ∀ c ∈ soname.toList, Py.isLineBreak c = false
  path_line : ∀ c ∈ path.toList, Py.isLineBreak c = false
  path_paren : ¬ [' ', '('] <:+: path.toList

/-- The key that a `not found` line has, if there is a file of that name. -/
def notFoundKey (soname : String) : String :=
  .ofList (Py.strip (Py.lastLine ('\t' :: soname.toList)))

structure LddReadable (pathExists : String → Bool) (items : List LddItem) : Prop where
  plain : ∀ soname path address, .found soname path address ∈ items → LddPlain soname path
  functional : ∀ soname path address path' address',
    .found soname path address ∈ items → .found soname path' address' ∈ items → path = path'
  notFound : pathExists "not found" → ∀ before soname after,
    items = before ++ .notFound soname :: after →
      ∃ path address, .found (notFoundKey soname) path address ∈ after

/-! The separators. -/

theorem splitOnce_eq_find {sep : List Char} (separates : sep ≠ []) (text : List Char) :
    Py.splitOnce sep text = Scanning.find id sep text := by
  induction text with
  | nil =>
    refine ((Scanning.find_eq_none_iff _ _ _).mpr fun before after occurs => ?_).symm
    have length := occurs.length
    have positive := List.length_pos_iff.mpr separates
    rw [List.length_nil] at length
    omega
  | cons c rest ih =>
    rw [Py.splitOnce]
    split
    · next here =>
      obtain ⟨after, split⟩ := List.isPrefixOf_iff_prefix.mp here
      rw [← split, List.drop_left]
      exact ((Scanning.find_eq_some_iff _ _ _ _ _).mpr
        ⟨Scanning.occurs_id_iff.mpr rfl, fun _ _ _ => Nat.zero_le _⟩).symm
    · next here =>
      have later : ∀ before after, Scanning.Occurs id sep (c :: rest) before after →
          ∃ b, before = c :: b ∧ Scanning.Occurs id sep rest b after := by
        intro before after occurs
        rw [Scanning.occurs_id_iff] at occurs
        cases before with
        | nil => exact absurd (List.isPrefixOf_iff_prefix.mpr ⟨after, occurs.symm⟩) here
        | cons d b =>
          obtain ⟨rfl, same⟩ := List.cons_eq_cons.mp occurs
          exact ⟨b, rfl, Scanning.occurs_id_iff.mpr same⟩
      rw [ih]
      cases found : Scanning.find id sep rest with
      | none =>
        rw [Scanning.find_eq_none_iff] at found
        refine ((Scanning.find_eq_none_iff _ _ _).mpr fun before after occurs => ?_).symm
        obtain ⟨b, -, inside⟩ := later before after occurs
        exact found b after inside
      | some parts =>
        obtain ⟨occurs, first⟩ := (Scanning.find_eq_some_iff _ _ _ _ _).mp found
        refine ((Scanning.find_eq_some_iff _ _ _ _ _).mpr ⟨?_, fun before after other => ?_⟩).symm
        · rw [Scanning.occurs_id_iff] at occurs ⊢
          rw [occurs, List.cons_append]
        · obtain ⟨b, rfl, inside⟩ := later before after other
          exact Nat.succ_le_succ (first b after inside)

/-- What is read before a separator does not hold it. -/
theorem not_infix_before {sep text : List Char} (separates : sep ≠ []) :
    ¬ sep <:+: ((Py.splitOnce sep text).map Prod.fst).getD text := by
  rw [splitOnce_eq_find separates]
  cases found : Scanning.find id sep text with
  | none =>
    rintro ⟨before, after, split⟩
    rw [Scanning.find_eq_none_iff] at found
    exact found before after (Scanning.occurs_id_iff.mpr
      (by rw [← List.append_assoc]; exact split.symm))
  | some parts =>
    rintro ⟨before, after, split⟩
    obtain ⟨occurs, first⟩ := (Scanning.find_eq_some_iff _ _ _ _ _).mp found
    rw [Scanning.occurs_id_iff] at occurs
    change before ++ sep ++ after = parts.1 at split
    have earlier := first before (after ++ (sep ++ parts.2))
      (Scanning.occurs_id_iff.mpr (by rw [occurs, ← split]; simp only [List.append_assoc]))
    have positive := List.length_pos_iff.mpr separates
    rw [← split, List.length_append, List.length_append] at earlier
    omega

/-- Two characters that are not in the front of a text, nor at its end. -/
theorem splitOnce_pair {front : List Char} (absent : ¬ [x, y] <:+: front) (other : z ≠ y)
    (rest : List Char) :
    Py.splitOnce [x, y] (front ++ z :: rest) =
      (Py.splitOnce [x, y] (z :: rest)).map fun parts => (front ++ parts.1, parts.2) := by
  induction front with
  | nil => simp
  | cons c front ih =>
    have later : ¬ [x, y] <:+: front := fun inside => absent (List.infix_cons inside)
    have here : [x, y].isPrefixOf (c :: (front ++ z :: rest)) = false := by
      rw [Bool.eq_false_iff, Ne, List.isPrefixOf_iff_prefix, List.cons_prefix_cons]
      rintro ⟨rfl, follows⟩
      cases front with
      | nil => exact other (List.cons_prefix_cons.mp follows).1.symm
      | cons d front =>
        obtain ⟨rfl, -⟩ := List.cons_prefix_cons.mp follows
        exact absent ⟨[], front, rfl⟩
    rw [List.cons_append, Py.splitOnce, if_neg (by rw [here]; exact Bool.false_ne_true), ih later,
      Option.map_map]
    rfl

theorem strip_eq (text : List Char) : Py.strip text =
    (text.dropWhile Py.isSpace).rdropWhile Py.isSpace := rfl

theorem strip_cons (blank : Py.isSpace c = true) (text : List Char) :
    Py.strip (c :: text) = Py.strip text := by
  rw [strip_eq, strip_eq, List.dropWhile_cons_of_pos blank]

theorem strip_append (blank : Py.isSpace c = true) (text : List Char) :
    Py.strip (text ++ [c]) = Py.strip text := by
  rw [strip_eq, strip_eq, List.dropWhile_append]
  split
  · next empty =>
    rw [List.isEmpty_iff.mp empty, List.dropWhile_cons_of_pos blank]
    rfl
  · exact List.rdropWhile_concat_pos _ _ _ blank

theorem strip_within (text : List Char) : Py.strip text <:+: text := by
  rw [strip_eq]
  exact (List.rdropWhile_prefix _ _).isInfix.trans (List.dropWhile_suffix _).isInfix

theorem strip_strip (text : List Char) : Py.strip (Py.strip text) = Py.strip text := by
  have left : (Py.strip text).dropWhile Py.isSpace = Py.strip text := by
    rw [List.dropWhile_eq_self_iff]
    intro nonempty
    have front : Py.strip text <+: text.dropWhile Py.isSpace := List.rdropWhile_prefix _ _
    have longer := Nat.lt_of_lt_of_le nonempty front.length_le
    rw [front.getElem nonempty]
    exact List.dropWhile_get_zero_not _ text longer
  rw [strip_eq (Py.strip text), left, strip_eq, List.rdropWhile_idempotent]

/-! The lines. -/

theorem splitlinesFrom_append {line : List Char} (start : cr = true → line = [])
    (body rest : List Char) :
    Py.splitlinesFrom line cr (body ++ '\n' :: rest) =
      Py.splitlinesFrom line cr (body ++ ['\n']) ++ Py.splitlinesFrom [] false rest := by
  induction body generalizing line cr with
  | nil =>
    simp only [List.nil_append, Py.splitlinesFrom]
    cases cr with
    | true => simp [start rfl]
    | false => simp [Py.isLineBreak]
  | cons c body ih =>
    simp only [List.cons_append, Py.splitlinesFrom]
    split
    · exact ih (by simp)
    · split
      · rw [ih (fun _ => rfl), List.cons_append]
      · exact ih (by simp)

/-- Every line is a part of the text, without a line break. -/
theorem mem_splitlinesFrom {line : List Char} (start : cr = true → line = [])
    (plain : ∀ c ∈ line, Py.isLineBreak c = false)
    (member : found ∈ Py.splitlinesFrom line cr text) :
    found <:+: line ++ text ∧ ∀ c ∈ found, Py.isLineBreak c = false := by
  induction text generalizing line cr with
  | nil =>
    rw [Py.splitlinesFrom] at member
    split at member
    · cases member
    · rw [List.mem_singleton.mp member, List.append_nil]
      exact ⟨List.infix_rfl, plain⟩
  | cons c rest ih =>
    rw [Py.splitlinesFrom] at member
    split at member
    · next newline =>
      rw [Bool.and_eq_true] at newline
      obtain ⟨inside, clean⟩ := ih (by simp) plain member
      rw [start newline.1, List.nil_append] at inside ⊢
      exact ⟨List.infix_cons inside, clean⟩
    · split at member
      · rcases List.mem_cons.mp member with rfl | member
        · exact ⟨(List.prefix_append _ _).isInfix, plain⟩
        · obtain ⟨inside, clean⟩ := ih (fun _ => rfl) (by simp) member
          rw [List.nil_append] at inside
          exact ⟨(List.infix_cons inside).trans (List.suffix_append _ _).isInfix, clean⟩
      · next ordinary =>
        have extended : ∀ d ∈ line ++ [c], Py.isLineBreak d = false := by
          simp only [List.mem_append, List.mem_singleton]
          rintro d (inside | rfl)
          · exact plain d inside
          · exact Bool.eq_false_iff.mpr ordinary
        have inside := ih (by simp) extended member
        rwa [List.append_assoc] at inside

theorem splitlinesFrom_plain {body : List Char} (plain : ∀ c ∈ body, Py.isLineBreak c = false)
    (nonempty : cr = true → body ≠ []) (line : List Char) :
    Py.splitlinesFrom line cr (body ++ ['\n']) = [line ++ body] := by
  induction body generalizing line cr with
  | nil =>
    cases cr with
    | true => exact absurd rfl (nonempty rfl)
    | false => simp [Py.splitlinesFrom, Py.isLineBreak]
  | cons c body ih =>
    rw [List.forall_mem_cons] at plain
    have newline : c ≠ '\n' := by
      rintro rfl
      exact absurd plain.1 (by decide)
    rw [List.cons_append, Py.splitlinesFrom, if_neg (by simp [newline]),
      if_neg (by rw [plain.1]; exact Bool.false_ne_true), ih plain.2 (by simp), List.append_assoc]
    rfl

theorem lastLine_eq (text : List Char) :
    Py.lastLine text = text.rtakeWhile fun c => !Py.isLineBreak c := rfl

theorem lastLine_plain {text : List Char} (plain : ∀ c ∈ text, Py.isLineBreak c = false) :
    Py.lastLine text = text := by
  rw [lastLine_eq, List.rtakeWhile_eq_self_iff]
  intro c member
  rw [plain c member]
  rfl

theorem lastLine_break (breaks : Py.isLineBreak c = true) (before after : List Char) :
    Py.lastLine (before ++ c :: after) = Py.lastLine after := by
  rw [Py.lastLine, Py.lastLine, List.reverse_append, List.reverse_cons, List.append_assoc,
    List.takeWhile_append]
  split
  · next whole =>
    rw [List.singleton_append, List.takeWhile_cons_of_neg
      (by rw [breaks]; exact Bool.false_ne_true), List.append_nil,
      (List.takeWhile_prefix _).eq_of_length whole]
  · rfl

theorem lastLine_within (text : List Char) : Py.lastLine text <:+: text := by
  rw [lastLine_eq]
  exact (List.rtakeWhile_suffix _ _).isInfix

/-- Text at the end of a line stays with what the line began with. -/
theorem splitlinesFrom_last {line : List Char} (start : cr = true → line = [])
    (plain : ∀ c ∈ line, Py.isLineBreak c = false) (body tail : List Char) (nonempty : tail ≠ [])
    (ordinary : ∀ c ∈ tail, Py.isLineBreak c = false) :
    ∃ lines, Py.splitlinesFrom line cr (body ++ (tail ++ ['\n'])) = lines ++
      [Py.lastLine (line ++ body) ++ tail] ∧
      ∀ l ∈ lines, l <:+: line ++ body := by
  induction body generalizing line cr with
  | nil =>
    refine ⟨[], ?_, by simp⟩
    rw [List.nil_append, splitlinesFrom_plain ordinary (fun _ => nonempty), List.append_nil,
      lastLine_plain plain]
    rfl
  | cons c body ih =>
    rw [List.cons_append, Py.splitlinesFrom]
    split
    · next newline =>
      rw [Bool.and_eq_true] at newline
      obtain ⟨lines, split, inside⟩ := ih (show false = true → line = [] from nofun) plain
      rw [start newline.1, List.nil_append] at inside ⊢
      rw [start newline.1, List.nil_append] at split
      refine ⟨lines, split.trans ?_, fun l member => List.infix_cons (inside l member)⟩
      rw [of_decide_eq_true newline.2, ← List.nil_append ('\n' :: body), lastLine_break (by decide)]
    · split
      · next breaks =>
        obtain ⟨lines, split, inside⟩ := ih (fun _ => (rfl : ([] : List Char) = [])) (by simp)
        refine ⟨line :: lines, ?_, ?_⟩
        · rw [split, lastLine_break breaks]
          rfl
        · rw [List.forall_mem_cons]
          exact ⟨(List.prefix_append _ _).isInfix, fun l member =>
            (List.infix_cons (inside l member)).trans (List.suffix_append _ _).isInfix⟩
      · next continues =>
        have extended : ∀ d ∈ line ++ [c], Py.isLineBreak d = false := by
          simp only [List.mem_append, List.mem_singleton]
          rintro d (inside | rfl)
          · exact plain d inside
          · exact Bool.eq_false_iff.mpr continues
        have more := ih (show false = true → line ++ [c] = [] from nofun) extended
        rwa [List.append_assoc] at more

/-! What is read of each line. -/

/-- What `_ldd_map` stores when it reads what an item prints. -/
def lddReads (host : Host) (item : LddItem) : List (String × String) :=
  (Py.splitlines (item.text ++ ['\n'])).filterMap (lddLine host)

theorem splitlines_stdout (items : List LddItem) :
    Py.splitlines (lddStdout items) = items.flatMap fun item => Py.splitlines
      (item.text ++ ['\n']) := by
  induction items with
  | nil => rfl
  | cons item rest ih =>
    rw [List.flatMap_cons, ← ih, Py.splitlines, lddStdout, List.flatMap_cons, List.append_assoc]
    have split := splitlinesFrom_append (fun _ => rfl : false = true → [] = []) item.text
      (lddStdout rest)
    exact (congrArg (List.map String.ofList) split).trans List.map_append

theorem mem_splitlines (member : line ∈ Py.splitlines text) :
    line.toList <:+: text ∧ ∀ c ∈ line.toList, Py.isLineBreak c = false := by
  obtain ⟨found, inside, rfl⟩ := List.mem_map.mp member
  rw [String.toList_ofList]
  exact mem_splitlinesFrom (fun _ => rfl) (by simp) inside

theorem lddLine_none (absent : ¬ ['=', '>'] <:+: line.toList) : lddLine host line = none := by
  have missing : Py.splitOnce ['=', '>'] line.toList = none := by
    rw [splitOnce_eq_find (by simp), Scanning.find_eq_none_iff]
    intro before after occurs
    rw [Scanning.occurs_id_iff, ← List.append_assoc] at occurs
    exact absent ⟨before, after, occurs.symm⟩
  rw [lddLine, missing]

theorem splitOnce_arrow {front : List Char} (absent : ¬ ['=', '>'] <:+: front) (rhs : List Char) :
    Py.splitOnce ['=', '>'] (front ++ ([' ', '=', '>'] ++ rhs)) = some (front ++ [' '], rhs) := by
  have split : Py.splitOnce ['=', '>'] (' ' :: (['=', '>'] ++ rhs)) = some ([' '], rhs) := rfl
  exact (splitOnce_pair absent (by decide) _).trans (congrArg (Option.map _) split)

theorem tab_absent (absent : ¬ ['=', '>'] <:+: text) : ¬ ['=', '>'] <:+: '\t' :: text := by
  rw [List.infix_cons_iff, List.cons_prefix_cons]
  rintro (⟨tab, -⟩ | inside)
  · exact absurd tab (by decide)
  · exact absent inside

/-- The key and the value that come from a line; both are what was stripped. -/
theorem lddLine_eq_some (read : lddLine host line = some (soname, value)) :
    ∃ path, value = host.realpath path ∧
      Py.strip soname.toList = soname.toList ∧ Py.strip path.toList = path.toList ∧
      soname.toList <:+: line.toList ∧ path.toList <:+: line.toList ∧
        ¬ [' ', '('] <:+: path.toList := by
  rw [lddLine] at read
  cases split : Py.splitOnce ['=', '>'] line.toList with
  | none =>
    rw [split] at read
    cases read
  | some parts =>
    simp only [split, Option.ite_none_right_eq_some, Option.some.injEq, Prod.mk.injEq] at read
    obtain ⟨-, rfl, rfl⟩ := read
    rw [splitOnce_eq_find (by simp), Scanning.find_eq_some_iff, Scanning.occurs_id_iff] at split
    have front : parts.1 <:+: line.toList := split.1 ▸ (List.prefix_append _ _).isInfix
    have back : parts.2 <:+: line.toList := by
      rw [split.1, ← List.append_assoc]
      exact (List.suffix_append _ _).isInfix
    have before : ((Py.splitOnce [' ', '('] parts.2).map Prod.fst).getD parts.2 <:+: parts.2 := by
      rw [splitOnce_eq_find (by simp)]
      cases found : Scanning.find id [' ', '('] parts.2 with
      | none => exact List.infix_rfl
      | some halves =>
        obtain ⟨occurs, -⟩ := (Scanning.find_eq_some_iff _ _ _ _ _).mp found
        rw [Scanning.occurs_id_iff] at occurs
        exact ⟨[], [' ', '('] ++ halves.2, occurs.symm⟩
    refine ⟨_, rfl, ?_⟩
    simp only [String.toList_ofList, strip_strip, true_and]
    exact ⟨(strip_within _).trans front, (strip_within _).trans (before.trans back), fun inside =>
      not_infix_before (by simp) (inside.trans (strip_within _))⟩

theorem lineBreak_absent {text : List Char} (clean : text.all (!Py.isLineBreak ·) = true) :
    ∀ c ∈ text, Py.isLineBreak c = false := by
  simpa using clean

theorem digit_plain (digit : Fin 16) : Py.isLineBreak (Py.hexDigit digit.val) = false := by
  revert digit
  decide

theorem lddReads_found (plain : LddPlain soname path)
    (shaped : (LddItem.found soname path address).Shaped host.pathExists) :
    lddReads host (.found soname path address) = [(soname, host.realpath path)] := by
  obtain ⟨absent, absolute, present⟩ := shaped
  have line : ∀ c ∈ (LddItem.found soname path address).text, Py.isLineBreak c = false := by
    simp only [LddItem.text, List.forall_mem_append, List.forall_mem_cons, List.forall_mem_map,
      List.not_mem_nil, false_imp_iff, implies_true, and_true]
    have digits : ∀ digit ∈ address, Py.isLineBreak (Py.hexDigit digit.val) = false :=
      fun digit _ => digit_plain digit
    exact ⟨⟨by decide, plain.soname_line⟩,
      by decide, ⟨by decide, plain.path_line⟩, ⟨by decide, digits⟩, by decide⟩
  have slash : path.toList ≠ [] := by
    rintro empty
    rw [empty] at absolute
    cases absolute
  have paren : ¬ [' ', '('] <:+: ' ' :: path.toList := by
    rw [List.infix_cons_iff, List.cons_prefix_cons]
    rintro (⟨-, second⟩ | inside)
    · obtain ⟨rest, same⟩ := second
      rw [← same] at absolute
      exact absurd absolute (by simp)
    · exact plain.path_paren inside
  have cut : Py.splitOnce [' ', '('] (' ' :: path.toList ++ ([' ', '(', '0', 'x'] ++
      address.map (fun digit => Py.hexDigit digit.val) ++ [')'])) =
        some (' ' :: path.toList, '0' :: 'x' :: address.map (fun digit => Py.hexDigit digit.val) ++
          [')']) := by
    have here (rest : List Char) : Py.splitOnce [' ', '('] (' ' :: '(' :: rest) = some ([], rest) :=
      rfl
    refine (splitOnce_pair paren (by decide) _).trans ((congrArg (Option.map _) (here _)).trans ?_)
    rw [Option.map_some, List.append_nil]
    rfl
  have key : Py.strip ('\t' :: soname.toList ++ [' ']) = soname.toList := by
    rw [strip_append (by decide), strip_cons (by decide), plain.soname_strip]
  have value : Py.strip (' ' :: path.toList) = path.toList := by
    rw [strip_cons (by decide), plain.path_strip]
  have read : lddLine host (.ofList (LddItem.found soname path address).text) =
      some (soname, host.realpath path) := by
    rw [lddLine, String.toList_ofList, LddItem.text, splitOnce_arrow (tab_absent absent)]
    simp only [cut, Option.map_some, Option.getD_some, key, value, String.ofList_toList]
    rw [if_pos ⟨fun empty => slash (by rw [empty]; rfl), present⟩]
  have unix : false = true → (LddItem.found soname path address).text ≠ [] :=
    fun other => absurd other Bool.false_ne_true
  rw [lddReads, Py.splitlines, splitlinesFrom_plain line unix]
  simp only [List.nil_append, List.map_cons, List.map_nil, List.filterMap_cons, read,
    List.filterMap_nil]

theorem filterMap_lddLine_none {lines : List String}
    (absent : ∀ line ∈ lines, ¬ ['=', '>'] <:+: line.toList) :
    lines.filterMap (lddLine host) = [] := by
  rw [List.filterMap_eq_nil_iff]
  exact fun line member => lddLine_none (absent line member)

theorem lddReads_other (shaped : (LddItem.other text).Shaped host.pathExists) :
    lddReads host (.other text) = [] := by
  refine filterMap_lddLine_none fun line member arrow => ?_
  have inside := arrow.trans (mem_splitlines member).1
  rw [List.infix_concat_iff, List.suffix_concat_iff] at inside
  rcases inside with (empty | ⟨front, newline, -⟩) | inside
  · cases empty
  · have last := congrArg List.getLast? newline
    rw [List.getLast?_concat] at last
    exact absurd last (by decide)
  · exact shaped inside

theorem lddReads_notFound (shaped : (LddItem.notFound soname).Shaped host.pathExists) :
    lddReads host (.notFound soname) =
      if host.pathExists "not found" then [(notFoundKey soname, host.realpath "not found")] else
        [] := by
  obtain ⟨lines, split, inside⟩ := splitlinesFrom_last (fun _ => rfl : false = true → [] = [])
    (by simp)
    ('\t' :: soname.toList) ([' ', '=', '>'] ++ [' ', 'n', 'o', 't', ' ', 'f', 'o', 'u', 'n', 'd'])
    (by simp) (lineBreak_absent rfl)
  have absent := tab_absent shaped
  have before : (lines.map String.ofList).filterMap (lddLine host) = [] := by
    refine filterMap_lddLine_none (List.forall_mem_map.mpr fun line member arrow => ?_)
    rw [String.toList_ofList] at arrow
    exact absent (arrow.trans (inside line member))
  have last : ¬ ['=', '>'] <:+: Py.lastLine ('\t' :: soname.toList) :=
    fun arrow => absent (arrow.trans (lastLine_within _))
  have cut : Py.splitOnce [' ', '('] [' ', 'n', 'o', 't', ' ', 'f', 'o', 'u', 'n', 'd'] =
      none := by decide
  have value : String.ofList (Py.strip [' ', 'n', 'o', 't', ' ', 'f', 'o', 'u', 'n', 'd']) =
      "not found" := by decide
  rw [List.nil_append] at split
  rw [lddReads, Py.splitlines, LddItem.text, List.append_assoc, split, List.map_append,
    List.filterMap_append, before, List.map_singleton, List.nil_append, List.filterMap_cons,
    lddLine, String.toList_ofList, splitOnce_arrow last]
  simp only [cut, Option.map_none, Option.getD_none, value,
    strip_append (show Py.isSpace ' ' = true by decide)]
  by_cases present : host.pathExists "not found"
  · rw [if_pos ⟨by decide, present⟩, if_pos present]
    rfl
  · rw [if_neg fun both => present both.2, if_neg present]
    rfl

/-! The map. -/

/-- The entry as a patch of the map. -/
def single (entry : String × String) (key : String) : Option String :=
  if entry.1 = key then some entry.2 else none

/-- The last value that is read for a key. -/
def lastRead (host : Host) (items : List LddItem) : String → Option String :=
  Paging.lastAt ((items.flatMap (lddReads host)).map single)

theorem lastRead_append (first second : List LddItem) (key : String) :
    lastRead host (first ++ second) key = (lastRead host second key).or
      (lastRead host first key) := by
  rw [lastRead, List.flatMap_append, List.map_append, Paging.lastAt_append]
  rfl

theorem lastRead_cons (item : LddItem) (rest : List LddItem) (key : String) :
    lastRead host (item :: rest) key =
      (lastRead host rest key).or (Paging.lastAt ((lddReads host item).map single) key) := by
  rw [lastRead, List.flatMap_cons, List.map_append, Paging.lastAt_append]
  rfl

theorem lastRead_mem (read : lastRead host items key = some value) :
    ∃ item ∈ items, (key, value) ∈ lddReads host item := by
  obtain ⟨before, patch, after, split, reaches, -⟩ := (Paging.lastAt_eq_some_iff _ _ _).mp read
  have member : patch ∈ (items.flatMap (lddReads host)).map single := by simp [split]
  obtain ⟨entry, inside, rfl⟩ := List.mem_map.mp member
  simp only [single, Option.ite_none_right_eq_some, Option.some.injEq] at reaches
  obtain ⟨rfl, rfl⟩ := reaches
  exact List.mem_flatMap.mp inside

theorem lastRead_ne_none (member : item ∈ items) (read : (key, value) ∈ lddReads host item) :
    lastRead host items key ≠ none := by
  intro none
  rw [lastRead, Paging.lastAt_eq_none_iff, List.forall_mem_map] at none
  have missed := none (key, value) (List.mem_flatMap.mpr ⟨item, member, read⟩)
  rw [single, if_pos rfl] at missed
  cases missed

theorem lddMap_printed (prints : host.ldd binary = .ok (Py.splitlines (lddStdout items))) :
    ∃ resolved, lddMap host binary = .ok resolved ∧
      ∀ key, resolved.lookup key = lastRead host items key := by
  have reads : items.flatMap (lddReads host) =
      (items.flatMap fun item => Py.splitlines (item.text ++ ['\n'])).filterMap (lddLine host) := by
    rw [List.filterMap_flatMap]
    rfl
  have inserts (lines : List String) : lines.foldl (addLine host) ∅ =
      (lines.filterMap (lddLine host)).foldl
        (fun resolved entry => resolved.insert entry.1 entry.2) ∅ := by
    rw [List.foldl_filterMap]
    refine List.foldl_ext _ _ _ fun resolved line _ => ?_
    rw [addLine]
    cases lddLine host line <;> rfl
  have patched (resolved : Dict String) (entry : String × String) (key : String) :
      (resolved.insert entry.1 entry.2).lookup key =
        (single entry key).or (resolved.lookup key) := by
    by_cases same : entry.1 = key
    · subst same
      simp [single]
    · simp [single, same, AList.lookup_insert_ne (Ne.symm same)]
  rw [lddMap, prints, splitlines_stdout]
  refine ⟨_, congrArg Except.ok (inserts _), fun key => ?_⟩
  rw [← reads]
  have last := @Paging.lastAt_foldl _ _ (Dict String) _
    (fun resolved key => resolved.lookup key) _ single patched
    (items.flatMap (lddReads host)) ∅ key
  exact last.trans Option.or_none

/-! Reading back. -/

theorem lastRead_found (shaped : ∀ item ∈ items, item.Shaped host.pathExists)
    (readable : LddReadable host.pathExists items)
    (read : lastRead host items soname = some value) :
    ∃ path address, .found soname path address ∈ items ∧ host.realpath path = value := by
  induction items with
  | nil => cases read
  | cons item rest ih =>
    rw [List.forall_mem_cons] at shaped
    have plain (soname path : String) (address : List (Fin 16))
        (member : .found soname path address ∈ rest) : LddPlain soname path :=
      readable.plain _ _ _ (List.mem_cons_of_mem _ member)
    rw [lastRead_cons, Option.or_eq_some_iff] at read
    rcases read with later | ⟨unread, here⟩
    · obtain ⟨path, address, member, same⟩ := ih shaped.2
        { plain
          functional := fun s p a p' a' first second =>
            readable.functional s p a p' a' (List.mem_cons_of_mem _ first)
            (List.mem_cons_of_mem _ second)
          notFound := fun present before s after split =>
            readable.notFound present (item :: before) s after (by rw [split]; rfl) } later
      exact ⟨path, address, List.mem_cons_of_mem _ member, same⟩
    · cases item with
      | found s path address =>
        rw [lddReads_found (readable.plain _ _ _ List.mem_cons_self) shaped.1] at here
        simp only [List.map_cons, List.map_nil, Paging.lastAt, Option.none_or, single,
          Option.ite_none_right_eq_some, Option.some.injEq] at here
        obtain ⟨rfl, rfl⟩ := here
        exact ⟨path, address, List.mem_cons_self, rfl⟩
      | notFound s =>
        rw [lddReads_notFound shaped.1] at here
        split at here
        · next present =>
          simp only [List.map_cons, List.map_nil, Paging.lastAt, Option.none_or, single,
            Option.ite_none_right_eq_some, Option.some.injEq] at here
          obtain ⟨path, address, member⟩ := readable.notFound present [] s rest rfl
          rw [here.1] at member
          have entry := lddReads_found (plain _ _ _ member) (shaped.2 _ member)
          exact absurd unread (lastRead_ne_none member (entry ▸ List.mem_singleton_self _))
        · cases here
      | other text =>
        rw [lddReads_other shaped.1] at here
        cases here

theorem readBack_of_readable (shaped : ∀ item ∈ items, item.Shaped host.pathExists)
    (readable : LddReadable host.pathExists items) {resolved : Dict String}
    (found : ∀ key, resolved.lookup key = lastRead host items key) :
    ReadBack host.realpath items resolved := by
  intro soname value
  rw [found]
  constructor
  · exact lastRead_found shaped readable
  · rintro ⟨path, address, member, rfl⟩
    have read := lddReads_found (readable.plain _ _ _ member) (shaped _ member)
    have some := lastRead_ne_none member (read ▸ List.mem_singleton_self
      (soname, host.realpath path))
    obtain ⟨value, last⟩ := Option.ne_none_iff_exists'.mp some
    obtain ⟨path', address', member', rfl⟩ := lastRead_found shaped readable last
    rw [last, readable.functional _ _ _ _ _ member member']

/-- What is stored was between the separators of a line. -/
theorem plain_of_read (identity : host.realpath = id)
    (read : (soname, value) ∈ lddReads host item) :
    LddPlain soname value := by
  obtain ⟨line, member, parsed⟩ := List.mem_filterMap.mp read
  obtain ⟨path, rfl, sonameStrip, pathStrip, sonameIn, pathIn, paren⟩ := lddLine_eq_some parsed
  obtain ⟨-, whole⟩ := mem_splitlines member
  rw [identity]
  exact ⟨sonameStrip, pathStrip, fun c inside => whole c (sonameIn.subset inside),
    fun c inside => whole c (pathIn.subset inside), paren⟩

/-- A line "not found" is read as the file of that name, where there is one. -/
theorem lastRead_notFound (shaped : (LddItem.notFound soname).Shaped host.pathExists)
    (present : host.pathExists "not found" = true) (identity : host.realpath = id)
    (before after : List LddItem) :
    lastRead host (before ++ .notFound soname :: after) (notFoundKey soname) =
      (lastRead host after (notFoundKey soname)).or (some "not found") := by
  rw [lastRead_append, lastRead_cons, lddReads_notFound shaped, if_pos present, identity]
  simp [single, Paging.lastAt]

/-- If the map does not send the key to the file that is named "not found", a later line has it. -/
theorem found_later {items : List LddItem} (shaped : ∀ item ∈ items, item.Shaped host.pathExists)
    (present : host.pathExists "not found" = true) (identity : host.realpath = id)
    (plain : ∀ soname path address, .found soname path address ∈ items → LddPlain soname path)
    (split : items = before ++ .notFound soname :: after)
    (stored : lastRead host items (notFoundKey soname) ≠ some "not found") :
    ∃ path address, .found (notFoundKey soname) path address ∈ after := by
  subst split
  rw [lastRead_notFound (shaped (.notFound soname) (by simp)) present identity] at stored
  cases later : lastRead host after (notFoundKey soname) with
  | none =>
    rw [later] at stored
    exact absurd rfl stored
  | some value =>
    rw [later, Option.some_or] at stored
    obtain ⟨item, member, entry⟩ := lastRead_mem later
    have inside : item ∈ before ++ .notFound soname :: after := by simp [member]
    cases item with
    | found s path address =>
      rw [lddReads_found (plain s path address inside) (shaped _ inside), List.mem_singleton,
        Prod.mk.injEq] at entry
      rw [entry.1]
      exact ⟨path, address, member⟩
    | notFound s =>
      rw [lddReads_notFound (shaped _ inside), if_pos present, List.mem_singleton, identity,
        Prod.mk.injEq] at entry
      exact absurd (congrArg some entry.2) stored
    | other text =>
      rw [lddReads_other (shaped _ inside)] at entry
      cases entry

theorem readable_of_readBack (shaped : ∀ item ∈ items, item.Shaped host.pathExists)
    (identity : host.realpath = id)
    {resolved : Dict String} (found : ∀ key, resolved.lookup key = lastRead host items key)
    (readBack : ReadBack host.realpath items resolved) : LddReadable host.pathExists items := by
  have read (soname path : String) (address : List (Fin 16))
      (member : .found soname path address ∈ items) : lastRead host items soname = some path := by
    rw [← found, readBack]
    exact ⟨path, address, member, by rw [identity]; rfl⟩
  have plain (soname path : String) (address : List (Fin 16))
      (member : .found soname path address ∈ items) : LddPlain soname path := by
    obtain ⟨item, -, entry⟩ := lastRead_mem (read soname path address member)
    exact plain_of_read identity entry
  refine ⟨plain, fun soname path address path' address' first second => ?_,
    fun present before soname after split => ?_⟩
  · have same := (read soname path address first).symm.trans (read soname path' address' second)
    exact Option.some.inj same
  · refine found_later shaped present identity plain split fun last => ?_
    rw [← found, readBack] at last
    obtain ⟨path, address, member, real⟩ := last
    rw [identity] at real
    obtain rfl : path = "not found" := real
    exact absurd (shaped _ member).2.1 (by decide)

/-- `_ldd_map` reads back what `ldd` prints, whatever the real paths are. -/
theorem lddMap_readBack_iff (host : Host) (binary : String) (items : List LddItem)
    (shaped : ∀ item ∈ items, item.Shaped host.pathExists) :
    (∀ realpath, ∃ resolved, lddMap (host.printing realpath items) binary = .ok resolved ∧
      ReadBack realpath items resolved) ↔ LddReadable host.pathExists items := by
  have prints (realpath : String → String) :
      (host.printing realpath items).ldd binary = .ok (Py.splitlines (lddStdout items)) := rfl
  have same (realpath : String → String) :
      ∀ item ∈ items, item.Shaped (host.printing realpath items).pathExists := shaped
  constructor
  · intro readBack
    obtain ⟨resolved, ran, back⟩ := readBack id
    obtain ⟨resolved', ran', found⟩ := lddMap_printed (prints id)
    cases ran.symm.trans ran'
    exact @readable_of_readBack items (host.printing id items) (same id) rfl resolved found back
  · intro readable realpath
    obtain ⟨resolved, ran, found⟩ := lddMap_printed (prints realpath)
    exact ⟨resolved, ran, readBack_of_readable (same realpath) readable found⟩

/-- A host on which the files of a list exist. -/
def hostWith (paths : List String) : Host where
  files := fun _ => none
  pathExists := (· ∈ paths)
  realpath := id
  ldd := fun _ => .error .osError
  lief := fun _ => none

theorem lddMap_readBack_iff_libc :
    (∀ realpath, ∃ resolved,
      lddMap ((hostWith ["/lib/libc.so.6"]).printing realpath [.other "\tlinux-vdso.so.1 (0x7ffd)",
        .notFound "libm.so.6", .found "libc.so.6" "/lib/libc.so.6" [7, 15, 0, 0]]) "/bin/app" =
          .ok resolved ∧
      ReadBack realpath [.other "\tlinux-vdso.so.1 (0x7ffd)",
        .notFound "libm.so.6", .found "libc.so.6" "/lib/libc.so.6" [7, 15, 0, 0]] resolved) ↔
      LddReadable (hostWith ["/lib/libc.so.6"]).pathExists [.other "\tlinux-vdso.so.1 (0x7ffd)",
        .notFound "libm.so.6", .found "libc.so.6" "/lib/libc.so.6" [7, 15, 0, 0]] := by
  refine lddMap_readBack_iff (hostWith ["/lib/libc.so.6"]) "/bin/app" _ ?_
  simp only [List.forall_mem_cons, LddItem.Shaped]
  exact ⟨by decide, by decide, by decide, nofun⟩

/-- The directory `a (b)` exists, its library is not in the map. -/
theorem lddMap_paren_loses :
    (LddItem.found "libm.so.6" "/opt/a (b)/libm.so.6" [7, 15]).Shaped
    (hostWith ["/opt/a (b)/libm.so.6"]).pathExists ∧
    Py.strip "libm.so.6".toList = "libm.so.6".toList ∧
    Py.strip "/opt/a (b)/libm.so.6".toList = "/opt/a (b)/libm.so.6".toList ∧
    ∃ resolved, lddMap ((hostWith ["/opt/a (b)/libm.so.6"]).printing id
        [.found "libm.so.6" "/opt/a (b)/libm.so.6" [7, 15]]) "/bin/app" = .ok resolved ∧
      resolved.lookup "libm.so.6" = none ∧
      ¬ ReadBack id [.found "libm.so.6" "/opt/a (b)/libm.so.6" [7, 15]] resolved := by
  refine ⟨⟨by decide, by decide, by decide⟩, by decide, by decide, ∅, rfl, rfl, fun readBack => ?_⟩
  have missed := (readBack "libm.so.6" "/opt/a (b)/libm.so.6").mpr ⟨_, _, List.mem_cons_self, rfl⟩
  cases missed

end SelfDb

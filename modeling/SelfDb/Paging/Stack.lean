import SelfDb.Binary.LittleEndian
import SelfDb.Paging.Layers

/-! The stack that a new process starts on: data that is pushed downwards, and
below it the vector of words that points to the data. What is laid out is read
back by the decoder of the layout. -/
namespace Paging
open Binary

/-- A string of C: its bytes, none of which ends it. -/
structure CString where
  bytes : List UInt8
  unbroken : 0 ∉ bytes
  deriving DecidableEq

namespace CString

/-- The string with its terminator. -/
def stored (str : CString) : List UInt8 := str.bytes ++ [0]

theorem stored_length (str : CString) : str.stored.length = str.bytes.length + 1 := by
  rw [stored, List.length_append, List.length_singleton]

end CString

/-- The value of an address in the 16 bytes at or below it. -/
def align16 (a : Nat) : Nat := a - a % 16

theorem align16_le (a : Nat) : align16 a ≤ a := Nat.sub_le _ _

theorem align16_mod (a : Nat) : align16 a % 16 = 0 := by
  rw [align16]
  omega

theorem le_align16 (aligned : low % 16 = 0) (le : low ≤ a) : low ≤ align16 a := by
  rw [align16]
  omega

/-! Stores at falling addresses, and words at rising ones. -/

def dataSize (items : List (List UInt8)) : Nat := (items.map List.length).sum

theorem dataSize_cons (item : List UInt8) (rest : List (List UInt8)) :
    dataSize (item :: rest) = item.length + dataSize rest := rfl

theorem dataSize_append (first second : List (List UInt8)) :
    dataSize (first ++ second) = dataSize first + dataSize second := by
  rw [dataSize, List.map_append, List.sum_append]
  rfl

theorem length_le_dataSize {item : List UInt8} {items : List (List UInt8)} (member : item ∈ items) :
    item.length ≤ dataSize items :=
  List.le_sum_of_mem (List.mem_map_of_mem member)

theorem CString.length_lt_dataSize {str : CString} {strs : List CString} (member : str ∈ strs) :
    str.bytes.length < dataSize (strs.map CString.stored) := by
  have short := length_le_dataSize (List.mem_map_of_mem (f := CString.stored) member)
  rwa [CString.stored_length] at short

/-- Each string takes at least its terminator. -/
theorem CString.length_le_dataSize (strs : List CString) :
    strs.length ≤ dataSize (strs.map CString.stored) := by
  induction strs with
  | nil => exact le_rfl
  | cons str rest ih =>
    rw [List.map_cons, dataSize_cons, List.length_cons, CString.stored_length]
    omega

theorem CString.dataSize_take_le (count : Nat) (strs : List CString) :
    dataSize ((strs.take count).map CString.stored) ≤ dataSize (strs.map CString.stored) := by
  have parts := dataSize_append ((strs.take count).map CString.stored)
    ((strs.drop count).map CString.stored)
  rw [← List.map_append, List.take_append_drop] at parts
  omega

/-- Each item directly below the one before. -/
def pushedStores : Nat → List (List UInt8) → List Store
  | _, [] => []
  | top, item :: rest => ⟨top - item.length, item⟩ :: pushedStores (top - item.length) rest

def wordStores : Nat → List Nat → List Store
  | _, [] => []
  | a, word :: rest => ⟨a, leBytes 8 word⟩ :: wordStores (a + 8) rest

namespace Store

/-- The bytes are at addresses from `low` to below `high`. -/
def Within (low high : Nat) (w : Store) : Prop := low ≤ w.dest ∧ w.dest + w.bytes.length ≤ high

/-- Neither reaches into the other. -/
def Apart (v w : Store) : Prop := v.dest + v.bytes.length ≤ w.dest ∨
    w.dest + w.bytes.length ≤ v.dest

theorem Within.mono {w : Store} (within : w.Within low high) (lower : low' ≤ low)
    (higher : high ≤ high') :
    w.Within low' high' :=
  ⟨lower.trans within.1, within.2.trans higher⟩

theorem Within.reaches {w : Store} (within : w.Within 0 (2 ^ 64)) (reaches : w.byteAt a ≠ none) :
    w.dest ≤ wrap a ∧ wrap a < w.dest + w.bytes.length := by
  have inside := within.2
  rw [byteAt, ne_eq, List.getElem?_eq_none_iff] at reaches
  simp only [sub64, wrap] at reaches ⊢
  omega

theorem Apart.exclusive {v w : Store} (apart : v.Apart w) (withinV : v.Within 0 (2 ^ 64))
    (withinW : w.Within 0 (2 ^ 64)) : Exclusive v.byteAt w.byteAt := by
  intro a
  by_contra both
  rw [not_or] at both
  have inV := withinV.reaches both.1
  have inW := withinW.reaches both.2
  rw [Apart] at apart
  omega

end Store

theorem pushedStores_within {items : List (List UInt8)} (room : dataSize items ≤ top) :
    ∀ w ∈ pushedStores top items, w.Within (top - dataSize items) top := by
  induction items generalizing top with
  | nil => simp [pushedStores]
  | cons item rest ih =>
    rw [dataSize_cons] at room ⊢
    rw [pushedStores, List.forall_mem_cons]
    have low : top - (item.length + dataSize rest) ≤ top - item.length := by omega
    have high : top - item.length + item.length ≤ top := by omega
    exact ⟨⟨low, high⟩, fun w member => (ih (by omega) w member).mono (by omega) (by omega)⟩

theorem wordStores_within (a : Nat) (words : List Nat) :
    ∀ w ∈ wordStores a words, w.Within a (a + 8 * words.length) := by
  induction words generalizing a with
  | nil => simp [wordStores]
  | cons word rest ih =>
    rw [wordStores, List.forall_mem_cons, List.length_cons]
    have high : a + (leBytes 8 word).length ≤ a + 8 * (rest.length + 1) := by
      rw [leBytes_length]
      omega
    exact ⟨⟨le_refl a, high⟩, fun w member => (ih (a + 8) w member).mono (by omega) (by omega)⟩

theorem pushedStores_apart {items : List (List UInt8)} (room : dataSize items ≤ top) :
    (pushedStores top items).Pairwise Store.Apart := by
  induction items generalizing top with
  | nil => exact .nil
  | cons item rest ih =>
    rw [dataSize_cons] at room
    refine List.pairwise_cons.mpr ⟨fun w member => .inr ?_, ih (by omega)⟩
    exact (pushedStores_within (by omega) w member).2

theorem wordStores_apart (a : Nat) (words : List Nat) :
    (wordStores a words).Pairwise Store.Apart := by
  induction words generalizing a with
  | nil => exact .nil
  | cons word rest ih =>
    refine List.pairwise_cons.mpr ⟨fun w member => .inl ?_, ih (a + 8)⟩
    rw [leBytes_length]
    exact (wordStores_within (a + 8) rest w member).1

/-- The stores of a stack: data pushed from `top`, and a vector at `sp`. -/
def stackStores (top : Nat) (items : List (List UInt8)) (sp : Nat) (words : List Nat) :
    List Store :=
  pushedStores top items ++ wordStores sp words

theorem pushedStores_append (top : Nat) (first second : List (List UInt8)) :
    pushedStores top (first ++ second) = pushedStores top first ++ pushedStores
      (top - dataSize first) second := by
  induction first generalizing top with
  | nil => rfl
  | cons item rest ih =>
    rw [List.cons_append, pushedStores, pushedStores, ih, List.cons_append, Nat.sub_sub,
      dataSize_cons]

theorem mem_wordStores {words : List Nat} {i word : Nat} (found : words[i]? = some word) :
    ⟨a + 8 * i, leBytes 8 word⟩ ∈ wordStores a words := by
  induction words generalizing i a with
  | nil => cases found
  | cons first rest ih =>
    cases i with
    | zero =>
      cases found
      exact List.mem_cons_self
    | succ i =>
      rw [show a + 8 * (i + 1) = a + 8 + 8 * i by omega]
      exact List.mem_cons_of_mem _ (ih found)

section Layout
variable {top sp : Nat} {items : List (List UInt8)} {words : List Nat}

theorem stackStores_within (below : sp + 8 * words.length + dataSize items ≤ top) :
    ∀ w ∈ stackStores top items sp words, w.Within sp top := by
  intro w member
  rcases List.mem_append.mp member with pushed | stored
  · exact (pushedStores_within (by omega) w pushed).mono (by omega) le_rfl
  · exact (wordStores_within sp words w stored).mono le_rfl (by omega)

/-- When the vector ends below the data, nothing of the stack is stored over. -/
theorem stackStores_exclusive (below : sp + 8 * words.length + dataSize items ≤ top)
    (small : top ≤ 2 ^ 64) :
    ((stackStores top items sp words).map Store.byteAt).Pairwise Exclusive := by
  have apart : (stackStores top items sp words).Pairwise Store.Apart := by
    refine List.pairwise_append.mpr ⟨pushedStores_apart (by omega), wordStores_apart sp words, ?_⟩
    intro v pushed w stored
    have high := (pushedStores_within (by omega) v pushed).1
    have low := (wordStores_within sp words w stored).2
    refine .inr ?_
    omega
  rw [List.pairwise_map]
  refine apart.imp_of_mem fun first second apart => ?_
  have within (w) (member : w ∈ stackStores top items sp words) : w.Within 0 (2 ^ 64) :=
    (stackStores_within below w member).mono (Nat.zero_le sp) small
  exact apart.exclusive (within _ first) (within _ second)

theorem stackStores_load (below : sp + 8 * words.length + dataSize items ≤ top)
    (small : top < 2 ^ 64)
    {w : Store} (member : w ∈ stackStores top items sp words) (mem : Memory) :
    ((stackStores top items sp words).foldl Memory.store mem).load w.dest w.bytes.length =
      w.bytes := by
  obtain ⟨_, high⟩ := stackStores_within below w member
  exact Memory.foldl_store_load (stackStores_exclusive below small.le) member (by omega)
    (by omega) mem

end Layout

/-! What a program finds at its stack pointer. -/

namespace Memory

def word (mem : Memory) (a : Nat) : Nat := (leValue (mem.load a 8)).toNat

/-- The bytes from an address on, up to the first NUL. -/
def cstring (mem : Memory) : Nat → Nat → Option (List UInt8)
  | 0, _ => none
  | limit + 1, a =>
    if mem.byte a = 0 then some [] else (mem.cstring limit (a + 1)).map fun bytes =>
      mem.byte a :: bytes

/-- The words from an address on, up to the first NULL, and the address behind it. -/
def pointers (mem : Memory) : Nat → Nat → Option (List Nat × Nat)
  | 0, _ => none
  | limit + 1, a =>
    if mem.word a = 0 then some ([], a + 8)
    else (mem.pointers limit (a + 8)).map fun found => (mem.word a :: found.1, found.2)

/-- The pairs from an address on, up to the first with type AT_NULL. -/
def auxiliary (mem : Memory) : Nat → Nat → Option (List (Nat × Nat))
  | 0, _ => none
  | limit + 1, a =>
    if mem.word a = 0 then some [(0, mem.word (a + 8))]
    else (mem.auxiliary limit (a + 16)).map fun pairs => (mem.word a, mem.word (a + 8)) :: pairs

end Memory

structure ProcessStack where
  argc : Nat
  argv : List (List UInt8)
  envp : List (List UInt8)
  auxv : List (Nat × Nat)
  deriving DecidableEq

/-- The System V layout: a count, as many pointers, NULL, pointers up to NULL, and pairs. -/
def Memory.processStack (mem : Memory) (limit sp : Nat) : Option ProcessStack := do
  let argc := mem.word sp
  let argp := (List.range argc).map fun i => mem.word (sp + 8 + 8 * i)
  if mem.word (sp + 8 + 8 * argc) ≠ 0 then none
  else do
    let (envpp, next) ← mem.pointers limit (sp + 8 + 8 * (argc + 1))
    let auxv ← mem.auxiliary limit next
    let argv ← argp.mapM (mem.cstring limit)
    let envp ← envpp.mapM (mem.cstring limit)
    return ⟨argc, argv, envp, auxv⟩

def auxiliaryWords (pairs : List (Nat × Nat)) : List Nat :=
  pairs.flatMap fun pair => [pair.1, pair.2]

/-- The words of the layout. -/
def stackVector (argc : Nat) (argp envpp : List Nat) (auxv : List (Nat × Nat)) : List Nat :=
  argc :: argp ++ 0 :: (envpp ++ [0] ++ auxiliaryWords auxv)

/-- The words are in memory one after the other. -/
def WordsAt (mem : Memory) (a : Nat) (words : List Nat) : Prop :=
  ∀ i word, words[i]? = some word → mem.word (a + 8 * i) = word

def BytesAt (mem : Memory) (a : Nat) (bytes : List UInt8) : Prop :=
  ∀ i b, bytes[i]? = some b → mem.byte (a + i) = b

theorem wordsAt_cons : WordsAt mem a (word :: rest) ↔ mem.word a = word ∧
    WordsAt mem (a + 8) rest := by
  constructor
  · intro all
    refine ⟨all 0 word rfl, fun i next found => ?_⟩
    rw [show a + 8 + 8 * i = a + 8 * (i + 1) by omega]
    exact all (i + 1) next found
  · rintro ⟨first, others⟩ i next found
    cases i with
    | zero => exact first.trans (Option.some.inj found)
    | succ i =>
      rw [show a + 8 * (i + 1) = a + 8 + 8 * i by omega]
      exact others i next found

theorem wordsAt_append : WordsAt mem a (first ++ second) ↔
    WordsAt mem a first ∧ WordsAt mem (a + 8 * first.length) second := by
  induction first generalizing a with
  | nil => simp [WordsAt]
  | cons word rest ih =>
    rw [List.cons_append, wordsAt_cons, wordsAt_cons, ih, and_assoc, List.length_cons,
      show a + 8 + 8 * rest.length = a + 8 * (rest.length + 1) by omega]

theorem WordsAt.range_map {words : List Nat} (all : WordsAt mem a words) :
    ((List.range words.length).map fun i => mem.word (a + 8 * i)) = words := by
  refine List.ext_getElem (by simp) fun i _ bound => ?_
  simpa using all i words[i] (List.getElem?_eq_getElem bound)

theorem pointers_eq (all : WordsAt mem a (ps ++ [0])) (nonnull : ∀ p ∈ ps, p ≠ 0)
    (enough : ps.length < limit) :
    mem.pointers limit a = some (ps, a + 8 * (ps.length + 1)) := by
  induction limit generalizing ps a with
  | zero => exact absurd enough (Nat.not_lt_zero _)
  | succ limit ih =>
    cases ps with
    | nil =>
      rw [Memory.pointers, if_pos (wordsAt_cons.mp all).1]
      rfl
    | cons p rest =>
      obtain ⟨here, others⟩ := wordsAt_cons.mp all
      rw [List.forall_mem_cons] at nonnull
      rw [List.length_cons] at enough ⊢
      have found := ih others nonnull.2 (by omega)
      rw [Memory.pointers, if_neg (here ▸ nonnull.1), found, here, Option.map_some,
        show a + 8 + 8 * (rest.length + 1) = a + 8 * (rest.length + 1 + 1) by omega]

theorem auxiliary_eq {pairs : List (Nat × Nat)} {last : Nat}
    (all : WordsAt mem a (auxiliaryWords (pairs ++ [(0, last)])))
    (typed : ∀ pair ∈ pairs, pair.1 ≠ 0) (enough : pairs.length < limit) :
    mem.auxiliary limit a = some (pairs ++ [(0, last)]) := by
  induction limit generalizing pairs a with
  | zero => exact absurd enough (Nat.not_lt_zero _)
  | succ limit ih =>
    cases pairs with
    | nil =>
      obtain ⟨here, others⟩ := wordsAt_cons.mp all
      rw [Memory.auxiliary, if_pos here, (wordsAt_cons.mp others).1]
      rfl
    | cons pair rest =>
      obtain ⟨here, others⟩ := wordsAt_cons.mp all
      obtain ⟨value, others⟩ := wordsAt_cons.mp others
      rw [List.forall_mem_cons] at typed
      rw [List.length_cons] at enough
      have found := ih others typed.2 (by omega)
      rw [Memory.auxiliary, if_neg (here ▸ typed.1), found, here, value]
      rfl

theorem bytesAt_of_load (loaded : mem.load a bytes.length = bytes)
    (small : a + bytes.length ≤ 2 ^ 64) :
    BytesAt mem a bytes := by
  intro i b found
  have bound := (List.getElem?_eq_some_iff.mp found).1
  rw [← (Memory.load_eq_iff mem a bytes).mp loaded i b found, wrap, Nat.mod_eq_of_lt (by omega)]

theorem bytesAt_cons : BytesAt mem a (b :: bytes) ↔ mem.byte a = b ∧ BytesAt mem (a + 1) bytes := by
  constructor
  · intro all
    refine ⟨all 0 b rfl, fun i next found => ?_⟩
    rw [show a + 1 + i = a + (i + 1) by omega]
    exact all (i + 1) next found
  · rintro ⟨first, others⟩ i next found
    cases i with
    | zero => exact first.trans (Option.some.inj found)
    | succ i =>
      rw [show a + (i + 1) = a + 1 + i by omega]
      exact others i next found

theorem cstring_eq {bytes : List UInt8} (stored : BytesAt mem a (bytes ++ [0]))
    (unbroken : 0 ∉ bytes) (enough : bytes.length < limit) : mem.cstring limit a = some bytes := by
  induction limit generalizing bytes a with
  | zero => exact absurd enough (Nat.not_lt_zero _)
  | succ limit ih =>
    cases bytes with
    | nil => rw [Memory.cstring, if_pos (bytesAt_cons.mp stored).1]
    | cons b rest =>
      obtain ⟨here, others⟩ := bytesAt_cons.mp stored
      rw [List.mem_cons, not_or] at unbroken
      rw [List.length_cons] at enough
      have found := ih others unbroken.2 (by omega)
      rw [Memory.cstring, if_neg (fun ends => unbroken.1 (ends.symm.trans here)), found, here]
      rfl

/-- Each pointer points to a copy of its string. -/
def StringsAt (mem : Memory) (pointers : List Nat) (strs : List CString) : Prop :=
  List.Forall₂ (fun a str => BytesAt mem a str.stored) pointers strs

theorem StringsAt.mapM_cstring (copied : StringsAt mem pointers strs)
    (enough : ∀ str ∈ strs, str.bytes.length < limit) :
    pointers.mapM (mem.cstring limit) = some (strs.map CString.bytes) := by
  induction copied with
  | nil => rfl
  | cons stored _ ih =>
    rw [List.forall_mem_cons] at enough
    rw [List.mapM_cons, cstring_eq stored (CString.unbroken _) enough.1, ih enough.2]
    rfl

/-- A vector and the strings it points to are read back by the decoder. -/
theorem processStack_eq {argv envp : List CString} {auxv : List (Nat × Nat)} {last : Nat}
    (vector : WordsAt mem sp (stackVector argp.length argp envpp (auxv ++ [(0, last)])))
    (args : StringsAt mem argp argv) (env : StringsAt mem envpp envp)
    (nonnull : ∀ p ∈ envpp, p ≠ 0) (typed : ∀ pair ∈ auxv, pair.1 ≠ 0)
    (enough : envpp.length < limit ∧ auxv.length < limit ∧
      ∀ str ∈ argv ++ envp, str.bytes.length < limit) :
    mem.processStack limit sp =
      some ⟨argv.length, argv.map CString.bytes, envp.map CString.bytes, auxv ++ [(0, last)]⟩ := by
  rw [stackVector, wordsAt_append, wordsAt_cons, wordsAt_cons, wordsAt_append,
    List.length_cons] at vector
  obtain ⟨⟨count, argWords⟩, ends, envWords, pairs⟩ := vector
  have counted : argp.length = argv.length := args.length_eq
  have behind : sp + 8 * (argp.length + 1) = sp + 8 + 8 * argp.length := by omega
  have next : sp + 8 * (argp.length + 1) + 8 = sp + 8 + 8 * (argp.length + 1) := by omega
  rw [behind] at ends
  rw [next] at envWords pairs
  have environment := pointers_eq envWords nonnull enough.1
  rw [List.length_append, List.length_singleton] at pairs
  have auxiliary := auxiliary_eq pairs typed enough.2.1
  simp only [List.forall_mem_append] at enough
  have arguments := args.mapM_cstring enough.2.2.1
  have strings := env.mapM_cstring enough.2.2.2
  rw [Memory.processStack]
  simp only [count, ends, environment, auxiliary, argWords.range_map, arguments, strings, ne_eq,
    not_true_eq_false, if_false, Option.bind_eq_bind, Option.bind_some]
  rw [counted]
  rfl

/-! What the stores of a stack leave. -/

theorem word_of_load {mem : Memory} {word : Nat} (loaded : mem.load a 8 = leBytes 8 word)
    (small : word < 2 ^ 64) : mem.word a = word := by
  rw [Memory.word, loaded, leValue_leBytes_of_lt (Int.natCast_nonneg word)
    (by exact_mod_cast small), Int.toNat_natCast]

theorem wordsAt_of_stores {words : List Nat}
    (loaded : ∀ w ∈ wordStores a words, mem.load w.dest w.bytes.length = w.bytes)
    (small : ∀ word ∈ words, word < 2 ^ 64) : WordsAt mem a words := by
  intro i word found
  have stored := loaded _ (mem_wordStores found)
  rw [leBytes_length] at stored
  exact word_of_load stored (small word (List.mem_of_getElem? found))

/-- Where the items are after they are pushed. -/
def pushedAt (top : Nat) (items : List (List UInt8)) : List Nat :=
  (pushedStores top items).map Store.dest

theorem bytesAt_of_stores {items : List (List UInt8)}
    (held : ∀ w ∈ pushedStores top items, BytesAt mem w.dest w.bytes) :
    List.Forall₂ (BytesAt mem) (pushedAt top items) items := by
  induction items generalizing top with
  | nil => exact .nil
  | cons item rest ih =>
    rw [pushedStores, List.forall_mem_cons] at held
    exact .cons held.1 (ih held.2)

theorem pushedAt_length (top : Nat) (items : List (List UInt8)) :
    (pushedAt top items).length = items.length := by
  induction items generalizing top with
  | nil => rfl
  | cons item rest ih => exact congrArg (· + 1) (ih (top - item.length))

theorem mem_pushedStores_of_zip {items : List (List UInt8)} {datum : Nat × List UInt8}
    (member : datum ∈ (pushedAt top items).zip items) :
    ⟨datum.1, datum.2⟩ ∈ pushedStores top items := by
  induction items generalizing top with
  | nil => cases member
  | cons item rest ih =>
    rw [pushedStores, List.mem_cons]
    rcases List.mem_cons.mp member with rfl | later
    · exact .inl rfl
    · exact .inr (ih later)

theorem pushedAt_within {items : List (List UInt8)} (room : dataSize items ≤ top)
    (member : a ∈ pushedAt top items) :
    top - dataSize items ≤ a ∧ a ≤ top := by
  obtain ⟨w, pushed, rfl⟩ := List.mem_map.mp member
  obtain ⟨low, high⟩ := pushedStores_within room w pushed
  omega

theorem auxiliaryWords_length (pairs : List (Nat × Nat)) :
    (auxiliaryWords pairs).length = 2 * pairs.length := by
  rw [auxiliaryWords, List.length_flatMap]
  simp [Nat.mul_comm]

section Layout
variable {top sp : Nat} {items : List (List UInt8)} {words : List Nat}

theorem stackStores_bytes (below : sp + 8 * words.length + dataSize items ≤ top)
    (small : top < 2 ^ 64) (mem : Memory) :
    ∀ w ∈ stackStores top items sp words,
      BytesAt ((stackStores top items sp words).foldl Memory.store mem) w.dest w.bytes := by
  intro w member
  refine bytesAt_of_load (stackStores_load below small member mem) ?_
  exact (stackStores_within below w member).2.trans small.le

theorem stackStores_words (below : sp + 8 * words.length + dataSize items ≤ top)
    (small : top < 2 ^ 64) (values : ∀ word ∈ words, word < 2 ^ 64) (mem : Memory) :
    WordsAt ((stackStores top items sp words).foldl Memory.store mem) sp words := by
  refine wordsAt_of_stores (fun w member => ?_) values
  exact stackStores_load below small (List.mem_append_right _ member) mem

end Layout

end Paging

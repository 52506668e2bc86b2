import SelfDb.Loader.InitialStack

/-! What both loaders hand to the program: the initial stack is read back by the
System V layout, whatever the number and the lengths of the strings. -/
namespace SelfDb
open Paging Binary

/-- Every byte of a range can be stored to. -/
def WritableIn (mem : Memory) (low high : Nat) : Prop := ∀ a, low ≤ a → a < high → mem.Writable a

theorem WritableIn.mono (writable : WritableIn mem low high) (lower : low ≤ low')
    (higher : high' ≤ high) :
    WritableIn mem low' high' :=
  fun a above below => writable a (lower.trans above) (below.trans_le higher)

theorem WritableIn.foldl_store (writable : WritableIn mem low high) (stores : List Store) :
    WritableIn (stores.foldl Memory.store mem) low high := by
  intro a above below
  rw [Memory.Writable, Memory.foldl_store_prot]
  exact writable a above below

theorem writableIn_mapAnonymous (page : base % pageSize = 0) (mem : Memory) :
    WritableIn (mem.mapAnonymous base size .readWrite) base (base + size) :=
  fun _ above below => Memory.mapAnonymous_writable page ⟨above, below⟩ mem

/-! Each part stores what the layout says. -/

theorem memcpy_writable {bytes : Bytes} (writable : WritableIn mem dest (dest + bytes.length))
    (room : dest + bytes.length ≤ 2 ^ 64) :
    memcpy mem dest bytes bytes.length = .ok (mem.store ⟨dest, bytes⟩) := by
  have allowed : bytes.length ≤ bytes.length ∧
      ∀ k < bytes.length, mem.Writable (wrap (dest + k)) := by
    refine ⟨le_rfl, fun k inside => ?_⟩
    rw [wrap, Nat.mod_eq_of_lt (by omega)]
    exact writable (dest + k) (by omega) (by omega)
  rw [memcpy, if_pos allowed, List.take_length]
  rfl

theorem pushBytes_ok (bytes : Bytes) (room : bytes.length ≤ p) (small : p < 2 ^ 64)
    (writable : WritableIn mem (p - bytes.length) p) :
    pushBytes mem p bytes = .ok (p - bytes.length, mem.store ⟨p - bytes.length, bytes⟩) := by
  have cursor : sub64 p bytes.length = p - bytes.length := by
    simp only [sub64, wrap]
    omega
  have copied : memcpy mem (p - bytes.length) bytes bytes.length =
      .ok (mem.store ⟨p - bytes.length, bytes⟩) :=
    memcpy_writable (writable.mono le_rfl (by omega)) (by omega)
  simp only [pushBytes, cursor, copied]
  rfl

/-- Three items, one below the other. -/
theorem pushBytes_three {first second third : Bytes} (room : dataSize [first, second, third] ≤ p)
    (small : p < 2 ^ 64) (writable : WritableIn mem (p - dataSize [first, second, third]) p) :
    ∃ a b c mem₁ mem₂, pushedAt p [first, second, third] = [a, b, c] ∧
      c = p - dataSize [first, second, third] ∧
      pushBytes mem p first = .ok (a, mem₁) ∧ pushBytes mem₁ a second = .ok (b, mem₂) ∧
      pushBytes mem₂ b third = .ok
        (c, (pushedStores p [first, second, third]).foldl Memory.store mem) := by
  have size : dataSize [first, second, third] =
      first.length + (second.length + (third.length + 0)) := rfl
  have one := pushBytes_ok first (by omega) small (writable.mono (by omega) le_rfl)
  have writable₁ : WritableIn (mem.store ⟨p - first.length, first⟩)
      (p - dataSize [first, second, third])
      (p - first.length) := (writable.foldl_store [⟨_, first⟩]).mono le_rfl (by omega)
  have two := pushBytes_ok second (by omega) (by omega) (writable₁.mono (by omega) le_rfl)
  have writable₂ : WritableIn ((mem.store ⟨p - first.length, first⟩).store
      ⟨p - first.length - second.length, second⟩)
      (p - first.length - second.length - third.length) (p - first.length - second.length) :=
    (writable₁.foldl_store [⟨_, second⟩]).mono (by omega) (by omega)
  have three := pushBytes_ok third (by omega) (by omega) writable₂
  have ends : p - first.length - second.length - third.length =
      p - dataSize [first, second, third] := by omega
  exact ⟨_, _, _, _, _, rfl, ends, one, two, three⟩

theorem pushStrs_ok {strs : List CString} (enough : count ≤ strs.length)
    (room : dataSize ((strs.take count).map CString.stored) ≤ p) (small : p < 2 ^ 64)
    (writable : WritableIn mem (p - dataSize ((strs.take count).map CString.stored)) p) :
    pushStrs count strs p mem = .ok (pushedAt p ((strs.take count).map CString.stored),
      p - dataSize ((strs.take count).map CString.stored),
      (pushedStores p ((strs.take count).map CString.stored)).foldl Memory.store mem) := by
  induction count generalizing strs p mem with
  | zero => rfl
  | succ count ih =>
    cases strs with
    | nil => exact absurd enough (Nat.not_succ_le_zero count)
    | cons str rest =>
      rw [List.length_cons] at enough
      simp only [List.take_succ_cons, List.map_cons] at room writable ⊢
      rw [dataSize_cons] at room writable ⊢
      have first : pushStr mem p str = .ok (p - str.stored.length,
          mem.store ⟨p - str.stored.length, str.stored⟩) :=
        pushBytes_ok str.stored (by omega) small (writable.mono (by omega) le_rfl)
      have left : WritableIn (mem.store ⟨p - str.stored.length, str.stored⟩)
          (p - str.stored.length - dataSize ((rest.take count).map CString.stored))
            (p - str.stored.length) :=
        (writable.foldl_store [⟨p - str.stored.length, str.stored⟩]).mono (by omega) (by omega)
      have others := ih (by omega) (by omega) (by omega) left
      rw [pushStrs, first]
      change (pushStrs count rest (p - str.stored.length) _ >>= _) = _
      rw [others, Nat.sub_sub]
      rfl

theorem pushStrs_all {strs : List CString} (room : dataSize (strs.map CString.stored) ≤ p)
    (small : p < 2 ^ 64) (writable : WritableIn mem (p - dataSize (strs.map CString.stored)) p) :
    pushStrs strs.length strs p mem = .ok
      (pushedAt p (strs.map CString.stored), p - dataSize (strs.map CString.stored),
        (pushedStores p (strs.map CString.stored)).foldl Memory.store mem) := by
  rw [← List.take_length (l := strs)] at room writable
  have pushed := pushStrs_ok le_rfl room small writable
  rwa [List.take_length] at pushed

theorem storeWords_ok {words : List Nat} (room : a + 8 * words.length < 2 ^ 64)
    (writable : WritableIn mem a (a + 8 * words.length)) :
    storeWords words a mem = .ok ((wordStores a words).foldl Memory.store mem) := by
  induction words generalizing a mem with
  | nil => rfl
  | cons word rest ih =>
    rw [List.length_cons] at room writable
    have stored : memcpy mem a (leBytes 8 word) 8 = .ok (mem.store ⟨a, leBytes 8 word⟩) := by
      have size := leBytes_length 8 (word : Int)
      have copied : memcpy mem a (leBytes 8 word) (leBytes 8 word).length =
          .ok (mem.store ⟨a, leBytes 8 word⟩) :=
        memcpy_writable (writable.mono le_rfl (by omega)) (by omega)
      rwa [size] at copied
    have next : wrap (a + 8) = a + 8 := Nat.mod_eq_of_lt (by omega)
    have left : WritableIn (mem.store ⟨a, leBytes 8 word⟩) (a + 8) (a + 8 + 8 * rest.length) :=
      (writable.foldl_store [⟨a, leBytes 8 word⟩]).mono (by omega) (by omega)
    rw [storeWords, stored]
    change storeWords rest (wrap (a + 8)) _ = _
    rw [next, ih (by omega) left]
    rfl

/-! The whole stack. -/

/-- The program finds its arguments, its environment and its pairs at `sp`, all of
it lies from `low` to `high`, and no word of the vector over data it points to.
`extras` are the data that the pairs point to. -/
structure Started (low high : Nat) (argv envp : List CString) (auxv : List (Nat × Nat))
    (extras : List (Nat × Bytes)) (sp : Nat) (mem : Memory) : Prop where
  aligned : sp % 16 = 0
  inside : low ≤ sp ∧ sp + 8 * vectorWords argv.length envp.length auxv.length ≤ high
  decoded : mem.processStack (high - low) sp =
    some ⟨argv.length, argv.map CString.bytes, envp.map CString.bytes, auxv⟩
  copied : ∀ datum ∈ extras, BytesAt mem datum.1 datum.2
  apart : ∃ argp envpp, WordsAt mem sp (stackVector argv.length argp envpp auxv) ∧
    StringsAt mem argp argv ∧ StringsAt mem envpp envp ∧
    ∀ datum ∈ argp.zip (argv.map CString.stored) ++ (envpp.zip (envp.map CString.stored) ++ extras),
      sp + 8 * vectorWords argv.length envp.length auxv.length ≤ datum.1 ∧
        datum.1 + datum.2.length ≤ high

theorem stackVector_length (argc : Nat) (argp envpp : List Nat) (auxv : List (Nat × Nat)) :
    (stackVector argc argp envpp auxv).length =
    vectorWords argp.length envpp.length auxv.length := by
  simp only [stackVector, vectorWords, List.length_append, List.length_cons, List.length_nil,
    auxiliaryWords_length]
  omega

/-- All data, in the order of pushing. -/
def stackData (argv envp : List CString) (extras : List Bytes) : List Bytes :=
  argv.map CString.stored ++ (envp.map CString.stored ++ extras)

/-- Where the data from the environment on are, and those behind it. -/
def envTop (high : Nat) (argv : List CString) : Nat := high - dataSize (argv.map CString.stored)

def extrasTop (high : Nat) (argv envp : List CString) : Nat :=
  envTop high argv - dataSize (envp.map CString.stored)

/-- The words of the vector, when the data are pushed from `high` on. -/
def startVector (high : Nat) (argv envp : List CString) (auxv : List (Nat × Nat)) : List Nat :=
  stackVector argv.length (pushedAt high (argv.map CString.stored))
    (pushedAt (envTop high argv) (envp.map CString.stored)) auxv

/-- The data of the pairs, with their addresses. -/
def startExtras (high : Nat) (argv envp : List CString) (extras : List Bytes) :
    List (Nat × Bytes) :=
  (pushedAt (extrasTop high argv envp) extras).zip extras

/-- A pair that is not the last one, in two words. -/
def Pair (pair : Nat × Nat) : Prop := pair.1 ≠ 0 ∧ pair.1 < 2 ^ 64 ∧ pair.2 < 2 ^ 64

theorem pair_wrap {type : Nat} (typed : type ≠ 0 ∧ type < 2 ^ 64) (value : Nat) :
    Pair (type, wrap value) :=
  ⟨typed.1, typed.2, wrap_lt value⟩

/-- The memory when the strings are pushed. -/
def startStrings (high : Nat) (argv envp : List CString) (mem : Memory) : Memory :=
  (pushedStores (envTop high argv) (envp.map CString.stored)).foldl Memory.store
    ((pushedStores high (argv.map CString.stored)).foldl Memory.store mem)

section Start
variable {argv envp : List CString} {extras : List Bytes} {auxv : List (Nat × Nat)} {low high sp :
    Nat}

theorem startVector_length (high : Nat) (argv envp : List CString) (auxv : List (Nat × Nat)) :
    (startVector high argv envp auxv).length = vectorWords argv.length envp.length auxv.length := by
  rw [startVector, stackVector_length, pushedAt_length, pushedAt_length, List.length_map,
    List.length_map]

theorem pushedStores_stackData (high : Nat) (argv envp : List CString) (extras : List Bytes) :
    pushedStores high (stackData argv envp extras) =
      pushedStores high (argv.map CString.stored) ++
        (pushedStores (envTop high argv) (envp.map CString.stored) ++
          pushedStores (extrasTop high argv envp) extras) := by
  rw [stackData, pushedStores_append, pushedStores_append, envTop, extrasTop, envTop]

theorem dataSize_stackData (argv envp : List CString) (extras : List Bytes) :
    dataSize (stackData argv envp extras) =
      dataSize (argv.map CString.stored) +
        (dataSize (envp.map CString.stored) + dataSize extras) := by
  rw [stackData, dataSize_append, dataSize_append]

theorem startVector_small
    (below : sp + 8 * vectorWords argv.length envp.length auxv.length + dataSize
      (stackData argv envp extras) ≤ high)
    (small : high < 2 ^ 64) (values : ∀ pair ∈ auxv, pair.1 < 2 ^ 64 ∧ pair.2 < 2 ^ 64) :
    ∀ word ∈ startVector high argv envp auxv, word < 2 ^ 64 := by
  rw [dataSize_stackData] at below
  intro word member
  simp only [startVector, stackVector, List.mem_append, List.mem_cons, List.not_mem_nil, or_false,
    auxiliaryWords, List.mem_flatMap] at member
  rcases member with (rfl | arg) | rfl | (env | rfl) | ⟨pair, listed, rfl | rfl⟩
  · rw [vectorWords] at below
    omega
  · have within := pushedAt_within (by omega) arg
    omega
  · decide
  · have within := pushedAt_within (by rw [envTop]; omega) env
    rw [envTop] at within
    omega
  · decide
  · exact (values pair listed).1
  · exact (values pair listed).2

/-- The data are where the stores put them, above the vector. -/
theorem startData_within
    (below : sp + 8 * vectorWords argv.length envp.length naux + dataSize
      (stackData argv envp extras) ≤ high) :
    ∀ datum ∈ (pushedAt high (argv.map CString.stored)).zip (argv.map CString.stored) ++
        ((pushedAt (envTop high argv) (envp.map CString.stored)).zip (envp.map CString.stored) ++
          startExtras high argv envp extras),
      (⟨datum.1, datum.2⟩ : Store) ∈ pushedStores high (stackData argv envp extras) ∧
        sp + 8 * vectorWords argv.length envp.length naux ≤ datum.1 ∧
          datum.1 + datum.2.length ≤ high := by
  intro datum member
  have pushed : (⟨datum.1, datum.2⟩ : Store) ∈ pushedStores high (stackData argv envp extras) := by
    rw [pushedStores_stackData, List.mem_append, List.mem_append]
    rcases List.mem_append.mp member with arg | other
    · exact .inl (mem_pushedStores_of_zip arg)
    · rcases List.mem_append.mp other with env | extra
      · exact .inr (.inl (mem_pushedStores_of_zip env))
      · exact .inr (.inr (mem_pushedStores_of_zip extra))
  obtain ⟨above, inside⟩ := pushedStores_within (by omega) _ pushed
  exact ⟨pushed, by simp only at above; omega, inside⟩

/-- Stores below `high` that leave room for the vector start the program, when the
pairs end with `AT_NULL` and no other has its type. -/
theorem started_of_stores
    (split : ∃ pairs, auxv = pairs ++ [(atNull, 0)] ∧ ∀ pair ∈ pairs, Pair pair)
    (aligned : sp % 16 = 0) (inside : low ≤ sp)
    (below : sp + 8 * vectorWords argv.length envp.length auxv.length + dataSize
      (stackData argv envp extras) ≤ high)
    (small : high < 2 ^ 64) (mem : Memory) :
    Started low high argv envp auxv (startExtras high argv envp extras) sp
      ((stackStores high (stackData argv envp extras) sp
        (startVector high argv envp auxv)).foldl Memory.store mem) := by
  obtain ⟨pairs, rfl, typed⟩ := split
  have room : sp + 8 * (startVector high argv envp (pairs ++ [(atNull, 0)])).length +
      dataSize (stackData argv envp extras) ≤ high := by
    rw [startVector_length]
    exact below
  have allSmall : ∀ pair ∈ pairs ++ [(atNull, 0)], pair.1 < 2 ^ 64 ∧ pair.2 < 2 ^ 64 := by
    rw [List.forall_mem_append, List.forall_mem_singleton]
    exact ⟨fun pair listed => (typed pair listed).2, by decide⟩
  have vector := stackStores_words room small (startVector_small below small allSmall) mem
  have held := stackStores_bytes room small mem
  generalize (stackStores _ _ _ _).foldl Memory.store mem = after at vector held
  simp only [stackStores, pushedStores_stackData, List.forall_mem_append] at held
  obtain ⟨⟨args, env, others⟩, _⟩ := held
  have argsAt : StringsAt after _ argv := List.forall₂_map_right_iff.mp (bytesAt_of_stores args)
  have envAt : StringsAt after _ envp := List.forall₂_map_right_iff.mp (bytesAt_of_stores env)
  have count : (pushedAt high (argv.map CString.stored)).length = argv.length := by
    rw [pushedAt_length, List.length_map]
  refine ⟨aligned, ⟨inside, by omega⟩, ?_, ?_, _, _, vector, argsAt, envAt, ?_⟩
  · rw [startVector, ← count] at vector
    rw [dataSize_stackData, List.length_append, List.length_singleton, vectorWords] at below
    refine processStack_eq vector argsAt envAt ?_ (fun pair listed => (typed pair listed).1)
      ⟨?_, ?_, ?_⟩
    · intro p pointer
      have within := pushedAt_within (by rw [envTop]; omega) pointer
      rw [envTop] at within
      omega
    · rw [pushedAt_length, List.length_map]
      omega
    · omega
    · rw [List.forall_mem_append]
      constructor
      · intro str member
        have short := CString.length_lt_dataSize member
        omega
      · intro str member
        have short := CString.length_lt_dataSize member
        omega
  · exact fun datum member => others _ (mem_pushedStores_of_zip member)
  · exact fun datum member => (startData_within below datum member).2

/-- Where the vector goes, below all data. -/
def startPointer (high : Nat) (data : List Bytes) (words : Nat) : Nat :=
  align16 (high - dataSize data - 8 * words)

/-- Below the end of some pages there is room for what fits in their size. -/
theorem startPointer_fits {data : List Bytes} {words : Nat} (page : low % pageSize = 0)
    (fits : dataSize data + 8 * words ≤ size) :
    startPointer (low + size) data words % 16 = 0 ∧ low ≤ startPointer (low + size) data words ∧
      startPointer (low + size) data words + 8 * words + dataSize data ≤ low + size := by
  have below := align16_le (low + size - dataSize data - 8 * words)
  have page16 : low % 16 = 0 := by
    simp only [pageSize] at page
    omega
  refine ⟨align16_mod _, le_align16 page16 (by omega), ?_⟩
  rw [startPointer]
  omega

end Start

/-- Both string loops, when there is room for the strings and what follows. -/
theorem strings_ok {argv envp : List CString} (enough : argc ≤ argv.length)
    (room : dataSize (stackData (argv.take argc) envp extras) ≤ high) (small : high < 2 ^ 64)
    (writable : WritableIn mem (high - dataSize (stackData (argv.take argc) envp extras)) high) :
    pushStrs argc argv high mem = .ok (pushedAt high ((argv.take argc).map CString.stored),
        envTop high (argv.take argc),
          (pushedStores high ((argv.take argc).map CString.stored)).foldl Memory.store mem) ∧
      pushStrs envp.length envp (envTop high (argv.take argc))
          ((pushedStores high ((argv.take argc).map CString.stored)).foldl Memory.store mem) =
        .ok (pushedAt (envTop high (argv.take argc)) (envp.map CString.stored),
          extrasTop high (argv.take argc) envp, startStrings high (argv.take argc) envp mem) := by
  rw [dataSize_stackData] at room writable
  refine ⟨pushStrs_ok enough (by omega) small (writable.mono (by omega) le_rfl), ?_⟩
  refine pushStrs_all ?_ ?_ ((writable.foldl_store _).mono ?_ ?_)
  · rw [envTop]
    omega
  · rw [envTop]
    omega
  · rw [envTop]
    omega
  · rw [envTop]
    omega

theorem WritableIn.startStrings (writable : WritableIn mem low high) (argv envp : List CString) :
    WritableIn (startStrings high argv envp mem) low high :=
  (writable.foldl_store _).foldl_store _

/-- Behind the strings is room for the extras, and they end where all data end. -/
theorem extrasTop_room {extras : List Bytes} (room : dataSize (stackData argv envp extras) ≤ high) :
    extrasTop high argv envp ≤ high ∧ dataSize extras ≤ extrasTop high argv envp ∧
      extrasTop high argv envp - dataSize extras = high - dataSize
        (stackData argv envp extras) := by
  rw [dataSize_stackData] at room ⊢
  rw [extrasTop, envTop]
  omega

/-- The stack pointer, as computed from the last cursor. -/
theorem align16_cursor {extras : List Bytes}
    (fits : dataSize (stackData argv envp extras) + 8 * words ≤ high)
    (small : high < 2 ^ 64) :
    align16 (sub64 (extrasTop high argv envp - dataSize extras) (8 * words)) =
      startPointer high (stackData argv envp extras) words := by
  obtain ⟨_, _, ends⟩ := extrasTop_room (Nat.le_of_add_right_le fits)
  rw [ends, startPointer, sub64, wrap]
  congr 1
  omega

/-- The vector is stored last, below the data. -/
theorem storeVector_ok {argv envp : List CString} {extras : List Bytes} {auxv : List (Nat × Nat)}
    (sp_eq : sp = startPointer high (stackData argv envp extras)
      (vectorWords argv.length envp.length auxv.length))
    (room : dataSize (stackData argv envp extras) + 8 * vectorWords argv.length envp.length
      auxv.length ≤ high)
    (small : high < 2 ^ 64) (writable : WritableIn mem sp high) :
    storeWords (startVector high argv envp auxv) sp
        ((pushedStores (extrasTop high argv envp) extras).foldl Memory.store
          (startStrings high argv envp mem)) =
      .ok ((stackStores high (stackData argv envp extras) sp
        (startVector high argv envp auxv)).foldl Memory.store mem) := by
  have below := align16_le (high - dataSize (stackData argv envp extras) -
    8 * vectorWords argv.length envp.length auxv.length)
  rw [← startPointer, ← sp_eq] at below
  rw [stackStores, pushedStores_stackData, List.foldl_append, List.foldl_append, List.foldl_append,
    ← startStrings]
  refine storeWords_ok ?_ (((writable.startStrings argv envp).foldl_store _).mono le_rfl ?_)
  · rw [startVector_length]
    omega
  · rw [startVector_length]
    omega

/-! What a run that gets through has done, whether or not all fits. -/

theorem pushBytes_inv (pushed : pushBytes mem p bytes = .ok (last, after)) :
    last = sub64 p bytes.length ∧ after.prot = mem.prot := by
  simp only [pushBytes, bind_eq_ok_iff] at pushed
  obtain ⟨_, copied, result⟩ := pushed
  cases result
  rw [memcpy_inv copied]
  exact ⟨rfl, rfl⟩

theorem pushStrs_prot {strs : List CString}
    (pushed : pushStrs count strs p mem = .ok (pointers, last, after)) :
    after.prot = mem.prot := by
  induction count generalizing strs p mem pointers with
  | zero =>
    cases pushed
    rfl
  | succ count ih =>
    cases strs with
    | nil => cases pushed
    | cons str rest =>
      simp only [pushStrs, bind_eq_ok_iff] at pushed
      obtain ⟨⟨next, mem₁⟩, first, ⟨others, last', mem₂⟩, later, result⟩ := pushed
      cases result
      exact (ih later).trans (pushBytes_inv first).2

theorem pushStrs_inv {strs : List CString}
    (pushed : pushStrs count strs p mem = .ok (pointers, last, after))
    (start : p < 2 ^ 64) (small : dataSize ((strs.take count).map CString.stored) < 2 ^ 64) :
    count ≤ strs.length ∧ pointers.length = count ∧ last < 2 ^ 64 ∧
      wrap (last + dataSize ((strs.take count).map CString.stored)) = p := by
  induction count generalizing strs p mem pointers with
  | zero =>
    cases pushed
    exact ⟨Nat.zero_le _, rfl, start, Nat.mod_eq_of_lt start⟩
  | succ count ih =>
    cases strs with
    | nil => cases pushed
    | cons str rest =>
      simp only [pushStrs, bind_eq_ok_iff] at pushed
      obtain ⟨⟨next, mem₁⟩, first, ⟨others, last', mem₂⟩, later, result⟩ := pushed
      cases result
      rw [List.take_succ_cons, List.map_cons, dataSize_cons] at small ⊢
      obtain ⟨rfl, _⟩ := pushBytes_inv first
      obtain ⟨enough, length, below, cursor⟩ := ih later (wrap_lt _) (by omega)
      refine ⟨Nat.succ_le_succ enough, congrArg (· + 1) length, below, ?_⟩
      simp only [wrap, sub64] at cursor ⊢
      omega

theorem storeWords_inv {words : List Nat} (stored : storeWords words a mem = .ok after)
    (room : a + 8 * words.length ≤ 2 ^ 64) :
    after = (wordStores a words).foldl Memory.store mem := by
  induction words generalizing a mem with
  | nil => exact (Except.ok.inj stored).symm
  | cons word rest ih =>
    simp only [storeWords, bind_eq_ok_iff] at stored
    obtain ⟨next, first, later⟩ := stored
    rw [List.length_cons] at room
    have whole : (leBytes 8 word).take 8 = leBytes 8 word :=
      List.take_of_length_le (leBytes_length 8 _).le
    rw [memcpy_inv first, whole] at later
    cases rest with
    | nil => exact (Except.ok.inj later).symm
    | cons second rest =>
      rw [List.length_cons] at room
      have next : wrap (a + 8) = a + 8 := Nat.mod_eq_of_lt (by omega)
      rw [next] at later
      exact ih later (by rw [List.length_cons]; omega)

theorem storeWords_prot {words : List Nat} (stored : storeWords words a mem = .ok after) :
    after.prot = mem.prot := by
  induction words generalizing a mem with
  | nil =>
    cases stored
    rfl
  | cons word rest ih =>
    simp only [storeWords, bind_eq_ok_iff] at stored
    obtain ⟨next, first, later⟩ := stored
    rw [ih later, memcpy_inv first, Memory.store_prot]

/-- The first word of a vector that does not wrap. -/
theorem storeWords_first (stored : storeWords (word :: rest) sp mem = .ok after)
    (small : word < 2 ^ 64)
    (room : sp + 8 * (rest.length + 1) < 2 ^ 64) : after.word sp = word := by
  rw [storeWords_inv stored room.le]
  have member : ⟨sp, leBytes 8 word⟩ ∈ stackStores (sp + 8 * (rest.length + 1)) [] sp
      (word :: rest) :=
    List.mem_cons_self
  have below : sp + 8 * (word :: rest).length + dataSize [] ≤ sp + 8 * (rest.length + 1) := le_rfl
  have loaded := stackStores_load below room member mem
  rw [leBytes_length] at loaded
  exact word_of_load loaded small

end SelfDb

import SelfDb.Paging.Memory

/-! Address spaces that are built by mapping over what was mapped before, and
by stores. What an address holds in the end comes from the last one that reaches it. -/
namespace Paging

section Patches
variable {κ β : Type}

/-- The value of the last patch that reaches a key. -/
def lastAt : List (κ → Option β) → κ → Option β
  | [], _ => none
  | p :: ps, a => (lastAt ps a).or (p a)

theorem lastAt_append (first second : List (κ → Option β)) (a : κ) :
    lastAt (first ++ second) a = (lastAt second a).or (lastAt first a) := by
  induction first with
  | nil => simp [lastAt]
  | cons p ps ih => simp only [List.cons_append, lastAt, ih, Option.or_assoc]

theorem lastAt_eq_none_iff (ps : List (κ → Option β)) (a : κ) :
    lastAt ps a = none ↔ ∀ p ∈ ps, p a = none := by
  induction ps with
  | nil => simp [lastAt]
  | cons p ps ih => simp [lastAt, ih, and_comm]

/-- A store in which each step patches what is found. -/
theorem lastAt_foldl {σ α : Type} {find : σ → κ → Option β} {step : σ → α → σ}
    {patch : α → κ → Option β}
    (patched : ∀ s x a, find (step s x) a = (patch x a).or (find s a)) (xs : List α) (s : σ)
    (a : κ) :
    find (xs.foldl step s) a = (lastAt (xs.map patch) a).or (find s a) := by
  induction xs generalizing s with
  | nil => rfl
  | cons x rest ih => rw [List.foldl_cons, ih, patched, List.map_cons, lastAt, Option.or_assoc]

/-- Two lists of patches that agree at a key each. -/
theorem lastAt_map_congr {κ' α : Type} {f : α → κ → Option β} {g : α → κ' → Option β} {xs : List α}
    {a : κ} {b : κ'}
    (same : ∀ x ∈ xs, f x a = g x b) : lastAt (xs.map f) a = lastAt (xs.map g) b := by
  induction xs with
  | nil => rfl
  | cons x rest ih =>
    rw [List.forall_mem_cons] at same
    rw [List.map_cons, List.map_cons, lastAt, lastAt, same.1, ih same.2]

/-- What is found is the value of a patch after which none reaches the key. -/
theorem lastAt_eq_some_iff (ps : List (κ → Option β)) (a : κ) (b : β) :
    lastAt ps a = some b ↔
      ∃ before p after, ps = before ++ p :: after ∧ p a = some b ∧ ∀ q ∈ after, q a = none := by
  constructor
  · intro found
    induction ps with
    | nil => cases found
    | cons p ps ih =>
      rw [lastAt, Option.or_eq_some_iff] at found
      rcases found with later | ⟨none, here⟩
      · obtain ⟨before, q, after, rfl, reaches, last⟩ := ih later
        exact ⟨p :: before, q, after, rfl, reaches, last⟩
      · exact ⟨[], p, ps, rfl, here, (lastAt_eq_none_iff ps a).mp none⟩
  · rintro ⟨before, p, after, rfl, reaches, last⟩
    rw [lastAt_append, lastAt, (lastAt_eq_none_iff after a).mpr last, reaches]
    rfl

/-- No key is reached by both patches. -/
def Exclusive (p q : κ → Option β) : Prop := ∀ a, p a = none ∨ q a = none

theorem Exclusive.symm {p q : κ → Option β} (apart : Exclusive p q) : Exclusive q p :=
  fun a => (apart a).symm

/-- Among exclusive patches any one that reaches the key decides. -/
theorem lastAt_of_exclusive {ps : List (κ → Option β)} (apart : ps.Pairwise Exclusive) (a : κ)
    (b : β) :
    lastAt ps a = some b ↔ ∃ p ∈ ps, p a = some b := by
  rw [lastAt_eq_some_iff]
  constructor
  · rintro ⟨before, p, after, rfl, reaches, _⟩
    exact ⟨p, List.mem_append_right _ List.mem_cons_self, reaches⟩
  · rintro ⟨p, member, reaches⟩
    obtain ⟨before, after, rfl⟩ := List.append_of_mem member
    refine ⟨before, p, after, rfl, reaches, fun q later => ?_⟩
    have others := (List.pairwise_cons.mp (List.pairwise_append.mp apart).2.1).1 q later a
    rw [reaches] at others
    exact others.resolve_left (Option.some_ne_none b)

theorem lastAt_perm {ps qs : List (κ → Option β)} (perm : ps.Perm qs)
    (apart : ps.Pairwise Exclusive) :
    lastAt ps = lastAt qs := by
  funext a
  apply Option.ext
  intro b
  have apart' : qs.Pairwise Exclusive := perm.pairwise apart Exclusive.symm
  rw [lastAt_of_exclusive apart, lastAt_of_exclusive apart']
  simp only [perm.mem_iff]

end Patches

/-- Bytes stored at `dest` and the following addresses, which may wrap. -/
structure Store where
  dest : Nat
  bytes : List UInt8

def Store.byteAt (w : Store) (a : Nat) : Option UInt8 := w.bytes[sub64 a w.dest]?

/-- Fresh pages of a span, and a content that is copied into them. -/
structure Layer where
  start : Nat
  length : Nat
  prot : Prot
  content : Store

namespace Layer

def byteAt (layer : Layer) (a : Nat) : Option UInt8 :=
  (layer.content.byteAt a).or (if InSpan layer.start layer.length a then some 0 else none)

/-- The page begins in the span. -/
def OnPage (layer : Layer) (page : Nat) : Prop := InSpan layer.start layer.length (page * pageSize)

instance (layer : Layer) (page : Nat) : Decidable (layer.OnPage page) :=
  inferInstanceAs (Decidable (InSpan _ _ _))

def protAt (layer : Layer) (page : Nat) : Option Prot :=
  if layer.OnPage page then some layer.prot else none

def PagesApart (first second : Layer) : Prop := ∀ page, ¬ (first.OnPage page ∧ second.OnPage page)

theorem PagesApart.exclusive {first second : Layer} (apart : first.PagesApart second) :
    Exclusive first.protAt second.protAt := by
  intro page
  rcases not_and_or.mp (apart page) with off | off
  · exact .inl (if_neg off)
  · exact .inr (if_neg off)

end Layer

namespace Memory

def store (mem : Memory) (w : Store) : Memory := mem.copy w.dest w.bytes

def lay (mem : Memory) (layer : Layer) : Memory :=
  (mem.mapAnonymous layer.start layer.length layer.prot).store layer.content

theorem store_byte (mem : Memory) (w : Store) (a : Nat) :
    (mem.store w).byte a = (w.byteAt a).getD (mem.byte a) := rfl

@[simp] theorem store_prot (mem : Memory) (w : Store) : (mem.store w).prot = mem.prot := rfl

theorem lay_byte (mem : Memory) (layer : Layer) (a : Nat) :
    (mem.lay layer).byte a = (layer.byteAt a).getD (mem.byte a) := by
  simp only [lay, store_byte, mapAnonymous, Layer.byteAt]
  cases layer.content.byteAt a <;> [split; skip] <;> rfl

theorem lay_prot (mem : Memory) (layer : Layer) (page : Nat) :
    (mem.lay layer).prot page = (layer.protAt page).or (mem.prot page) := by
  by_cases on : layer.OnPage page
  · rw [Layer.protAt, if_pos on, Option.some_or]
    exact if_pos on
  · rw [Layer.protAt, if_neg on, Option.none_or]
    exact if_neg on

theorem foldl_store_byte (mem : Memory) (stores : List Store) (a : Nat) :
    (stores.foldl store mem).byte a = (lastAt (stores.map Store.byteAt) a).getD (mem.byte a) := by
  induction stores generalizing mem with
  | nil => rfl
  | cons w rest ih =>
    rw [List.foldl_cons, ih, store_byte, List.map_cons, lastAt, Option.getD_or]

@[simp] theorem foldl_store_prot (mem : Memory) (stores : List Store) :
    (stores.foldl store mem).prot = mem.prot := by
  induction stores generalizing mem with
  | nil => rfl
  | cons w rest ih => rw [List.foldl_cons, ih, store_prot]

theorem foldl_lay_byte (mem : Memory) (layers : List Layer) (a : Nat) :
    (layers.foldl lay mem).byte a = (lastAt (layers.map Layer.byteAt) a).getD (mem.byte a) := by
  induction layers generalizing mem with
  | nil => rfl
  | cons layer rest ih =>
    rw [List.foldl_cons, ih, lay_byte, List.map_cons, lastAt, Option.getD_or]

theorem foldl_lay_prot (mem : Memory) (layers : List Layer) (page : Nat) :
    (layers.foldl lay mem).prot page = (lastAt (layers.map Layer.protAt) page).or
    (mem.prot page) := by
  induction layers generalizing mem with
  | nil => rfl
  | cons layer rest ih =>
    rw [List.foldl_cons, ih, lay_prot, List.map_cons, lastAt, Option.or_assoc]

/-- Mapping over a page leaves it mapped. -/
theorem foldl_lay_mapped (mem : Memory) (layers : List Layer) (page : Nat) :
    ((layers.foldl lay mem).prot page).isSome ↔
      (mem.prot page).isSome ∨ ∃ layer ∈ layers, layer.OnPage page := by
  induction layers generalizing mem with
  | nil => simp
  | cons layer rest ih =>
    rw [List.foldl_cons, ih, lay_prot, Layer.protAt, List.exists_mem_cons_iff]
    split <;> simp [*]

theorem ext_prot {first second : Memory} (byte : ∀ a, first.byte a = second.byte a)
    (prot : first.prot = second.prot) : first = second := by
  cases first
  cases second
  rw [Memory.mk.injEq]
  exact ⟨funext byte, prot⟩

/-- The bytes at `start` and the following addresses, which may wrap. -/
def load (mem : Memory) (start count : Nat) : List UInt8 :=
  (List.range count).map fun k => mem.byte (wrap (start + k))

theorem load_eq_iff (mem : Memory) (start : Nat) (bytes : List UInt8) :
    mem.load start bytes.length = bytes ↔ ∀ k b, bytes[k]? = some b →
      mem.byte (wrap (start + k)) = b := by
  constructor
  · intro same k b found
    have bound := (List.getElem?_eq_some_iff.mp found).1
    rw [← same, load, List.getElem?_map, List.getElem?_range bound] at found
    exact Option.some.inj found
  · intro all
    apply List.ext_getElem
    · simp [load]
    · intro k bound inside
      simpa [load] using all k _ (List.getElem?_eq_getElem inside)

/-- A store that no later one meets is found in the end. -/
theorem foldl_store_load_last {w : Store} (later : ∀ v ∈ after, Exclusive w.byteAt v.byteAt)
    (small : w.dest < 2 ^ 64) (short : w.bytes.length ≤ 2 ^ 64) (before : List Store)
    (mem : Memory) :
    ((before ++ w :: after).foldl store mem).load w.dest w.bytes.length = w.bytes := by
  rw [load_eq_iff]
  intro k b found
  have bound := (List.getElem?_eq_some_iff.mp found).1
  have back : sub64 (wrap (w.dest + k)) w.dest = k := by
    simp only [sub64, wrap]
    omega
  have here : w.byteAt (wrap (w.dest + k)) = some b := by rw [Store.byteAt, back, found]
  have decides : lastAt ((before ++ w :: after).map Store.byteAt) (wrap (w.dest + k)) = some b := by
    refine (lastAt_eq_some_iff _ _ _).mpr
      ⟨before.map Store.byteAt, w.byteAt, after.map Store.byteAt, by simp, here, ?_⟩
    rw [List.forall_mem_map]
    intro v member
    exact (later v member _).resolve_left fun none => Option.some_ne_none b (here.symm.trans none)
  rw [foldl_store_byte, decides]
  rfl

/-- A store apart from the others is found in the end. -/
theorem foldl_store_load {stores : List Store}
    (apart : (stores.map Store.byteAt).Pairwise Exclusive)
    {w : Store} (member : w ∈ stores) (small : w.dest < 2 ^ 64) (short : w.bytes.length ≤ 2 ^ 64)
    (mem : Memory) : (stores.foldl store mem).load w.dest w.bytes.length = w.bytes := by
  obtain ⟨before, after, rfl⟩ := List.append_of_mem member
  rw [List.pairwise_map] at apart
  exact foldl_store_load_last (List.pairwise_cons.mp (List.pairwise_append.mp apart).2.1).1 small
    short before mem

/-- Stores to addresses apart can be made in any order. -/
theorem foldl_store_perm {first second : List Store} (perm : first.Perm second)
    (apart : (first.map Store.byteAt).Pairwise Exclusive) (mem : Memory) :
    first.foldl store mem = second.foldl store mem := by
  apply ext_prot
  · intro a
    rw [foldl_store_byte, foldl_store_byte, lastAt_perm (perm.map _) apart]
  · rw [foldl_store_prot, foldl_store_prot]

end Memory

end Paging

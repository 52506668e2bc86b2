import SelfDb.Binary.Splice
import SelfDb.Database

/-! The Python operations the converters are written with: exceptions, slices
with clamped indices, and `struct.pack_into`, which refuses values outside the
width of their field. -/
namespace SelfDb
open Binary

inductive PyError where
  | valueError (message : String)
  | indexError
  | keyError (key : MetaKey)
  | typeError
  | structError
  | overflowError
  | unicodeDecodeError
  | memoryError
  | dataError
  | osError
  | attributeError
  | integrityError
  | operationalError
  deriving DecidableEq

def orRaise (error : PyError) : Option α → Except PyError α
  | some a => .ok a
  | none => .error error

namespace Py

/-- `if condition: raise error`. -/
def raiseIf (condition : Prop) [Decidable condition] (error : PyError) : Except PyError Unit :=
  if condition then .error error else .ok ()

/-- What counts as true of a value that `sqlite3` returns. -/
def Truth : Value → Prop
  | .null => False
  | .integer value => value ≠ 0
  | .real value => value ≠ 0
  | .text value => value ≠ ""
  | .blob bytes => bytes ≠ []

instance : DecidablePred Truth
  | .null => inferInstanceAs (Decidable False)
  | .integer value => inferInstanceAs (Decidable (value ≠ 0))
  | .real value => inferInstanceAs (Decidable (value ≠ 0))
  | .text value => inferInstanceAs (Decidable (value ≠ ""))
  | .blob bytes => inferInstanceAs (Decidable (bytes ≠ []))

def index (data : Bytes) (i : Nat) : Except PyError UInt8 :=
  match data[i]? with
  | some byte => .ok byte
  | none => .error .indexError

/-- A slice bound: negative bounds count from the end, all are clamped. -/
def bound (length : Nat) (i : Int) : Nat :=
  if i < 0 then (i + length).toNat else min i.toNat length

/-- `data[lo:hi]`. -/
def getSlice (data : Bytes) (lo hi : Int) : Bytes :=
  slice data (bound data.length lo) (bound data.length hi - bound data.length lo)

/-- `img[lo:hi] = content`: the slice is replaced, so a content of another
length changes the length of `img`. -/
def setSlice (img : Bytes) (lo hi : Int) (content : Bytes) : Bytes :=
  img.take (bound img.length lo) ++ content ++
    img.drop (max (bound img.length lo) (bound img.length hi))

def structPack (fields : List (Nat × Int)) : Except PyError Bytes :=
  if Representable fields then .ok (record fields) else .error .structError

/-- `struct.pack_into` once the record is packed; the offset is not negative. -/
def packInto (img : Bytes) (offset : Int) (packed : Bytes) : Except PyError Bytes :=
  if 0 ≤ offset ∧ offset + packed.length ≤ img.length then
    .ok (overwrite img ⟨offset.toNat, packed⟩)
  else .error .structError

@[simp] theorem raiseIf_eq_ok_iff (condition : Prop) [Decidable condition] (error : PyError)
    (u : Unit) :
    raiseIf condition error = .ok u ↔ ¬ condition := by
  by_cases holds : condition <;> simp [raiseIf, holds]

@[simp] theorem index_eq_ok_iff (data : Bytes) (i : Nat) (b : UInt8) :
    index data i = .ok b ↔ data[i]? = some b := by
  simp only [index]
  cases data[i]? <;> simp

@[simp] theorem structPack_eq_ok_iff (fields : List (Nat × Int)) (packed : Bytes) :
    structPack fields = .ok packed ↔ Representable fields ∧ packed = record fields := by
  by_cases fits : Representable fields <;> simp [structPack, fits, eq_comm]

@[simp] theorem packInto_eq_ok_iff (img : Bytes) (offset : Int) (packed result : Bytes) :
    packInto img offset packed = .ok result ↔
      (0 ≤ offset ∧ offset + packed.length ≤ img.length) ∧
        result = overwrite img ⟨offset.toNat, packed⟩ := by
  by_cases inside : 0 ≤ offset ∧ offset + packed.length ≤ img.length <;>
    simp [packInto, inside, eq_comm]

theorem getSlice_eq_slice (data : Bytes) {start count : Int} (hs : 0 ≤ start) (hc : 0 ≤ count) :
    getSlice data start (start + count) = slice data start.toNat count.toNat := by
  apply List.ext_getElem?
  intro k
  simp only [getSlice, bound, slice_get, if_neg (not_lt.mpr hs),
    if_neg (not_lt.mpr (add_nonneg hs hc))]
  by_cases inside : start.toNat + k < data.length
  · have left : min start.toNat data.length = start.toNat := by omega
    rw [left]
    have same : k < min (start + count).toNat data.length - start.toNat ↔ k < count.toNat := by
      omega
    simp only [same]
  · rw [List.getElem?_eq_none (show data.length ≤ start.toNat + k by omega)]
    have outside : ¬ k < min (start + count).toNat data.length - min start.toNat data.length := by
      omega
    rw [if_neg outside, ite_self]

/-- A slice assignment of the exact length inside the buffer is a plain write. -/
theorem setSlice_eq_overwrite {img content : Bytes} {start count : Int} (hs : 0 ≤ start)
    (exact : (content.length : Int) = count) (inside : start + count ≤ img.length) :
    setSlice img start (start + count) content = overwrite img ⟨start.toNat, content⟩ := by
  have left : bound img.length start = start.toNat := by
    rw [bound, if_neg (by omega)]
    omega
  have right : bound img.length (start + count) = start.toNat + content.length := by
    rw [bound, if_neg (by omega)]
    omega
  rw [setSlice, left, right, Nat.max_eq_right (by omega), overwrite]
  rfl

/-- Without negative bounds a slice assignment replaces a range. -/
theorem setSlice_eq_splice {img content : Bytes} {start count : Int} (low : 0 ≤ start)
    (size : 0 ≤ count) : setSlice img start (start + count) content =
      splice img ⟨start.toNat, count.toNat, content⟩ := by
  have left : bound img.length start = min start.toNat img.length := by
    rw [bound, if_neg (by omega)]
  have right : bound img.length (start + count) = min (start.toNat + count.toNat) img.length := by
    rw [bound, if_neg (by omega)]
    omega
  have take : img.take (min start.toNat img.length) = img.take start.toNat := by
    rw [← List.take_take, List.take_length]
  have drop : img.drop (min (start.toNat + count.toNat) img.length) =
      img.drop (start.toNat + count.toNat) := by
    rcases Nat.le_total (start.toNat + count.toNat) img.length with within | beyond
    · rw [Nat.min_eq_left within]
    · rw [Nat.min_eq_right beyond, List.drop_length, List.drop_eq_nil_of_le beyond]
  rw [setSlice, left, right, Nat.max_eq_right (by omega), take, drop, splice]

end Py

theorem bind_eq_ok_iff {x : Except ε α} {f : α → Except ε β} {b : β} :
    (x >>= f) = .ok b ↔ ∃ a, x = .ok a ∧ f a = .ok b := by
  cases x <;> simp [bind, Except.bind]

theorem ok_bind (a : α) (f : α → Except ε β) : ((.ok a : Except ε α) >>= f) = f a := rfl

theorem bind_error_of {x : Except ε α} {f : α → Except ε β} (raised : x = .error e) :
    (x >>= f) = .error e := by
  rw [raised]
  rfl

/-- Two continuations that agree on the result. -/
theorem bind_congr_ok {x : Except ε α} {f g : α → Except ε β} (same : ∀ a, x = .ok a → f a = g a) :
    (x >>= f) = (x >>= g) := by
  cases x with
  | error e => rfl
  | ok a => exact same a rfl

/-- Continuations whose results differ by a function. -/
theorem bind_eq_map_bind {x : Except ε α} {f : α → Except ε β} {g : α → Except ε γ} {h : β → γ}
    (same : ∀ a, x = .ok a → g a = (f a).map h) : (x >>= g) = (x >>= f).map h := by
  cases x with
  | error e => rfl
  | ok a => exact same a rfl

theorem map_bind_eq_map_bind {x : Except ε α} {p : α → α'} {f : α → Except ε β}
    {g : α' → Except ε γ} {h : β → γ} (same : ∀ a, x = .ok a → g (p a) = (f a).map h) :
    (x.map p >>= g) = (x >>= f).map h := by
  cases x with
  | error e => rfl
  | ok a => exact same a rfl

theorem map_eq_ok_iff {x : Except ε α} {f : α → β} {b : β} : x.map f = .ok b ↔ ∃ a, x = .ok a ∧
    f a = b := by
  cases x <;> simp [Except.map]

@[simp] theorem orRaise_eq_ok_iff (error : PyError) (answer : Option α) (a : α) :
    orRaise error answer = .ok a ↔ answer = some a := by
  cases answer <;> simp [orRaise]

/-- A loop that can raise keeps what each of its steps keeps. -/
theorem foldlM_preserves {f : σ → α → Except ε σ} {P : σ → Prop} {xs : List α}
    (step : ∀ s x t, x ∈ xs → P s → f s x = .ok t → P t) (start : P s)
    (ran : xs.foldlM f s = .ok out) : P out := by
  induction xs generalizing s with
  | nil =>
    cases ran
    exact start
  | cons x rest ih =>
    rw [List.foldlM_cons, bind_eq_ok_iff] at ran
    obtain ⟨next, first, later⟩ := ran
    exact ih (fun s y t member => step s y t (List.mem_cons_of_mem x member))
      (step s x next List.mem_cons_self start first) later

theorem foldlM_congr {f g : σ → α → Except ε σ} {xs : List α} (same : ∀ s, ∀ x ∈ xs, f s x = g s x)
    (s : σ) :
    xs.foldlM f s = xs.foldlM g s := by
  induction xs generalizing s with
  | nil => rfl
  | cons x rest ih =>
    rw [List.foldlM_cons, List.foldlM_cons, same s x List.mem_cons_self]
    exact congrArg _ (funext fun next => ih
      (fun s y member => same s y (List.mem_cons_of_mem x member)) next)

/-- A computation is run to see that its result has a property. -/
theorem exists_of_map_decide {run : Except ε α} {P : α → Prop} [DecidablePred P]
    (holds : run.map (fun a => decide (P a)) = .ok true) : ∃ a, run = .ok a ∧ P a := by
  obtain ⟨a, result, decided⟩ := map_eq_ok_iff.mp holds
  exact ⟨a, result, of_decide_eq_true decided⟩

theorem exists_of_isSome {run : Except ε α} (completes : run.toOption.isSome) :
    ∃ a, run = .ok a := by
  cases run with
  | error => cases completes
  | ok a => exact ⟨a, rfl⟩

theorem error_of_map {run : Except ε α} (stops : run.map (fun _ => ()) = .error e) :
    run = .error e := by
  cases run with
  | error other =>
    cases stops
    rfl
  | ok a => cases stops

theorem mapM_eq_ok_iff {f : α → Except ε β} {xs : List α} {ys : List β} :
    xs.mapM f = .ok ys ↔ xs.map f = ys.map .ok := by
  induction xs generalizing ys with
  | nil => cases ys <;> simp [pure, Except.pure]
  | cons x xs ih =>
    rw [List.mapM_cons]
    cases head : f x with
    | error e => cases ys <;> simp [bind, Except.bind, head]
    | ok y =>
      cases tail : xs.mapM f with
      | error e =>
        have none : ∀ zs : List β, xs.map f ≠ zs.map .ok := fun zs same => by
          rw [ih.mpr same] at tail
          cases tail
        cases ys with
        | nil => simp [bind, Except.bind]
        | cons z zs => simpa [bind, Except.bind, head] using fun _ => none zs
      | ok zs =>
        have same := ih.mp tail
        cases ys with
        | nil => simp [bind, Except.bind, pure, Except.pure]
        | cons z rest =>
          simp only [bind, Except.bind, pure, Except.pure, Except.ok.injEq, List.cons.injEq,
            List.map_cons, head, same]
          refine and_congr_right fun _ => ?_
          exact (List.map_injective_iff.mpr fun _ _ h => Except.ok.inj h).eq_iff.symm

end SelfDb

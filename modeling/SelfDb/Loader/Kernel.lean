import SelfDb.Loader.Process

/-! What is documented of the answers of a kernel, and kernels that answer so. -/
namespace SelfDb
open Paging

/-- `mmap` without an address: page-aligned, inside the address space, and over
pages that are not mapped. -/
structure Os.Fresh (os : Os) : Prop where
  aligned : ∀ {mem length base}, os.reserve mem length = some base → base % pageSize = 0
  room : ∀ {mem length base}, os.reserve mem length = some base → base + length ≤ 2 ^ 64
  unmapped : ∀ {mem length base page}, os.reserve mem length = some base →
    InSpan base length (page * pageSize) → mem.prot page = none

/-- `mmap` answers whole pages inside the address space, with and without MAP_FIXED. -/
structure Os.Paged (os : Os) : Prop where
  aligned : ∀ {mem length base}, os.reserve mem length = some base → base % pageSize = 0
  room : ∀ {mem length base}, os.reserve mem length = some base → base + length ≤ 2 ^ 64
  fixed : ∀ {mem start length}, os.grants mem start length = true → start + length ≤ 2 ^ 64

/-- The kernel changes the protection of pages that are mapped. -/
def Os.ProtectsMapped (os : Os) : Prop :=
  ∀ (mem : Memory) start length, (∀ a, InSpan start length a → (mem.prot (a / pageSize)).isSome) →
    os.protects mem start length = true

/-- A mapping of this size ends before the end of the address space. -/
def Os.Below (os : Os) (size : Nat) : Prop :=
  ∀ {mem base}, os.reserve mem size = some base → base + size < 2 ^ 64

/-- No page of a span is mapped. -/
def SpanFree (mem : Memory) (length base : Nat) : Prop :=
  base + length ≤ 2 ^ 64 ∧ ∀ i ∈ List.range (length / pageSize + 1),
    mem.prot (base / pageSize + i) = none

instance (mem : Memory) (length base : Nat) : Decidable (SpanFree mem length base) :=
  inferInstanceAs (Decidable (_ ∧ _))

/-- A kernel that takes the first of some places whose pages are all free. -/
def Os.lowest : Os where
  reserve mem length := ((List.range 64).map fun k => (k + 1) * 2 ^ 24).find?
    (SpanFree mem length ·)
  grants _ _ _ := true
  protects _ _ _ := true
  malloc _ := true

theorem Os.lowest_reserve (reserved : lowest.reserve mem length = some base) :
    base % pageSize = 0 ∧ SpanFree mem length base := by
  simp only [lowest] at reserved
  have free : SpanFree mem length base := by simpa using List.find?_some reserved
  obtain ⟨k, _, rfl⟩ := List.mem_map.mp (List.mem_of_find?_eq_some reserved)
  refine ⟨?_, free⟩
  simp only [pageSize]
  omega

theorem Os.lowest_fresh : lowest.Fresh where
  aligned reserved := (lowest_reserve reserved).1
  room reserved := (lowest_reserve reserved).2.1
  unmapped := by
    intro mem length base page reserved inside
    obtain ⟨aligned, _, free⟩ := lowest_reserve reserved
    have index : base / pageSize + (page - base / pageSize) = page ∧
        page - base / pageSize < length / pageSize + 1 := by
      simp only [InSpan, pageSize] at inside aligned ⊢
      omega
    rw [← index.1]
    exact free _ (List.mem_range.mpr index.2)

theorem Os.lowest_protects : lowest.ProtectsMapped := fun _ _ _ _ => rfl

theorem Os.lowest_below (small : size < 2 ^ 63) : lowest.Below size := by
  intro mem base reserved
  obtain ⟨k, listed, rfl⟩ := List.mem_map.mp (List.mem_of_find?_eq_some reserved)
  have bound := List.mem_range.mp listed
  omega

/-- As `lowest`, with MAP_FIXED inside the address space only. -/
def Os.bounded : Os := { lowest with grants := fun _ start length => start + length ≤ 2 ^ 64 }

theorem Os.bounded_paged : bounded.Paged where
  aligned reserved := (lowest_reserve reserved).1
  room reserved := (lowest_reserve reserved).2.1
  fixed granted := of_decide_eq_true granted

/-- As `lowest`, with MAP_FIXED where programs may be. -/
def Os.userSpace : Os :=
  { lowest with grants := fun _ start length => 0x10000 ≤ start ∧ start + length ≤ 2 ^ 47 }

theorem Os.userSpace_paged : userSpace.Paged where
  aligned reserved := (lowest_reserve reserved).1
  room reserved := (lowest_reserve reserved).2.1
  fixed granted := by
    have inside := of_decide_eq_true granted
    omega

end SelfDb

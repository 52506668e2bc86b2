import Mathlib.Data.List.Nodup
import Mathlib.Data.List.Perm.Basic

/-! Entries that are numbered in the order in which they came, and the rows that
belong to each of them. -/
namespace Registry

variable {α β γ : Type}

/-- The rows of all entries, each with the number of its entry. -/
def ownedRows (number : Nat) (rows : α → List β) (entries : List α) : List (Nat × β) :=
  (entries.zipIdx number).flatMap fun e => (rows e.1).map (Prod.mk e.2)

theorem ownedRows_append (number : Nat) (rows : α → List β) (entries more : List α) :
    ownedRows number rows (entries ++ more) =
      ownedRows number rows entries ++ ownedRows (number + entries.length) rows more := by
  rw [ownedRows, List.zipIdx_append, List.flatMap_append]
  rfl

theorem ownedRows_map (number : Nat) (rows : γ → List β) (f : α → γ) (entries : List α) :
    ownedRows number rows (entries.map f) = ownedRows number (fun e => rows (f e)) entries := by
  rw [ownedRows, List.zipIdx_map, List.flatMap_map]
  rfl

/-- The number of a row is that of an entry. -/
theorem ownedRows_owner (number : Nat) (rows : α → List β) (entries : List α) :
    ∀ p ∈ ownedRows number rows entries, ∃ e ∈ entries.zipIdx number, e.2 = p.1 := by
  simp only [ownedRows, List.forall_mem_flatMap, List.forall_mem_map]
  exact fun e member _ _ => ⟨e, member, rfl⟩

/-- Selecting by its number yields the rows of one entry. -/
theorem filter_ownedRows (number : Nat) (rows : α → List β) {entries : List α}
    (found : entries[k]? = some e) :
    ((ownedRows number rows entries).filter (·.1 = number + k)).map Prod.snd = rows e := by
  induction entries generalizing number k with
  | nil => cases found
  | cons x rest ih =>
    have split : ownedRows number rows (x :: rest) =
      (rows x).map (Prod.mk number) ++ ownedRows (number + 1) rows rest := rfl
    rw [split, List.filter_append, List.map_append]
    cases k with
    | zero =>
      cases found
      have later : (ownedRows (number + 1) rows rest).filter (·.1 = number + 0) = [] := by
        rw [List.filter_eq_nil_iff]
        intro p member
        obtain ⟨e, numbered, owner⟩ := ownedRows_owner _ rows rest p member
        have after := List.le_snd_of_mem_zipIdx numbered
        simp only [decide_eq_true_eq]
        omega
      rw [later, List.map_nil, List.append_nil]
      simp [List.filter_map, Function.comp_def]
    | succ k =>
      have own : ((rows x).map (Prod.mk number)).filter (·.1 = number + (k + 1)) = [] := by
        simp [List.filter_map, Function.comp_def]
      rw [own, List.map_nil, List.nil_append, ← ih (number + 1) found, Nat.add_right_comm]
      rfl

/-- The number of an entry among distinct ones. -/
theorem mem_zipIdx_iff_idxOf [DecidableEq α] {xs : List α} (distinct : xs.Nodup) (number : Nat)
    (p : α × Nat) :
    p ∈ xs.zipIdx number ↔ p.1 ∈ xs ∧ p.2 = number + xs.idxOf p.1 := by
  rw [List.mem_zipIdx_iff_le_and_getElem?_sub]
  constructor
  · rintro ⟨low, found⟩
    have listed := List.mem_of_getElem? found
    obtain ⟨bound, here⟩ := List.getElem?_eq_some_iff.mp found
    obtain ⟨bound', there⟩ := List.getElem?_eq_some_iff.mp (List.getElem?_idxOf listed)
    have same := distinct.getElem_inj_iff.mp (here.trans there.symm)
    exact ⟨listed, by omega⟩
  · rintro ⟨listed, place⟩
    rw [place, Nat.add_sub_cancel_left]
    exact ⟨Nat.le_add_right _ _, List.getElem?_idxOf listed⟩

/-- Distinct entries in another order are the same up to their numbers. -/
theorem exists_renumbering {xs ys : List α} (perm : xs.Perm ys) (distinct : xs.Nodup)
    (number : Nat) :
    ∃ f : Nat → Nat, (∀ p ∈ xs.zipIdx number, ∀ q ∈ xs.zipIdx number, f p.2 = f q.2 → p.2 = q.2) ∧
      ((xs.zipIdx number).map fun p => (p.1, f p.2)).Perm (ys.zipIdx number) := by
  classical
  have distinct' : ys.Nodup := perm.nodup_iff.mp distinct
  let f := fun n => ((xs[n - number]?).map fun x => number + ys.idxOf x).getD n
  have place : ∀ p ∈ xs.zipIdx number, f p.2 = number + ys.idxOf p.1 := by
    intro p member
    simp only [f, (List.mem_zipIdx_iff_le_and_getElem?_sub.mp member).2, Option.map_some,
      Option.getD_some]
  refine ⟨f, fun p left q right same => ?_, ?_⟩
  · obtain ⟨listed, number_p⟩ := (mem_zipIdx_iff_idxOf distinct number p).mp left
    obtain ⟨_, number_q⟩ := (mem_zipIdx_iff_idxOf distinct number q).mp right
    rw [place p left, place q right, Nat.add_left_cancel_iff,
      List.idxOf_inj (perm.mem_iff.mp listed)] at same
    rw [number_p, number_q, same]
  · have fst : ((xs.zipIdx number).map fun p => (p.1, f p.2)).map Prod.fst = xs := by
      rw [List.map_map]
      exact List.zipIdx_map_fst number xs
    have fst' : (ys.zipIdx number).map Prod.fst = ys := List.zipIdx_map_fst number ys
    have once : ((xs.zipIdx number).map fun p => (p.1, f p.2)).Nodup :=
      .of_map Prod.fst (by rwa [fst])
    have once' : (ys.zipIdx number).Nodup := .of_map Prod.fst (by rwa [fst'])
    refine (List.perm_ext_iff_of_nodup once once').mpr fun e => ?_
    rw [mem_zipIdx_iff_idxOf distinct', List.mem_map, ← perm.mem_iff]
    constructor
    · rintro ⟨p, member, rfl⟩
      exact ⟨(List.fst_mem_of_mem_zipIdx member :), place p member⟩
    · rintro ⟨listed, number_e⟩
      have member := (mem_zipIdx_iff_idxOf distinct number (e.1, number + xs.idxOf e.1)).mpr
        ⟨listed, rfl⟩
      exact ⟨_, member, Prod.ext rfl ((place _ member).trans number_e.symm)⟩

/-- Entries that are renumbered take their rows with them. -/
theorem ownedRows_perm {xs ys : List α} {f : Nat → Nat}
    (perm : ((xs.zipIdx number).map fun p => (p.1, f p.2)).Perm (ys.zipIdx number))
    (rows : α → List β) :
    ((ownedRows number rows xs).map fun p => (f p.1, p.2)).Perm (ownedRows number rows ys) := by
  have moved : (ownedRows number rows xs).map (fun p => (f p.1, p.2)) =
      ((xs.zipIdx number).map fun p => (p.1, f p.2)).flatMap fun e =>
        (rows e.1).map (Prod.mk e.2) := by
    rw [ownedRows, List.map_flatMap, List.flatMap_map]
    simp [Function.comp_def]
  rw [moved]
  exact perm.flatMap_right _

end Registry

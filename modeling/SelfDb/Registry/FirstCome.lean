import Mathlib.Data.List.Nodup
import Mathlib.Data.List.Perm.Basic
import Mathlib.Data.Set.Function
import Mathlib.Data.List.ProdSigma

/-! A registry that makes an entry at the first visit of a key. Later visits
adopt the entry, and can only raise its flag. -/
namespace Registry

structure Entry (κ ρ : Type) where
  key : κ
  flag : Bool
  value : ρ

variable {κ ρ ε : Type}

def keys (entries : List (Entry κ ρ)) : List κ := entries.map Entry.key

/-- The registry after some visits. -/
structure Registered (make : κ → Except ε ρ) (calls : List (κ × Bool))
    (entries : List (Entry κ ρ)) : Prop where
  distinct : (keys entries).Nodup
  visited : ∀ key, key ∈ keys entries ↔ ∃ flag, (key, flag) ∈ calls
  flags : ∀ entry ∈ entries, entry.flag = true ↔ (entry.key, true) ∈ calls
  values : ∀ entry ∈ entries, make entry.key = .ok entry.value

theorem Registered.nil (make : κ → Except ε ρ) : Registered make [] [] where
  distinct := .nil
  visited := by simp [keys]
  flags := by simp
  values := by simp

variable {make : κ → Except ε ρ} {calls : List (κ × Bool)} {entries : List (Entry κ ρ)}

theorem Registered.made (registered : Registered make calls entries) :
    ∀ call ∈ calls, ∃ value, make call.1 = .ok value := by
  intro call listed
  obtain ⟨entry, member, same⟩ := List.mem_map.mp ((registered.visited call.1).mpr ⟨call.2, listed⟩)
  exact ⟨entry.value, same ▸ registered.values entry member⟩

/-- The same visits in any order, and any number of times, leave the same entries. -/
theorem Registered.perm {others : List (Entry κ ρ)} {calls' : List (κ × Bool)}
    (registered : Registered make calls entries) (registered' : Registered make calls' others)
    (same : ∀ call, call ∈ calls ↔ call ∈ calls') : entries.Perm others := by
  have into : ∀ {first second : List (Entry κ ρ)} {before after : List (κ × Bool)},
      Registered make before first → Registered make after second →
      (∀ call, call ∈ before ↔ call ∈ after) → ∀ entry ∈ first, entry ∈ second := by
    intro first second before after one two equal entry member
    obtain ⟨flag, listed⟩ := (one.visited entry.key).mp (List.mem_map_of_mem member)
    obtain ⟨other, found, key⟩ := List.mem_map.mp
      ((two.visited entry.key).mpr ⟨flag, (equal _).mp listed⟩)
    have value : other.value = entry.value := by
      have made := two.values other found
      rw [key, one.values entry member] at made
      exact (Except.ok.inj made).symm
    have flag : other.flag = entry.flag := by
      rw [Bool.eq_iff_iff, two.flags other found, one.flags entry member, key, equal]
    cases entry
    cases other
    simp only at key value flag
    exact key ▸ value ▸ flag ▸ found
  refine (List.perm_ext_iff_of_nodup (.of_map _ registered.distinct)
    (.of_map _ registered'.distinct)).mpr ?_
  exact fun entry => ⟨into registered registered' same entry,
    into registered' registered (fun call => (same call).symm) entry⟩

/-- The first visit of a key. -/
theorem Registered.first (registered : Registered make calls entries) {call : κ × Bool}
    (absent : call.1 ∉ keys entries) (made : make call.1 = .ok value) :
    Registered make (calls ++ [call]) (entries ++ [⟨call.1, call.2, value⟩]) := by
  have new : keys (entries ++ [⟨call.1, call.2, value⟩]) = keys entries ++ [call.1] :=
    List.map_append
  have unflagged : ∀ flag, (call.1, flag) ∉ calls := fun flag listed =>
    absent ((registered.visited _).mpr ⟨flag, listed⟩)
  refine ⟨?_, fun key => ?_, ?_, ?_⟩
  · rw [new]
    exact List.nodup_append.mpr ⟨registered.distinct, List.nodup_singleton _,
      fun key listed _ last same =>
      absent (List.mem_singleton.mp last ▸ same ▸ listed)⟩
  · rw [new, List.mem_append, registered.visited, List.mem_singleton]
    simp only [List.mem_append, List.mem_singleton, exists_or]
    refine or_congr_right ⟨fun same => ⟨call.2, same ▸ rfl⟩, ?_⟩
    rintro ⟨_, rfl⟩
    rfl
  · rw [List.forall_mem_append, List.forall_mem_singleton]
    constructor
    · intro entry listed
      have other : (entry.key, true) ≠ call := by
        rintro rfl
        exact absent (List.mem_map_of_mem listed)
      simp [registered.flags entry listed, other]
    · obtain ⟨key, flag⟩ := call
      simp [unflagged, eq_comm]
  · rw [List.forall_mem_append, List.forall_mem_singleton]
    exact ⟨registered.values, made⟩

section Visits
variable [DecidableEq κ]

def Entry.raise (call : κ × Bool) (entry : Entry κ ρ) : Entry κ ρ :=
  if entry.key = call.1 then { entry with flag := entry.flag || call.2 } else entry

@[simp] theorem Entry.raise_key (call : κ × Bool) (entry : Entry κ ρ) :
    (entry.raise call).key = entry.key := by
  rw [raise]
  split <;> rfl

@[simp] theorem Entry.raise_value (call : κ × Bool) (entry : Entry κ ρ) :
    (entry.raise call).value = entry.value := by
  rw [raise]
  split <;> rfl

@[simp] theorem Entry.raise_false (key : κ) :
    (Entry.raise (key, false) : Entry κ ρ → Entry κ ρ) = id := by
  funext entry
  simp [raise]

theorem Entry.raise_flag (call : κ × Bool) (entry : Entry κ ρ) :
    (entry.raise call).flag = true ↔ entry.flag = true ∨ (entry.key, true) = call := by
  obtain ⟨key, flag⟩ := call
  rw [raise, Prod.mk.injEq]
  by_cases same : entry.key = key
  · rw [if_pos same, Bool.or_eq_true, and_iff_right same, eq_comm (a := true)]
  · rw [if_neg same, or_iff_left (mt And.left same)]

/-- Visit a key, with a flag; `make` may fail for a new key. -/
def visit (make : κ → Except ε ρ) (entries : List (Entry κ ρ)) (call : κ × Bool) :
    Except ε (List (Entry κ ρ)) :=
  if call.1 ∈ keys entries then .ok (entries.map (Entry.raise call))
  else (make call.1).map fun value => entries ++ [⟨call.1, call.2, value⟩]

/-- Another visit of a known key. -/
theorem Registered.again (registered : Registered make calls entries) {call : κ × Bool}
    (member : call.1 ∈ keys entries) : Registered make (calls ++ [call])
    (entries.map (Entry.raise call)) := by
  have same : keys (entries.map (Entry.raise call)) = keys entries := by
    simp [keys, Function.comp_def]
  refine ⟨same ▸ registered.distinct, fun key => ?_, ?_, ?_⟩
  · rw [same, registered.visited]
    obtain ⟨flag, listed⟩ := (registered.visited _).mp member
    simp only [List.mem_append, List.mem_singleton]
    constructor
    · rintro ⟨flag, before⟩
      exact ⟨flag, .inl before⟩
    · rintro ⟨other, before | rfl⟩
      · exact ⟨other, before⟩
      · exact ⟨flag, listed⟩
  · rw [List.forall_mem_map]
    intro entry listed
    rw [Entry.raise_flag, registered.flags entry listed, Entry.raise_key, List.mem_append,
      List.mem_singleton]
  · rw [List.forall_mem_map]
    intro entry listed
    rw [Entry.raise_key, Entry.raise_value, registered.values entry listed]

/-- One visit. -/
theorem Registered.visit (registered : Registered make calls entries) {call : κ × Bool}
    (visited : Registry.visit make entries call = .ok after) :
    Registered make (calls ++ [call]) after := by
  rw [Registry.visit] at visited
  split at visited
  · rename_i member
    cases visited
    exact registered.again member
  · rename_i absent
    cases made : make call.1 with
    | error e =>
      rw [made] at visited
      cases visited
    | ok value =>
      rw [made] at visited
      cases visited
      exact registered.first absent made

/-- A whole list of visits. -/
theorem Registered.visits (registered : Registered make calls entries) {more : List (κ × Bool)}
    (visited : more.foldlM (Registry.visit make) entries = .ok after) :
    Registered make (calls ++ more) after := by
  induction more generalizing calls entries with
  | nil =>
    cases visited
    rwa [List.append_nil]
  | cons call rest ih =>
    rw [List.foldlM_cons] at visited
    cases step : Registry.visit make entries call with
    | error e => simp [step, bind, Except.bind] at visited
    | ok next =>
      rw [step] at visited
      simpa using ih (registered.visit step) visited

end Visits

end Registry

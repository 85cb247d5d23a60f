import Mathlib

/-! A map as the list of its pairs in increasing key order: what an ordered
tree is, whatever its shape. -/
namespace CarrotDb.SortedMap

variable {κ : Type} {α : Type} [LinearOrder κ]

/-- Binds a key, in the place of its old binding when it has one. -/
def upsert (key : κ) (value : α) : List (κ × α) → List (κ × α)
  | [] => [(key, value)]
  | (existing, old) :: rest =>
    if key < existing then (key, value) :: (existing, old) :: rest
    else if key = existing then (key, value) :: rest
    else (existing, old) :: upsert key value rest

/-- The keys increase, so every key is bound once. -/
def Increasing (pairs : List (κ × α)) : Prop := pairs.Pairwise fun a b => a.1 < b.1

theorem upsert_front {key : κ} {value : α} {pairs : List (κ × α)}
    (below : ∀ pair ∈ pairs, key < pair.1) : upsert key value pairs = (key, value) :: pairs := by
  cases pairs with
  | nil => rfl
  | cons pair rest => rw [upsert, if_pos (below pair List.mem_cons_self)]

theorem upsert_append_right {key : κ} {value : α} {front : List (κ × α)}
    (above : ∀ pair ∈ front, pair.1 < key) (back : List (κ × α)) :
    upsert key value (front ++ back) = front ++ upsert key value back := by
  induction front with
  | nil => rfl
  | cons pair front ih =>
    have less := above pair List.mem_cons_self
    rw [List.cons_append, upsert, if_neg (not_lt_of_gt less), if_neg (ne_of_gt less),
      ih fun other member => above other (List.mem_cons_of_mem _ member)]
    rfl

theorem upsert_append_left {key : κ} {value : α} {back : List (κ × α)}
    (below : ∀ pair ∈ back, key < pair.1) (front : List (κ × α)) :
    upsert key value (front ++ back) = upsert key value front ++ back := by
  induction front with
  | nil => exact upsert_front below
  | cons pair front ih =>
    rw [List.cons_append, upsert, upsert, ih]
    split
    · rfl
    · split <;> rfl

/-- A key above all the others goes to the end. -/
theorem upsert_last {key : κ} {value : α} {pairs : List (κ × α)}
    (above : ∀ pair ∈ pairs, pair.1 < key) : upsert key value pairs = pairs ++ [(key, value)] := by
  have placed : upsert key value (pairs ++ []) = pairs ++ upsert key value [] :=
    upsert_append_right above []
  rwa [List.append_nil] at placed

/-! ## What a key is bound to -/

theorem mem_upsert {key other : κ} {value bound : α} {pairs : List (κ × α)}
    (increasing : Increasing pairs) :
    (other, bound) ∈ upsert key value pairs ↔
      other = key ∧ bound = value ∨ other ≠ key ∧ (other, bound) ∈ pairs := by
  induction pairs with
  | nil =>
    rw [upsert, List.mem_singleton, Prod.mk.injEq]
    simp
  | cons pair rest ih =>
    obtain ⟨existing, old⟩ := pair
    obtain ⟨below, increasing⟩ := List.pairwise_cons.mp increasing
    have fresh {key : κ} (less : key ≤ existing) (later : (key, bound) ∈ rest) : False :=
      not_lt_of_ge less (below _ later)
    rw [upsert]
    rcases lt_trichotomy key existing with less | rfl | greater
    · have apart : other = key → (other, bound) ∉ (existing, old) :: rest := by
        rintro rfl member
        rcases List.mem_cons.mp member with same | later
        · exact ne_of_lt less (Prod.mk.inj same).1
        · exact fresh (le_of_lt less) later
      rw [if_pos less, List.mem_cons, Prod.mk.injEq]
      constructor
      · rintro (new | kept)
        · exact .inl new
        · exact .inr ⟨fun same => apart same kept, kept⟩
      · rintro (new | ⟨-, kept⟩)
        · exact .inl new
        · exact .inr kept
    · rw [if_neg (lt_irrefl _), if_pos rfl, List.mem_cons, List.mem_cons, Prod.mk.injEq, Prod.mk.injEq]
      constructor
      · rintro (new | later)
        · exact .inl new
        · refine .inr ⟨?_, .inr later⟩
          rintro rfl
          exact fresh (le_refl _) later
      · rintro (new | ⟨different, old | later⟩)
        · exact .inl new
        · exact absurd old.1 different
        · exact .inr later
    · rw [if_neg (not_lt_of_gt greater), if_neg (ne_of_gt greater), List.mem_cons, List.mem_cons,
        ih increasing, Prod.mk.injEq]
      constructor
      · rintro (⟨rfl, old⟩ | new | ⟨different, later⟩)
        · exact .inr ⟨ne_of_lt greater, .inl ⟨rfl, old⟩⟩
        · exact .inl new
        · exact .inr ⟨different, .inr later⟩
      · rintro (new | ⟨different, old | later⟩)
        · exact .inr (.inl new)
        · exact .inl old
        · exact .inr (.inr ⟨different, later⟩)

theorem increasing_upsert (key : κ) (value : α) {pairs : List (κ × α)}
    (increasing : Increasing pairs) : Increasing (upsert key value pairs) := by
  induction pairs with
  | nil => exact List.pairwise_singleton _ _
  | cons pair rest ih =>
    obtain ⟨existing, old⟩ := pair
    obtain ⟨below, later⟩ := List.pairwise_cons.mp increasing
    rw [upsert]
    rcases lt_trichotomy key existing with less | rfl | greater
    · rw [if_pos less]
      refine List.pairwise_cons.mpr ⟨fun other member => ?_, increasing⟩
      rcases List.mem_cons.mp member with rfl | member
      · exact less
      · exact lt_trans less (below other member)
    · rw [if_neg (lt_irrefl _), if_pos rfl]
      exact List.pairwise_cons.mpr ⟨below, later⟩
    · rw [if_neg (not_lt_of_gt greater), if_neg (ne_of_gt greater)]
      refine List.pairwise_cons.mpr ⟨fun other member => ?_, ih later⟩
      obtain ⟨otherKey, bound⟩ := other
      rcases (mem_upsert later).mp member with ⟨rfl, -⟩ | ⟨-, member⟩
      · exact greater
      · exact below _ member

/-- The value a run of assignments gives a key last. -/
def latest (calls : List (κ × α)) (key : κ) : Option α :=
  ((calls.filter fun call => call.1 = key).getLast?).map Prod.snd

theorem latest_concat (calls : List (κ × α)) (call : κ × α) (key : κ) :
    latest (calls ++ [call]) key = if call.1 = key then some call.2 else latest calls key := by
  rw [latest, List.filter_append]
  split
  · rename_i same
    rw [List.filter_cons_of_pos (by simpa using same)]
    simp
  · rename_i different
    rw [List.filter_cons_of_neg (by simpa using different), List.filter_nil, List.append_nil, latest]

/-- The map that a run of assignments makes. -/
def assigned (calls : List (κ × α)) : List (κ × α) :=
  calls.foldl (fun pairs call => upsert call.1 call.2 pairs) []

theorem assigned_concat (calls : List (κ × α)) (call : κ × α) :
    assigned (calls ++ [call]) = upsert call.1 call.2 (assigned calls) := by
  rw [assigned, List.foldl_append]
  rfl

theorem assigned_increasing (calls : List (κ × α)) : Increasing (assigned calls) := by
  induction calls using List.reverseRecOn with
  | nil => exact List.Pairwise.nil
  | append_singleton calls call ih =>
    rw [assigned_concat]
    exact increasing_upsert _ _ ih

/-- It binds each key to the value the key was given last. -/
theorem mem_assigned (calls : List (κ × α)) (key : κ) (value : α) :
    (key, value) ∈ assigned calls ↔ latest calls key = some value := by
  induction calls using List.reverseRecOn with
  | nil => simp [assigned, latest]
  | append_singleton calls call ih =>
    rw [assigned_concat, mem_upsert (assigned_increasing calls), latest_concat, ih]
    by_cases same : call.1 = key
    · rw [if_pos same, Option.some_inj]
      constructor
      · rintro (⟨-, rfl⟩ | ⟨different, -⟩)
        · rfl
        · exact absurd same.symm different
      · rintro rfl
        exact .inl ⟨same.symm, rfl⟩
    · rw [if_neg same]
      constructor
      · rintro (⟨rfl, -⟩ | ⟨-, bound⟩)
        · exact absurd rfl same
        · exact bound
      · exact fun bound => .inr ⟨fun equal => same equal.symm, bound⟩

end CarrotDb.SortedMap

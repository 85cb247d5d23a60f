import Mathlib

/-! How prefixes sit in the lexicographic order of lists: an extension comes
right behind its prefix, and a list that is smaller without being a prefix
stays smaller under any extension. -/
namespace CarrotDb.PrefixOrder

variable {α : Type} [LinearOrder α]

theorem append_lt_append_left (front : List α) {s t : List α} :
    front ++ s < front ++ t ↔ s < t := by
  induction front with
  | nil => rfl
  | cons a rest ih => rw [List.cons_append, List.cons_append, List.cons_lt_cons_iff]; simp [ih]

theorem append_lt_of_head {front s t : List α} {a b : α} (less : a < b) :
    front ++ a :: s < front ++ b :: t :=
  (append_lt_append_left front).mpr (List.cons_lt_cons_iff.mpr (.inl less))

theorem le_append (s t : List α) : s ≤ s ++ t := by
  rcases t with _ | ⟨a, rest⟩
  · rw [List.append_nil]
  · refine le_of_lt ?_
    have grown := (append_lt_append_left s).mpr (List.nil_lt_cons a rest)
    rwa [List.append_nil] at grown

/-- A smaller list that is no prefix differs at some position, so it stays
smaller whatever follows it. -/
theorem append_lt_of_not_prefix {s t : List α} (smaller : s ≤ t) (apart : ¬ s <+: t)
    (more : List α) : s ++ more < t := by
  induction s generalizing t with
  | nil => exact absurd List.nil_prefix apart
  | cons a s ih =>
    cases t with
    | nil => exact absurd smaller (not_le_of_gt (List.nil_lt_cons a s))
    | cons b t =>
      rw [List.cons_append, List.cons_lt_cons_iff]
      rcases lt_or_eq_of_le smaller with strict | same
      · rcases List.cons_lt_cons_iff.mp strict with less | ⟨rfl, less⟩
        · exact .inl less
        · refine .inr ⟨rfl, ih (le_of_lt less) fun held => apart ?_⟩
          exact (List.cons_prefix_cons).mpr ⟨rfl, held⟩
      · exact absurd (same ▸ List.prefix_rfl) apart

end CarrotDb.PrefixOrder

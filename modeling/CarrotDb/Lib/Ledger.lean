import Mathlib

/-! Registrations that wait in queues. A history keeps every registration
ever made, known by its position, and every removal in the order it happened.
The queue of a place is not stored: it is what was registered there and never
removed. -/
namespace CarrotDb.Ledger

/-- A registration taken out of its queue: served, or given up on. -/
structure Removal (ρ α : Type) where
  label : Nat
  entry : ρ
  served : Bool
  reply : α

structure History (ρ α : Type) where
  registered : List ρ := []
  removals : List (Removal ρ α) := []

variable {ρ α κ : Type} {home : ρ → κ} {h : History ρ α}

namespace History

/-- The labels that were removed, in order. -/
def removed (h : History ρ α) : List Nat := h.removals.map Removal.label

/-- No registration is removed twice, and every removal is of a registration. -/
structure Exact (h : History ρ α) : Prop where
  once : h.removed.Nodup
  genuine : ∀ removal ∈ h.removals, h.registered[removal.label]? = some removal.entry

/-- No registration is removed twice, every removal is of a registration, and
whoever is served has nobody in front of it in its queue. -/
structure Sound (home : ρ → κ) (h : History ρ α) : Prop where
  once : h.removed.Nodup
  genuine : ∀ removal ∈ h.removals, h.registered[removal.label]? = some removal.entry
  inOrder : ∀ before removal after, h.removals = before ++ removal :: after →
    removal.served = true → ∀ earlier < removal.label, ∀ entry,
      h.registered[earlier]? = some entry → home entry = home removal.entry →
        earlier ∈ before.map Removal.label

def register (h : History ρ α) (entry : ρ) : History ρ α :=
  { h with registered := h.registered ++ [entry] }

def remove (h : History ρ α) (removals : List (Removal ρ α)) : History ρ α :=
  { h with removals := h.removals ++ removals }

/-- The history that pieces of it add up to. -/
def join (pieces : List (History ρ α)) : History ρ α :=
  ⟨pieces.flatMap registered, pieces.flatMap removals⟩

/-- What removals took out of a queue. -/
def taken (removals : List (Removal ρ α)) : List (ρ × Nat) :=
  removals.map fun removal => (removal.entry, removal.label)

/-- The removal of entries, each with the reply it is given. -/
def gone (served : Bool) (reply : ρ → α) (entries : List (ρ × Nat)) : List (Removal ρ α) :=
  entries.map fun entry => ⟨entry.2, entry.1, served, reply entry.1⟩

theorem taken_gone (served : Bool) (reply : ρ → α) (entries : List (ρ × Nat)) :
    taken (gone served reply entries) = entries := by
  rw [taken, gone, List.map_map]
  exact List.map_id entries

theorem exact_nil : Exact ({} : History ρ α) where
  once := List.nodup_nil
  genuine := fun _ absent => nomatch absent

theorem Sound.exact (sound : h.Sound home) : h.Exact := ⟨sound.once, sound.genuine⟩

theorem sound_nil : Sound home ({} : History ρ α) where
  once := List.nodup_nil
  genuine := fun _ absent => nomatch absent
  inOrder := fun before _ after split => by
    cases before <;> cases split

theorem removed_lt (exact_ : h.Exact) {label : Nat} (member : label ∈ h.removed) :
    label < h.registered.length := by
  obtain ⟨removal, inside, rfl⟩ := List.mem_map.mp member
  exact (List.getElem?_eq_some_iff.mp (exact_.genuine removal inside)).1

theorem Exact.register (exact_ : h.Exact) (entry : ρ) : (h.register entry).Exact where
  once := exact_.once
  genuine := fun removal member =>
    (List.getElem?_append_left (removed_lt exact_ (List.mem_map_of_mem member))).trans
      (exact_.genuine removal member)

theorem register_sound (sound : h.Sound home) (entry : ρ) : (h.register entry).Sound home where
  once := (sound.exact.register entry).once
  genuine := (sound.exact.register entry).genuine
  inOrder := fun before removal after split served earlier less other found same => by
    have member : removal ∈ h.removals := by
      rw [show h.removals = before ++ removal :: after from split]
      simp
    have bound := removed_lt sound.exact (List.mem_map_of_mem member)
    refine sound.inOrder before removal after split served earlier less other ?_ same
    rwa [register, List.getElem?_append_left (Nat.lt_trans less bound)] at found

variable [DecidableEq κ]

/-- The queue of a place. -/
def waiting (home : ρ → κ) (h : History ρ α) (place : κ) : List (ρ × Nat) :=
  h.registered.zipIdx.filter fun entry => home entry.1 = place ∧ entry.2 ∉ h.removed

theorem mem_waiting {place : κ} {entry : ρ} {label : Nat} :
    (entry, label) ∈ h.waiting home place ↔
      h.registered[label]? = some entry ∧ home entry = place ∧ label ∉ h.removed := by
  rw [waiting, List.mem_filter, List.mem_zipIdx_iff_getElem?, decide_eq_true_eq]

theorem waiting_increasing (home : ρ → κ) (h : History ρ α) (place : κ) :
    (h.waiting home place).Pairwise fun a b => a.2 < b.2 := by
  refine List.Pairwise.filter _ (List.pairwise_map.mp ?_)
  rw [List.zipIdx_map_snd]
  exact List.pairwise_lt_range'

theorem waiting_register (exact_ : h.Exact) (entry : ρ) (place : κ) :
    (h.register entry).waiting home place =
      h.waiting home place ++ if home entry = place then [(entry, h.registered.length)] else [] := by
  have fresh : h.registered.length ∉ (History.mk (h.registered ++ [entry]) h.removals).removed := fun member =>
    Nat.lt_irrefl _ (removed_lt exact_ member)
  rw [waiting, register, List.zipIdx_append, List.filter_append]
  congr 1
  by_cases same : home entry = place
  · simpa [same] using fresh
  · simp [same]

/-! ## Removing -/

theorem waiting_remove (removals : List (Removal ρ α)) (place : κ) :
    (h.remove removals).waiting home place =
      (h.waiting home place).filter fun entry => entry.2 ∉ removals.map Removal.label := by
  rw [waiting, waiting, List.filter_filter]
  refine List.filter_congr fun entry _ => ?_
  rw [← Bool.decide_and, decide_eq_decide, removed, remove, List.map_append, List.mem_append, not_or,
    removed]
  tauto

/-- The queues of other places stay as they are. -/
theorem waiting_remove_other {place other : κ} {removals : List (Removal ρ α)}
    (part : taken removals ⊆ h.waiting home place) (different : other ≠ place) :
    (h.remove removals).waiting home other = h.waiting home other := by
  rw [waiting_remove]
  refine List.filter_eq_self.mpr fun entry member => decide_eq_true fun gone => ?_
  obtain ⟨removal, inside, same⟩ := List.mem_map.mp gone
  have from_ := mem_waiting.mp (part (List.mem_map_of_mem inside))
  have here := mem_waiting.mp (show (entry.1, entry.2) ∈ h.waiting home other from member)
  rw [← same, from_.1, Option.some.injEq] at here
  exact different (here.2.1.symm.trans ((congrArg home here.1.symm).trans from_.2.1))

private theorem filter_front {front rest : List (ρ × Nat)}
    (increasing : (front ++ rest).Pairwise fun a b => a.2 < b.2) :
    (front ++ rest).filter (fun entry => entry.2 ∉ front.map Prod.snd) = rest := by
  obtain ⟨-, -, below⟩ := List.pairwise_append.mp increasing
  rw [List.filter_append, List.filter_eq_nil_iff.mpr, List.filter_eq_self.mpr, List.nil_append]
  · intro entry member
    refine decide_eq_true fun gone => ?_
    obtain ⟨first, inside, same⟩ := List.mem_map.mp gone
    exact Nat.ne_of_lt (below first inside entry member) same
  · intro entry member kept
    exact of_decide_eq_true kept (List.mem_map_of_mem member)

private theorem labels_taken (removals : List (Removal ρ α)) :
    removals.map Removal.label = (taken removals).map Prod.snd := by
  rw [taken, List.map_map]
  rfl

/-- Taking the front of a queue leaves the rest of it. -/
theorem waiting_remove_front {place : κ} {removals : List (Removal ρ α)} {rest : List (ρ × Nat)}
    (queue : h.waiting home place = taken removals ++ rest) :
    (h.remove removals).waiting home place = rest := by
  have increasing := waiting_increasing home h place
  rw [queue] at increasing
  rw [waiting_remove, queue, labels_taken]
  exact filter_front increasing

/-- Taking the entries of one kind leaves those of the other. -/
theorem waiting_remove_filter {place : κ} {removals : List (Removal ρ α)} {gone : ρ → Bool}
    (part : taken removals = (h.waiting home place).filter fun entry => gone entry.1) :
    (h.remove removals).waiting home place =
      (h.waiting home place).filter fun entry => !gone entry.1 := by
  rw [waiting_remove, labels_taken, part]
  refine List.filter_congr fun entry member => ?_
  rw [Bool.eq_iff_iff, decide_eq_true_eq, Bool.not_eq_true']
  have here := mem_waiting.mp (show (entry.1, entry.2) ∈ h.waiting home place from member)
  constructor
  · intro kept
    by_contra taken
    refine kept (List.mem_map_of_mem (List.mem_filter.mpr ⟨member, ?_⟩))
    simpa using taken
  · intro stays found
    obtain ⟨other, inside, same⟩ := List.mem_map.mp found
    obtain ⟨held, leaves⟩ := List.mem_filter.mp inside
    have there := mem_waiting.mp (show (other.1, other.2) ∈ h.waiting home place from held)
    rw [same, here.1, Option.some.injEq] at there
    rw [← there.1, stays] at leaves
    cases leaves

/-- Whatever is removed was waiting, and no label twice. -/
theorem Exact.remove (exact_ : h.Exact) {place : κ} {removals : List (Removal ρ α)}
    (part : (taken removals).Sublist (h.waiting home place)) : (h.remove removals).Exact := by
  have waits : ∀ removal ∈ removals, h.registered[removal.label]? = some removal.entry ∧
      home removal.entry = place ∧ removal.label ∉ h.removed := fun removal member =>
    mem_waiting.mp (part.subset (List.mem_map_of_mem member))
  constructor
  · rw [removed, History.remove, List.map_append, List.nodup_append]
    refine ⟨exact_.once, ?_, ?_⟩
    · rw [labels_taken]
      have increasing := (waiting_increasing home h place).sublist part
      exact (List.pairwise_map.mpr increasing).imp Nat.ne_of_lt
    · intro label old other new same
      obtain ⟨removal, inside, rfl⟩ := List.mem_map.mp new
      exact (waits removal inside).2.2 (same ▸ old)
  · intro removal member
    rcases List.mem_append.mp member with old | new
    · exact exact_.genuine removal old
    · exact (waits removal new).1

/-- Where a removal lies in a history that grew. -/
private theorem split_remove {old new before after : List (Removal ρ α)} {removal : Removal ρ α}
    (split : old ++ new = before ++ removal :: after) :
    (∃ tail, old = before ++ removal :: tail) ∨
      ∃ front, before = old ++ front ∧ new = front ++ removal :: after := by
  rcases List.append_eq_append_iff.mp split with ⟨front, same, rest⟩ | ⟨tail, same, rest⟩
  · exact .inr ⟨front, same, rest⟩
  · cases tail with
    | nil => exact .inr ⟨[], by simpa using same.symm, rest.symm⟩
    | cons first tail =>
      rw [List.cons_append, List.cons.injEq] at rest
      exact .inl ⟨tail, by rw [same, rest.1]⟩

/-- Giving up on registrations keeps a history sound. -/
theorem expire_sound (sound : h.Sound home) {place : κ} {removals : List (Removal ρ α)}
    (part : (taken removals).Sublist (h.waiting home place))
    (expired : ∀ removal ∈ removals, removal.served = false) : (h.remove removals).Sound home where
  once := (sound.exact.remove part).once
  genuine := (sound.exact.remove part).genuine
  inOrder := fun before removal after split served earlier less entry found same => by
    rcases split_remove split with ⟨tail, old⟩ | ⟨front, -, new⟩
    · exact sound.inOrder before removal tail old served earlier less entry found same
    · rw [expired removal (by rw [new]; simp)] at served
      cases served

/-- Serving the front of a queue keeps a history sound. -/
theorem serve_sound (sound : h.Sound home) {place : κ} {removals : List (Removal ρ α)}
    {rest : List (ρ × Nat)} (queue : h.waiting home place = taken removals ++ rest) :
    (h.remove removals).Sound home where
  once := (sound.exact.remove (queue ▸ List.sublist_append_left _ _)).once
  genuine := (sound.exact.remove (queue ▸ List.sublist_append_left _ _)).genuine
  inOrder := fun before removal after split served earlier less entry found same => by
    rcases split_remove split with ⟨tail, old⟩ | ⟨front, rfl, new⟩
    · exact sound.inOrder before removal tail old served earlier less entry found same
    · by_cases gone : earlier ∈ h.removed
      · rw [List.map_append]
        exact List.mem_append_left _ gone
      · -- it still waits, in front of the one that is served
        have shape : h.waiting home place =
            taken front ++ (removal.entry, removal.label) :: (taken after ++ rest) := by
          rw [queue, new, taken, List.map_append, List.map_cons, List.append_assoc]
          rfl
        have here := mem_waiting.mp (show (removal.entry, removal.label) ∈ h.waiting home place by
          rw [shape]; simp)
        have waits : (entry, earlier) ∈ h.waiting home place :=
          mem_waiting.mpr ⟨found, same.trans here.2.1, gone⟩
        have increasing := waiting_increasing home h place
        rw [shape] at waits increasing
        obtain ⟨-, later, -⟩ := List.pairwise_append.mp increasing
        rcases List.mem_append.mp waits with ahead | behind
        · rw [List.map_append, labels_taken front]
          exact List.mem_append_right _ (List.mem_map_of_mem (f := Prod.snd) ahead)
        · rcases List.mem_cons.mp behind with itself | behind
          · cases itself
            exact absurd less (Nat.lt_irrefl _)
          · have := (List.pairwise_cons.mp later).1 _ behind
            exact absurd less (Nat.lt_asymm this)

end History
end CarrotDb.Ledger

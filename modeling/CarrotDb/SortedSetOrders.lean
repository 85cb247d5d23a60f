import CarrotDb.SortedSetProofs

/-! Sorted sets with any scores. A not-a-number is tied with every entry: it
gets a place in an empty order only, and takes the place of whatever single
entry there is when it is erased. What the order holds stays in order and is
in the hash map; only where a not-a-number is looked up among two entries is
the result undefined. -/
namespace CarrotDb
open FloatOrder

namespace SortedSet

variable {set set' : SortedSet} {entry other : Float × Bytes} {sets : List (Float × Bytes)}
  {member : Bytes} {score : Float}

theorem mem_insertEntry (held : other ∈ insertEntry entry sets) : other = entry ∨ other ∈ sets := by
  induction sets with
  | nil => exact .inl (List.mem_singleton.mp held)
  | cons head rest ih =>
    rw [insertEntry] at held
    split at held
    · exact List.mem_cons.mp held
    · split at held
      · rcases List.mem_cons.mp held with rfl | later
        · exact .inr List.mem_cons_self
        · exact (ih later).imp_right (List.mem_cons_of_mem _)
      · exact .inr held

theorem subset_insertEntry : sets ⊆ insertEntry entry sets := by
  induction sets with
  | nil => exact List.nil_subset _
  | cons head rest ih =>
    rw [insertEntry]
    split
    · exact List.subset_cons_self _ _
    · split
      · exact List.cons_subset_cons _ ih
      · exact List.Subset.refl _

theorem eraseEntry_sublist : (eraseEntry entry sets).Sublist sets := by
  induction sets with
  | nil => exact List.Sublist.refl _
  | cons head rest ih =>
    rw [eraseEntry]
    split
    · exact List.Sublist.refl _
    · split
      · exact ih.cons_cons head
      · exact List.sublist_cons_self head rest

theorem insertEntry_ordered (ordered : sets.Pairwise fun a b => scoreLess a b = true) :
    (insertEntry entry sets).Pairwise fun a b => scoreLess a b = true := by
  induction sets with
  | nil => exact List.pairwise_singleton _ _
  | cons head rest ih =>
    obtain ⟨above, later⟩ := List.pairwise_cons.mp ordered
    rw [insertEntry]
    split
    · rename_i less
      refine List.pairwise_cons.mpr ⟨fun one held => ?_, ordered⟩
      rcases List.mem_cons.mp held with rfl | held
      · exact less
      · exact scoreLess_trans less (above one held)
    · split
      · rename_i less
        refine List.pairwise_cons.mpr ⟨fun one held => ?_, ih later⟩
        rcases mem_insertEntry held with rfl | held
        · exact less
        · exact above one held
      · exact ordered

/-- An entry that is erased is gone. -/
theorem not_mem_eraseEntry (ordered : sets.Pairwise fun a b => scoreLess a b = true) :
    entry ∉ eraseEntry entry sets := by
  induction sets with
  | nil => exact List.not_mem_nil
  | cons head rest ih =>
    obtain ⟨above, later⟩ := List.pairwise_cons.mp ordered
    have irreflexive : ¬ scoreLess entry entry = true := by rw [scoreLess_irrefl]; exact Bool.false_ne_true
    rw [eraseEntry]
    split
    · rename_i less
      intro held
      rcases List.mem_cons.mp held with rfl | held
      · exact irreflexive less
      · exact irreflexive (scoreLess_trans less (above entry held))
    · split
      · rename_i less
        intro held
        rcases List.mem_cons.mp held with rfl | held
        · exact irreflexive less
        · exact ih later held
      · rename_i notLess
        exact fun held => notLess (above entry held)

/-- Where two entries are in order, all are numbers. -/
theorem numbers_of_ordered (ordered : sets.Pairwise fun a b => scoreLess a b = true)
    (several : 1 < sets.length) : Numbers sets := by
  intro one held
  obtain ⟨i, inside, rfl⟩ := List.getElem_of_mem held
  by_cases first : i = 0
  · exact (numbers_of_scoreLess (List.pairwise_iff_getElem.mp ordered i 1 inside several
      (by omega))).1
  · exact (numbers_of_scoreLess (List.pairwise_iff_getElem.mp ordered 0 i (by omega) inside
      (by omega))).2

/-- An entry can be looked up in an order if it is a number, or if there is at
most one entry to compare it with. -/
theorem comparable_ordered (ordered : sets.Pairwise fun a b => scoreLess a b = true) :
    comparable (entry :: sets) = true ↔ entry.1.isNaN = false ∨ sets.length ≤ 1 := by
  constructor
  · intro compared
    cases nan : entry.1.isNaN with
    | false => exact .inl rfl
    | true =>
      refine .inr ?_
      by_contra several
      obtain ⟨first, rest, rfl⟩ := List.exists_cons_of_ne_nil
        (show sets ≠ [] from fun empty => several (by simp [empty]))
      obtain ⟨second, rest, rfl⟩ := List.exists_cons_of_ne_nil
        (show rest ≠ [] from fun empty => several (by simp [empty]))
      have less := (List.pairwise_cons.mp ordered).1 second List.mem_cons_self
      have tied := comparable_iff.mp compared first (by simp) entry (by simp) second (by simp)
        (scoreTied_nan nan).2 (scoreTied_nan nan).1
      rw [scoreTied_iff, less] at tied
      cases tied.1
  · intro either
    by_cases several : 1 < sets.length
    · have number := either.resolve_right (Nat.not_le.mpr several)
      exact comparable_numbers (List.forall_mem_cons.mpr ⟨number, numbers_of_ordered ordered several⟩)
    · exact comparable_pair (Nat.not_lt.mp several)

/-- The order of a set is one, and what it holds is in the hash map. -/
structure Stands (set : SortedSet) : Prop where
  ordered : set.sets.Pairwise fun a b => scoreLess a b = true
  bound : ∀ entry ∈ set.sets, set.score entry.2 = some entry.1

theorem new_stands : SortedSet.new.Stands := ⟨.nil, fun _ absent => absurd absent List.not_mem_nil⟩

theorem Stands.flagged (stands : set.Stands) (isGeo : Bool) :
    Stands { set with isGeo := isGeo } := ⟨stands.ordered, stands.bound⟩

theorem Consistent.stands (consistent : set.Consistent) : set.Stands where
  ordered := consistent.ordered.imp_of_mem fun {a b} left right less =>
    (scoreLess_iff (consistent.numbers a left) (consistent.numbers b right)).mpr less
  bound entry held := (consistent.agree entry.1 entry.2).mp held

/-- What `remove` leaves where its comparisons are defined. -/
def taken (set : SortedSet) (member : Bytes) : SortedSet :=
  match set.hashMap.lookup member with
  | none => set
  | some score =>
    { set with
      hashMap := set.hashMap.erase member, sets := eraseEntry (score, member) set.sets,
      length := sub64 set.length 1 }

/-- What `insert` leaves where its comparisons are defined. -/
def placed (set : SortedSet) (member : Bytes) (score : Float) : SortedSet :=
  let set := set.taken member
  { set with
    hashMap := set.hashMap.insert member score, sets := insertEntry (score, member) set.sets,
    length := u64 (set.length + 1) }

/-- A score can be looked up: it is a number, or there is at most one entry to
compare it with. -/
def Admits (set : SortedSet) (score : Float) : Prop := score.isNaN = false ∨ set.sets.length ≤ 1

instance (set : SortedSet) (score : Float) : Decidable (set.Admits score) :=
  inferInstanceAs (Decidable (_ ∨ _))

/-- The score that a member has can be looked up. -/
def Finds (set : SortedSet) (member : Bytes) : Prop :=
  ∀ score ∈ set.score member, set.Admits score

instance (set : SortedSet) (member : Bytes) : Decidable (set.Finds member) :=
  inferInstanceAs (Decidable (∀ score ∈ set.score member, _))

/-- A score can be put in place of the one a member has. -/
def Takes (set : SortedSet) (member : Bytes) (score : Float) : Prop :=
  set.Finds member ∧ (set.taken member).Admits score

instance (set : SortedSet) (member : Bytes) (score : Float) : Decidable (set.Takes member score) :=
  inferInstanceAs (Decidable (_ ∧ _))

theorem taken_score (other : Bytes) :
    (set.taken member).score other = if other = member then none else set.score other := by
  rw [taken, SortedSet.score, SortedSet.score]
  cases lookup : set.hashMap.lookup member with
  | none =>
    dsimp only
    split
    · subst other
      exact lookup
    · rfl
  | some score =>
    dsimp only
    split
    · subst other
      exact Finmap.lookup_erase member _
    · exact Finmap.lookup_erase_ne ‹_›

theorem placed_score (other : Bytes) :
    (set.placed member score).score other = if other = member then some score else set.score other := by
  have before := @taken_score set member other
  rw [SortedSet.score] at before ⊢
  rw [placed]
  dsimp only
  split
  · subst other
    exact Finmap.lookup_insert _
  · rename_i different
    rw [Finmap.lookup_insert_of_ne _ different, before, if_neg different]

theorem taken_sublist : (set.taken member).sets.Sublist set.sets := by
  rw [taken]
  cases set.hashMap.lookup member with
  | none => exact List.Sublist.refl _
  | some score => exact eraseEntry_sublist

theorem Stands.taken (stands : set.Stands) (member : Bytes) : (set.taken member).Stands := by
  refine ⟨stands.ordered.sublist taken_sublist, fun entry held => ?_⟩
  have before := stands.bound entry (taken_sublist.subset held)
  rw [taken_score]
  split
  · rename_i same
    rw [same, SortedSet.score] at before
    rw [SortedSet.taken, before] at held
    exact absurd (same ▸ held) (not_mem_eraseEntry stands.ordered)
  · exact before

theorem Stands.placed (stands : set.Stands) (member : Bytes) (score : Float) :
    (set.placed member score).Stands := by
  have between := stands.taken member
  refine ⟨insertEntry_ordered between.ordered, fun entry held => ?_⟩
  rw [placed_score]
  rcases mem_insertEntry held with rfl | old
  · exact if_pos rfl
  · have before := between.bound entry old
    rw [taken_score] at before
    split at before
    · cases before
    · rename_i different
      rw [if_neg different]
      exact before

private theorem guarded_admits (stands : set.Stands) (member : Bytes) (score : Float)
    (result : α) : guarded set.sets (score, member) result =
      if set.Admits score then .ok result else .error .undefinedBehaviour := by
  have compared := @comparable_ordered (score, member) set.sets stands.ordered
  rw [guarded]
  by_cases admits : set.Admits score
  · rw [if_pos admits, if_pos (compared.mpr admits)]
  · rw [if_neg admits, if_neg (mt compared.mp admits)]

theorem finds_none (absent : set.score member = none) : set.Finds member := by
  intro score held
  rw [absent] at held
  cases held

theorem finds_some (present : set.score member = some score) : set.Finds member ↔ set.Admits score := by
  rw [Finds, present]
  exact ⟨fun finds => finds score rfl, fun admits other same => Option.some.inj same ▸ admits⟩

/-- `rank` is defined where the score of the member can be looked up. -/
theorem Stands.rank_eq (stands : set.Stands) (member : Bytes) :
    set.rank member =
      if set.Finds member then
        .ok ((set.score member).bind fun score => findEntry (score, member) set.sets)
      else .error .undefinedBehaviour := by
  rw [SortedSet.rank]
  cases lookup : set.hashMap.lookup member with
  | none =>
    have absent : set.score member = none := lookup
    rw [if_pos (finds_none absent), absent]
    rfl
  | some score =>
    have present : set.score member = some score := lookup
    dsimp only
    rw [guarded_admits stands, present]
    exact if_congr (finds_some present).symm rfl rfl

/-- `remove` is defined where the score of the member can be looked up. -/
theorem Stands.remove_eq (stands : set.Stands) (member : Bytes) :
    set.remove member =
      if set.Finds member then .ok (set.taken member, (set.score member).isSome)
      else .error .undefinedBehaviour := by
  rw [SortedSet.remove, SortedSet.taken]
  cases lookup : set.hashMap.lookup member with
  | none =>
    have absent : set.score member = none := lookup
    rw [if_pos (finds_none absent), absent]
    rfl
  | some score =>
    have present : set.score member = some score := lookup
    dsimp only
    rw [guarded_admits stands, present]
    by_cases admits : set.Admits score
    · rw [if_pos admits, if_pos ((finds_some present).mpr admits)]
      rfl
    · rw [if_neg admits, if_neg (mt (finds_some present).mp admits)]
      rfl

/-- `insert` is defined where the score of the member can be looked up, and the
new one among those that are left. -/
theorem Stands.insert_eq (stands : set.Stands) (member : Bytes) (score : Float) :
    set.insert member score =
      if set.Takes member score then .ok (set.placed member score, (set.score member).isSome)
      else .error .undefinedBehaviour := by
  have added := guarded_admits (stands.taken member) member score
    (insertEntry (score, member) (set.taken member).sets)
  rw [SortedSet.insert, SortedSet.placed]
  cases lookup : set.hashMap.lookup member with
  | none =>
    have absent : set.score member = none := lookup
    have same : set.taken member = set := by rw [SortedSet.taken, lookup]
    rw [same] at added ⊢
    dsimp only
    rw [exec_pure, exec_ok_bind, absent]
    dsimp only
    rw [added]
    by_cases admits : set.Admits score
    · rw [if_pos admits, if_pos ⟨finds_none absent, same.symm ▸ admits⟩]
      rfl
    · rw [if_neg admits, if_neg fun takes => admits (same ▸ takes.2)]
      rfl
  | some old =>
    have present : set.score member = some old := lookup
    have left : set.taken member = { set with
        hashMap := set.hashMap.erase member, sets := eraseEntry (old, member) set.sets,
        length := sub64 set.length 1 } := by rw [SortedSet.taken, lookup]
    dsimp only
    rw [guarded_admits stands, present]
    by_cases finds : set.Admits old
    · rw [if_pos finds, exec_ok_bind, exec_pure, exec_ok_bind, ← left]
      dsimp only
      rw [added]
      by_cases admits : (set.taken member).Admits score
      · rw [if_pos admits, if_pos ⟨(finds_some present).mpr finds, admits⟩]
        rfl
      · rw [if_neg admits, if_neg fun takes => admits takes.2]
        rfl
    · rw [if_neg finds, if_neg fun takes => finds ((finds_some present).mp takes.1)]
      rfl

/-- The flag does not matter to the order. -/
theorem takes_flagged (isGeo : Bool) :
    Takes { set with isGeo := isGeo } member score ↔ set.Takes member score := by
  unfold Takes Finds Admits SortedSet.score SortedSet.taken
  dsimp only
  cases set.hashMap.lookup member <;> exact Iff.rfl

theorem placed_flagged (isGeo : Bool) : placed { set with isGeo := isGeo } member score =
    { set.placed member score with isGeo := isGeo } := by
  unfold SortedSet.placed SortedSet.taken
  dsimp only
  cases set.hashMap.lookup member <;> rfl

/-- Where all scores are numbers, every member can be looked up. -/
theorem Consistent.finds (consistent : set.Consistent) (member : Bytes) : set.Finds member :=
  fun score held => .inl (consistent.numbers (score, member) ((consistent.agree score _).mpr held))

theorem Consistent.taken (consistent : set.Consistent) (member : Bytes) :
    (set.taken member).Consistent := by
  obtain ⟨next, ran, after, -⟩ := consistent.remove member
  rw [consistent.stands.remove_eq, if_pos (consistent.finds member)] at ran
  cases ran
  exact after

theorem Stands.insert (stands : set.Stands) {existed : Bool}
    (ran : set.insert member score = .ok (set', existed)) : set'.Stands := by
  rw [stands.insert_eq] at ran
  split at ran
  · cases ran
    exact stands.placed member score
  · cases ran

theorem Consistent.placed (consistent : set.Consistent) (member : Bytes)
    (number : score.isNaN = false) : (set.placed member score).Consistent := by
  obtain ⟨set', inserted, kept, -⟩ := consistent.insert member number
  rw [consistent.stands.insert_eq] at inserted
  split at inserted
  · cases inserted
    exact kept
  · cases inserted

theorem Stands.remove (stands : set.Stands) {found : Bool}
    (ran : set.remove member = .ok (set', found)) : set'.Stands := by
  rw [stands.remove_eq] at ran
  split at ran
  · cases ran
    exact stands.taken member
  · cases ran

/-! ## Several members -/

/-- Each score can be put in its place behind those in front of it. -/
def TakesAll : SortedSet → List (Float × Bytes) → Prop
  | _, [] => True
  | set, (score, member) :: rest => set.Takes member score ∧ (set.placed member score).TakesAll rest

/-- Each member can be removed behind those in front of it. -/
def FindsAll : SortedSet → List Bytes → Prop
  | _, [] => True
  | set, member :: rest => set.Finds member ∧ (set.taken member).FindsAll rest

end SortedSet

end CarrotDb

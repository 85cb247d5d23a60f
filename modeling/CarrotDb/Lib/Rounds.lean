import Mathlib

/-! Loops whose rounds depend on a state alone: a round stops the loop or
leads to the next state. Such a loop returns exactly when it reaches a state
that stops it, and then it is in no state twice. -/
namespace CarrotDb.Rounds
open Relation

variable {σ : Type u} {next : σ → Option σ} {s t : σ} {rounds : Nat}

/-- The loop returns within so many rounds. -/
def returns (next : σ → Option σ) : (rounds : Nat) → σ → Bool
  | 0, _ => false
  | rounds + 1, s =>
    match next s with
    | none => true
    | some t => returns next rounds t

/-- One round leads from the first state to the second. -/
def Leads (next : σ → Option σ) (s t : σ) : Prop := next s = some t

theorem leads_unique : Relator.RightUnique (Leads next) := by
  intro s t u first second
  exact Option.some.inj (first.symm.trans second)

theorem returns_stop (stop : next s = none) : returns next (rounds + 1) s = true := by
  rw [returns, stop]

theorem returns_leads (leads : Leads next s t) :
    returns next (rounds + 1) s = returns next rounds t := by
  have step : next s = some t := leads
  rw [returns, step]

theorem returns_succ (returned : returns next rounds s = true) :
    returns next (rounds + 1) s = true := by
  induction rounds generalizing s with
  | zero => cases returned
  | succ rounds ih =>
    cases step : next s with
    | none => exact returns_stop step
    | some t =>
      rw [returns_leads step] at returned ⊢
      exact ih returned

theorem returns_mono {more : Nat} (enough : rounds ≤ more) (returned : returns next rounds s = true) :
    returns next more s = true := by
  induction more, enough using Nat.le_induction with
  | base => exact returned
  | succ more _ ih => exact returns_succ ih

/-- A loop returns exactly when it reaches a state that stops it. -/
theorem returns_iff : (∃ rounds, returns next rounds s = true) ↔
    ∃ t, ReflTransGen (Leads next) s t ∧ next t = none := by
  constructor
  · rintro ⟨rounds, returned⟩
    induction rounds generalizing s with
    | zero => cases returned
    | succ rounds ih =>
      cases step : next s with
      | none => exact ⟨s, .refl, step⟩
      | some t =>
        rw [returns_leads step] at returned
        obtain ⟨u, reached, stop⟩ := ih returned
        exact ⟨u, .head step reached, stop⟩
  · rintro ⟨t, reached, stop⟩
    induction reached using ReflTransGen.head_induction_on with
    | refl => exact ⟨1, returns_stop stop⟩
    | head step _ ih =>
      obtain ⟨rounds, returned⟩ := ih
      exact ⟨rounds + 1, (returns_leads step).trans returned⟩

/-- A loop that returns is in one state for each number of rounds left. -/
private theorem state_of_remaining {states : Finset σ}
    (closed : ∀ s ∈ states, ∀ t, Leads next s t → t ∈ states) (inside : s ∈ states)
    (returned : returns next (rounds + 1) s = true) (before : returns next rounds s = false) :
    ∀ k ≤ rounds, ∃ t ∈ states, returns next (k + 1) t = true ∧ returns next k t = false := by
  induction rounds generalizing s with
  | zero =>
    intro k bound
    obtain rfl : k = 0 := Nat.le_zero.mp bound
    exact ⟨s, inside, returned, before⟩
  | succ rounds ih =>
    intro k bound
    rcases Nat.eq_or_lt_of_le bound with rfl | less
    · exact ⟨s, inside, returned, before⟩
    · cases step : next s with
      | none =>
        rw [returns_stop step] at before
        cases before
      | some t =>
        rw [returns_leads step] at returned before
        exact ih (closed s inside t step) returned before k (Nat.le_of_lt_succ less)

/-- A loop over finitely many states returns within as many rounds or never. -/
theorem returns_within {states : Finset σ}
    (closed : ∀ s ∈ states, ∀ t, Leads next s t → t ∈ states) (inside : s ∈ states)
    (returned : returns next rounds s = true) : returns next states.card s = true := by
  classical
  have some : ∃ rounds, returns next rounds s = true := ⟨rounds, returned⟩
  have least := Nat.find_spec some
  -- The least number of rounds is positive, and no greater than that of the
  -- states: each number of rounds left belongs to a state of its own.
  obtain ⟨last, found⟩ : ∃ last, Nat.find some = last + 1 := by
    cases found : Nat.find some with
    | zero =>
      rw [found] at least
      cases least
    | succ last => exact ⟨last, rfl⟩
  have before : returns next last s = false := by
    have early := Nat.find_min some (show last < Nat.find some by omega)
    simpa using early
  rw [found] at least
  have : Nonempty σ := ⟨s⟩
  choose! state member done undone using state_of_remaining closed inside least before
  have apart {i j : Nat} (less : i < j) (bound : j ≤ last) : state i ≠ state j := by
    intro same
    have early := returns_mono (Nat.succ_le_of_lt less) (done i (by omega))
    have late := undone j bound
    rw [← same, early] at late
    cases late
  have injective : Set.InjOn state (Finset.range (last + 1)) := by
    intro i first j second same
    have lastI := Finset.mem_range.mp first
    have lastJ := Finset.mem_range.mp second
    rcases Nat.lt_trichotomy i j with less | equal | less
    · exact absurd same (apart less (by omega))
    · exact equal
    · exact absurd same.symm (apart less (by omega))
  have count := Finset.card_le_card_of_injOn state
    (fun k inside => member k (Nat.le_of_lt_succ (Finset.mem_range.mp inside))) injective
  rw [Finset.card_range] at count
  exact returns_mono count least

/-- A loop that has a next state in a set of states, whichever of them it is
in, never returns. -/
theorem never_returns {states : Set σ} (closed : ∀ s ∈ states, ∃ t ∈ states, Leads next s t)
    (inside : s ∈ states) (rounds : Nat) : returns next rounds s = false := by
  induction rounds generalizing s with
  | zero => rfl
  | succ rounds ih =>
    obtain ⟨t, member, step⟩ := closed s inside
    rw [returns_leads step]
    exact ih member

end CarrotDb.Rounds

import Mathlib

/-! Walking through linked cells by a step that may fail: the step leads from
each cell to the next one, and from the last to none. A walk that is given
enough rounds visits exactly the cells of the chain, in their order. -/
namespace CarrotDb.Walk

variable {σ : Type u} {ε : Type v}

/-- The cells a walk visits from a cell on. A walk that is still at a cell
when its rounds are used up is an error. -/
def visited (stuck : ε) (step : σ → Except ε (Option σ)) :
    (rounds : Nat) → Option σ → Except ε (List σ)
  | _, none => .ok []
  | 0, some _ => .error stuck
  | rounds + 1, some cell => do
    let rest ← visited stuck step rounds (← step cell)
    pure (cell :: rest)

/-- From each of these cells the step leads to the one behind it. -/
def Chained (step : σ → Except ε (Option σ)) : List σ → Prop
  | [] => True
  | cell :: rest => step cell = .ok rest.head? ∧ Chained step rest

theorem visited_chained {step : σ → Except ε (Option σ)} {cells : List σ} {rounds : Nat}
    (chained : Chained step cells) (enough : cells.length ≤ rounds) (stuck : ε) :
    visited stuck step rounds cells.head? = .ok cells := by
  induction cells generalizing rounds with
  | nil => cases rounds <;> rfl
  | cons cell rest ih =>
    cases rounds with
    | zero => simp at enough
    | succ rounds =>
      obtain ⟨next, others⟩ := chained
      have remaining := ih others (Nat.le_of_succ_le_succ enough)
      simp only [List.head?_cons, visited, next]
      change (visited stuck step rounds rest.head? >>= fun rest => pure (cell :: rest)) = _
      rw [remaining]
      rfl

end CarrotDb.Walk

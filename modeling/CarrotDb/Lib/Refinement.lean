import CarrotDb.Lib.Lockstep

/-! One machine that does what another says. The abstract machine answers in
its own terms, and may decline an input, of which it then says nothing; the
concrete machine takes every step the abstract one takes. -/
namespace CarrotDb.Refinement
open Lockstep

variable {ε ε' α σ κ ι ν ω : Type}

/-- Steps of the abstract machine are steps of the concrete one. An input asks
something of the abstract machine, and may not be allowed at all; the states
stay related and what is put out tells the answer. -/
def Refines (related : α → σ → Prop) (tells : ν → ω → Prop) (asks : ι → κ) (allowed : ι → Prop)
    (abstract : α → κ → Except ε' (ν × α)) (concrete : σ → ι → Except ε (ω × σ)) : Prop :=
  ∀ spec state input answer spec', related spec state → allowed input →
    abstract spec (asks input) = .ok (answer, spec') →
    ∃ output state', concrete state input = .ok (output, state') ∧ tells answer output ∧
      related spec' state'

variable {related : α → σ → Prop} {tells : ν → ω → Prop} {asks : ι → κ} {allowed : ι → Prop}
  {abstract : α → κ → Except ε' (ν × α)} {concrete : σ → ι → Except ε (ω × σ)} {spec spec' : α}
  {state : σ} {inputs : List ι} {answers : List ν}

/-- So are its runs. -/
theorem Refines.run (refines : Refines related tells asks allowed abstract concrete)
    (relates : related spec state) (all : ∀ input ∈ inputs, allowed input)
    (ran : run abstract spec (inputs.map asks) = .ok (answers, spec')) :
    ∃ outputs state', Lockstep.run concrete state inputs = .ok (outputs, state') ∧
      List.Forall₂ tells answers outputs ∧ related spec' state' := by
  induction inputs generalizing spec state answers with
  | nil =>
    cases ran
    exact ⟨[], state, rfl, .nil, relates⟩
  | cons input inputs ih =>
    obtain ⟨answer, next, later, stepped, following, rfl⟩ := run_cons_ok.mp ran
    obtain ⟨output, state₁, stepped', told, relates₁⟩ :=
      refines _ _ _ _ _ relates (all input List.mem_cons_self) stepped
    obtain ⟨outputs, state', ran', told', relates'⟩ :=
      ih relates₁ (fun other member => all other (List.mem_cons_of_mem _ member)) following
    exact ⟨output :: outputs, state', run_cons_ok.mpr ⟨_, _, _, stepped', ran', rfl⟩,
      .cons told told', relates'⟩

end CarrotDb.Refinement

import Mathlib

/-! One system run twice, from two states, on the same inputs. As long as
every step keeps the states related and puts out the same, an observer cannot
tell the runs apart; and a step that leaves both in one state ends the matter. -/
namespace CarrotDb.Lockstep

variable {ε σ ι ω : Type}

/-- Steps one after another: what each puts out, and the state behind the last. -/
def run (step : σ → ι → Except ε (ω × σ)) : σ → List ι → Except ε (List ω × σ)
  | state, [] => .ok ([], state)
  | state, input :: inputs => do
    let (output, next) ← step state input
    let (outputs, last) ← run step next inputs
    .ok (output :: outputs, last)

/-- Two results that look the same: one error, or one output and states that
are related. -/
inductive Agree (related : σ → σ → Prop) : Except ε (ω × σ) → Except ε (ω × σ) → Prop where
  | fault (error : ε) : Agree related (.error error) (.error error)
  | output (value : ω) {first second : σ} (relates : related first second) :
    Agree related (.ok (value, first)) (.ok (value, second))

/-- Inputs that pass, one after another, up to one that makes states meet, or
up to the end where that is allowed. -/
def UntilMet (step : σ → ι → Except ε (ω × σ)) (passes meets : σ → ι → Prop) (ends : Prop) :
    σ → List ι → Prop
  | _, [] => ends
  | state, input :: inputs => meets state input ∨ passes state input ∧
    ∀ output next, step state input = .ok (output, next) →
      UntilMet step passes meets ends next inputs

variable {step : σ → ι → Except ε (ω × σ)} {related : σ → σ → Prop} {passes meets : σ → ι → Prop}
  {ends : Prop} {legal : ι → Prop} {first second : σ} {inputs : List ι}

/-- A run of several inputs is a step and the run behind it. -/
theorem run_cons_ok {input : ι} {outputs : List ω} {last : σ} :
    run step first (input :: inputs) = .ok (outputs, last) ↔
    ∃ output next later, step first input = .ok (output, next) ∧
      run step next inputs = .ok (later, last) ∧ outputs = output :: later := by
  constructor
  · intro ran
    rw [run] at ran
    cases stepped : step first input with
    | error fault =>
      rw [stepped] at ran
      cases ran
    | ok result =>
      obtain ⟨output, next⟩ := result
      rw [stepped] at ran
      cases following : run step next inputs with
      | error fault =>
        simp [bind, Except.bind, following] at ran
      | ok rest =>
        obtain ⟨later, end_⟩ := rest
        simp only [bind, Except.bind, following, Except.ok.injEq, Prod.mk.injEq] at ran
        obtain ⟨rfl, rfl⟩ := ran
        exact ⟨output, next, later, rfl, following, rfl⟩
  · rintro ⟨output, next, later, stepped, following, rfl⟩
    simp [run, stepped, following, bind, Except.bind]

theorem agree_self (reflexive : ∀ state, related state state) (result : Except ε (ω × σ)) :
    Agree related result result := by
  cases result with
  | error error => exact .fault error
  | ok value => exact .output value.1 (reflexive value.2)

/-- Results that look the same, and go on in ways that look the same. -/
theorem Agree.bind {ω' : Type} {before : σ → σ → Prop} {one two : Except ε (ω × σ)}
    {next next' : ω × σ → Except ε (ω' × σ)} (agree : Agree before one two)
    (later : ∀ output first second, one = .ok (output, first) → before first second →
      Agree related (next (output, first)) (next' (output, second))) :
    Agree related (one >>= next) (two >>= next') := by
  cases agree with
  | fault error => exact .fault error
  | output value relates => exact later value _ _ rfl relates

/-- Inputs that pass keep the runs alike, and behind an input that makes the
states meet they are one run. -/
theorem run_agree
    (pass : ∀ first second input, related first second → legal input → passes first input →
      Agree related (step first input) (step second input))
    (meet : ∀ first second input, related first second → legal input → meets first input →
      step first input = step second input)
    (relates : related first second) (all : ∀ input ∈ inputs, legal input)
    (untilMet : UntilMet step passes meets ends first inputs) :
    Agree (fun first second => first = second ∨ ends ∧ related first second)
      (run step first inputs) (run step second inputs) := by
  induction inputs generalizing first second with
  | nil => exact .output [] (.inr ⟨untilMet, relates⟩)
  | cons input inputs ih =>
    have here := all input List.mem_cons_self
    rcases untilMet with met | ⟨passed, later⟩
    · have same : run step first (input :: inputs) = run step second (input :: inputs) := by
        rw [run, run, meet first second input relates here met]
      rw [same]
      exact agree_self (fun _ => .inl rfl) _
    · refine (pass first second input relates here passed).bind
        fun output first' second' stepped relates' => ?_
      refine Agree.bind (ih relates' (fun other member => all other (List.mem_cons_of_mem _ member))
        (later output first' stepped)) fun outputs last last' _ alike => ?_
      exact .output (output :: outputs) alike

/-- Steps that keep states related and put out the same make runs that do. -/
theorem run_alike
    (each : ∀ first second input, related first second →
      Agree related (step first input) (step second input))
    (relates : related first second) :
    Agree related (run step first inputs) (run step second inputs) := by
  induction inputs generalizing first second with
  | nil => exact .output [] relates
  | cons input inputs ih =>
    apply (each first second input relates).bind
    intro output first' second' _ relates'
    apply (ih relates').bind
    intro outputs last last' _ alike
    exact .output (output :: outputs) alike

/-- Results that look the same and leave one state are one result. -/
theorem Agree.eq {one two : Except ε (ω × σ)} (agree : Agree (· = ·) one two) : one = two := by
  cases agree with
  | fault error => rfl
  | output value relates => rw [relates]

theorem Agree.mono {related' : σ → σ → Prop} {one two : Except ε (ω × σ)}
    (agree : Agree related one two) (weaker : ∀ first second, related first second →
      related' first second) : Agree related' one two := by
  cases agree with
  | fault error => exact .fault error
  | output value relates => exact .output value (weaker _ _ relates)

end CarrotDb.Lockstep

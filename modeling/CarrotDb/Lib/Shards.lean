import CarrotDb.Lib.Lockstep

/-! A state that falls into shards, and inputs each of which is about one of
them. What a run does to a shard is what the inputs about that shard would do
alone, so the order of inputs about different shards is nobody's business. -/
namespace CarrotDb.Shards
open Lockstep

variable {ε σ κ ι ω : Type} {part : κ → Type}

/-- A step looks at the shard its input is about, and changes nothing else.
The invariant is what the steps may rely on. -/
structure Sharding (shard : (place : κ) → σ → part place) (about : ι → κ) (invariant : σ → Prop)
    (step : σ → ι → Except ε (ω × σ)) : Prop where
  whole : ∀ first second, (∀ place, shard place first = shard place second) → first = second
  keeps : ∀ state input output next, invariant state → step state input = .ok (output, next) →
    invariant next
  others : ∀ state input output next, invariant state → step state input = .ok (output, next) →
    ∀ place, place ≠ about input → shard place next = shard place state
  own : ∀ first second input, invariant first → invariant second →
    shard (about input) first = shard (about input) second →
    Agree (fun next next' => shard (about input) next = shard (about input) next')
      (step first input) (step second input)

variable {shard : (place : κ) → σ → part place} {about : ι → κ} {invariant : σ → Prop}
  {step : σ → ι → Except ε (ω × σ)} {state other last : σ} {input : ι} {inputs : List ι}
  {output : ω} {outputs : List ω} {place : κ}

/-- A step seen from a state with the same shard. -/
theorem Sharding.transport (sharding : Sharding shard about invariant step)
    (here : invariant state) (there : invariant other)
    (same : shard (about input) state = shard (about input) other) {next : σ}
    (stepped : step state input = .ok (output, next)) :
    ∃ next', step other input = .ok (output, next') ∧
      shard (about input) next = shard (about input) next' := by
  have agree := sharding.own state other input here there same
  rw [stepped] at agree
  cases result : step other input with
  | error fault =>
    rw [result] at agree
    cases agree
  | ok outcome =>
    rw [result] at agree
    cases agree with
    | output value relates => exact ⟨_, rfl, relates⟩

variable [DecidableEq κ]

/-- The inputs about a place, in their order. -/
def inputsAt (about : ι → κ) (place : κ) (inputs : List ι) : List ι :=
  inputs.filter fun input => about input = place

/-- The inputs about a place, each with what it was answered. -/
def answersAt (about : ι → κ) (place : κ) (inputs : List ι) (outputs : List ω) : List (ι × ω) :=
  (inputs.zip outputs).filter fun answered => about answered.1 = place

theorem inputsAt_here (here : about input = place) (inputs : List ι) :
    inputsAt about place (input :: inputs) = input :: inputsAt about place inputs := by
  simp [inputsAt, here]

theorem inputsAt_elsewhere (elsewhere : about input ≠ place) (inputs : List ι) :
    inputsAt about place (input :: inputs) = inputsAt about place inputs := by
  simp [inputsAt, elsewhere]

/-- Inputs about different places change places unseen. -/
theorem inputsAt_swap {first second : ι} (different : about first ≠ about second) (inputs : List ι)
    (place : κ) : inputsAt about place (first :: second :: inputs) =
      inputsAt about place (second :: first :: inputs) := by
  by_cases here : about first = place
  · have elsewhere : about second ≠ place := fun same => different (here.trans same.symm)
    simp [inputsAt, here, elsewhere]
  · simp [inputsAt, List.filter_cons, here]

theorem answersAt_here (here : about input = place) (inputs : List ι) (output : ω)
    (outputs : List ω) : answersAt about place (input :: inputs) (output :: outputs) =
      (input, output) :: answersAt about place inputs outputs := by
  simp [answersAt, here]

theorem answersAt_elsewhere (elsewhere : about input ≠ place) (inputs : List ι) (output : ω)
    (outputs : List ω) : answersAt about place (input :: inputs) (output :: outputs) =
      answersAt about place inputs outputs := by
  simp [answersAt, elsewhere]

/-- What a run does to a shard, and answers about it, the inputs about that
shard do and are answered alone. -/
theorem Sharding.run_alone (sharding : Sharding shard about invariant step) (place : κ)
    (here : invariant state) (there : invariant other)
    (same : shard place state = shard place other)
    (ran : run step state inputs = .ok (outputs, last)) :
    ∃ alone last', run step other (inputsAt about place inputs) = .ok (alone, last') ∧
      (inputsAt about place inputs).zip alone = answersAt about place inputs outputs ∧
      shard place last = shard place last' := by
  induction inputs generalizing state other outputs with
  | nil =>
    cases ran
    exact ⟨[], other, rfl, rfl, same⟩
  | cons input inputs ih =>
    obtain ⟨output, next, later, stepped, following, rfl⟩ := run_cons_ok.mp ran
    have kept := sharding.keeps _ _ _ _ here stepped
    by_cases own : about input = place
    · subst own
      obtain ⟨next', stepped', same'⟩ := sharding.transport here there same stepped
      obtain ⟨alone, last', ran', answers, final⟩ :=
        ih kept (sharding.keeps _ _ _ _ there stepped') same' following
      refine ⟨output :: alone, last', ?_, ?_, final⟩
      · rw [inputsAt_here rfl]
        exact run_cons_ok.mpr ⟨output, next', alone, stepped', ran', rfl⟩
      · rw [inputsAt_here rfl, answersAt_here rfl, List.zip_cons_cons, answers]
    · have untouched := sharding.others _ _ _ _ here stepped place (Ne.symm own)
      rw [inputsAt_elsewhere own, answersAt_elsewhere own]
      exact ih kept there (untouched.trans same) following

/-- Inputs that run place by place run together. -/
theorem Sharding.run_together (sharding : Sharding shard about invariant step)
    (inputs : List ι) (here : invariant state)
    (alone : ∀ place, ∃ other, invariant other ∧ shard place state = shard place other ∧
      ∃ result, run step other (inputsAt about place inputs) = .ok result) :
    ∃ result, run step state inputs = .ok result := by
  induction inputs generalizing state with
  | nil => exact ⟨_, rfl⟩
  | cons input inputs ih =>
    obtain ⟨other, there, same, ⟨answers, last⟩, ran⟩ := alone (about input)
    rw [inputsAt_here rfl] at ran
    obtain ⟨output, next', later, stepped', following, -⟩ := run_cons_ok.mp ran
    obtain ⟨next, stepped, same'⟩ := sharding.transport there here same.symm stepped'
    have kept := sharding.keeps _ _ _ _ here stepped
    obtain ⟨⟨rest, end_⟩, whole⟩ := ih kept fun place => by
      by_cases own : about input = place
      · subst own
        exact ⟨next', sharding.keeps _ _ _ _ there stepped', same'.symm, _, following⟩
      · obtain ⟨other, there, same, result, ran⟩ := alone place
        rw [inputsAt_elsewhere own] at ran
        have untouched := sharding.others _ _ _ _ here stepped place (Ne.symm own)
        exact ⟨other, there, untouched.trans same, result, ran⟩
    exact ⟨_, run_cons_ok.mpr ⟨output, next, rest, stepped, whole, rfl⟩⟩

/-- Two orders of inputs that agree about every place answer every input the
same and end in the same state. -/
theorem Sharding.run_reordered (sharding : Sharding shard about invariant step)
    (here : invariant state) {reordered : List ι}
    (same : ∀ place, inputsAt about place inputs = inputsAt about place reordered)
    (ran : run step state inputs = .ok (outputs, last)) :
    ∃ outputs', run step state reordered = .ok (outputs', last) ∧
      ∀ place, answersAt about place inputs outputs = answersAt about place reordered outputs' := by
  have alone (place : κ) := sharding.run_alone place here here rfl ran
  obtain ⟨⟨outputs', last'⟩, ran'⟩ := sharding.run_together reordered here fun place => by
    obtain ⟨answers, end_, ran, -⟩ := alone place
    exact ⟨state, here, rfl, _, same place ▸ ran⟩
  have each (place : κ) : answersAt about place inputs outputs =
      answersAt about place reordered outputs' ∧ shard place last = shard place last' := by
    obtain ⟨answers, end_, one, told, final⟩ := alone place
    obtain ⟨answers', end', two, told', final'⟩ :=
      sharding.run_alone place here here rfl ran'
    rw [same place, two] at one
    cases one
    exact ⟨by rw [← told, ← told', same place], final.trans final'.symm⟩
  obtain rfl := sharding.whole last last' fun place => (each place).2
  exact ⟨outputs', ran', fun place => (each place).1⟩

end CarrotDb.Shards

import Mathlib

/-!
# Programs with state and faults

A call is a program in `EStateM ε σ α`: it ends with a value or with a fault,
and in both cases leaves a state behind.  So what a failed call did before it
failed stays visible.

The `_apply` lemmas run a program on a state.  `Ends program state post fail`
is the weakest precondition: the program, started in `state`, either returns a
value and a state in `post` or fails with a fault and a state in `fail`.
-/

namespace Programs

universe u

variable {ε σ α β : Type u}

@[simp]
theorem pure_apply (value : α) (state : σ) :
    (pure value : EStateM ε σ α) state = .ok value state := rfl

@[simp]
theorem get_apply (state : σ) :
    (get : EStateM ε σ σ) state = .ok state state := rfl

@[simp]
theorem set_apply (next state : σ) :
    (set next : EStateM ε σ PUnit) state = .ok ⟨⟩ next := rfl

@[simp]
theorem throw_apply (fault : ε) (state : σ) :
    (throw fault : EStateM ε σ α) state = .error fault state := rfl

theorem bind_apply_of_ok {program : EStateM ε σ α} {state middle : σ}
    {value : α} (continuation : α → EStateM ε σ β)
    (returned : program state = .ok value middle) :
    (program >>= continuation) state = continuation value middle := by
  change EStateM.bind program continuation state = _
  simp only [EStateM.bind, returned]

theorem bind_apply_of_error {program : EStateM ε σ α} {state middle : σ}
    {fault : ε} (continuation : α → EStateM ε σ β)
    (failed : program state = .error fault middle) :
    (program >>= continuation) state = .error fault middle := by
  change EStateM.bind program continuation state = _
  simp only [EStateM.bind, failed]

/-- A sequence that returns has returned in both parts. -/
theorem bind_apply_ok {program : EStateM ε σ α} {state final : σ}
    {continuation : α → EStateM ε σ β} {result : β}
    (returned : (program >>= continuation) state = .ok result final) :
    ∃ value middle, program state = .ok value middle ∧
      continuation value middle = .ok result final := by
  cases ran : program state with
  | ok value middle =>
      rw [bind_apply_of_ok continuation ran] at returned
      exact ⟨value, middle, rfl, returned⟩
  | error fault middle =>
      rw [bind_apply_of_error continuation ran] at returned
      cases returned

theorem map_apply_of_ok {program : EStateM ε σ α} {state final : σ} {value : α}
    (f : α → β) (returned : program state = .ok value final) :
    (f <$> program) state = .ok (f value) final := by
  rw [map_eq_pure_bind, bind_apply_of_ok _ returned]
  rfl

theorem map_apply_of_error {program : EStateM ε σ α} {state final : σ}
    {fault : ε} (f : α → β) (failed : program state = .error fault final) :
    (f <$> program) state = .error fault final := by
  rw [map_eq_pure_bind, bind_apply_of_error _ failed]

theorem map_apply_ok {program : EStateM ε σ α} {f : α → β} {state final : σ}
    {result : β} (returned : (f <$> program) state = .ok result final) :
    ∃ value, program state = .ok value final ∧ f value = result := by
  rw [map_eq_pure_bind] at returned
  obtain ⟨value, middle, ran, last⟩ := bind_apply_ok returned
  cases last
  exact ⟨value, ran, rfl⟩

/-- The program ends with a value in `post` or with a fault in `fail`. -/
def Ends (program : EStateM ε σ α) (state : σ)
    (post : α → σ → Prop) (fail : ε → σ → Prop) : Prop :=
  match program state with
  | .ok value final => post value final
  | .error fault final => fail fault final

section Ends

variable {post : α → σ → Prop} {fail : ε → σ → Prop} {state : σ}

theorem ends_of_ok {program : EStateM ε σ α} {value : α} {final : σ}
    (returned : program state = .ok value final) (holds : post value final) :
    Ends program state post fail := by
  simpa only [Ends, returned] using holds

theorem ends_of_error {program : EStateM ε σ α} {fault : ε} {final : σ}
    (failed : program state = .error fault final) (holds : fail fault final) :
    Ends program state post fail := by
  simpa only [Ends, failed] using holds

theorem Ends.of_ok {program : EStateM ε σ α} {value : α} {final : σ}
    (ends : Ends program state post fail)
    (returned : program state = .ok value final) : post value final := by
  simpa only [Ends, returned] using ends

theorem Ends.of_error {program : EStateM ε σ α} {fault : ε} {final : σ}
    (ends : Ends program state post fail)
    (failed : program state = .error fault final) : fail fault final := by
  simpa only [Ends, failed] using ends

theorem ends_pure {value : α} (holds : post value state) :
    Ends (pure value) state post fail := holds

theorem ends_bind {program : EStateM ε σ α} {continuation : α → EStateM ε σ β}
    {post : β → σ → Prop}
    (first : Ends program state
      (fun value middle => Ends (continuation value) middle post fail) fail) :
    Ends (program >>= continuation) state post fail := by
  cases ran : program state with
  | ok value middle =>
      have rest : Ends (continuation value) middle post fail := by
        simpa only [Ends, ran] using first
      simpa only [Ends, bind_apply_of_ok continuation ran] using rest
  | error fault middle =>
      have failed : fail fault middle := by
        simpa only [Ends, ran] using first
      exact ends_of_error (bind_apply_of_error continuation ran) failed

theorem ends_map {program : EStateM ε σ α} {f : α → β} {post : β → σ → Prop}
    (ends : Ends program state (fun value final => post (f value) final) fail) :
    Ends (f <$> program) state post fail := by
  rw [map_eq_pure_bind]
  exact ends_bind ends

theorem Ends.imp {program : EStateM ε σ α}
    {post' : α → σ → Prop} {fail' : ε → σ → Prop}
    (ends : Ends program state post fail)
    (onReturn : ∀ value final, post value final → post' value final)
    (onFault : ∀ fault final, fail fault final → fail' fault final) :
    Ends program state post' fail' := by
  cases ran : program state with
  | ok value final =>
      exact ends_of_ok ran (onReturn value final (by simpa only [Ends, ran] using ends))
  | error fault final =>
      exact ends_of_error ran (onFault fault final (by simpa only [Ends, ran] using ends))

theorem Ends.and {program : EStateM ε σ α}
    {post' : α → σ → Prop} {fail' : ε → σ → Prop}
    (ends : Ends program state post fail)
    (others : Ends program state post' fail') :
    Ends program state (fun value final => post value final ∧ post' value final)
      (fun fault final => fail fault final ∧ fail' fault final) := by
  cases ran : program state with
  | ok value final => exact ends_of_ok ran ⟨ends.of_ok ran, others.of_ok ran⟩
  | error fault final =>
      exact ends_of_error ran ⟨ends.of_error ran, others.of_error ran⟩

end Ends

/-! ## Loops that stop at the first error -/

section Loops

variable {step : σ → α → Except ε σ}

/-- What every step of a loop keeps, the loop keeps. -/
theorem foldlM_preserves (invariant : σ → Prop) :
    ∀ {items : List α} {state final : σ},
      (∀ item ∈ items, ∀ state next, invariant state →
        step state item = .ok next → invariant next) →
      invariant state → items.foldlM step state = .ok final → invariant final
  | [], _, _, _, initially, finished => by
      cases finished
      exact initially
  | item :: rest, state, final, preserved, initially, finished => by
      rw [List.foldlM_cons] at finished
      cases stepped : step state item with
      | error fault =>
          rw [stepped] at finished
          cases finished
      | ok next =>
          rw [stepped] at finished
          exact foldlM_preserves invariant
            (fun other member => preserved other (List.mem_cons_of_mem item member))
            (preserved item List.mem_cons_self state next initially stepped)
            finished

/-- The error of a loop is the error of one of its steps. -/
theorem foldlM_error {property : ε → Prop}
    (oneStep : ∀ state item fault, step state item = .error fault →
      property fault) :
    ∀ {items : List α} {state : σ} {fault : ε},
      items.foldlM step state = .error fault → property fault
  | [], _, _, failed => by cases failed
  | item :: rest, state, fault, failed => by
      rw [List.foldlM_cons] at failed
      cases stepped : step state item with
      | ok next =>
          rw [stepped] at failed
          exact foldlM_error oneStep failed
      | error first =>
          rw [stepped] at failed
          cases failed
          exact oneStep state item fault stepped

end Loops

/-- A program on a part of the state. -/
def zoom {τ : Type u} (part : σ → τ) (put : σ → τ → σ)
    (program : EStateM ε τ α) : EStateM ε σ α := fun state =>
  match program (part state) with
  | .ok value final => .ok value (put state final)
  | .error fault final => .error fault (put state final)

theorem ends_zoom {τ : Type u} {part : σ → τ} {put : σ → τ → σ}
    {program : EStateM ε τ α} {state : σ}
    {post : α → σ → Prop} {fail : ε → σ → Prop}
    (ends : Ends program (part state)
      (fun value final => post value (put state final))
      (fun fault final => fail fault (put state final))) :
    Ends (zoom part put program) state post fail := by
  cases ran : program (part state) with
  | ok value final =>
      have returned : zoom part put program state =
          .ok value (put state final) := by
        simp only [zoom, ran]
      exact ends_of_ok returned (by simpa only [Ends, ran] using ends)
  | error fault final =>
      have failed : zoom part put program state =
          .error fault (put state final) := by
        simp only [zoom, ran]
      exact ends_of_error failed (by simpa only [Ends, ran] using ends)

/-! ## Programs that move along a preorder -/

/-- Wherever the program starts, it ends in a related state, with a value or
with a fault. -/
def Moves (related : σ → σ → Prop) (program : EStateM ε σ α) : Prop :=
  ∀ state, Ends program state (fun _ final => related state final)
    (fun _ final => related state final)

section Moves

variable {related : σ → σ → Prop} [IsPreorder σ related]

theorem moves_pure (value : α) :
    Moves related (pure value : EStateM ε σ α) :=
  fun state => ends_pure (Std.Refl.refl state)

theorem moves_throw (fault : ε) :
    Moves related (throw fault : EStateM ε σ α) :=
  fun state => ends_of_error (throw_apply fault state)
    (Std.Refl.refl state)

theorem moves_get : Moves related (get : EStateM ε σ σ) :=
  fun state => ends_of_ok (get_apply state) (Std.Refl.refl state)

theorem Moves.bind {program : EStateM ε σ α}
    {continuation : α → EStateM ε σ β} (first : Moves related program)
    (rest : ∀ value, Moves related (continuation value)) :
    Moves related (program >>= continuation) := by
  intro state
  apply ends_bind
  apply (first state).imp
  · intro value middle moved
    apply (rest value middle).imp
    · exact fun _ _ later => IsTrans.trans _ _ _ moved later
    · exact fun _ _ later => IsTrans.trans _ _ _ moved later
  · exact fun _ _ moved => moved

theorem Moves.map {program : EStateM ε σ α} (moves : Moves related program)
    (f : α → β) : Moves related (f <$> program) := by
  rw [map_eq_pure_bind]
  exact moves.bind fun value => moves_pure (f value)

end Moves

/-- A program on a part of the state, when every new part is related. -/
theorem moves_zoom {τ : Type u} {related : σ → σ → Prop} {part : σ → τ}
    {put : σ → τ → σ} (puts : ∀ state final, related state (put state final))
    (program : EStateM ε τ α) : Moves related (zoom part put program) := by
  intro state
  apply ends_zoom
  cases ran : program (part state) with
  | ok value final => exact ends_of_ok ran (puts state final)
  | error fault final => exact ends_of_error ran (puts state final)

end Programs

import Mathlib
import StateDatabase.Library.Programs

/-!
# Programs that can be stopped

A process can stop between any two changes of what it stores.  The state keeps
all contents that there have been, so that what a stopped process leaves behind
is one of them.

`Passes always program state post fail` is the precondition of a program that
is started with this content: it ends in `post` or `fail`, as `Ends` does, and
at every moment on the way the content satisfies `always`.
-/

namespace CrashPrograms

open Programs

universe u

/-- A content and those before it, the latest first. -/
structure Traced (σ : Type u) where
  current : σ
  before : List σ

/-- All contents there have been, the latest first. -/
def Traced.contents {σ : Type u} (traced : Traced σ) : List σ :=
  traced.current :: traced.before

theorem Traced.current_mem {σ : Type u} (traced : Traced σ) :
    traced.current ∈ traced.contents :=
  List.mem_cons_self

variable {ε σ α β : Type u}

/-- What a run leaves behind, whether it fails or not. -/
def left : EStateM.Result ε (Traced σ) α → Traced σ
  | .ok _ final => final
  | .error _ final => final

/-- The content. -/
def current : EStateM ε (Traced σ) σ := do
  return (← get).current

/-- Change the content. -/
def change (next : σ → σ) : EStateM ε (Traced σ) PUnit := do
  let traced ← get
  set { current := next traced.current, before := traced.contents : Traced σ }

/-- Run the handler when the program fails with one of these faults, and fail
then. -/
def rethrowing (isCaught : ε → Bool) (program : EStateM ε σ α)
    (handler : EStateM ε σ PUnit) : EStateM ε σ α := fun state =>
  match program state with
  | .ok value final => .ok value final
  | .error fault middle =>
      if isCaught fault then
        match handler middle with
        | .ok _ final => .error fault final
        | .error second final => .error second final
      else .error fault middle

def Passes (always : σ → Prop) (program : EStateM ε (Traced σ) α) (state : σ)
    (post : α → σ → Prop) (fail : ε → σ → Prop) : Prop :=
  ∀ traced : Traced σ, traced.current = state →
    (∀ content ∈ traced.contents, always content) →
      Ends program traced
        (fun value final =>
          (∀ content ∈ final.contents, always content) ∧
            post value final.current)
        (fun fault final =>
          (∀ content ∈ final.contents, always content) ∧
            fail fault final.current)

section Rules

variable {always : σ → Prop} {state : σ} {post : α → σ → Prop}
  {fail : ε → σ → Prop}

theorem passes_pure {value : α} (holds : post value state) :
    Passes always (pure value : EStateM ε (Traced σ) α) state post fail := by
  rintro traced rfl all
  exact ⟨all, holds⟩

theorem passes_throw {fault : ε} (holds : fail fault state) :
    Passes always (throw fault : EStateM ε (Traced σ) α) state post fail := by
  rintro traced rfl all
  exact ⟨all, holds⟩

theorem passes_bind {program : EStateM ε (Traced σ) α}
    {continuation : α → EStateM ε (Traced σ) β} {post : β → σ → Prop}
    (first : Passes always program state
      (fun value middle => Passes always (continuation value) middle post fail)
      fail) :
    Passes always (program >>= continuation) state post fail := by
  intro traced isCurrent all
  apply ends_bind
  apply (first traced isCurrent all).imp _ (fun _ _ holds => holds)
  rintro value middle ⟨allSoFar, rest⟩
  exact rest middle rfl allSoFar

theorem passes_current {post : σ → σ → Prop} (holds : post state state) :
    Passes always (current : EStateM ε (Traced σ) σ) state post fail := by
  rintro traced rfl all
  exact ⟨all, holds⟩

theorem passes_change {next : σ → σ} {post : PUnit → σ → Prop}
    (allowed : always (next state)) (holds : post ⟨⟩ (next state)) :
    Passes always (change next : EStateM ε (Traced σ) PUnit) state post
      fail := by
  rintro traced rfl all
  refine ⟨?_, holds⟩
  intro content member
  rcases List.mem_cons.mp member with rfl | isEarlier
  · exact allowed
  · exact all content isEarlier

theorem Passes.imp {program : EStateM ε (Traced σ) α}
    {post' : α → σ → Prop} {fail' : ε → σ → Prop}
    (passes : Passes always program state post fail)
    (onReturn : ∀ value final, post value final → post' value final)
    (onFault : ∀ fault final, fail fault final → fail' fault final) :
    Passes always program state post' fail' := by
  intro traced isCurrent all
  apply (passes traced isCurrent all).imp
  · intro value final holds
    exact ⟨holds.1, onReturn value final.current holds.2⟩
  · intro fault final holds
    exact ⟨holds.1, onFault fault final.current holds.2⟩

theorem passes_rethrowing {program : EStateM ε (Traced σ) α}
    {isCaught : ε → Bool} {handler : EStateM ε (Traced σ) PUnit}
    (passes : Passes always program state post (fun fault middle =>
      (isCaught fault = true →
        Passes always handler middle (fun _ final => fail fault final) fail) ∧
      (isCaught fault = false → fail fault middle))) :
    Passes always (rethrowing isCaught program handler) state post fail := by
  intro traced isCurrent all
  have ends := passes traced isCurrent all
  cases ran : program traced with
  | ok value final =>
      have returned : rethrowing isCaught program handler traced =
          .ok value final := by
        simp only [rethrowing, ran]
      exact ends_of_ok returned (ends.of_ok ran)
  | error fault middle =>
      obtain ⟨allSoFar, caught, notCaught⟩ := ends.of_error ran
      cases isCaughtFault : isCaught fault with
      | false =>
          have failed : rethrowing isCaught program handler traced =
              .error fault middle := by
            simp only [rethrowing, ran, isCaughtFault, Bool.false_eq_true,
              if_false]
          exact ends_of_error failed ⟨allSoFar, notCaught isCaughtFault⟩
      | true =>
          have handled := caught isCaughtFault middle rfl allSoFar
          cases handles : handler middle with
          | ok value final =>
              have failed : rethrowing isCaught program handler traced =
                  .error fault final := by
                simp only [rethrowing, ran, isCaughtFault, if_true, handles]
              exact ends_of_error failed (handled.of_ok handles)
          | error second final =>
              have failed : rethrowing isCaught program handler traced =
                  .error second final := by
                simp only [rethrowing, ran, isCaughtFault, if_true, handles]
              exact ends_of_error failed (handled.of_error handles)

/-- What the rules say about one run. -/
theorem Passes.ends {program : EStateM ε (Traced σ) α}
    (passes : Passes always program state post fail) (allowed : always state) :
    Ends program ⟨state, []⟩
      (fun value final =>
        (∀ content ∈ final.contents, always content) ∧
          post value final.current)
      (fun fault final =>
        (∀ content ∈ final.contents, always content) ∧
          fail fault final.current) := by
  apply passes ⟨state, []⟩ rfl
  intro content member
  rw [List.mem_singleton.mp member]
  exact allowed

/-- All contents of a run were allowed, whether it fails or not. -/
theorem Passes.left {program : EStateM ε (Traced σ) α}
    (passes : Passes always program state post fail) (allowed : always state) :
    ∀ content ∈ (left (program ⟨state, []⟩)).contents, always content := by
  have ends := passes.ends allowed
  cases ran : program ⟨state, []⟩ with
  | ok value final => exact (ends.of_ok ran).1
  | error fault final => exact (ends.of_error ran).1

end Rules

end CrashPrograms

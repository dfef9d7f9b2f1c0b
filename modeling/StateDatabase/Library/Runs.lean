import Mathlib

/-!
# Runs of partial step functions

A system is a step function `step : σ → α → Option σ`.  The value `none`
means that the call ended the process, so no later call is made.  A run makes
the calls of a list in order.

`AllowedFrom` says that every call of a run is made in a state where the
caller may make it.  The two rules of this module turn a fact about one
allowed call into a fact about all allowed runs: `run_simulates` relates the
run to a run of a total abstract system, and `run_invariant` is its special
case for a predicate on the states of one system.
-/

namespace Runs

universe u v w

variable {σ : Type u} {τ : Type v} {α : Type w}

/-- Make the calls one after the other, as long as the process lives. -/
def run (step : σ → α → Option σ) : σ → List α → Option σ
  | state, [] => some state
  | state, call :: rest => (step state call).bind fun next => run step next rest

/-- Every call is allowed in the state in which the run makes it. -/
def AllowedFrom (step : σ → α → Option σ) (allowed : σ → α → Prop) :
    σ → List α → Prop
  | _, [] => True
  | state, call :: rest =>
      allowed state call ∧
        ∀ next, step state call = some next → AllowedFrom step allowed next rest

variable {step : σ → α → Option σ} {allowed : σ → α → Prop}

@[simp]
theorem run_nil (state : σ) : run step state [] = some state := rfl

theorem run_cons (state : σ) (call : α) (rest : List α) :
    run step state (call :: rest) =
      (step state call).bind fun next => run step next rest := rfl

theorem run_append (state : σ) (first second : List α) :
    run step state (first ++ second) =
      (run step state first).bind fun middle => run step middle second := by
  induction first generalizing state with
  | nil =>
      rfl
  | cons call rest inductionHypothesis =>
      rw [List.cons_append, run_cons, run_cons, Option.bind_assoc]
      congr 1
      funext next
      exact inductionHypothesis next

theorem allowedFrom_cons_iff_of_none {state : σ} {call : α} {rest : List α}
    (ended : step state call = none) :
    AllowedFrom step allowed state (call :: rest) ↔ allowed state call := by
  simp [AllowedFrom, ended]

/-- When the first call ends in `next`, the rest of the run starts there. -/
theorem allowedFrom_cons_iff_of_some {state next : σ} {call : α}
    {rest : List α} (stepped : step state call = some next) :
    AllowedFrom step allowed state (call :: rest) ↔
      allowed state call ∧ AllowedFrom step allowed next rest := by
  simp [AllowedFrom, stepped]

/-- Whether a run is allowed can be found by making it. -/
instance decidableAllowedFrom [∀ state call, Decidable (allowed state call)] :
    ∀ (state : σ) (calls : List α),
      Decidable (AllowedFrom step allowed state calls)
  | _, [] => isTrue trivial
  | state, call :: rest =>
      match stepped : step state call with
      | none => decidable_of_iff _ (allowedFrom_cons_iff_of_none stepped).symm
      | some next =>
          have := decidableAllowedFrom next rest
          decidable_of_iff _ (allowedFrom_cons_iff_of_some stepped).symm

/-- A weaker condition on the callers admits more runs. -/
theorem AllowedFrom.mono {weaker : σ → α → Prop}
    (implies : ∀ state call, allowed state call → weaker state call) :
    ∀ {calls : List α} {state : σ},
      AllowedFrom step allowed state calls → AllowedFrom step weaker state calls
  | [], _, _ => trivial
  | call :: _, state, permitted =>
      ⟨implies state call permitted.1, fun next stepped =>
        AllowedFrom.mono implies (permitted.2 next stepped)⟩

theorem AllowedFrom.and {other : σ → α → Prop} :
    ∀ {calls : List α} {state : σ}, AllowedFrom step allowed state calls →
      AllowedFrom step other state calls →
        AllowedFrom step (fun state call => allowed state call ∧
          other state call) state calls
  | [], _, _, _ => trivial
  | _ :: _, _, first, second =>
      ⟨⟨first.1, second.1⟩, fun next stepped =>
        AllowedFrom.and (first.2 next stepped) (second.2 next stepped)⟩

/-- The calls of the second part are allowed where the first part ends. -/
theorem AllowedFrom.append {second : List α} :
    ∀ {first : List α} {state : σ}, AllowedFrom step allowed state first →
      (∀ middle, run step state first = some middle →
        AllowedFrom step allowed middle second) →
        AllowedFrom step allowed state (first ++ second)
  | [], state, _, rest => rest state rfl
  | call :: first, state, permitted, rest =>
      ⟨permitted.1, fun next stepped =>
        AllowedFrom.append (permitted.2 next stepped) fun middle finished =>
          rest middle (by rw [run_cons, stepped]; exact finished)⟩

/-- A run in two parts is allowed when both parts are. -/
theorem allowedFrom_append_iff {first second : List α} {state : σ} :
    AllowedFrom step allowed state (first ++ second) ↔
      AllowedFrom step allowed state first ∧
        ∀ middle, run step state first = some middle →
          AllowedFrom step allowed middle second := by
  induction first generalizing state with
  | nil => simp [AllowedFrom]
  | cons call rest inductionHypothesis =>
      cases stepped : step state call with
      | none =>
          simp [allowedFrom_cons_iff_of_none stepped, run_cons, stepped]
      | some next =>
          rw [List.cons_append, allowedFrom_cons_iff_of_some stepped,
            allowedFrom_cons_iff_of_some stepped, inductionHypothesis,
            and_assoc, run_cons, stepped]
          rfl

/-- Without a condition on the callers every run is allowed. -/
theorem allowedFrom_of_forall (always : ∀ state call, allowed state call) :
    ∀ (calls : List α) (state : σ), AllowedFrom step allowed state calls
  | [], _ => trivial
  | call :: rest, state =>
      ⟨always state call, fun next _ => allowedFrom_of_forall always rest next⟩

/-- If one allowed call is simulated by the abstract step, so is every allowed
run, and the run never ends the process. -/
theorem run_simulates {abstractStep : τ → α → τ} {related : σ → τ → Prop}
    (simulates : ∀ state abstract call,
      related state abstract → allowed state call →
        ∃ next, step state call = some next ∧
          related next (abstractStep abstract call)) :
    ∀ {calls : List α} {state : σ} {abstract : τ},
      related state abstract → AllowedFrom step allowed state calls →
        ∃ final, run step state calls = some final ∧
          related final (calls.foldl abstractStep abstract)
  | [], state, _, holds, _ => ⟨state, rfl, holds⟩
  | call :: rest, state, abstract, holds, permitted => by
      obtain ⟨next, stepped, nextRelated⟩ :=
        simulates state abstract call holds permitted.1
      obtain ⟨final, finished, finalRelated⟩ :=
        run_simulates simulates nextRelated (permitted.2 next stepped)
      refine ⟨final, ?_, finalRelated⟩
      rw [run_cons, stepped]
      exact finished

/-- If one allowed call is answered by some allowed calls of another system,
every allowed run is answered by all of these. -/
theorem run_translates {β : Type*} {otherStep : τ → β → Option τ}
    {otherAllowed : τ → β → Prop} {translate : α → List β}
    {related : σ → τ → Prop}
    (simulates : ∀ state other call,
      related state other → allowed state call →
        AllowedFrom otherStep otherAllowed other (translate call) ∧
        ∃ next nextOther, step state call = some next ∧
          run otherStep other (translate call) = some nextOther ∧
          related next nextOther) :
    ∀ {calls : List α} {state : σ} {other : τ},
      related state other → AllowedFrom step allowed state calls →
        AllowedFrom otherStep otherAllowed other (calls.flatMap translate) ∧
        ∃ final finalOther, run step state calls = some final ∧
          run otherStep other (calls.flatMap translate) = some finalOther ∧
          related final finalOther
  | [], state, other, holds, _ =>
      ⟨trivial, state, other, rfl, rfl, holds⟩
  | call :: rest, state, other, holds, permitted => by
      obtain ⟨allowedFirst, next, nextOther, stepped, answered, nextRelated⟩ :=
        simulates state other call holds permitted.1
      obtain ⟨allowedRest, final, finalOther, finished, otherFinished,
        finalRelated⟩ :=
        run_translates simulates nextRelated (permitted.2 next stepped)
      refine ⟨?_, final, finalOther, ?_, ?_, finalRelated⟩
      · rw [List.flatMap_cons]
        apply allowedFirst.append
        intro middle reached
        rw [answered] at reached
        cases reached
        exact allowedRest
      · rw [run_cons, stepped]
        exact finished
      · rw [List.flatMap_cons, run_append, answered]
        exact otherFinished

/-- An invariant that every allowed call keeps holds after every allowed
run. -/
theorem run_invariant {invariant : σ → Prop}
    (preserved : ∀ state call, invariant state → allowed state call →
      ∃ next, step state call = some next ∧ invariant next)
    {calls : List α} {state : σ}
    (initially : invariant state)
    (permitted : AllowedFrom step allowed state calls) :
    ∃ final, run step state calls = some final ∧ invariant final := by
  -- the abstract system has one state
  have simulates : ∀ reached (abstract : Unit) call,
      invariant reached → allowed reached call →
        ∃ next, step reached call = some next ∧ invariant next :=
    fun reached _ call => preserved reached call
  obtain ⟨final, finished, holds⟩ :=
    @run_simulates σ Unit α step allowed (fun abstract _ => abstract)
      (fun reached _ => invariant reached) simulates calls state () initially
      permitted
  exact ⟨final, finished, holds⟩

/-- An invariant that every allowed call keeps, unless it ends the process,
holds in every state that an allowed run reaches. -/
theorem run_preserves (invariant : σ → Prop)
    (preserved : ∀ state call next, invariant state → allowed state call →
      step state call = some next → invariant next) :
    ∀ {calls : List α} {state final : σ},
      invariant state → AllowedFrom step allowed state calls →
        run step state calls = some final → invariant final
  | [], _, _, initially, _, finished => by
      cases finished
      exact initially
  | call :: rest, state, final, initially, permitted, finished => by
      rw [run_cons] at finished
      obtain ⟨next, stepped, later⟩ := Option.bind_eq_some_iff.mp finished
      exact run_preserves invariant preserved
        (preserved state call next initially permitted.1 stepped)
        (permitted.2 next stepped) later

/-- Some run leads from one state to the other. -/
def Reaches (step : σ → α → Option σ) (state final : σ) : Prop :=
  ∃ calls, run step state calls = some final

theorem Reaches.refl (state : σ) : Reaches step state state :=
  ⟨[], rfl⟩

theorem Reaches.trans {state middle final : σ}
    (first : Reaches step state middle) (second : Reaches step middle final) :
    Reaches step state final := by
  rcases first with ⟨firstCalls, firstRun⟩
  rcases second with ⟨secondCalls, secondRun⟩
  refine ⟨firstCalls ++ secondCalls, ?_⟩
  rw [run_append, firstRun]
  exact secondRun

theorem Reaches.of_step {state next : σ} (call : α)
    (stepped : step state call = some next) : Reaches step state next := by
  refine ⟨[call], ?_⟩
  rw [run_cons, stepped]
  rfl

end Runs

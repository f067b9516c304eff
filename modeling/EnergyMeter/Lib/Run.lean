import Mathlib.Logic.Basic
import Mathlib.Data.Nat.Init
import Mathlib.Logic.Function.Basic

/-!
# Guarded runs of a step function

A system is a partial step function `step : S → A → Option S`: `A` names who
moves, `none` says that this party is blocked. A run is any finite
interleaving; a guard says which moves the environment of the system allows
in which states.

* `Run` — the states that a guarded run leads to.
* `Run.invariant` — what every allowed step preserves holds after every run.
* `Run.mono_of_invariant` — a run under one guard is a run under another one
  that follows from it in all the states of the run.
* `Run.simulate` — a run of one system is a run of another that it refines.
* `Run.reaches` — progress: a rank that some allowed step lowers leads to the
  goal.
* `foldl_range_rule`, `foldlM_range_update` — the run of a counted loop.
* `foldl_prefix_iff` — where a step keeps a property exactly under a condition,
  a run keeps it exactly under the condition at every step.
* `foldl_steps_iff` — the same of what the steps do.
-/

namespace EnergyMeter.Lib

section Run

variable {S A : Type*} {step : S → A → Option S} {guard guard' : S → A → Prop}
  {s₀ s₁ s₂ s s' : S}

/-- `s` is reached from `s₀` by finitely many steps, each allowed by `guard`. -/
inductive Run (step : S → A → Option S) (guard : S → A → Prop) (s₀ : S) : S → Prop
  | refl : Run step guard s₀ s₀
  | tail {s s' : S} {a : A} (hRun : Run step guard s₀ s) (hGuard : guard s a)
      (hStep : step s a = some s') : Run step guard s₀ s'

namespace Run

theorem trans (h₁ : Run step guard s₀ s₁) (h₂ : Run step guard s₁ s₂) :
    Run step guard s₀ s₂ := by
  induction h₂ with
  | refl => exact h₁
  | tail _ hGuard hStep ih => exact ih.tail hGuard hStep

theorem single {a : A} (hGuard : guard s a) (hStep : step s a = some s') :
    Run step guard s s' :=
  Run.refl.tail hGuard hStep

/-- The induction over a run, done once: an inductive invariant holds in every
state reached. -/
theorem invariant {P : S → Prop} (h : Run step guard s₀ s) (h₀ : P s₀)
    (hStep : ∀ s a s', P s → guard s a → step s a = some s' → P s') : P s := by
  induction h with
  | refl => exact h₀
  | tail _ hGuard hs ih => exact hStep _ _ _ ih hGuard hs

theorem mono (h : Run step guard s₀ s) (hMono : ∀ s a, guard s a → guard' s a) :
    Run step guard' s₀ s := by
  induction h with
  | refl => exact Run.refl
  | tail _ hGuard hStep ih => exact ih.tail (hMono _ _ hGuard) hStep

/-- The guard may be replaced where an invariant of the run says so. -/
theorem mono_of_invariant {P : S → Prop} (h : Run step guard s₀ s) (h₀ : P s₀)
    (hStep : ∀ s a s', P s → guard s a → step s a = some s' → P s')
    (hMono : ∀ s a, P s → guard s a → guard' s a) : Run step guard' s₀ s := by
  induction h with
  | refl => exact Run.refl
  | tail hRun hGuard hs ih =>
    -- the invariant holds where the last step starts, so its guard may be replaced there
    have hP := hRun.invariant h₀ hStep
    exact ih.tail (hMono _ _ hP hGuard) hs

/-- Refinement: where every allowed step is an allowed step of another system, or none at
all there, the run is a run of the other system. -/
theorem simulate {S' A' : Type*} {step' : S' → A' → Option S'} {allowed : S' → A' → Prop}
    {P : S → Prop} (abs : S → S') (h : Run step guard s₀ s) (h₀ : P s₀)
    (hStep : ∀ s a s', P s → guard s a → step s a = some s' →
      P s' ∧ (abs s' = abs s ∨ ∃ b, allowed (abs s) b ∧ step' (abs s) b = some (abs s'))) :
    P s ∧ Run step' allowed (abs s₀) (abs s) := by
  induction h with
  | refl => exact ⟨h₀, Run.refl⟩
  | tail _ hGuard hs ih =>
    obtain ⟨hP, hRun⟩ := ih
    obtain ⟨hP', hSame | ⟨b, hAllowed, hAbs⟩⟩ := hStep _ _ _ hP hGuard hs
    · exact ⟨hP', hSame ▸ hRun⟩
    · exact ⟨hP', hRun.tail hAllowed hAbs⟩

/-- Progress: if wherever the goal is not reached some allowed step keeps `P`
and lowers a rank, then some run reaches the goal. -/
theorem reaches {P goal : S → Prop} (rank : S → ℕ)
    (hProgress : ∀ s, P s → ¬goal s →
      ∃ a s', guard s a ∧ step s a = some s' ∧ P s' ∧ rank s' < rank s)
    (h₀ : P s₀) : ∃ s, Run step guard s₀ s ∧ P s ∧ goal s := by
  -- induction on the rank of the starting state
  induction hn : rank s₀ using Nat.strong_induction_on generalizing s₀ with
  | _ n ih =>
    by_cases hGoal : goal s₀
    · exact ⟨s₀, Run.refl, h₀, hGoal⟩
    · obtain ⟨a, s₁, hGuard, hStep, hP, hLt⟩ := hProgress s₀ h₀ hGoal
      -- the step has lowered the rank: the rest of the run is the induction hypothesis
      obtain ⟨s, hRun, hPs, hGoals⟩ := ih (rank s₁) (hn ▸ hLt) hP rfl
      exact ⟨s, (single hGuard hStep).trans hRun, hPs, hGoals⟩

end Run

end Run

/-! ## Counted loops -/

/-- The rule of a counted loop: what holds before the first round, and goes
from round to round, holds after the last one. -/
theorem foldl_range_rule {S : Type*} {f : S → ℕ → S} {P : ℕ → S → Prop} {n : ℕ} {s : S}
    (h₀ : P 0 s) (hStep : ∀ k < n, ∀ s, P k s → P (k + 1) (f s k)) :
    P n ((List.range n).foldl f s) := by
  induction n with
  | zero => exact h₀
  | succ n ih =>
    -- the last round is the one that `List.range_succ` splits off
    rw [List.range_succ, List.foldl_append, List.foldl_cons, List.foldl_nil]
    exact hStep n (Nat.lt_succ_self n) _ (ih fun k hk => hStep k (by omega))

/-- A counted loop whose round `k` modifies entry `k` of an array. -/
theorem foldlM_range_modify {m : Type → Type} [Monad m] [LawfulMonad m] {α : Type} {n : ℕ}
    {body : (ℕ → α) → ℕ → m (ℕ → α)} {g : ℕ → α → α}
    (h : ∀ k < n, ∀ out, body out k = pure (Function.update out k (g k (out k)))) (out : ℕ → α) :
    (List.range n).foldlM body out = pure fun i => if i < n then g i (out i) else out i := by
  induction n with
  | zero => rfl
  | succ n ih =>
    -- the last round writes entry `n` over what the others left
    rw [List.range_succ, List.foldlM_append, ih fun k hk => h k (by omega), pure_bind,
      List.foldlM_cons, h n (Nat.lt_succ_self n), pure_bind, List.foldlM_nil]
    congr 1
    funext i
    by_cases hi : i = n
    · subst hi
      rw [Function.update_self, if_pos (Nat.lt_succ_self i), if_neg (Nat.lt_irrefl i)]
    · rw [Function.update_of_ne hi]
      have hlt : i < n + 1 ↔ i < n := by omega
      simp only [hlt]

/-- A counted loop whose round `k` writes entry `k` of an array. -/
theorem foldlM_range_update {m : Type → Type} [Monad m] [LawfulMonad m] {α : Type} {n : ℕ}
    {body : (ℕ → α) → ℕ → m (ℕ → α)} {g : ℕ → α}
    (h : ∀ k < n, ∀ out, body out k = pure (Function.update out k (g k))) (out : ℕ → α) :
    (List.range n).foldlM body out = pure fun i => if i < n then g i else out i :=
  foldlM_range_modify (g := fun k _ => g k) h out

/-! ## The exact condition along a run -/

section Fold

variable {S A : Type*} {f : S → A → S} {I P : S → Prop} {ok : A → Prop} {C : S → A → Prop}

/-- Where an invariant `I` holds and a step on an allowed input keeps `P` if and
only if `C` holds before it, a run keeps `P` in all its states if and only if
`C` holds before all its steps. -/
theorem foldl_prefix_iff {s : S} {as : List A} (hI : ∀ s a, ok a → I s → I (f s a))
    (hStep : ∀ s a, ok a → I s → P s → (P (f s a) ↔ C s a)) (hOk : ∀ a ∈ as, ok a)
    (h₀ : I s) (hP : P s) :
    (∀ n ≤ as.length, P ((as.take n).foldl f s)) ↔
      ∀ n, (hn : n < as.length) → C ((as.take n).foldl f s) as[n] := by
  induction as generalizing s with
  | nil => exact ⟨fun _ n hn => absurd hn (Nat.not_lt_zero n), fun _ n _ => by simpa using hP⟩
  | cons a as ih =>
    obtain ⟨hOk₁, hOk⟩ := List.forall_mem_cons.mp hOk
    by_cases hC : C s a
    · have hRest := ih hOk (hI s a hOk₁ h₀) ((hStep s a hOk₁ h₀ hP).mpr hC)
      constructor
      · intro h n hn
        cases n with
        | zero => exact hC
        | succ n =>
          refine hRest.mp (fun k hk => ?_) n (Nat.lt_of_succ_lt_succ hn)
          exact h (k + 1) (Nat.succ_le_succ hk)
      · intro h n hn
        cases n with
        | zero => exact hP
        | succ n =>
          refine hRest.mpr (fun k hk => ?_) n (Nat.le_of_succ_le_succ hn)
          exact h (k + 1) (Nat.succ_lt_succ hk)
    -- the first step already breaks both sides
    · refine iff_of_false (fun h => hC ?_) fun h => hC (h 0 (Nat.succ_pos _))
      exact (hStep s a hOk₁ h₀ hP).mp (h 1 (Nat.succ_le_succ (Nat.zero_le _)))

/-- What holds of every step of a run, of its first one and of the others. -/
theorem foldl_steps_cons {R : S → A → Prop} {s : S} {a : A} {as : List A} :
    (∀ n, (hn : n < (a :: as).length) → R (((a :: as).take n).foldl f s) (a :: as)[n]) ↔
      R s a ∧ ∀ n, (hn : n < as.length) → R ((as.take n).foldl f (f s a)) as[n] := by
  constructor
  · intro h
    exact ⟨h 0 (Nat.succ_pos _), fun n hn => h (n + 1) (Nat.succ_lt_succ hn)⟩
  · rintro ⟨hFirst, hRest⟩ n hn
    cases n with
    | zero => exact hFirst
    | succ n => exact hRest n (Nat.lt_of_succ_lt_succ hn)

/-- Where a step from a state with `I` does `Q` if and only if `C` holds, and
then leads to a state with `I`, all steps of a run do `Q` if and only if `C`
holds at all of them. -/
theorem foldl_steps_iff {Q : S → A → Prop} {s : S} {as : List A}
    (hStep : ∀ s a, I s → (Q s a ↔ C s a)) (hKeep : ∀ s a, I s → Q s a → I (f s a)) (h₀ : I s) :
    (∀ n, (hn : n < as.length) → Q ((as.take n).foldl f s) as[n]) ↔
      ∀ n, (hn : n < as.length) → C ((as.take n).foldl f s) as[n] := by
  induction as generalizing s with
  | nil => exact ⟨fun _ n hn => absurd hn (Nat.not_lt_zero n),
      fun _ n hn => absurd hn (Nat.not_lt_zero n)⟩
  | cons a as ih =>
    rw [foldl_steps_cons, foldl_steps_cons, ← hStep s a h₀]
    exact and_congr_right fun hQ => ih (hKeep s a h₀ hQ)

end Fold

end EnergyMeter.Lib

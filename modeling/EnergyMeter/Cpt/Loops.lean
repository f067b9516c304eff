import EnergyMeter.Cpt.Model
import Mathlib.Algebra.BigOperators.Fin
import Mathlib.Algebra.Group.PUnit

/-!
# EnergyMeter — what the loops over the phases compute

A loop whose iteration `i` computes a value from `Phase[i]` alone sets every
phase below `n` to that value, and accumulates the sum over these phases. The
two loop rules state this for programs that meet their requirements:

* `forPhases_rule` — for a loop that accumulates.
* `mapPhases_rule` — for a loop that does not.

In the total reading two weaker rules need no value at all:

* `forPhases_inv`, `mapPhases_inv` — what every iteration keeps, the loop keeps.
* `forPhases_post`, `mapPhases_post` — what every iteration establishes of its
  phase holds of the phases below `n`.

In the checked reading a loop that returned ran every iteration, each on the phase
it found:

* `forPhases_checked`, `mapPhases_checked`; `mapPhases_error` — the first iteration
  that fails.
-/

namespace EnergyMeter.Cpt

open Lib

/-- The phases that a loop up to `n` visits. -/
def phases (n : ℕ) : Finset (Fin 3) :=
  Finset.univ.filter fun i => i.val < n

@[simp] theorem mem_phases {n : ℕ} {i : Fin 3} : i ∈ phases n ↔ i.val < n := by
  simp [phases]

@[simp] theorem phases_three : phases 3 = Finset.univ := by
  decide

theorem mem_phaseIdx {n : ℕ} {i : Fin 3} : i ∈ phaseIdx n ↔ i.val < n := by
  simp [phaseIdx]

theorem phaseIdx_nodup (n : ℕ) : (phaseIdx n).Nodup :=
  (List.nodup_finRange 3).filter _

theorem phaseIdx_sum {A : Type} [AddCommMonoid A] (n : ℕ) (g : Fin 3 → A) :
    ((phaseIdx n).map g).sum = ∑ i ∈ phases n, g i := by
  rw [← List.sum_toFinset g (phaseIdx_nodup n)]
  congr 1
  ext i
  rw [List.mem_toFinset, mem_phaseIdx, mem_phases]

section Loops

variable {m : Type → Type} [Monad m] [LawfulMonad m] [MonadRequire m] [LawfulRequire m]
  {R A : Type} [AddCommMonoid A] {n : ℕ} {Phase : Fin 3 → TPhase R} {acc : A}

omit [MonadRequire m] [LawfulRequire m] in
private theorem foldlM_phases {body : Fin 3 → TPhase R → A → m (TPhase R × A)}
    {f : Fin 3 → TPhase R} {g : Fin 3 → A} :
    ∀ (l : List (Fin 3)) (P : Fin 3 → TPhase R) (acc : A), l.Nodup →
      (∀ i ∈ l, ∀ a, body i (P i) a = pure (f i, a + g i)) →
      (l.foldlM (fun s i => do
        let r ← body i (s.1 i) s.2
        return (Function.update s.1 i r.1, r.2)) (P, acc) :
          m ((Fin 3 → TPhase R) × A)) =
        pure (fun i => if i ∈ l then f i else P i, acc + (l.map g).sum) := by
  intro l
  induction l with
  | nil => simp
  | cons j rest ih =>
    intro P acc hNodup hBody
    obtain ⟨hj, hRest⟩ := List.nodup_cons.mp hNodup
    -- an index occurs once, so a later iteration still finds its own phase untouched
    have hne : ∀ i ∈ rest, i ≠ j := fun i hi hEq => hj (hEq ▸ hi)
    rw [List.foldlM_cons, hBody j (List.mem_cons_self ..)]
    simp only [pure_bind]
    rw [ih _ _ hRest fun i hi a => by
      rw [Function.update_of_ne (hne i hi)]
      exact hBody i (List.mem_cons_of_mem _ hi) a]
    congr 2
    · funext i
      by_cases hi : i = j
      · subst hi
        simp [hj]
      · simp [hi]
    · rw [List.map_cons, List.sum_cons, add_assoc]

/-- What a loop with accumulation computes. -/
theorem forPhases_eq {body : Fin 3 → TPhase R → A → m (TPhase R × A)}
    (hn : n ≤ 3) (f : Fin 3 → TPhase R) (g : Fin 3 → A)
    (h : ∀ i, i.val < n → ∀ a, body i (Phase i) a = pure (f i, a + g i)) :
    forPhases n Phase acc body =
      pure (fun i => if i.val < n then f i else Phase i, acc + ∑ i ∈ phases n, g i) := by
  rw [forPhases, require_of hn, pure_bind, foldlM_phases (phaseIdx n) Phase acc (phaseIdx_nodup n)
    fun i hi => h i (mem_phaseIdx.mp hi), phaseIdx_sum]
  simp only [mem_phaseIdx]

end Loops

section Rules

variable {R A : Type} [AddCommMonoid A] {n : ℕ} {Phase : Fin 3 → TPhase R}

/-- **Loop rule**, with accumulation: what every iteration establishes of its
phase holds of all phases afterwards. -/
theorem forPhases_rule (hn : n ≤ 3) (acc : A)
    (body : (m : Type → Type) → [Monad m] → [MonadRequire m] →
      Fin 3 → TPhase R → A → m (TPhase R × A))
    (g : Fin 3 → A) {Q : Fin 3 → TPhase R → Prop}
    (h : ∀ i, i.val < n → ∃ p,
      (∀ a, Computes (fun m => body m i (Phase i) a) (p, a + g i)) ∧ Q i p) :
    ∃ P, Computes (fun m => forPhases n Phase acc (body m)) (P, acc + ∑ i ∈ phases n, g i) ∧
      ∀ i, i.val < n → Q i (P i) := by
  -- a phase beyond the loop keeps its value
  have hChoice : ∀ i, ∃ p, i.val < n →
      (∀ a, Computes (fun m => body m i (Phase i) a) (p, a + g i)) ∧ Q i p := fun i => by
    by_cases hi : i.val < n
    · exact (h i hi).imp fun _ hp _ => hp
    · exact ⟨Phase i, fun hi' => absurd hi' hi⟩
  choose p hp using hChoice
  refine ⟨fun i => if i.val < n then p i else Phase i, ?_, fun i hi => ?_⟩
  · intro m _ _ _ _
    exact forPhases_eq hn p g fun i hi a => (hp i hi).1 a m
  · show Q i (if i.val < n then p i else Phase i)
    rw [if_pos hi]
    exact (hp i hi).2

omit [AddCommMonoid A] in
/-- **Loop rule**, without accumulation. -/
theorem mapPhases_rule (hn : n ≤ 3)
    (body : (m : Type → Type) → [Monad m] → [MonadRequire m] →
      Fin 3 → TPhase R → m (TPhase R))
    {Q : Fin 3 → TPhase R → Prop}
    (h : ∀ i, i.val < n → ∃ p, Computes (fun m => body m i (Phase i)) p ∧ Q i p) :
    ∃ P, Computes (fun m => mapPhases n Phase (body m)) P ∧
      ∀ i, i.val < n → Q i (P i) := by
  obtain ⟨P, hLoop, hQ⟩ := forPhases_rule hn ()
    (fun m _ _ i p _ => do return (← body m i p, ())) (fun _ => ()) fun i hi => by
      obtain ⟨p, hBody, hQ⟩ := h i hi
      exact ⟨p, fun _ => hBody.bind (Computes.pure _), hQ⟩
  exact ⟨P, hLoop.bind (Computes.pure _), hQ⟩

end Rules

/-! ## The total reading -/

section Total

variable {R A : Type} {n : ℕ} {Phase : Fin 3 → TPhase R} {Q : TPhase R → Prop}

private theorem foldlM_phases_inv {body : Fin 3 → TPhase R → A → Id (TPhase R × A)}
    (hBody : ∀ i p a, Q p → Q (body i p a).run.1) (i : Fin 3) :
    ∀ (l : List (Fin 3)) (s : (Fin 3 → TPhase R) × A), Q (s.1 i) →
      Q ((l.foldlM (m := Id) (fun s i => do
        let r ← body i (s.1 i) s.2
        return (Function.update s.1 i r.1, r.2)) s).run.1 i) := by
  intro l
  induction l with
  | nil => exact fun s h => h
  | cons j l ih =>
    intro s h
    rw [List.foldlM_cons]
    refine ih _ ?_
    show Q (Function.update s.1 j (body j (s.1 j) s.2).run.1 i)
    by_cases hi : i = j
    · subst hi
      rw [Function.update_self]
      exact hBody _ _ _ h
    · rw [Function.update_of_ne hi]
      exact h

/-- What every iteration keeps of its phase, the loop keeps of all phases. -/
theorem forPhases_inv (body : Fin 3 → TPhase R → A → Id (TPhase R × A))
    (hBody : ∀ i p a, Q p → Q (body i p a).run.1) (acc : A) (i : Fin 3) (h : Q (Phase i)) :
    Q ((forPhases (m := Id) n Phase acc body).run.1 i) :=
  foldlM_phases_inv hBody i (phaseIdx n) (Phase, acc) h

/-- What every iteration establishes of its phase holds afterwards. -/
theorem forPhases_post (body : Fin 3 → TPhase R → A → Id (TPhase R × A))
    (hBody : ∀ i p a, Q (body i p a).run.1) (acc : A) {i : Fin 3} (hi : i.val < n) :
    Q ((forPhases (m := Id) n Phase acc body).run.1 i) := by
  have hFold : ∀ (l : List (Fin 3)) (s : (Fin 3 → TPhase R) × A), i ∈ l →
      Q ((l.foldlM (m := Id) (fun s i => do
        let r ← body i (s.1 i) s.2
        return (Function.update s.1 i r.1, r.2)) s).run.1 i) := by
    intro l
    induction l with
    | nil => intro s hMem; simp at hMem
    | cons j l ih =>
      intro s hMem
      rw [List.foldlM_cons]
      rcases List.mem_cons.mp hMem with rfl | hMem
      -- later iterations, of whatever phase, keep what this one establishes
      · refine foldlM_phases_inv (fun i p a _ => hBody i p a) i l _ ?_
        show Q (Function.update s.1 i (body i (s.1 i) s.2).run.1 i)
        rw [Function.update_self]
        exact hBody _ _ _
      · exact ih _ hMem
  exact hFold (phaseIdx n) (Phase, acc) (mem_phaseIdx.mpr hi)

theorem mapPhases_inv (body : Fin 3 → TPhase R → Id (TPhase R))
    (hBody : ∀ i p, Q p → Q (body i p).run) (i : Fin 3) (h : Q (Phase i)) :
    Q ((mapPhases (m := Id) n Phase body).run i) :=
  forPhases_inv (n := n) (fun i p (_ : Unit) => do return (← body i p, ()))
    (fun i p _ => hBody i p) () i h

theorem mapPhases_post (body : Fin 3 → TPhase R → Id (TPhase R))
    (hBody : ∀ i p, Q (body i p).run) {i : Fin 3} (hi : i.val < n) :
    Q ((mapPhases (m := Id) n Phase body).run i) :=
  forPhases_post (n := n) (fun i p (_ : Unit) => do return (← body i p, ()))
    (fun i p _ => hBody i p) () hi

end Total

/-! ## The checked reading -/

section Checked

variable {R A : Type} {n : ℕ} {Phase P : Fin 3 → TPhase R} {acc acc' : A}

private theorem foldlM_phases_checked {body : Fin 3 → TPhase R → A → Except Fault (TPhase R × A)} :
    ∀ (l : List (Fin 3)) (s s' : (Fin 3 → TPhase R) × A), l.Nodup →
      l.foldlM (fun s i => do
        let r ← body i (s.1 i) s.2
        return (Function.update s.1 i r.1, r.2)) s = .ok s' →
      (∀ i ∈ l, ∃ a a', body i (s.1 i) a = .ok (s'.1 i, a')) ∧ ∀ i ∉ l, s'.1 i = s.1 i := by
  intro l
  induction l with
  | nil =>
    intro s s' _ h
    cases h
    exact ⟨by simp, fun _ _ => rfl⟩
  | cons j l ih =>
    intro s s' hNodup h
    obtain ⟨hj, hRest⟩ := List.nodup_cons.mp hNodup
    rw [List.foldlM_cons, bind_eq_ok] at h
    obtain ⟨s₁, hFirst, h⟩ := h
    rw [bind_eq_ok] at hFirst
    obtain ⟨r, hBody, hPure⟩ := hFirst
    cases hPure
    obtain ⟨hVisited, hKept⟩ := ih _ s' hRest h
    dsimp only at hVisited hKept
    -- the first phase is not visited again, the others are still untouched
    have hFirst : s'.1 j = r.1 := by rw [hKept j hj, Function.update_self]
    have hOther : ∀ i, i ≠ j → Function.update s.1 j r.1 i = s.1 i := fun i hi =>
      Function.update_of_ne hi _ _
    refine ⟨fun i hi => ?_, fun i hi => ?_⟩
    · rcases List.mem_cons.mp hi with rfl | hMem
      · exact ⟨s.2, r.2, by rw [hFirst, hBody]⟩
      · obtain ⟨a, a', hi⟩ := hVisited i hMem
        rw [hOther i fun hEq => hj (hEq ▸ hMem)] at hi
        exact ⟨a, a', hi⟩
    · obtain ⟨hij, hMem⟩ := not_or.mp (mt List.mem_cons.mpr hi)
      rw [hKept i hMem, hOther i hij]

/-- Every iteration of a loop that returned, each on the phase it found. -/
theorem forPhases_checked {body : Fin 3 → TPhase R → A → Except Fault (TPhase R × A)}
    (h : forPhases n Phase acc body = .ok (P, acc')) (i : Fin 3) (hi : i.val < n) :
    ∃ a a', body i (Phase i) a = .ok (P i, a') := by
  rw [forPhases, bind_eq_ok] at h
  obtain ⟨_, -, h⟩ := h
  exact (foldlM_phases_checked _ _ _ (phaseIdx_nodup n) h).1 i (mem_phaseIdx.mpr hi)

theorem mapPhases_checked {body : Fin 3 → TPhase R → Except Fault (TPhase R)}
    (h : mapPhases n Phase body = .ok P) (i : Fin 3) (hi : i.val < n) :
    body i (Phase i) = .ok (P i) := by
  rw [mapPhases, bind_eq_ok] at h
  obtain ⟨⟨P', _⟩, hLoop, hPure⟩ := h
  cases hPure
  obtain ⟨a, a', hBody⟩ := forPhases_checked hLoop i hi
  rw [bind_eq_ok] at hBody
  obtain ⟨p, hBody, hPure⟩ := hBody
  cases hPure
  exact hBody

theorem phaseIdx_lt (n : ℕ) : (phaseIdx n).Pairwise (· < ·) :=
  (List.pairwise_lt_finRange 3).filter _

private theorem foldlM_phases_error {body : Fin 3 → TPhase R → A → Except Fault (TPhase R × A)}
    {j : Fin 3} {e : Fault} (hBefore : ∀ i < j, ∀ p a, ∃ r, body i p a = .ok r)
    (hError : ∀ p a, body j p a = .error e) :
    ∀ (l : List (Fin 3)) (s : (Fin 3 → TPhase R) × A), l.Pairwise (· < ·) → j ∈ l →
      l.foldlM (fun s i => do
        let r ← body i (s.1 i) s.2
        return (Function.update s.1 i r.1, r.2)) s = .error e := by
  intro l
  induction l with
  | nil => intro s _ hMem; simp at hMem
  | cons i l ih =>
    intro s hSorted hMem
    obtain ⟨hFirst, hRest⟩ := List.pairwise_cons.mp hSorted
    rw [List.foldlM_cons]
    rcases List.mem_cons.mp hMem with rfl | hMem
    · rw [hError]
      rfl
    -- an earlier iteration succeeds, and the loop goes on with the rest
    · obtain ⟨r, hBody⟩ := hBefore i (hFirst j hMem) (s.1 i) s.2
      rw [hBody]
      exact ih _ hRest hMem

/-- The first iteration that fails, whatever the phases are, ends the loop. -/
theorem forPhases_error {body : Fin 3 → TPhase R → A → Except Fault (TPhase R × A)} {j : Fin 3}
    {e : Fault} (hn : n ≤ 3) (hj : j.val < n)
    (hBefore : ∀ i < j, ∀ p a, ∃ r, body i p a = .ok r) (hError : ∀ p a, body j p a = .error e) :
    forPhases n Phase acc body = .error e := by
  rw [forPhases, require_of hn, pure_bind]
  exact foldlM_phases_error hBefore hError _ _ (phaseIdx_lt n) (mem_phaseIdx.mpr hj)

theorem mapPhases_error {body : Fin 3 → TPhase R → Except Fault (TPhase R)} {j : Fin 3}
    {e : Fault} (hn : n ≤ 3) (hj : j.val < n) (hBefore : ∀ i < j, ∀ p, ∃ p', body i p = .ok p')
    (hError : ∀ p, body j p = .error e) : mapPhases n Phase body = .error e := by
  have hLoop : forPhases n Phase () (fun i p _ => do return (← body i p, ())) = .error e := by
    refine forPhases_error hn hj (fun i hi p _ => ?_) fun p _ => ?_
    · obtain ⟨p', hBody⟩ := hBefore i hi p
      exact ⟨(p', ()), by rw [hBody]; rfl⟩
    · rw [hError]
      rfl
  rw [mapPhases, hLoop]
  rfl

end Checked

end EnergyMeter.Cpt

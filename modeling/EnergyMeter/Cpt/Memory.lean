import EnergyMeter.Cpt.Config
import EnergyMeter.Lib.Memory

/-!
# EnergyMeter — the power theory forgets

Three layers of sliding windows follow each other in `CPT.c`: the unbiased
integral, the reactive energy, and the rms values of the currents that are
built from it. Every figure therefore depends on the last `3 L - 2` samples,
although the integral of the voltage itself never forgets.

Main result:

* `cptRun_memory` — two runs whose last samples coincide publish the same
  figures.
-/

namespace EnergyMeter.Cpt

open Lib

section Signals

variable {L n : ℕ} {TSH : ℝ}

/-- A signal of the theory that depends on the last `d` samples only. -/
def Forgets (L n : ℕ) (TSH : ℝ) (d : ℕ) (signal : Feed → ℕ → ℝ) : Prop :=
  HasMemory d fun pac s => signal ⟨L, n, TSH, pac⟩ s

namespace Forgets

variable {d : ℕ} {x y : Feed → ℕ → ℝ} {z : Fin 3 → Feed → ℕ → ℝ}

theorem mono {e : ℕ} (h : Forgets L n TSH d x) (hde : d ≤ e) : Forgets L n TSH e x :=
  HasMemory.mono h hde

theorem map₂ (g : ℝ → ℝ → ℝ) (hx : Forgets L n TSH d x) (hy : Forgets L n TSH d y) :
    Forgets L n TSH d fun f s => g (x f s) (y f s) :=
  HasMemory.map₂ g hx hy

theorem mul (hx : Forgets L n TSH d x) (hy : Forgets L n TSH d y) :
    Forgets L n TSH d fun f s => x f s * y f s :=
  hx.map₂ (· * ·) hy

theorem sub (hx : Forgets L n TSH d x) (hy : Forgets L n TSH d y) :
    Forgets L n TSH d fun f s => x f s - y f s :=
  hx.map₂ (· - ·) hy

theorem div (hx : Forgets L n TSH d x) (hy : Forgets L n TSH d y) :
    Forgets L n TSH d fun f s => x f s / y f s :=
  hx.map₂ (· / ·) hy

theorem map (g : ℝ → ℝ) (hx : Forgets L n TSH d x) : Forgets L n TSH d fun f s => g (x f s) :=
  HasMemory.map g hx

theorem sum (hz : ∀ i, Forgets L n TSH d (z i)) :
    Forgets L n TSH d fun f s => ∑ i ∈ phases f.n, z i f s :=
  HasMemory.sum (phases n) hz

theorem mean (hL : 1 ≤ L) (hd : 1 ≤ d) (hx : Forgets L n TSH d x) :
    Forgets L n TSH (d + L - 1) fun f => f.mean (x f) :=
  HasMemory.comp hx hasMemory_winMean hd hL

theorem ms (hL : 1 ≤ L) (hd : 1 ≤ d) (hx : Forgets L n TSH d x) :
    Forgets L n TSH (d + L - 1) fun f => f.ms (x f) :=
  ((hx.mul hx).mean hL hd).map floorMean

theorem rms (hL : 1 ≤ L) (hd : 1 ≤ d) (hx : Forgets L n TSH d x) :
    Forgets L n TSH (d + L - 1) fun f => f.rms (x f) :=
  (hx.ms hL hd).map Real.sqrt

theorem cms (hL : 1 ≤ L) (hd : 1 ≤ d) (hz : ∀ i, Forgets L n TSH d (z i)) :
    Forgets L n TSH (d + L - 1) fun f => f.cms fun i => z i f :=
  ((sum fun i => (hz i).mul (hz i)).mean hL hd).map floorMean

theorem crms (hL : 1 ≤ L) (hd : 1 ≤ d) (hz : ∀ i, Forgets L n TSH d (z i)) :
    Forgets L n TSH (d + L - 1) fun f => f.crms fun i => z i f :=
  (cms hL hd hz).map Real.sqrt

end Forgets

variable (L n TSH)

theorem forgets_V (i : Fin 3) : Forgets L n TSH 1 fun f => f.V i :=
  HasMemory.current fun p : TPAC ℝ => p.V i

theorem forgets_I (i : Fin 3) : Forgets L n TSH 1 fun f => f.I i :=
  HasMemory.current fun p : TPAC ℝ => p.I i

variable {L} (hL : 1 ≤ L)
include hL

/-! ### One window -/

theorem forgets_ms {x : Feed → ℕ → ℝ} (hx : Forgets L n TSH 1 x) :
    Forgets L n TSH L fun f => f.ms (x f) :=
  (hx.ms hL le_rfl).mono (by omega)

theorem forgets_UI (i : Fin 3) : Forgets L n TSH L fun f => f.UI i :=
  (HasMemory.comp (forgets_V L n TSH i) (hasMemory_unbiased hL (TSH / 2)) le_rfl hL).mono
    (by omega)

theorem forgets_P_avg (i : Fin 3) : Forgets L n TSH L fun f => f.P_avg i :=
  ((((forgets_V L n TSH i).mul (forgets_I L n TSH i)).mean hL le_rfl).map floorPower).mono
    (by omega)

theorem forgets_Ia (i : Fin 3) : Forgets L n TSH L fun f => f.Ia i :=
  ((forgets_P_avg n TSH hL i).div (forgets_ms n TSH hL (forgets_V L n TSH i))).mul
    ((forgets_V L n TSH i).mono hL)

theorem forgets_cP_avg : Forgets L n TSH L fun f => f.cP_avg :=
  Forgets.sum fun i => forgets_P_avg n TSH hL i

theorem forgets_Iba (i : Fin 3) : Forgets L n TSH L fun f => f.Iba i :=
  ((forgets_cP_avg n TSH hL).div
    ((Forgets.cms hL le_rfl fun i => forgets_V L n TSH i).mono (by omega))).mul
    ((forgets_V L n TSH i).mono hL)

theorem forgets_Iua (i : Fin 3) : Forgets L n TSH L fun f => f.Iua i :=
  (forgets_Ia n TSH hL i).sub (forgets_Iba n TSH hL i)

/-! ### Two windows -/

theorem forgets_W_avg (i : Fin 3) : Forgets L n TSH (L + L - 1) fun f => f.W_avg i :=
  ((forgets_UI n TSH hL i).mul ((forgets_I L n TSH i).mono hL)).mean hL hL

theorem forgets_Ir (i : Fin 3) : Forgets L n TSH (L + L - 1) fun f => f.Ir i :=
  ((forgets_W_avg n TSH hL i).div ((forgets_UI n TSH hL i).ms hL hL)).mul
    ((forgets_UI n TSH hL i).mono (by omega))

theorem forgets_Iv (i : Fin 3) : Forgets L n TSH (L + L - 1) fun f => f.Iv i :=
  (((forgets_I L n TSH i).mono (by omega)).sub ((forgets_Ia n TSH hL i).mono (by omega))).sub
    (forgets_Ir n TSH hL i)

theorem forgets_cW_avg : Forgets L n TSH (L + L - 1) fun f => f.cW_avg :=
  Forgets.sum fun i => forgets_W_avg n TSH hL i

theorem forgets_Ibr (i : Fin 3) : Forgets L n TSH (L + L - 1) fun f => f.Ibr i :=
  ((forgets_cW_avg n TSH hL).div (Forgets.cms hL hL fun i => forgets_UI n TSH hL i)).mul
    ((forgets_UI n TSH hL i).mono (by omega))

theorem forgets_Iur (i : Fin 3) : Forgets L n TSH (L + L - 1) fun f => f.Iur i :=
  (forgets_Ir n TSH hL i).sub (forgets_Ibr n TSH hL i)

/-! ### Readings -/

variable {n TSH} {pac pac' : ℕ → TPAC ℝ} {s s' : ℕ}

/-- The figures of a phase depend on three windows. -/
theorem phaseReading_memory (hAgree : AgreeBack (3 * L - 2) pac s pac' s') (i : Fin 3) :
    (Feed.mk L n TSH pac).phaseReading i s = (Feed.mk L n TSH pac').phaseReading i s' := by
  have hEq : ∀ {d : ℕ} {x : Feed → ℕ → ℝ}, Forgets L n TSH d x → d ≤ 3 * L - 2 →
      x ⟨L, n, TSH, pac⟩ s = x ⟨L, n, TSH, pac'⟩ s' := fun h hd =>
    h pac pac' s s' (hAgree.mono hd)
  -- the void current needs all three windows: the integral, its mean, and its own rms
  simp only [Feed.phaseReading, hEq ((forgets_V L n TSH i).rms hL le_rfl) (by omega),
    hEq ((forgets_I L n TSH i).rms hL le_rfl) (by omega),
    hEq (forgets_UI n TSH hL i) (by omega),
    hEq ((forgets_UI n TSH hL i).rms hL hL) (by omega),
    hEq (forgets_P_avg n TSH hL i) (by omega), hEq (forgets_W_avg n TSH hL i) (by omega),
    hEq (forgets_Ia n TSH hL i) (by omega), hEq (forgets_Ir n TSH hL i) (by omega),
    hEq (forgets_Iv n TSH hL i) (by omega), hEq (forgets_Iba n TSH hL i) (by omega),
    hEq (forgets_Ibr n TSH hL i) (by omega), hEq (forgets_Iua n TSH hL i) (by omega),
    hEq (forgets_Iur n TSH hL i) (by omega),
    hEq ((forgets_Iba n TSH hL i).rms hL hL) (by omega),
    hEq ((forgets_Ibr n TSH hL i).rms hL (by omega)) (by omega),
    hEq ((forgets_Iv n TSH hL i).rms hL (by omega)) (by omega)]

/-- The figures of the collective depend on three windows. -/
theorem cptReading_memory (hAgree : AgreeBack (3 * L - 2) pac s pac' s') :
    (Feed.mk L n TSH pac).cptReading s = (Feed.mk L n TSH pac').cptReading s' := by
  have hEq : ∀ {d : ℕ} {x : Feed → ℕ → ℝ}, Forgets L n TSH d x → d ≤ 3 * L - 2 →
      x ⟨L, n, TSH, pac⟩ s = x ⟨L, n, TSH, pac'⟩ s' := fun h hd =>
    h pac pac' s s' (hAgree.mono hd)
  -- a collective root mean square looks back one window further than its signals
  have hEq_crms : ∀ {d : ℕ} {z : Feed → Fin 3 → ℕ → ℝ}, 1 ≤ d →
      (∀ i, Forgets L n TSH d fun f => z f i) → d + L - 1 ≤ 3 * L - 2 →
      (Feed.mk L n TSH pac).crms (z ⟨L, n, TSH, pac⟩) s =
        (Feed.mk L n TSH pac').crms (z ⟨L, n, TSH, pac'⟩) s' := fun hd h hde =>
    hEq (Forgets.crms hL hd h) hde
  simp only [Feed.cptReading,
    hEq_crms (z := Feed.V) le_rfl (forgets_V L n TSH) (by omega),
    hEq_crms (z := Feed.I) le_rfl (forgets_I L n TSH) (by omega),
    hEq_crms (z := Feed.UI) hL (forgets_UI n TSH hL) (by omega),
    hEq (forgets_cP_avg n TSH hL) (by omega), hEq (forgets_cW_avg n TSH hL) (by omega),
    hEq_crms (z := Feed.Iba) hL (forgets_Iba n TSH hL) (by omega),
    hEq_crms (z := Feed.Ibr) (by omega) (forgets_Ibr n TSH hL) (by omega),
    hEq_crms (z := Feed.Iv) (by omega) (forgets_Iv n TSH hL) (by omega),
    hEq_crms (z := Feed.Iua) hL (forgets_Iua n TSH hL) (by omega),
    hEq_crms (z := Feed.Iur) (by omega) (forgets_Iur n TSH hL) (by omega)]

end Signals

/-- **Finite memory of whole runs.** Two runs from any two configurations, of
any lengths, that end with the same `3 samples - 2` samples publish the same
figures. -/
theorem cptRun_memory {freq samples : ℕ} (hSamples : 1 ≤ samples)
    {init init' cpt cpt' : TCPT ℝ} {alloc alloc' : Allocator ℝ}
    (hConfig : cptConfig (m := Except Fault) init alloc freq samples 3 = .ok (some cpt))
    (hConfig' : cptConfig (m := Except Fault) init' alloc' freq samples 3 = .ok (some cpt'))
    (pac pac' : ℕ → TPAC ℝ) (t t' : ℕ) (ht : 3 * samples - 2 ≤ t) (ht' : 3 * samples - 2 ≤ t')
    (hLast : ∀ k < 3 * samples - 2, pac (t - 1 - k) = pac' (t' - 1 - k)) :
    ∃ me me', cptRun (m := Except Fault) cpt pac t = .ok me ∧
      cptRun (m := Except Fault) cpt' pac' t' = .ok me' ∧
      me.reading = me'.reading ∧ ∀ i, (me.Phase i).reading = (me'.Phase i).reading := by
  obtain ⟨s, rfl⟩ : ∃ s, t = s + 1 := ⟨t - 1, by omega⟩
  obtain ⟨s', rfl⟩ : ∃ s', t' = s' + 1 := ⟨t' - 1, by omega⟩
  -- the last samples of both runs, counted back from the newest
  have hAgree : AgreeBack (3 * samples - 2) pac s pac' s' := ⟨ht, ht', hLast⟩
  obtain ⟨-, hInit⟩ := cptConfig_tracks hConfig pac
  obtain ⟨-, hInit'⟩ := cptConfig_tracks hConfig' pac'
  obtain ⟨me, hRun, -, hCpt, hPhase⟩ :=
    cptRun_reading hSamples (show 3 ≠ 1 by decide) hInit s
  obtain ⟨me', hRun', -, hCpt', hPhase'⟩ :=
    cptRun_reading hSamples (show 3 ≠ 1 by decide) hInit' s'
  -- what is published is a function of the samples, and of no more of them than that
  refine ⟨me, me', hRun.checked, hRun'.checked, ?_, fun i => ?_⟩
  · rw [hCpt, hCpt', cptReading_memory hSamples hAgree]
  · rw [hPhase i i.isLt, hPhase' i i.isLt, phaseReading_memory hSamples hAgree]

/-- A glitch in the first sample is forgotten after the four samples behind it, with windows of
two samples. -/
theorem cptRun_memory_glitch :
    ∃ cpt, cptConfig (m := Except Fault) default .plenty 1 2 3 = .ok (some cpt) ∧
      ∃ me me', cptRun (m := Except Fault) cpt (fun _ => ⟨1, 1⟩) 4 = .ok me ∧
        cptRun (m := Except Fault) cpt (fun s => if s = 0 then ⟨7, 0⟩ else ⟨1, 1⟩) 5 = .ok me' ∧
        me.reading = me'.reading ∧ ∀ i, (me.Phase i).reading = (me'.Phase i).reading := by
  obtain ⟨cpt, hConfig, -⟩ :=
    cptConfig_spec le_rfl 2 (by decide) (Allocator.plenty_suffices 3) default
  refine ⟨cpt, hConfig.checked, cptRun_memory (by decide) hConfig.checked hConfig.checked _ _ 4 5
    (by decide) (by decide) fun k hk => ?_⟩
  exact (if_neg (by omega)).symm

end EnergyMeter.Cpt

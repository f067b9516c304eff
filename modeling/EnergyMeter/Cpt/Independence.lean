import EnergyMeter.Cpt.Heap

/-!
# EnergyMeter — no crosstalk between the phases

The rings of all phases come from one array of descriptors, and the loops of
`CPT.c` alternate between the phases and the collective. The figures that a
phase derives from its own samples nevertheless do not see the other phases:
`CPT_Config` gives every filter a ring that no other filter points to, and what
reaches a phase from the collective are the balanced and the unbalanced
currents only.

Main result:

* `cptRun_independent` — two runs in memory that agree on a phase publish the same
  own figures of that phase.
-/

namespace EnergyMeter.Cpt

open Lib

/-- The figures that a phase derives from its own samples. -/
structure OwnReading where
  V_rms : ℝ
  I_rms : ℝ
  UnbiasedIntegral : ℝ
  UnbiasedIntegral_rms : ℝ
  P_avg : ℝ
  W_avg : ℝ
  Ia_ActiveCurrent : ℝ
  Ir_ReactiveCurrent : ℝ
  Iv_VoidCurrent : ℝ
  Iv_rms : ℝ
  A : ℝ
  V : ℝ
  PF : ℝ
  VF : ℝ

def PhaseReading.own (r : PhaseReading) : OwnReading where
  V_rms := r.V_rms
  I_rms := r.I_rms
  UnbiasedIntegral := r.UnbiasedIntegral
  UnbiasedIntegral_rms := r.UnbiasedIntegral_rms
  P_avg := r.P_avg
  W_avg := r.W_avg
  Ia_ActiveCurrent := r.Ia_ActiveCurrent
  Ir_ReactiveCurrent := r.Ir_ReactiveCurrent
  Iv_VoidCurrent := r.Iv_VoidCurrent
  Iv_rms := r.Iv_rms
  A := r.power.A
  V := r.power.V
  PF := r.power.PF
  VF := r.power.VF

/-! ## Signals of one phase -/

/-- Two feeds with the same windows and the same samples of phase `k`. -/
structure SamePhase (f g : Feed) (k : Fin 3) : Prop where
  L : f.L = g.L
  TSH : f.TSH = g.TSH
  V : f.V k = g.V k
  I : f.I k = g.I k

namespace SamePhase

variable {f g : Feed} {k : Fin 3} (h : SamePhase f g k)
include h

theorem mean : f.mean = g.mean := by
  funext x s
  rw [Feed.mean, Feed.mean, h.L]

theorem ms : f.ms = g.ms := by
  funext x s
  rw [Feed.ms, Feed.ms, h.mean]

theorem rms : f.rms = g.rms := by
  funext x s
  rw [Feed.rms, Feed.rms, h.ms]

theorem UI : f.UI k = g.UI k := by
  funext s
  rw [Feed.UI, Feed.UI, Feed.Integral, Feed.Integral, h.mean, h.TSH, h.V]

theorem P_avg : f.P_avg k = g.P_avg k := by
  funext s
  rw [Feed.P_avg, Feed.P_avg, Feed.P, Feed.P, h.mean, h.V, h.I]

theorem W_avg : f.W_avg k = g.W_avg k := by
  funext s
  rw [Feed.W_avg, Feed.W_avg, h.mean, h.UI, h.I]

theorem Ia : f.Ia k = g.Ia k := by
  funext s
  rw [Feed.Ia, Feed.Ia, h.P_avg, h.ms, h.V]

theorem Ir : f.Ir k = g.Ir k := by
  funext s
  rw [Feed.Ir, Feed.Ir, h.W_avg, h.ms, h.UI]

theorem Iv : f.Iv k = g.Iv k := by
  funext s
  rw [Feed.Iv, Feed.Iv, h.I, h.Ia, h.Ir]

/-- The own figures follow from the signals of the phase. -/
theorem own (s : ℕ) : (f.phaseReading k s).own = (g.phaseReading k s).own := by
  simp only [PhaseReading.own, Feed.phaseReading, powerSet, h.rms, h.V, h.I, h.UI, h.P_avg,
    h.W_avg, h.Ia, h.Ir, h.Iv]

end SamePhase

/-! ## Runs -/

/-- A run of `t` updates reads the first `t` samples. -/
theorem cptRun_congr {m : Type → Type} [Monad m] [MonadRequire m] (me : TCPT ℝ)
    {pac pac' : ℕ → TPAC ℝ} {t : ℕ} (h : ∀ s < t, pac s = pac' s) :
    cptRun (m := m) me pac t = cptRun me pac' t := by
  induction t with
  | zero => rfl
  | succ t ih =>
    rw [cptRun, cptRun, ih fun s hs => h s (Nat.lt_succ_of_lt hs), h t (Nat.lt_succ_self t)]

/-- Two runs by value, whose samples agree on phase `k`. -/
theorem cptRun_own {freq samples : ℕ} (hSamples : 1 ≤ samples)
    {init init' cpt cpt' : TCPT ℝ} {alloc alloc' : Allocator ℝ}
    (hConfig : cptConfig (m := Except Fault) init alloc freq samples 3 = .ok (some cpt))
    (hConfig' : cptConfig (m := Except Fault) init' alloc' freq samples 3 = .ok (some cpt'))
    (k : Fin 3) (pac pac' : ℕ → TPAC ℝ) (t : ℕ)
    (hAgree : ∀ s < t + 1, (pac s).V k = (pac' s).V k ∧ (pac s).I k = (pac' s).I k) :
    ∃ me me', cptRun (m := Except Fault) cpt pac (t + 1) = .ok me ∧
      cptRun (m := Except Fault) cpt' pac' (t + 1) = .ok me' ∧
      (me.Phase k).reading.own = (me'.Phase k).reading.own := by
  -- the second run does not change when its samples are continued like those of the first
  let pac₂ : ℕ → TPAC ℝ := fun s => if s < t + 1 then pac' s else pac s
  have hRun₂ : cptRun (m := Except Fault) cpt' pac' (t + 1) = cptRun cpt' pac₂ (t + 1) :=
    cptRun_congr cpt' fun s hs => (if_pos hs).symm
  have hSame : SamePhase ⟨samples, 3, 1 / freq, pac⟩ ⟨samples, 3, 1 / freq, pac₂⟩ k := by
    refine ⟨rfl, rfl, funext fun s => ?_, funext fun s => ?_⟩
    · show (pac s).V k = (if s < t + 1 then pac' s else pac s).V k
      split
      · exact (hAgree s ‹_›).1
      · rfl
    · show (pac s).I k = (if s < t + 1 then pac' s else pac s).I k
      split
      · exact (hAgree s ‹_›).2
      · rfl
  obtain ⟨-, hInit⟩ := cptConfig_tracks hConfig pac
  obtain ⟨-, hInit'⟩ := cptConfig_tracks hConfig' pac₂
  obtain ⟨me, hRun, -, -, hPhase⟩ := cptRun_reading hSamples (show 3 ≠ 1 by decide) hInit t
  obtain ⟨me', hRun', -, -, hPhase'⟩ := cptRun_reading hSamples (show 3 ≠ 1 by decide) hInit' t
  refine ⟨me, me', hRun.checked, hRun₂.trans hRun'.checked, ?_⟩
  rw [hPhase k k.isLt, hPhase' k k.isLt, hSame.own]

/-- **No crosstalk.** Two runs of one length, each on the memory that a configuration
has left, whose samples agree on phase `k` and are arbitrary on the others, publish
the same own figures of phase `k` after their last step, hence after every step. -/
theorem cptRun_independent {freq samples : ℕ} (hSamples : 1 ≤ samples)
    {init init' cpt cpt' : TCPT ℝ} {alloc alloc' : Allocator ℝ} {heap heap' heap₀ heap₀' : Heap ℝ}
    (hConfig : (cptConfig (m := HeapM ℝ) init alloc freq samples 3).run heap =
      .ok (some cpt, heap₀))
    (hConfig' : (cptConfig (m := HeapM ℝ) init' alloc' freq samples 3).run heap' =
      .ok (some cpt', heap₀'))
    (k : Fin 3) (pac pac' : ℕ → TPAC ℝ) (t : ℕ)
    (hAgree : ∀ s < t + 1, (pac s).V k = (pac' s).V k ∧ (pac s).I k = (pac' s).I k) :
    ∃ me me' h h', (cptRun (m := HeapM ℝ) cpt pac (t + 1)).run heap₀ = .ok (me, h) ∧
      (cptRun (m := HeapM ℝ) cpt' pac' (t + 1)).run heap₀' = .ok (me', h') ∧
      (me.Phase k).reading.own = (me'.Phase k).reading.own := by
  -- no two filters point to one ring, so that both runs have the results of the runs by value
  obtain ⟨hValue, hIn⟩ := cptConfig_inMemory hConfig
  obtain ⟨hValue', hIn'⟩ := cptConfig_inMemory hConfig'
  obtain ⟨me, me', hRun, hRun', hOwn⟩ := cptRun_own hSamples hValue hValue' k pac pac' t hAgree
  obtain ⟨h, hHeap, -⟩ := (cptRun_refines pac (t + 1)).ok heap₀ hIn me hRun
  obtain ⟨h', hHeap', -⟩ := (cptRun_refines pac' (t + 1)).ok heap₀' hIn' me' hRun'
  exact ⟨me, me', h, h', hHeap, hHeap', hOwn⟩

/-- Phase A is quiet in both runs, the others are not. The memory holds sevens before. -/
theorem cptRun_independent_quiet :
    ∃ cpt heap, (cptConfig (m := HeapM ℝ) default .plenty 1 2 3).run (fun _ _ => 7) =
        .ok (some cpt, heap) ∧
      ∃ me me' h h',
        (cptRun (m := HeapM ℝ) cpt (fun _ => ⟨![0, 2, 3], ![0, 5, 1]⟩) 1).run heap = .ok (me, h) ∧
        (cptRun (m := HeapM ℝ) cpt (fun _ => ⟨![0, 7, 0], ![0, 1, 1]⟩) 1).run heap =
          .ok (me', h') ∧
        (me.Phase 0).reading.own = (me'.Phase 0).reading.own := by
  obtain ⟨cpt, hConfig, -⟩ :=
    cptConfig_spec le_rfl 2 (by decide) (Allocator.plenty_suffices 3) default
  obtain ⟨heap, hHeap⟩ := cptConfig_onHeap hConfig.checked fun _ _ => 7
  exact ⟨cpt, heap, hHeap, cptRun_independent (by decide) hHeap hHeap 0 _ _ 0 fun _ _ =>
    ⟨rfl, rfl⟩⟩

end EnergyMeter.Cpt

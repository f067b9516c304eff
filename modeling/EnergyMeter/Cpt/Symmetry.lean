import EnergyMeter.Cpt.Config

/-!
# EnergyMeter — the power theory treats its phases alike

Two changes of the samples leave the theory as it is: the phases may change
places, and both signals of a phase may change sign. Both are instances of one
relation between feeds, `Image`: phase `i` of the image is phase `p i` of the
original with sign `σ i`.

Every signal of the theory is then either *signed* (it follows the sign of its
phase: voltages, currents and the unbiased integral) or *unsigned* (means of
products of two signed signals). The signed ones are squared wherever they
reach a figure of the collective, so the collective does not see the change.

Main results:

* `Image.phaseReading`, `Image.cptReading` — the figures of the image.
* `cptRun_permute` — permuted phases give permuted figures.
* `cptRun_flip` — polarity changes no rms value, power or factor.
-/

namespace EnergyMeter.Cpt

open Lib

/-- A reading whose signed quantities have the sign `c`. -/
def PhaseReading.signed (c : ℝ) (r : PhaseReading) : PhaseReading :=
  { r with
    UnbiasedIntegral := c * r.UnbiasedIntegral
    Ia_ActiveCurrent := c * r.Ia_ActiveCurrent
    Ir_ReactiveCurrent := c * r.Ir_ReactiveCurrent
    Iv_VoidCurrent := c * r.Iv_VoidCurrent
    Iba_BalancedActiveCurrent := c * r.Iba_BalancedActiveCurrent
    Ibr_BalancedReactiveCurrent := c * r.Ibr_BalancedReactiveCurrent
    Iua_UnbalancedActiveCurrent := c * r.Iua_UnbalancedActiveCurrent
    Iur_UnbalancedReactiveCurrent := c * r.Iur_UnbalancedReactiveCurrent }

@[simp] theorem PhaseReading.signed_one (r : PhaseReading) : r.signed 1 = r := by
  simp [PhaseReading.signed]

/-- Phase `i` of `g` is phase `p i` of `f`, with the sign `σ i`. -/
structure Image (g f : Feed) (p : Equiv.Perm (Fin 3)) (σ : Fin 3 → ℝ) : Prop where
  L : g.L = f.L
  n : g.n = 3
  n' : f.n = 3
  TSH : g.TSH = f.TSH
  sign : ∀ i, σ i * σ i = 1
  V : ∀ i s, g.V i s = σ i * f.V (p i) s
  I : ∀ i s, g.I i s = σ i * f.I (p i) s

namespace Image

variable {f g : Feed} {p : Equiv.Perm (Fin 3)} {σ : Fin 3 → ℝ} (h : Image g f p σ)
include h

/-! ## Means -/

theorem mean_eq {x y : ℕ → ℝ} (hx : ∀ r, x r = y r) (s : ℕ) : g.mean x s = f.mean y s := by
  rw [Feed.mean, Feed.mean, h.L]
  exact winMean_congr fun r _ _ => hx r

theorem mean_signed {x y : ℕ → ℝ} {c : ℝ} (hx : ∀ r, x r = c * y r) (s : ℕ) :
    g.mean x s = c * f.mean y s := by
  rw [h.mean_eq hx, Feed.mean, winMean_const_mul, Feed.mean]

/-- The sign cancels in a product of two signed signals of one phase. -/
theorem mul_signed {i : Fin 3} {a b a' b' : ℝ} (ha : a = σ i * a') (hb : b = σ i * b') :
    a * b = a' * b' := by
  rw [ha, hb, mul_mul_mul_comm, h.sign, one_mul]

theorem ms {i : Fin 3} {x y : ℕ → ℝ} (hx : ∀ r, x r = σ i * y r) (s : ℕ) :
    g.ms x s = f.ms y s := by
  rw [Feed.ms, Feed.ms, h.mean_eq fun r => h.mul_signed (hx r) (hx r)]

theorem rms {i : Fin 3} {x y : ℕ → ℝ} (hx : ∀ r, x r = σ i * y r) (s : ℕ) :
    g.rms x s = f.rms y s := by
  rw [Feed.rms, Feed.rms, h.ms hx]

/-- A sum over the phases does not depend on their order. -/
theorem sum_phases {x y : Fin 3 → ℝ} (hx : ∀ i, x i = y (p i)) :
    ∑ i ∈ phases g.n, x i = ∑ i ∈ phases f.n, y i := by
  rw [h.n, h.n', phases_three, Finset.sum_congr rfl fun i _ => hx i, Equiv.sum_comp]

theorem cms {x y : Fin 3 → ℕ → ℝ} (hx : ∀ i r, x i r = σ i * y (p i) r) (s : ℕ) :
    g.cms x s = f.cms y s := by
  rw [Feed.cms, Feed.cms, h.mean_eq fun r =>
    h.sum_phases (y := fun i => y i r * y i r) fun i => h.mul_signed (hx i r) (hx i r)]

theorem crms {x y : Fin 3 → ℕ → ℝ} (hx : ∀ i r, x i r = σ i * y (p i) r) (s : ℕ) :
    g.crms x s = f.crms y s := by
  rw [Feed.crms, Feed.crms, h.cms hx]

/-! ## Signals -/

theorem Integral (i : Fin 3) (s : ℕ) : g.Integral i s = σ i * f.Integral (p i) s := by
  rw [Feed.Integral, Feed.Integral, h.TSH, funext (h.V i), trapz_const_mul]

theorem UI (i : Fin 3) (s : ℕ) : g.UI i s = σ i * f.UI (p i) s := by
  rw [Feed.UI, Feed.UI, h.Integral, h.mean_signed (h.Integral i), mul_sub]

theorem P_avg (i : Fin 3) (s : ℕ) : g.P_avg i s = f.P_avg (p i) s := by
  rw [Feed.P_avg, Feed.P_avg, Feed.P, Feed.P,
    h.mean_eq fun r => h.mul_signed (h.V i r) (h.I i r)]

theorem W_avg (i : Fin 3) (s : ℕ) : g.W_avg i s = f.W_avg (p i) s :=
  h.mean_eq (fun r => h.mul_signed (h.UI i r) (h.I i r)) s

theorem Ia (i : Fin 3) (s : ℕ) : g.Ia i s = σ i * f.Ia (p i) s := by
  rw [Feed.Ia, Feed.Ia, h.P_avg, h.ms (h.V i), h.V, mul_left_comm]

theorem Ir (i : Fin 3) (s : ℕ) : g.Ir i s = σ i * f.Ir (p i) s := by
  rw [Feed.Ir, Feed.Ir, h.W_avg, h.ms (h.UI i), h.UI, mul_left_comm]

theorem Iv (i : Fin 3) (s : ℕ) : g.Iv i s = σ i * f.Iv (p i) s := by
  rw [Feed.Iv, Feed.Iv, h.I, h.Ia, h.Ir, mul_sub, mul_sub]

theorem cP_avg (s : ℕ) : g.cP_avg s = f.cP_avg s :=
  h.sum_phases fun i => h.P_avg i s

theorem cW_avg (s : ℕ) : g.cW_avg s = f.cW_avg s :=
  h.sum_phases fun i => h.W_avg i s

theorem Iba (i : Fin 3) (s : ℕ) : g.Iba i s = σ i * f.Iba (p i) s := by
  rw [Feed.Iba, Feed.Iba, h.cP_avg, h.cms h.V, h.V, mul_left_comm]

theorem Ibr (i : Fin 3) (s : ℕ) : g.Ibr i s = σ i * f.Ibr (p i) s := by
  rw [Feed.Ibr, Feed.Ibr, h.cW_avg, h.cms h.UI, h.UI, mul_left_comm]

theorem Iua (i : Fin 3) (s : ℕ) : g.Iua i s = σ i * f.Iua (p i) s := by
  rw [Feed.Iua, Feed.Iua, h.Ia, h.Iba, mul_sub]

theorem Iur (i : Fin 3) (s : ℕ) : g.Iur i s = σ i * f.Iur (p i) s := by
  rw [Feed.Iur, Feed.Iur, h.Ir, h.Ibr, mul_sub]

/-! ## Readings -/

/-- The figures of a phase of the image. -/
theorem phaseReading (i : Fin 3) (s : ℕ) :
    g.phaseReading i s = (f.phaseReading (p i) s).signed (σ i) := by
  -- the code squares the unbalanced currents before it takes them for rms values
  have hSquare : ∀ a : ℝ, σ i * a * (σ i * a) = a * a := fun a => h.mul_signed rfl rfl
  simp only [Feed.phaseReading, PhaseReading.signed, h.rms (h.V i), h.rms (h.I i), h.rms (h.UI i),
    h.rms (h.Iba i), h.rms (h.Ibr i), h.rms (h.Iv i), h.UI, h.P_avg, h.W_avg, h.Ia, h.Ir, h.Iv,
    h.Iba, h.Ibr, h.Iua, h.Iur, hSquare]

/-- The collective does not see the change. -/
theorem cptReading (s : ℕ) : g.cptReading s = f.cptReading s := by
  simp only [Feed.cptReading, h.crms h.V, h.crms h.I, h.crms h.UI, h.crms h.Iba, h.crms h.Ibr,
    h.crms h.Iv, h.crms h.Iua, h.crms h.Iur, h.cP_avg, h.cW_avg]

end Image

/-! ## Runs -/

/-- Two configured runs on related samples publish related figures. -/
theorem cptRun_image {freq samples : ℕ} (hSamples : 1 ≤ samples)
    {init init' cpt cpt' : TCPT ℝ} {alloc alloc' : Allocator ℝ}
    (hConfig : cptConfig (m := Except Fault) init alloc freq samples 3 = .ok (some cpt))
    (hConfig' : cptConfig (m := Except Fault) init' alloc' freq samples 3 = .ok (some cpt'))
    {pac pac' : ℕ → TPAC ℝ} {p : Equiv.Perm (Fin 3)} {σ : Fin 3 → ℝ}
    (hImage : Image ⟨samples, 3, 1 / freq, pac'⟩ ⟨samples, 3, 1 / freq, pac⟩ p σ) (t : ℕ) :
    ∃ me me', cptRun (m := Except Fault) cpt pac (t + 1) = .ok me ∧
      cptRun (m := Except Fault) cpt' pac' (t + 1) = .ok me' ∧
      me'.reading = me.reading ∧
      ∀ i, (me'.Phase i).reading = (me.Phase (p i)).reading.signed (σ i) := by
  obtain ⟨-, hInit⟩ := cptConfig_tracks hConfig pac
  obtain ⟨-, hInit'⟩ := cptConfig_tracks hConfig' pac'
  obtain ⟨me, hRun, -, hCpt, hPhase⟩ := cptRun_reading hSamples (show 3 ≠ 1 by decide) hInit t
  obtain ⟨me', hRun', -, hCpt', hPhase'⟩ :=
    cptRun_reading hSamples (show 3 ≠ 1 by decide) hInit' t
  -- the readings are functions of the feeds, and the feeds are related
  refine ⟨me, me', hRun.checked, hRun'.checked, ?_, fun i => ?_⟩
  · rw [hCpt, hCpt', hImage.cptReading]
  · rw [hPhase' i i.isLt, hPhase (p i) (p i).isLt, hImage.phaseReading]

/-- The sample whose phase `i` is phase `p i` of `pac`. -/
def TPAC.permute {R : Type} (p : Equiv.Perm (Fin 3)) (pac : TPAC R) : TPAC R where
  V i := pac.V (p i)
  I i := pac.I (p i)

/-- **Phase symmetry.** After every step of a run on permuted samples every
figure of phase `i` is that of phase `p i` on the samples themselves, and the
figures of the collective are the same. -/
theorem cptRun_permute {freq samples : ℕ} (hSamples : 1 ≤ samples)
    {init init' cpt cpt' : TCPT ℝ} {alloc alloc' : Allocator ℝ}
    (hConfig : cptConfig (m := Except Fault) init alloc freq samples 3 = .ok (some cpt))
    (hConfig' : cptConfig (m := Except Fault) init' alloc' freq samples 3 = .ok (some cpt'))
    (p : Equiv.Perm (Fin 3)) (pac : ℕ → TPAC ℝ) (t : ℕ) :
    ∃ me me', cptRun (m := Except Fault) cpt pac (t + 1) = .ok me ∧
      cptRun (m := Except Fault) cpt' (fun s => (pac s).permute p) (t + 1) = .ok me' ∧
      me'.reading = me.reading ∧ ∀ i, (me'.Phase i).reading = (me.Phase (p i)).reading := by
  -- a permutation is an image whose signs are all positive
  have hImage : Image ⟨samples, 3, 1 / freq, fun s => (pac s).permute p⟩
      ⟨samples, 3, 1 / freq, pac⟩ p fun _ => 1 :=
    { L := rfl, n := rfl, n' := rfl, TSH := rfl
      sign := fun _ => one_mul 1
      V := fun i s => (one_mul _).symm
      I := fun i s => (one_mul _).symm }
  obtain ⟨me, me', hRun, hRun', hCpt, hPhase⟩ :=
    cptRun_image hSamples hConfig hConfig' hImage t
  refine ⟨me, me', hRun, hRun', hCpt, fun i => ?_⟩
  rw [hPhase, PhaseReading.signed_one]

/-- Phases B and C change places. -/
theorem cptRun_permute_swap :
    ∃ cpt, cptConfig (m := Except Fault) default .plenty 1 2 3 = .ok (some cpt) ∧
      ∃ me me', cptRun (m := Except Fault) cpt (fun _ => ⟨![1, 2, 3], ![1, 0, 5]⟩) 1 = .ok me ∧
        cptRun (m := Except Fault) cpt
          (fun _ => (⟨![1, 2, 3], ![1, 0, 5]⟩ : TPAC ℝ).permute (Equiv.swap 1 2)) 1 = .ok me' ∧
        me'.reading = me.reading ∧
        ∀ i, (me'.Phase i).reading = (me.Phase (Equiv.swap 1 2 i)).reading := by
  obtain ⟨cpt, hConfig, -⟩ :=
    cptConfig_spec le_rfl 2 (by decide) (Allocator.plenty_suffices 3) default
  exact ⟨cpt, hConfig.checked, cptRun_permute (by decide) hConfig.checked hConfig.checked
    (Equiv.swap 1 2) (fun _ => ⟨![1, 2, 3], ![1, 0, 5]⟩) 0⟩

/-- The sample with the polarity of the phases in `F` changed. -/
def TPAC.flip {R : Type} [Neg R] (F : Finset (Fin 3)) (pac : TPAC R) : TPAC R where
  V i := if i ∈ F then -pac.V i else pac.V i
  I i := if i ∈ F then -pac.I i else pac.I i

/-- The sign of a phase whose polarity may be changed. -/
def polarity (F : Finset (Fin 3)) (i : Fin 3) : ℝ := if i ∈ F then -1 else 1

theorem polarity_mul (F : Finset (Fin 3)) (i : Fin 3) (a : ℝ) :
    polarity F i * a = if i ∈ F then -a else a := by
  unfold polarity
  split
  · exact neg_one_mul a
  · exact one_mul a

/-- **Polarity independence.** After every step of a run in which both signals of
the phases in `F` are negated, the figures of the collective are the same, and
so are the figures of the phases, except that the instantaneous currents and
the unbiased integral of the phases in `F` are negated. -/
theorem cptRun_flip {freq samples : ℕ} (hSamples : 1 ≤ samples)
    {init init' cpt cpt' : TCPT ℝ} {alloc alloc' : Allocator ℝ}
    (hConfig : cptConfig (m := Except Fault) init alloc freq samples 3 = .ok (some cpt))
    (hConfig' : cptConfig (m := Except Fault) init' alloc' freq samples 3 = .ok (some cpt'))
    (F : Finset (Fin 3)) (pac : ℕ → TPAC ℝ) (t : ℕ) :
    ∃ me me', cptRun (m := Except Fault) cpt pac (t + 1) = .ok me ∧
      cptRun (m := Except Fault) cpt' (fun s => (pac s).flip F) (t + 1) = .ok me' ∧
      me'.reading = me.reading ∧
      ∀ i, (me'.Phase i).reading = (me.Phase i).reading.signed (polarity F i) := by
  -- polarity is an image in which every phase stays in its place
  have hImage : Image ⟨samples, 3, 1 / freq, fun s => (pac s).flip F⟩
      ⟨samples, 3, 1 / freq, pac⟩ 1 (polarity F) :=
    { L := rfl, n := rfl, n' := rfl, TSH := rfl
      sign := fun i => by
        rw [polarity_mul, polarity]
        split <;> simp
      V := fun i s => (polarity_mul F i _).symm
      I := fun i s => (polarity_mul F i _).symm }
  exact cptRun_image hSamples hConfig hConfig' hImage t

/-- The polarity of phase A is changed. -/
theorem cptRun_flip_first :
    ∃ cpt, cptConfig (m := Except Fault) default .plenty 1 2 3 = .ok (some cpt) ∧
      ∃ me me', cptRun (m := Except Fault) cpt (fun _ => ⟨![1, 2, 3], ![1, 0, 5]⟩) 1 = .ok me ∧
        cptRun (m := Except Fault) cpt
          (fun _ => (⟨![1, 2, 3], ![1, 0, 5]⟩ : TPAC ℝ).flip {0}) 1 = .ok me' ∧
        me'.reading = me.reading ∧
        ∀ i, (me'.Phase i).reading = (me.Phase i).reading.signed (polarity {0} i) := by
  obtain ⟨cpt, hConfig, -⟩ :=
    cptConfig_spec le_rfl 2 (by decide) (Allocator.plenty_suffices 3) default
  exact ⟨cpt, hConfig.checked, cptRun_flip (by decide) hConfig.checked hConfig.checked
    {0} (fun _ => ⟨![1, 2, 3], ![1, 0, 5]⟩) 0⟩

end EnergyMeter.Cpt

import EnergyMeter.Cpt.Config

/-!
# EnergyMeter — conservation of power in steady state

On periodic samples the windows settle: after three windows every mean is the
mean over a period. If no floor is in force, a voltage is then orthogonal to
its unbiased integral, the currents split into orthogonal parts, and the
collective powers add up.

Main results:

* `Steady.orthogonal` — a voltage and its unbiased integral.
* `Steady.current_split` — the mean square of the currents is the sum of those
  of its five parts.
* `cptRun_conservation` — `A² = P² + Q² + N² + V²` after whole runs.
-/

namespace EnergyMeter.Cpt

open Lib

/-- The spread of the slopes `P i / v i` around the common slope. -/
theorem sum_spread {ι : Type*} (S : Finset ι) (P v : ι → ℝ) (hv : ∀ i ∈ S, v i ≠ 0)
    (hSum : ∑ i ∈ S, v i ≠ 0) :
    ∑ i ∈ S, (P i / v i - (∑ j ∈ S, P j) / ∑ j ∈ S, v j) ^ 2 * v i =
      ∑ i ∈ S, P i ^ 2 / v i - (∑ j ∈ S, P j) ^ 2 / ∑ j ∈ S, v j := by
  set g := (∑ j ∈ S, P j) / ∑ j ∈ S, v j with hg
  have hTerm : ∀ i ∈ S, (P i / v i - g) ^ 2 * v i = P i ^ 2 / v i - 2 * g * P i + g ^ 2 * v i :=
    fun i hi => by
      have := hv i hi
      field_simp
      ring
  rw [Finset.sum_congr rfl hTerm, Finset.sum_add_distrib, Finset.sum_sub_distrib,
    ← Finset.mul_sum, ← Finset.mul_sum, hg]
  field_simp
  ring

namespace Feed

variable (f : Feed) {x y : ℕ → ℝ} {s : ℕ}

theorem mean_congr (h : ∀ r, s + 1 - f.L ≤ r → r ≤ s → x r = y r) : f.mean x s = f.mean y s :=
  winMean_congr fun r hlo hhi => h r hlo (by omega)

theorem mean_sum (z : Fin 3 → ℕ → ℝ) :
    f.mean (fun r => ∑ i ∈ phases f.n, z i r) s = ∑ i ∈ phases f.n, f.mean (z i) s :=
  winMean_finset _ _

/-- The mean over the first period. -/
noncomputable def periodMean (x : ℕ → ℝ) : ℝ := (∑ r ∈ Finset.range f.L, x r) / f.L

/-- On a periodic signal every full window has the mean of a period. -/
theorem mean_of_periodic (hx : ∀ r, x (r + f.L) = x r) (hs : f.L ≤ s + 1) :
    f.mean x s = f.periodMean x := by
  rw [Feed.mean, winMean, winSum_of_periodic hx hs, periodMean]

/-- The unbiased integral of a phase with the bias of a period. -/
noncomputable def steadyUI (i : Fin 3) (r : ℕ) : ℝ :=
  f.Integral i r - f.periodMean (f.Integral i)

end Feed

/-! ## One periodic voltage -/

/-- A voltage of period `L` that has no offset. -/
structure PeriodicVoltage (f : Feed) (i : Fin 3) : Prop where
  L_pos : 1 ≤ f.L
  TSH_ne : f.TSH ≠ 0
  V : ∀ r, f.V i (r + f.L) = f.V i r
  offset : ∑ r ∈ Finset.range f.L, f.V i r = 0

namespace PeriodicVoltage

variable {f : Feed} {i : Fin 3} (h : PeriodicVoltage f i)
include h

theorem Integral (r : ℕ) : f.Integral i (r + f.L) = f.Integral i r :=
  trapz_periodic h.V h.offset r

theorem steadyUI (r : ℕ) : f.steadyUI i (r + f.L) = f.steadyUI i r := by
  rw [Feed.steadyUI, h.Integral, Feed.steadyUI]

/-- From the first full window on the bias is one number. -/
theorem UI_eq {r : ℕ} (hr : f.L ≤ r + 1) : f.UI i r = f.steadyUI i r := by
  rw [Feed.UI, f.mean_of_periodic h.Integral hr, Feed.steadyUI]

/-- **The voltage is orthogonal to its unbiased integral** over a period. -/
theorem periodMean_mul : f.periodMean (fun r => f.V i r * f.steadyUI i r) = 0 := by
  have hIntegral : ∑ r ∈ Finset.range f.L, f.V i r * f.Integral i r = 0 :=
    sum_mul_trapz_eq_zero (div_ne_zero h.TSH_ne two_ne_zero) h.V h.offset
  -- the bias is a constant, and the voltage has no offset
  have hSum : ∑ r ∈ Finset.range f.L, f.V i r * f.steadyUI i r = 0 := by
    simp only [Feed.steadyUI, mul_sub, Finset.sum_sub_distrib, ← Finset.sum_mul]
    rw [hIntegral, h.offset, zero_mul, sub_zero]
  rw [Feed.periodMean, hSum, zero_div]

end PeriodicVoltage

/-! ## Periodic samples -/

/-- Samples of period `L` whose voltages have no offset. -/
structure Periodic (f : Feed) : Prop where
  L_pos : 1 ≤ f.L
  TSH_ne : f.TSH ≠ 0
  period : ∀ r, f.pac (r + f.L) = f.pac r
  offset : ∀ i, ∑ r ∈ Finset.range f.L, f.V i r = 0

namespace Periodic

variable {f : Feed} (h : Periodic f)
include h

theorem V (i : Fin 3) (r : ℕ) : f.V i (r + f.L) = f.V i r := by
  rw [Feed.V, Feed.V, h.period]

theorem I (i : Fin 3) (r : ℕ) : f.I i (r + f.L) = f.I i r := by
  rw [Feed.I, Feed.I, h.period]

theorem voltage (i : Fin 3) : PeriodicVoltage f i := ⟨h.L_pos, h.TSH_ne, h.V i, h.offset i⟩

theorem UI (i : Fin 3) {r : ℕ} (hr : f.L ≤ r + 1) : f.UI i (r + f.L) = f.UI i r := by
  rw [(h.voltage i).UI_eq (by omega), (h.voltage i).UI_eq hr, (h.voltage i).steadyUI]

omit h in
theorem mean_eq {x : ℕ → ℝ} {a s s' : ℕ} (hx : ∀ r, a ≤ r → x (r + f.L) = x r)
    (hs : a + f.L ≤ s + 1) (hs' : a + f.L ≤ s' + 1) : f.mean x s = f.mean x s' :=
  congrArg (· / (f.L : ℝ)) (winSum_steady hx hs hs')

/-- **A voltage is orthogonal to its unbiased integral.** -/
theorem orthogonal (i : Fin 3) {s : ℕ} (hs : 2 * f.L ≤ s + 2) :
    f.mean (fun r => f.V i r * f.UI i r) s = 0 := by
  have hL := h.L_pos
  have hWindow : f.mean (fun r => f.V i r * f.UI i r) s =
      f.mean (fun r => f.V i r * f.steadyUI i r) s :=
    f.mean_congr fun r hlo _ => by rw [(h.voltage i).UI_eq (by omega)]
  have hPeriod : ∀ r, f.V i (r + f.L) * f.steadyUI i (r + f.L) = f.V i r * f.steadyUI i r :=
    fun r => by rw [h.V, (h.voltage i).steadyUI]
  rw [hWindow, f.mean_of_periodic hPeriod (by omega), (h.voltage i).periodMean_mul]

end Periodic

/-! ## Steady state -/

/-- No floor changes a mean at sample `s`. -/
structure Unfloored (f : Feed) (s : ℕ) : Prop where
  P : ∀ i, i.val < f.n → 1 / 100000 ≤ f.P i s
  V : ∀ i, i.val < f.n → 0 < f.mean (fun r => f.V i r * f.V i r) s
  UI : ∀ i, i.val < f.n → 0 < f.mean (fun r => f.UI i r * f.UI i r) s
  cV : 0 < f.mean (fun r => ∑ i ∈ phases f.n, f.V i r * f.V i r) s
  cI : 0 < f.mean (fun r => ∑ i ∈ phases f.n, f.I i r * f.I i r) s
  cUI : 0 < f.mean (fun r => ∑ i ∈ phases f.n, f.UI i r * f.UI i r) s
  cIba : 0 < f.mean (fun r => ∑ i ∈ phases f.n, f.Iba i r * f.Iba i r) s
  cIbr : 0 < f.mean (fun r => ∑ i ∈ phases f.n, f.Ibr i r * f.Ibr i r) s
  cIua : 0 < f.mean (fun r => ∑ i ∈ phases f.n, f.Iua i r * f.Iua i r) s
  cIur : 0 < f.mean (fun r => ∑ i ∈ phases f.n, f.Iur i r * f.Iur i r) s
  cIv : 0 < f.mean (fun r => ∑ i ∈ phases f.n, f.Iv i r * f.Iv i r) s

/-- Periodic samples, three windows after the first, with no floor in force. -/
structure Steady (f : Feed) (s : ℕ) : Prop extends Periodic f, Unfloored f s where
  late : 3 * f.L ≤ s + 3

namespace Steady

variable {f : Feed} {s : ℕ}

/-- The mean square of a voltage. -/
noncomputable def v (f : Feed) (s : ℕ) (i : Fin 3) : ℝ := f.mean (fun r => f.V i r * f.V i r) s

/-- The mean square of an unbiased integral. -/
noncomputable def u (f : Feed) (s : ℕ) (i : Fin 3) : ℝ :=
  f.mean (fun r => f.UI i r * f.UI i r) s

variable (h : Steady f s)
include h

theorem cms_V : f.cms f.V s = ∑ i ∈ phases f.n, v f s i := by
  rw [Feed.cms, floorMean_of_pos h.cV, f.mean_sum]
  rfl

theorem cms_UI : f.cms f.UI s = ∑ i ∈ phases f.n, u f s i := by
  rw [Feed.cms, floorMean_of_pos h.cUI, f.mean_sum]
  rfl

/-! ### The window of sample `s`

Within the window every mean that a current is built from is the one at `s`. -/

section Window

variable {r : ℕ} (hr : s + 1 - f.L ≤ r)
include hr

theorem mean_V {x : ℕ → ℝ} (hx : ∀ q, x (q + f.L) = x q) : f.mean x r = f.mean x s := by
  have hLate := h.late
  have hL := h.L_pos
  exact Periodic.mean_eq (a := 0) (fun q _ => hx q) (by omega) (by omega)

theorem mean_UI {x : ℕ → ℝ} (hx : ∀ q, f.L ≤ q + 1 → x (q + f.L) = x q) :
    f.mean x r = f.mean x s := by
  have hLate := h.late
  have hL := h.L_pos
  exact Periodic.mean_eq (a := f.L - 1) (fun q hq => hx q (by omega)) (by omega) (by omega)

theorem P_eq {i : Fin 3} (hi : i.val < f.n) : f.P_avg i r = f.P i s := by
  have hP : f.P i r = f.P i s := h.mean_V hr fun q => by rw [h.toPeriodic.V, h.toPeriodic.I]
  rw [Feed.P_avg, hP, floorPower_eq_max, max_eq_left (h.P i hi)]

theorem W_eq (i : Fin 3) : f.W_avg i r = f.W_avg i s :=
  h.mean_UI hr fun q hq => by rw [h.toPeriodic.UI i hq, h.toPeriodic.I]

theorem Ia_eq {i : Fin 3} (hi : i.val < f.n) : f.Ia i r = f.P i s / v f s i * f.V i r := by
  rw [Feed.Ia, h.P_eq hr hi, Feed.ms, h.mean_V hr fun q => by rw [h.toPeriodic.V],
    floorMean_of_pos (h.V i hi), v]

theorem Ir_eq {i : Fin 3} (hi : i.val < f.n) :
    f.Ir i r = f.W_avg i s / u f s i * f.UI i r := by
  rw [Feed.Ir, h.W_eq hr, Feed.ms, h.mean_UI hr fun q hq => by rw [h.toPeriodic.UI i hq],
    floorMean_of_pos (h.UI i hi), u]

theorem Iba_eq (i : Fin 3) : f.Iba i r =
    (∑ j ∈ phases f.n, f.P j s) / (∑ j ∈ phases f.n, v f s j) * f.V i r := by
  have hP : f.cP_avg r = ∑ j ∈ phases f.n, f.P j s :=
    Finset.sum_congr rfl fun j hj => h.P_eq hr (mem_phases.mp hj)
  have hV : f.cms f.V r = f.cms f.V s := by
    rw [Feed.cms, Feed.cms, h.mean_V hr fun q => by simp only [h.toPeriodic.V]]
  rw [Feed.Iba, hP, hV, h.cms_V]

theorem Ibr_eq (i : Fin 3) : f.Ibr i r =
    f.cW_avg s / (∑ j ∈ phases f.n, u f s j) * f.UI i r := by
  have hW : f.cW_avg r = f.cW_avg s := Finset.sum_congr rfl fun j _ => h.W_eq hr j
  have hUI : f.cms f.UI r = f.cms f.UI s := by
    rw [Feed.cms, Feed.cms, h.mean_UI hr fun q hq => by simp only [h.toPeriodic.UI _ hq]]
  rw [Feed.Ibr, hW, hUI, h.cms_UI]

end Window

/-! ### Mean squares of the currents -/

omit h in
theorem mean_sq_slopes {z x : Fin 3 → ℕ → ℝ} (k : Fin 3 → ℝ)
    (hz : ∀ r, s + 1 - f.L ≤ r → ∀ i, i.val < f.n → z i r = k i * x i r) :
    f.mean (fun r => ∑ i ∈ phases f.n, z i r * z i r) s =
      ∑ i ∈ phases f.n, k i ^ 2 * f.mean (fun r => x i r * x i r) s := by
  rw [f.mean_sum]
  refine Finset.sum_congr rfl fun i hi => ?_
  rw [Feed.mean, Feed.mean, ← winMean_const_mul]
  refine f.mean_congr fun r hlo _ => ?_
  rw [hz r hlo i (mem_phases.mp hi)]
  ring

theorem sum_v_pos : 0 < ∑ j ∈ phases f.n, v f s j := by
  rw [← h.cms_V]
  exact f.cms_pos _ s

theorem sum_u_pos : 0 < ∑ j ∈ phases f.n, u f s j := by
  rw [← h.cms_UI]
  exact f.cms_pos _ s

theorem cms_Iba : f.cms f.Iba s =
    (∑ j ∈ phases f.n, f.P j s) ^ 2 / ∑ j ∈ phases f.n, v f s j := by
  have hv := h.sum_v_pos.ne'
  rw [Feed.cms, floorMean_of_pos h.cIba, mean_sq_slopes (fun _ => _) fun r hr i _ => h.Iba_eq hr i,
    ← Finset.mul_sum]
  change _ * ∑ j ∈ phases f.n, v f s j = _
  field_simp

theorem cms_Ibr : f.cms f.Ibr s = f.cW_avg s ^ 2 / ∑ j ∈ phases f.n, u f s j := by
  have hu := h.sum_u_pos.ne'
  rw [Feed.cms, floorMean_of_pos h.cIbr, mean_sq_slopes (fun _ => _) fun r hr i _ => h.Ibr_eq hr i,
    ← Finset.mul_sum]
  change _ * ∑ j ∈ phases f.n, u f s j = _
  field_simp

theorem cms_Iua : f.cms f.Iua s =
    ∑ i ∈ phases f.n, f.P i s ^ 2 / v f s i -
      (∑ j ∈ phases f.n, f.P j s) ^ 2 / ∑ j ∈ phases f.n, v f s j := by
  have hSlope : ∀ r, s + 1 - f.L ≤ r → ∀ i, i.val < f.n → f.Iua i r =
      (f.P i s / v f s i - (∑ j ∈ phases f.n, f.P j s) / ∑ j ∈ phases f.n, v f s j) *
        f.V i r := fun r hr i hi => by
    rw [Feed.Iua, h.Ia_eq hr hi, h.Iba_eq hr, sub_mul]
  rw [Feed.cms, floorMean_of_pos h.cIua, mean_sq_slopes _ hSlope]
  exact sum_spread _ _ _ (fun i hi => (h.V i (mem_phases.mp hi)).ne') h.sum_v_pos.ne'

theorem cms_Iur : f.cms f.Iur s =
    ∑ i ∈ phases f.n, f.W_avg i s ^ 2 / u f s i -
      f.cW_avg s ^ 2 / ∑ j ∈ phases f.n, u f s j := by
  have hSlope : ∀ r, s + 1 - f.L ≤ r → ∀ i, i.val < f.n → f.Iur i r =
      (f.W_avg i s / u f s i - f.cW_avg s / ∑ j ∈ phases f.n, u f s j) *
        f.UI i r := fun r hr i hi => by
    rw [Feed.Iur, h.Ir_eq hr hi, h.Ibr_eq hr, sub_mul]
  rw [Feed.cms, floorMean_of_pos h.cIur, mean_sq_slopes _ hSlope]
  exact sum_spread _ _ _ (fun i hi => (h.UI i (mem_phases.mp hi)).ne') h.sum_u_pos.ne'

/-- The void current of a phase is orthogonal to the voltage and to its
unbiased integral. -/
theorem mean_Iv {i : Fin 3} (hi : i.val < f.n) :
    f.mean (fun r => f.Iv i r * f.Iv i r) s =
      f.mean (fun r => f.I i r * f.I i r) s - f.P i s ^ 2 / v f s i -
        f.W_avg i s ^ 2 / u f s i := by
  have hv : v f s i ≠ 0 := (h.V i hi).ne'
  have hu : u f s i ≠ 0 := (h.UI i hi).ne'
  have hOrthogonal : f.mean (fun r => f.V i r * f.UI i r) s = 0 :=
    h.toPeriodic.orthogonal i (by
      have := h.late
      omega)
  set a := f.P i s / v f s i with ha
  set b := f.W_avg i s / u f s i with hb
  -- within the window `a` and `b` do not depend on the sample, so the square expands
  have hExpand : f.mean (fun r => f.Iv i r * f.Iv i r) s =
      f.mean (fun r => f.I i r * f.I i r + (-2 * a) * (f.V i r * f.I i r) +
        (-2 * b) * (f.UI i r * f.I i r) + a ^ 2 * (f.V i r * f.V i r) +
        b ^ 2 * (f.UI i r * f.UI i r) + (2 * a * b) * (f.V i r * f.UI i r)) s :=
    f.mean_congr fun r hlo _ => by
      rw [Feed.Iv, h.Ia_eq hlo hi, h.Ir_eq hlo hi]
      ring
  calc f.mean (fun r => f.Iv i r * f.Iv i r) s
      = f.mean (fun r => f.I i r * f.I i r) s + (-2 * a) * f.P i s + (-2 * b) * f.W_avg i s +
          a ^ 2 * v f s i + b ^ 2 * u f s i +
          (2 * a * b) * f.mean (fun r => f.V i r * f.UI i r) s := by
        rw [hExpand]
        simp only [Feed.mean, winMean_add, winMean_const_mul, Feed.P, Feed.W_avg, v, u]
    _ = f.mean (fun r => f.I i r * f.I i r) s - f.P i s ^ 2 / v f s i -
          f.W_avg i s ^ 2 / u f s i := by
        rw [hOrthogonal, ha, hb]
        field_simp
        ring

/-- **The currents split into five orthogonal parts.** -/
theorem current_split : f.cms f.I s =
    f.cms f.Iba s + f.cms f.Ibr s + f.cms f.Iua s + f.cms f.Iur s + f.cms f.Iv s := by
  have hIv : f.cms f.Iv s = ∑ i ∈ phases f.n, (f.mean (fun r => f.I i r * f.I i r) s -
      f.P i s ^ 2 / v f s i - f.W_avg i s ^ 2 / u f s i) := by
    rw [Feed.cms, floorMean_of_pos h.cIv, f.mean_sum]
    exact Finset.sum_congr rfl fun i hi => h.mean_Iv (mem_phases.mp hi)
  have hI : f.cms f.I s = ∑ i ∈ phases f.n, f.mean (fun r => f.I i r * f.I i r) s := by
    rw [Feed.cms, floorMean_of_pos h.cI, f.mean_sum]
  rw [hIv, hI, h.cms_Iba, h.cms_Ibr, h.cms_Iua, h.cms_Iur, Finset.sum_sub_distrib,
    Finset.sum_sub_distrib]
  ring

/-- **Conservation of the collective power.** -/
theorem conservation :
    let w := (f.cptReading s).power
    w.A ^ 2 = (f.cptReading s).P_avg ^ 2 + w.Q ^ 2 + w.N ^ 2 + w.V ^ 2 := by
  intro w
  have hA : w.A ^ 2 = f.cms f.V s * f.cms f.I s := by
    rw [← f.crms_mul_self, ← f.crms_mul_self]
    show (f.crms f.V s * f.crms f.I s) ^ 2 = _
    ring
  have hQ : w.Q ^ 2 = f.cms f.V s * f.cms f.Ibr s := by
    rw [← f.crms_mul_self, ← f.crms_mul_self]
    show (f.crms f.V s * f.crms f.Ibr s) ^ 2 = _
    ring
  have hV : w.V ^ 2 = f.cms f.V s * f.cms f.Iv s := by
    rw [← f.crms_mul_self, ← f.crms_mul_self]
    show (f.crms f.V s * f.crms f.Iv s) ^ 2 = _
    ring
  have hN : w.N ^ 2 = f.cms f.V s * (f.cms f.Iua s + f.cms f.Iur s) := by
    have hSq : w.N ^ 2 = f.crms f.V s * f.crms f.Iua s * (f.crms f.V s * f.crms f.Iua s) +
        f.crms f.V s * f.crms f.Iur s * (f.crms f.V s * f.crms f.Iur s) :=
      Real.sq_sqrt (add_nonneg (mul_self_nonneg _) (mul_self_nonneg _))
    rw [hSq, ← f.crms_mul_self, ← f.crms_mul_self, ← f.crms_mul_self]
    ring
  have hP : (f.cptReading s).P_avg ^ 2 = f.cms f.V s * f.cms f.Iba s := by
    have hs : s + 1 - f.L ≤ s := by
      have := h.L_pos
      omega
    have hcP : (f.cptReading s).P_avg = ∑ j ∈ phases f.n, f.P j s :=
      Finset.sum_congr rfl fun j hj => h.P_eq hs (mem_phases.mp hj)
    have hv := h.sum_v_pos.ne'
    rw [hcP, h.cms_V, h.cms_Iba]
    field_simp
  -- every square is that of the voltages times a part of the currents
  rw [hA, hQ, hV, hN, hP, h.current_split]
  ring

end Steady

/-! ## Runs -/

/-- The mean over the window of a filter, before its threshold. -/
noncomputable def TMAF.window (me : TMAF ℝ) : ℝ := me.Accumulator / me.Buffer.Length

theorem Tracks.window {L t : ℕ} {enabled : ℤ} {cmp min : ℝ} {x : ℕ → ℝ} {me : TMAF ℝ}
    (h : Tracks L enabled cmp min x t me) : me.window = winMean L x t := by
  rw [TMAF.window, h.acc, h.length, winMean]

/-- No floor is in force in a state: the windowed means of the active powers
are at least the floor of `CPT_UpdatePowerAndEnergy`, and those under a
threshold are positive. -/
structure NoFloor (me : TCPT ℝ) : Prop where
  P_maf : ∀ i, 1 / 100000 ≤ (me.Phase i).P_maf.window
  V_maf : ∀ i, 0 < (me.Phase i).V_maf.window
  UI_maf : ∀ i, 0 < (me.Phase i).UI_maf.window
  cV_maf : 0 < me.V_maf.window
  cI_maf : 0 < me.I_maf.window
  cUI_maf : 0 < me.UI_maf.window
  Iba_maf : 0 < me.Iba_maf.window
  Ibr_maf : 0 < me.Ibr_maf.window
  Iua_maf : 0 < me.Iua_maf.window
  Iur_maf : 0 < me.Iur_maf.window
  Iv_maf : 0 < me.Iv_maf.window

/-- The windows of a state are the means of the signals. -/
theorem CptTracks.noFloor_iff {f : Feed} {s : ℕ} {me : TCPT ℝ} (h : CptTracks f (s + 1) me)
    (hn : f.n = 3) : NoFloor me ↔ Unfloored f s := by
  have hPhase : ∀ i : Fin 3, i.val < f.n := fun i => i.isLt.trans_eq hn.symm
  -- the filters of the unbalanced currents are fed on more than one phase only
  have hIua := (h.Iua_maf (by omega)).window
  have hIur := (h.Iur_maf (by omega)).window
  constructor
  · intro hFloor
    exact {
      P := fun i hi => (hFloor.P_maf i).trans_eq (h.phase i hi).P_maf.window
      V := fun i hi => (hFloor.V_maf i).trans_eq (h.phase i hi).V_maf.window
      UI := fun i hi => (hFloor.UI_maf i).trans_eq (h.phase i hi).UI_maf.window
      cV := hFloor.cV_maf.trans_eq h.V_maf.window
      cI := hFloor.cI_maf.trans_eq h.I_maf.window
      cUI := hFloor.cUI_maf.trans_eq h.UI_maf.window
      cIba := hFloor.Iba_maf.trans_eq h.Iba_maf.window
      cIbr := hFloor.Ibr_maf.trans_eq h.Ibr_maf.window
      cIua := hFloor.Iua_maf.trans_eq hIua
      cIur := hFloor.Iur_maf.trans_eq hIur
      cIv := hFloor.Iv_maf.trans_eq h.Iv_maf.window }
  · intro hMean
    exact {
      P_maf := fun i => (hMean.P i (hPhase i)).trans_eq (h.phase i (hPhase i)).P_maf.window.symm
      V_maf := fun i => (hMean.V i (hPhase i)).trans_eq (h.phase i (hPhase i)).V_maf.window.symm
      UI_maf := fun i =>
        (hMean.UI i (hPhase i)).trans_eq (h.phase i (hPhase i)).UI_maf.window.symm
      cV_maf := hMean.cV.trans_eq h.V_maf.window.symm
      cI_maf := hMean.cI.trans_eq h.I_maf.window.symm
      cUI_maf := hMean.cUI.trans_eq h.UI_maf.window.symm
      Iba_maf := hMean.cIba.trans_eq h.Iba_maf.window.symm
      Ibr_maf := hMean.cIbr.trans_eq h.Ibr_maf.window.symm
      Iua_maf := hMean.cIua.trans_eq hIua.symm
      Iur_maf := hMean.cIur.trans_eq hIur.symm
      Iv_maf := hMean.cIv.trans_eq h.Iv_maf.window.symm }

/-- **Conservation of power over whole runs.** After at least `3 samples - 2`
updates on periodic samples without a voltage offset, if no floor is in force
then the collective powers add up. -/
theorem cptRun_conservation {freq samples : ℕ} (hSamples : 1 ≤ samples)
    {init cpt : TCPT ℝ} {alloc : Allocator ℝ}
    (hConfig : cptConfig (m := Except Fault) init alloc freq samples 3 = .ok (some cpt))
    (V I : Fin 3 → ℕ → ℝ) (hV : ∀ i r, V i (r + samples) = V i r)
    (hI : ∀ i r, I i (r + samples) = I i r)
    (hOffset : ∀ i, ∑ r ∈ Finset.range samples, V i r = 0) (t : ℕ) (ht : 3 * samples - 2 ≤ t) :
    ∃ me, cptRun (m := Except Fault) cpt (fun r => ⟨fun i => V i r, fun i => I i r⟩) t = .ok me ∧
      (NoFloor me → me.A ^ 2 = me.P_avg ^ 2 + me.Q ^ 2 + me.N ^ 2 + me.V ^ 2) := by
  obtain ⟨s, rfl⟩ : ∃ s, t = s + 1 := ⟨t - 1, by omega⟩
  obtain ⟨hFreq, hInit⟩ :=
    cptConfig_tracks hConfig fun r => ⟨fun i => V i r, fun i => I i r⟩
  obtain ⟨me, hRun, hTracks, hReading, -⟩ :=
    cptRun_reading hSamples (show 3 ≠ 1 by decide) hInit s
  refine ⟨me, hRun.checked, fun hFloor => ?_⟩
  have hPeriodic : Periodic ⟨samples, 3, 1 / freq, fun r => ⟨fun i => V i r, fun i => I i r⟩⟩ :=
    { L_pos := hSamples
      TSH_ne := one_div_ne_zero (Nat.cast_ne_zero.mpr (by omega))
      period := fun r => by simp only [hV, hI]
      offset := hOffset }
  -- three windows back every signal is periodic, and no floor is in force
  have hSteady : Steady ⟨samples, 3, 1 / freq, fun r => ⟨fun i => V i r, fun i => I i r⟩⟩ s :=
    { hPeriodic, (hTracks.noFloor_iff rfl).mp hFloor with
      late := by
        show 3 * samples ≤ s + 3
        omega }
  have hConservation := hSteady.conservation
  -- the figures of the signals are the ones that are published
  rw [← hReading] at hConservation
  exact hConservation

/-! ### A run without floors -/

/-- One voltage for all phases, of period three. -/
noncomputable def rampV (_ : Fin 3) (r : ℕ) : ℝ :=
  match r % 3 with
  | 0 => 1
  | 1 => 0
  | _ => -1

/-- Three loads of period three. -/
noncomputable def rampI (i : Fin 3) (r : ℕ) : ℝ :=
  match r % 3 with
  | 0 => ![3, 6, 3] i
  | 1 => ![3, 0, 0] i
  | _ => 0

noncomputable def ramp : Feed :=
  ⟨3, 3, 1 / (1 : ℕ), fun r => ⟨fun i => rampV i r, fun i => rampI i r⟩⟩

theorem ramp_mean (x : ℕ → ℝ) {s : ℕ} : ramp.mean x (s + 2) = (x s + x (s + 1) + x (s + 2)) / 3 := by
  simp [ramp, Feed.mean, winMean, winSum, Finset.sum_Ico_succ_top]

theorem ramp_Integral (i : Fin 3) : ramp.Integral i 2 = 1 / 2 ∧ ramp.Integral i 3 = 1 / 2 ∧
    ramp.Integral i 4 = 1 ∧ ramp.Integral i 5 = 1 / 2 ∧ ramp.Integral i 6 = 1 / 2 := by
  refine ⟨?_, ?_, ?_, ?_, ?_⟩ <;>
    norm_num [ramp, Feed.Integral, Feed.V, trapz, rampV]

theorem ramp_UI (i : Fin 3) :
    ramp.UI i 4 = 1 / 3 ∧ ramp.UI i 5 = -1 / 6 ∧ ramp.UI i 6 = -1 / 6 := by
  obtain ⟨h₂, h₃, h₄, h₅, h₆⟩ := ramp_Integral i
  refine ⟨?_, ?_, ?_⟩ <;> rw [Feed.UI, ramp_mean] <;> norm_num [h₂, h₃, h₄, h₅, h₆]

theorem ramp_V (i : Fin 3) : ramp.V i 4 = 0 ∧ ramp.V i 5 = -1 ∧ ramp.V i 6 = 1 :=
  ⟨rfl, rfl, rfl⟩

theorem ramp_I : (ramp.I 0 4 = 3 ∧ ramp.I 0 5 = 0 ∧ ramp.I 0 6 = 3) ∧
    (ramp.I 1 4 = 0 ∧ ramp.I 1 5 = 0 ∧ ramp.I 1 6 = 6) ∧
    (ramp.I 2 4 = 0 ∧ ramp.I 2 5 = 0 ∧ ramp.I 2 6 = 3) :=
  ⟨⟨rfl, rfl, rfl⟩, ⟨rfl, rfl, rfl⟩, ⟨rfl, rfl, rfl⟩⟩

theorem ramp_P : ramp.P 0 6 = 1 ∧ ramp.P 1 6 = 2 ∧ ramp.P 2 6 = 1 := by
  refine ⟨?_, ?_, ?_⟩ <;> rw [Feed.P, ramp_mean] <;> norm_num [ramp_V, ramp_I]

theorem ramp_W : ramp.W_avg 0 6 = 1 / 6 ∧ ramp.W_avg 1 6 = -1 / 3 ∧ ramp.W_avg 2 6 = -1 / 6 := by
  refine ⟨?_, ?_, ?_⟩ <;> rw [Feed.W_avg, ramp_mean] <;> norm_num [ramp_UI, ramp_I]

theorem ramp_V_sq (i : Fin 3) : ramp.mean (fun r => ramp.V i r * ramp.V i r) 6 = 2 / 3 := by
  obtain ⟨h₄, h₅, h₆⟩ := ramp_V i
  rw [ramp_mean]
  norm_num [h₄, h₅, h₆]

theorem ramp_UI_sq (i : Fin 3) : ramp.mean (fun r => ramp.UI i r * ramp.UI i r) 6 = 1 / 18 := by
  obtain ⟨h₄, h₅, h₆⟩ := ramp_UI i
  rw [ramp_mean]
  norm_num [h₄, h₅, h₆]

theorem ramp_cms {x : Fin 3 → ℕ → ℝ} {c : ℝ} (hc : 0 < c)
    (hx : ∀ i, ramp.mean (fun r => x i r * x i r) 6 = c) : ramp.cms x 6 = 3 * c := by
  have hMean : ramp.mean (fun r => ∑ i ∈ phases ramp.n, x i r * x i r) 6 = 3 * c := by
    rw [ramp.mean_sum, Finset.sum_congr rfl fun i _ => hx i]
    show ∑ i ∈ phases 3, c = 3 * c
    simp
  rw [Feed.cms, hMean, floorMean_of_pos (by linarith)]

/-- A collective mean square is positive where the first phase is not zero. -/
theorem ramp_collective_pos {x : Fin 3 → ℕ → ℝ} (hx : x 0 6 ≠ 0) :
    0 < ramp.mean (fun r => ∑ i ∈ phases ramp.n, x i r * x i r) 6 := by
  refine winMean_pos (s := 6) (fun r => Finset.sum_nonneg fun i _ => mul_self_nonneg _)
    (by decide) (by decide) ?_
  refine Finset.sum_pos' (fun i _ => mul_self_nonneg _) ⟨0, ?_, mul_self_pos.mpr hx⟩
  exact mem_phases.mpr (by decide)

theorem ramp_unfloored : Unfloored ramp 6 := by
  obtain ⟨hP₀, hP₁, hP₂⟩ := ramp_P
  obtain ⟨hW₀, hW₁, hW₂⟩ := ramp_W
  have hV : ramp.V 0 6 = 1 := (ramp_V 0).2.2
  have hI : ramp.I 0 6 = 3 := ramp_I.1.2.2
  have hUI : ramp.UI 0 6 = -1 / 6 := (ramp_UI 0).2.2
  have hcP : ramp.cP_avg 6 = 4 := by
    show ∑ i ∈ phases 3, ramp.P_avg i 6 = 4
    rw [phases_three, Fin.sum_univ_three, Feed.P_avg, Feed.P_avg, Feed.P_avg, hP₀, hP₁, hP₂]
    norm_num [floorPower]
  have hcW : ramp.cW_avg 6 = -1 / 3 := by
    show ∑ i ∈ phases 3, ramp.W_avg i 6 = -1 / 3
    rw [phases_three, Fin.sum_univ_three, hW₀, hW₁, hW₂]
    norm_num
  have hIa : ramp.Ia 0 6 = 3 / 2 := by
    rw [Feed.Ia, Feed.P_avg, hP₀, Feed.ms, ramp_V_sq, floorMean_of_pos (by norm_num), hV]
    norm_num [floorPower]
  have hIr : ramp.Ir 0 6 = -1 / 2 := by
    rw [Feed.Ir, hW₀, Feed.ms, ramp_UI_sq, floorMean_of_pos (by norm_num), hUI]
    norm_num
  have hIba : ramp.Iba 0 6 = 2 := by
    rw [Feed.Iba, hcP, ramp_cms (by norm_num) ramp_V_sq, hV]
    norm_num
  have hIbr : ramp.Ibr 0 6 = 1 / 3 := by
    rw [Feed.Ibr, hcW, ramp_cms (by norm_num) ramp_UI_sq, hUI]
    norm_num
  -- the floor on the active powers is the only one that is not about a sign
  have hP : ∀ i, 1 / 100000 ≤ ramp.P i 6 := by
    refine Fin.forall_fin_succ.mpr ⟨?_, Fin.forall_fin_two.mpr ⟨?_, ?_⟩⟩
    · rw [hP₀]
      norm_num
    · show 1 / 100000 ≤ ramp.P 1 6
      rw [hP₁]
      norm_num
    · show 1 / 100000 ≤ ramp.P 2 6
      rw [hP₂]
      norm_num
  exact {
    P := fun i _ => hP i
    V := fun i _ => by
      rw [ramp_V_sq]
      norm_num
    UI := fun i _ => by
      rw [ramp_UI_sq]
      norm_num
    cV := ramp_collective_pos (by rw [hV]; norm_num)
    cI := ramp_collective_pos (by rw [hI]; norm_num)
    cUI := ramp_collective_pos (by rw [hUI]; norm_num)
    cIba := ramp_collective_pos (by rw [hIba]; norm_num)
    cIbr := ramp_collective_pos (by rw [hIbr]; norm_num)
    cIua := ramp_collective_pos (by rw [Feed.Iua, hIa, hIba]; norm_num)
    cIur := ramp_collective_pos (by rw [Feed.Iur, hIr, hIbr]; norm_num)
    cIv := ramp_collective_pos (by rw [Feed.Iv, hI, hIa, hIr]; norm_num) }

/-- Seven updates on the ramp meet every hypothesis. -/
theorem cptRun_conservation_ramp :
    ∃ cpt, cptConfig (m := Except Fault) default .plenty 1 3 3 = .ok (some cpt) ∧
      ∃ me, cptRun (m := Except Fault) cpt ramp.pac 7 = .ok me ∧
        NoFloor me ∧ me.A ^ 2 = me.P_avg ^ 2 + me.Q ^ 2 + me.N ^ 2 + me.V ^ 2 := by
  obtain ⟨cpt, hConfig, hInit⟩ :=
    cptConfig_spec le_rfl 3 (by decide) (Allocator.plenty_suffices 3) default
  obtain ⟨me, hRun, hConservation⟩ := cptRun_conservation (by decide) hConfig.checked
    rampV rampI (fun i r => by simp [rampV]) (fun i r => by simp [rampI])
    (fun i => by norm_num [Finset.sum_range_succ, rampV]) 7 (by decide)
  obtain ⟨me', hRun', hTracks, -⟩ :=
    cptRun_reading (f := ramp) (by decide) (by decide) (hInit ramp.pac) 6
  have hEq : (.ok me : Except Fault (TCPT ℝ)) = .ok me' := hRun.symm.trans hRun'.checked
  have hMe : me = me' := by simpa using hEq
  have hFloor : NoFloor me := by
    rw [hMe, hTracks.noFloor_iff rfl]
    exact ramp_unfloored
  exact ⟨cpt, hConfig.checked, me, hRun, hFloor, hConservation hFloor⟩

end EnergyMeter.Cpt

import EnergyMeter.Cpt.Config

/-!
# EnergyMeter — what `CPT_Config` sets up

`CPT_Config` takes a number of phases and allocates for that number. Its last loop
hands the descriptors out to the filters of three phases, whatever the number is:
on three phases every filter gets a ring of its own, on fewer the loop goes on to
a phase that was never allocated. A number of samples whose size is not a
`size_t` gets rings that are too small, and clearing them runs out of the block.

* `SetUp` — every filter is cleared, on a ring that no other filter has.
* `cptConfig_blocks` — the rings that the filters get are those of the
  descriptors, in order.

Main results:

* `cptConfig_setUp_iff` — the configurations that are set up are those of three
  phases.
* `cptConfig_one` — a configuration of one phase.
-/

namespace EnergyMeter.Cpt

open Lib

/-! ## The filters of a configuration -/

/-- The filters of a phase, in the order of their descriptors. -/
def TPhase.mafs (p : TPhase ℝ) : List (TMAF ℝ) :=
  [p.V_maf, p.I_maf, p.P_maf, p.W_maf, p.UI_maf, p.INT_maf, p.Iba_maf, p.Ibr_maf, p.Iv_maf]

/-- The filters of the collective, in the order of their descriptors. -/
def TCPT.collectiveMafs (me : TCPT ℝ) : List (TMAF ℝ) :=
  [me.Iba_maf, me.Iua_maf, me.Ibr_maf, me.Iur_maf, me.Iv_maf, me.I_maf, me.V_maf, me.UI_maf]

/-- The filters of the first `n` phases and of the collective. -/
def TCPT.mafs (n : ℕ) (me : TCPT ℝ) : List (TMAF ℝ) :=
  (phaseIdx n).flatMap (fun j => (me.Phase j).mafs) ++ me.collectiveMafs

/-- A filter on a ring of `samples` zeros. -/
structure Cleared (samples : ℕ) (me : TMAF ℝ) : Prop where
  Length : me.Buffer.Length = samples
  Data : ∀ k < samples, me.Buffer.Data k = 0
  Head : me.Head = 0
  Accumulator : me.Accumulator = 0
  MeanValue : me.MeanValue = 0

/-- A configuration of `n` phases: every filter is cleared, on a ring of its own. -/
structure SetUp (samples n : ℕ) (me : TCPT ℝ) : Prop where
  count : (me.mafs n).length = phaseRawBuffers * n + cptRawBuffers
  cleared : ∀ maf ∈ me.mafs n, Cleared samples maf
  own : ((me.mafs n).map fun maf => maf.Buffer.Block).Nodup
  n : me.n = n

/-! ## Cleared filters -/

theorem FilterInitialised.cleared {samples : ℕ} {threshold : ℤ} {cmp min : ℝ} {me : TMAF ℝ}
    (h : FilterInitialised samples threshold cmp min me) : Cleared samples me := by
  obtain ⟨buffer, hLen, rfl⟩ := h
  refine ⟨hLen, fun k hk => ?_, rfl, rfl, rfl⟩
  exact (foldl_clear buffer.Length buffer.Data k).trans (if_pos (hLen ▸ hk))

theorem PhaseInitialised.cleared {samples : ℕ} {p : TPhase ℝ} (h : PhaseInitialised samples p) :
    ∀ maf ∈ p.mafs, Cleared samples maf := by
  simp only [TPhase.mafs, List.forall_mem_cons, List.not_mem_nil, false_implies, implies_true,
    and_true]
  exact ⟨h.V_maf.cleared, h.I_maf.cleared, h.P_maf.cleared, h.W_maf.cleared, h.UI_maf.cleared,
    h.INT_maf.cleared, h.Iba_maf.cleared, h.Ibr_maf.cleared, h.Iv_maf.cleared⟩

theorem CptInitialised.collective_cleared {freq samples n : ℕ} {me : TCPT ℝ}
    (h : CptInitialised freq samples n me) : ∀ maf ∈ me.collectiveMafs, Cleared samples maf := by
  simp only [TCPT.collectiveMafs, List.forall_mem_cons, List.not_mem_nil, false_implies,
    implies_true, and_true]
  exact ⟨h.Iba_maf.cleared, h.Iua_maf.cleared, h.Ibr_maf.cleared, h.Iur_maf.cleared,
    h.Iv_maf.cleared, h.I_maf.cleared, h.V_maf.cleared, h.UI_maf.cleared⟩

theorem CptInitialised.cleared {freq samples n : ℕ} {me : TCPT ℝ}
    (h : CptInitialised freq samples n me) : ∀ maf ∈ me.mafs n, Cleared samples maf := by
  intro maf hMaf
  rcases List.mem_append.mp hMaf with hMaf | hMaf
  · obtain ⟨j, hj, hMaf⟩ := List.mem_flatMap.mp hMaf
    exact (h.phase j (mem_phaseIdx.mp hj)).cleared maf hMaf
  · exact h.collective_cleared maf hMaf

/-! ## Rings -/

section Rings

variable {block count samples freq n k : ℕ} {l l' : List (Descriptor ℝ)} {threshold : ℤ}
  {cmp min : ℝ} {maf : TMAF ℝ}

/-- A filter gets the ring of the descriptor it is initialised from. -/
theorem initFrom_block (hDesc : Descriptors block count samples l)
    (h : initFrom l k threshold cmp min = (.ok maf : Except Fault (TMAF ℝ))) :
    maf.Buffer.Block = block + k := by
  obtain ⟨-, hk, rfl⟩ := initFrom_ok hDesc h
  exact hDesc.Block k l[k] (List.getElem?_eq_getElem hk)

theorem initPhaseBody_blocks (hDesc : Descriptors block count samples l) {j : Fin 3}
    {p p' : TPhase ℝ} (h : initPhaseBody n l j p = (.ok p' : Except Fault (TPhase ℝ))) :
    p'.mafs.map (fun maf => maf.Buffer.Block) =
      (List.range 9).map fun c => block + (j.val * phaseRawBuffers + c) := by
  simp only [initPhaseBody, bind_eq_ok] at h
  obtain ⟨_, -, V, h₀, I, h₁, P, h₂, W, h₃, UI, h₄, INT, h₅, Iba, h₆, Ibr, h₇, Iv, h₈, hPure⟩ := h
  cases hPure
  -- nine filters, in the order of their descriptors
  show [V.Buffer.Block, I.Buffer.Block, P.Buffer.Block, W.Buffer.Block, UI.Buffer.Block,
    INT.Buffer.Block, Iba.Buffer.Block, Ibr.Buffer.Block, Iv.Buffer.Block] = _
  rw [initFrom_block hDesc h₀, initFrom_block hDesc h₁, initFrom_block hDesc h₂,
    initFrom_block hDesc h₃, initFrom_block hDesc h₄, initFrom_block hDesc h₅,
    initFrom_block hDesc h₆, initFrom_block hDesc h₇, initFrom_block hDesc h₈]
  rfl

/-- The rings of the phases, then those of the collective. -/
theorem initCpt_blocks {me cpt : TCPT ℝ} (hDesc : Descriptors 0 (phaseRawBuffers * 3) samples l)
    (hDesc' : Descriptors (phaseRawBuffers * 3) (cptRawBuffers * 3) samples l')
    (h : initCpt (m := Except Fault) me l l' freq samples 3 = .ok cpt) :
    (cpt.mafs 3).map (fun maf => maf.Buffer.Block) = List.range 35 := by
  simp only [initCpt, bind_eq_ok] at h
  obtain ⟨Phase, hLoop, Iba, h₀, Iua, h₁, Ibr, h₂, Iur, h₃, Iv, h₄, I, h₅, V, h₆, UI, h₇, _, -,
    hPure⟩ := h
  cases hPure
  have hPhase : ∀ j : Fin 3, (Phase j).mafs.map (fun maf => maf.Buffer.Block) =
      (List.range 9).map fun c => 0 + (j.val * phaseRawBuffers + c) := fun j =>
    initPhaseBody_blocks hDesc (mapPhases_checked hLoop j j.isLt)
  -- the collective has the descriptors behind those of three phases
  have hCollective : [Iba, Iua, Ibr, Iur, Iv, I, V, UI].map (fun maf => maf.Buffer.Block) =
      (List.range 8).map fun k => phaseRawBuffers * 3 + k := by
    simp only [List.map_cons, List.map_nil, initFrom_block hDesc' h₀, initFrom_block hDesc' h₁,
      initFrom_block hDesc' h₂, initFrom_block hDesc' h₃, initFrom_block hDesc' h₄,
      initFrom_block hDesc' h₅, initFrom_block hDesc' h₆, initFrom_block hDesc' h₇]
    rfl
  show ([0, 1, 2].flatMap (fun j : Fin 3 => (Phase j).mafs) ++
    [Iba, Iua, Ibr, Iur, Iv, I, V, UI]).map (fun maf => maf.Buffer.Block) = _
  rw [List.map_append, hCollective, List.map_flatMap]
  simp only [hPhase]
  rfl

end Rings

/-! ## Configurations -/

section Config

variable {alloc : Allocator ℝ} {freq samples n : ℕ} {init cpt : TCPT ℝ}

/-- **Every filter has a ring of its own**: the ring of its descriptor. -/
theorem cptConfig_blocks
    (hConfig : cptConfig (m := Except Fault) init alloc freq samples 3 = .ok (some cpt)) :
    (cpt.mafs 3).map (fun maf => maf.Buffer.Block) = List.range 35 := by
  obtain ⟨-, P, l, l', hDesc, hDesc', hInit⟩ := cptConfig_some hConfig
  exact initCpt_blocks hDesc hDesc' hInit

theorem cptConfig_setUp
    (hConfig : cptConfig (m := Except Fault) init alloc freq samples 3 = .ok (some cpt)) :
    SetUp samples 3 cpt := by
  obtain ⟨-, hInitialised⟩ := cptConfig_ok hConfig
  have hBlocks := cptConfig_blocks hConfig
  refine ⟨?_, hInitialised.cleared, ?_, hInitialised.n⟩
  · have hLength := congrArg List.length hBlocks
    rwa [List.length_map, List.length_range] at hLength
  · rw [hBlocks]
    exact List.nodup_range

/-- **On fewer than three phases** the last loop goes through a null pointer. -/
theorem cptConfig_nullPointer (hAlloc : alloc.Suffices n) (hn : n < 3) (hFits : RingFits samples)
    (init : TCPT ℝ) :
    cptConfig (m := Except Fault) init alloc freq samples n = .error .nullPointer := by
  obtain ⟨P, l, l', hDesc, -, hEq⟩ := cptConfig_eq_initCpt freq samples hAlloc init
  -- phase `n` is the first that was not allocated
  have hBefore : ∀ i < (⟨n, hn⟩ : Fin 3), ∀ p, ∃ p',
      initPhaseBody (m := Except Fault) n l i p = .ok p' := fun i hi p => by
    obtain ⟨p', hBody, -⟩ := initPhaseBody_spec hDesc hFits (Fin.lt_def.mp hi) p
    exact ⟨p', hBody.checked⟩
  have hNull : ∀ p, initPhaseBody (m := Except Fault) n l ⟨n, hn⟩ p = .error .nullPointer :=
    fun p => by
      have hRequire : (require (n < n) .nullPointer : Except Fault Unit) = .error .nullPointer :=
        if_neg (lt_irrefl n)
      rw [initPhaseBody, hRequire]
      rfl
  have hLoop : mapPhases (m := Except Fault) 3 P (initPhaseBody n l) = .error .nullPointer :=
    mapPhases_error le_rfl hn hBefore hNull
  rw [hEq, initCpt, hLoop]
  rfl

/-- A configuration that returned had three phases, and rings that fit. -/
theorem cptConfig_returned
    (hConfig : cptConfig (m := Except Fault) init alloc freq samples n = .ok (some cpt)) :
    3 ≤ n ∧ RingFits samples := by
  obtain ⟨-, P, l, l', -, hDesc', hInit⟩ := cptConfig_some hConfig
  refine ⟨?_, (initCpt_ok hDesc' hInit).1⟩
  rw [initCpt, bind_eq_ok] at hInit
  obtain ⟨Phase, hLoop, -⟩ := hInit
  -- the last phase is not null
  have hBody := mapPhases_checked hLoop 2 (by decide)
  rw [initPhaseBody, bind_eq_ok] at hBody
  obtain ⟨_, hRequire, -⟩ := hBody
  exact of_require_eq_ok hRequire

/-- **Which configurations are set up.** When every allocation succeeds `CPT_Config`
returns zero, without an access through a null pointer, beyond an array of
descriptors or beyond a ring, and leaves every filter cleared on a ring of its own,
if and only if the number of phases is three and the size of a ring is a `size_t`. -/
theorem cptConfig_setUp_iff (hFreq : 1 ≤ freq) (hn : n ≤ 3) (hAlloc : alloc.Suffices n)
    (init : TCPT ℝ) :
    (∃ cpt, cptConfig (m := Except Fault) init alloc freq samples n = .ok (some cpt) ∧
      SetUp samples n cpt) ↔ n = 3 ∧ samples * sizeofDouble < 2 ^ 32 := by
  constructor
  · rintro ⟨cpt, hConfig, -⟩
    obtain ⟨hThree, hFits⟩ := cptConfig_returned hConfig
    exact ⟨le_antisymm hn hThree, hFits⟩
  · rintro ⟨rfl, hFits⟩
    obtain ⟨cpt, hConfig, -⟩ := cptConfig_initialised hFreq samples hFits hAlloc init
    exact ⟨cpt, hConfig.checked, cptConfig_setUp hConfig.checked⟩

theorem cptConfig_setUp_iff_three :
    ∃ cpt, cptConfig (m := Except Fault) default .plenty 1 4 3 = .ok (some cpt) ∧
      SetUp 4 3 cpt :=
  (cptConfig_setUp_iff le_rfl le_rfl (Allocator.plenty_suffices 3) default).mpr
    ⟨rfl, by decide⟩

/-- **One phase**, with memory for everything it asks for. -/
theorem cptConfig_one :
    (Allocator.plenty : Allocator ℝ).Suffices 1 ∧
      cptConfig (m := Except Fault) (default : TCPT ℝ) .plenty 1 1 1 = .error .nullPointer ∧
      ¬ ∃ cpt, cptConfig (m := Except Fault) (default : TCPT ℝ) .plenty 1 1 1 =
          .ok (some cpt) ∧ SetUp 1 1 cpt := by
  have hNull : cptConfig (m := Except Fault) (default : TCPT ℝ) .plenty 1 1 1 =
      .error .nullPointer :=
    cptConfig_nullPointer (Allocator.plenty_suffices 1) (by decide) (by decide) default
  refine ⟨Allocator.plenty_suffices 1, hNull, ?_⟩
  rintro ⟨cpt, hConfig, -⟩
  rw [hNull] at hConfig
  cases hConfig

end Config

end EnergyMeter.Cpt

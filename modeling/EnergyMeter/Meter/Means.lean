import EnergyMeter.Meter.Raw

/-!
# EnergyMeter — the published means cover one second

The filters of the means take one value at the end of every cycle of the
mains, and a second has as many cycles as a filter has entries. The counters of
the loop over the samples start at zero every second, so a filter is refilled
exactly once between two messages.

The invariant of the loop, `CycleAt`, counts the updates of the theory and the
values that every filter has taken; `updateMaf_spec` is the only place where a
filter is touched.

Main results:

* `sampleBody_spec` — one sample keeps the invariant.
* `meterRun_messages` — the messages of a whole run.
-/

namespace EnergyMeter.Meter

open Lib Cpt EAttributes

/-! ## One filter per attribute and phase -/

/-- A filter of the means after `t` values, with the mean it stores. -/
structure MeanAt (x : ℕ → ℝ) (t : ℕ) (me : TMAF ℝ) : Prop where
  tracks : Tracks mainsFreq 0 0 0 x t me
  mean : 1 ≤ t → me.MeanValue = winMean mainsFreq x t

theorem MeanAt.update {x : ℕ → ℝ} {t : ℕ} {me : TMAF ℝ} (h : MeanAt x t me) :
    MeanAt x (t + 1) (me.update (x t)) where
  tracks := h.tracks.update (by decide)
  mean _ := by
    rw [h.tracks.update_MeanValue (by decide), threshold, if_neg (by decide)]

section Updates

variable {x : Fin 3 → EAttributes → ℕ → ℝ} {maf : ℕ → TMAF ℝ} {N : Fin 3 → EAttributes → ℕ}

/-- An update of one filter: it takes the next value of its stream, and no other
filter changes. -/
theorem updateMaf_spec (h : ∀ i a, MeanAt (x i a) (N i a) (maf (mafIndex i a)))
    (i : Fin 3) (a : EAttributes) :
    ∃ maf', Computes (fun m => updateMaf (m := m) maf (i.val * attrMax + a.toNat)
        (x i a (N i a))) maf' ∧
      ∀ i' a', MeanAt (x i' a') (if i' = i ∧ a' = a then N i' a' + 1 else N i' a')
        (maf' (mafIndex i' a')) := by
  have hIndex : i.val * attrMax + a.toNat = mafIndex i a := Nat.add_comm ..
  refine ⟨Function.update maf (mafIndex i a) ((maf (mafIndex i a)).update (x i a (N i a))),
    ?_, fun i' a' => ?_⟩
  · intro m _ _ _ _
    simp only [updateMaf, loadMaf, hIndex, require_of (mafIndex_lt i a), pure_bind,
      (h i a).tracks.update_eq (by decide)]
  · by_cases hEq : i' = i ∧ a' = a
    · obtain ⟨rfl, rfl⟩ := hEq
      rw [if_pos ⟨rfl, rfl⟩, Function.update_self]
      exact (h i' a').update
    · -- another attribute or phase has another filter
      have hne : mafIndex i' a' ≠ mafIndex i a := fun hIdx => hEq (mafIndex_inj hIdx)
      rw [if_neg hEq, Function.update_of_ne hne]
      exact h i' a'

/-- The updates of all phases are a loop over the attributes of the phases. -/
theorem updateMeanValues_eq {m : Type → Type} [Monad m] [LawfulMonad m] [MonadRequire m]
    (CPT : TCPT ℝ) (maf : ℕ → TMAF ℝ) :
    (updateMeanValues CPT maf : m (ℕ → TMAF ℝ)) =
      rawKeys.foldlM (fun maf k => updateMaf maf (k.1.val * attrMax + k.2.toNat)
        (fieldOf (CPT.Phase k.1) k.2)) maf := by
  have hPhases : List.finRange 3 = [0, 1, 2] := by decide
  simp only [updateMeanValues, updateMeanValuesBody, phaseOrder_eq, rawKeys, hPhases, attributes,
    fieldOf, List.flatMap_cons, List.flatMap_nil, List.map_cons, List.map_nil, List.cons_append,
    List.nil_append, List.foldlM_cons, List.foldlM_nil, bind_pure, bind_assoc]

/-- The updates of some attributes: their filters take the next value of their
streams, and no other filter changes. -/
theorem foldlM_means_spec (CPT : TCPT ℝ) (l : List (Fin 3 × EAttributes)) (hNodup : l.Nodup) :
    ∀ {maf : ℕ → TMAF ℝ} {N : Fin 3 → EAttributes → ℕ},
      (∀ i a, MeanAt (x i a) (N i a) (maf (mafIndex i a))) →
      (∀ k ∈ l, fieldOf (CPT.Phase k.1) k.2 = x k.1 k.2 (N k.1 k.2)) →
      ∃ maf', Computes (fun m => l.foldlM (m := m) (fun maf k => updateMaf maf
          (k.1.val * attrMax + k.2.toNat) (fieldOf (CPT.Phase k.1) k.2)) maf) maf' ∧
        ∀ i a, MeanAt (x i a) (if (i, a) ∈ l then N i a + 1 else N i a)
          (maf' (mafIndex i a)) := by
  induction l with
  | nil =>
    intro maf N h _
    exact ⟨maf, Computes.pure _, fun i a => by simpa using h i a⟩
  | cons k l ih =>
    intro maf N h hx
    obtain ⟨hk, hRest⟩ := List.nodup_cons.mp hNodup
    obtain ⟨maf₁, hFirst, h₁⟩ := updateMaf_spec h k.1 k.2
    -- the rest of the list finds its own filters as they were
    obtain ⟨maf₂, hLoop, h₂⟩ := ih hRest h₁ fun k' hk' => by
      have hne : ¬(k'.1 = k.1 ∧ k'.2 = k.2) := fun hEq =>
        hk (Prod.ext hEq.1 hEq.2 ▸ hk')
      rw [if_neg hne]
      exact hx k' (List.mem_cons_of_mem _ hk')
    refine ⟨maf₂, ?_, fun i a => ?_⟩
    · rw [← hx k List.mem_cons_self] at hFirst
      exact hFirst.bind hLoop
    · have hMean := h₂ i a
      by_cases hEq : (i, a) = k
      · subst hEq
        simpa [hk] using hMean
      · have hne : ¬(i = k.1 ∧ a = k.2) := fun h => hEq (Prod.ext h.1 h.2)
        simpa [hne, hEq] using hMean

/-- All filters take the attributes of their phase. -/
theorem updateMeanValues_spec (CPT : TCPT ℝ) {t : ℕ}
    (h : ∀ i a, MeanAt (x i a) t (maf (mafIndex i a)))
    (hx : ∀ i a, fieldOf (CPT.Phase i) a = x i a t) :
    ∃ maf', Computes (fun m => updateMeanValues (m := m) CPT maf) maf' ∧
      ∀ i a, MeanAt (x i a) (t + 1) (maf' (mafIndex i a)) := by
  obtain ⟨maf', hRun, hMaf⟩ := foldlM_means_spec CPT rawKeys rawKeys_nodup
    (N := fun _ _ => t) h fun k _ => hx k.1 k.2
  refine ⟨maf', ?_, fun i a => ?_⟩
  · intro m _ _ _ _
    exact (updateMeanValues_eq CPT maf).trans (hRun m)
  · have hMean := hMaf i a
    rwa [if_pos (mem_rawKeys (i, a))] at hMean

end Updates

/-! ## The loop over the samples -/

/-- The samples of all seconds, one after the other. -/
def stream {R : Type} (ch : ℕ → Channels R) (u : ℕ) : TPAC R :=
  (ch (u / sampleRate)).pac (u % sampleRate)

/-- The theory after `u` updates of a run. -/
noncomputable def cptAfter (CPT : TCPT ℝ) (ch : ℕ → Channels ℝ) (u : ℕ) : TCPT ℝ :=
  (cptRun (m := Id) CPT (stream ch) u).run

/-- What attribute `a` of phase `c` is at the end of cycle `q` of a run. -/
noncomputable def cycleValue (CPT : TCPT ℝ) (ch : ℕ → Channels ℝ) (c : Fin 3)
    (a : EAttributes) (q : ℕ) : ℝ :=
  fieldOf ((cptAfter CPT ch (samplesPerCycle * (q + 1))).Phase c) a

/-- A theory that is configured for the main loop. -/
def Configured (CPT : TCPT ℝ) : Prop :=
  ∀ pac, CptTracks ⟨samplesPerCycle, 3, 1 / (sampleRate : ℕ), pac⟩ 0 CPT

theorem Configured.update {CPT : TCPT ℝ} (h : Configured CPT) (ch : ℕ → Channels ℝ) (u : ℕ) :
    Computes (fun m => cptUpdate (m := m) (cptAfter CPT ch u) (stream ch u))
      (cptAfter CPT ch (u + 1)) := by
  have hL : 1 ≤ samplesPerCycle := by decide
  obtain ⟨me, hRun, hTracks⟩ := cptRun_spec hL (h (stream ch)) u
  obtain ⟨me', hUpdate, -⟩ := cptUpdate_spec hL hTracks
  have hMe : cptAfter CPT ch u = me := hRun.total
  have hMe' : cptAfter CPT ch (u + 1) = me' := by
    rw [← hUpdate.total, ← hMe]
    rfl
  rw [hMe, hMe']
  exact hUpdate

section Loop

variable {F : Type} {single : ℝ → F} {ch : ℕ → Channels ℝ} {CPT : TCPT ℝ} {s idx : ℕ}

/-- The loop after `idx` samples of second `s` that began in `start`. -/
structure CycleAt (CPT : TCPT ℝ) (ch : ℕ → Channels ℝ) (s : ℕ) (start : MainState ℝ F)
    (idx : ℕ) (st : Cycle ℝ F) : Prop where
  CPT_eq : st.CPT = cptAfter CPT ch (s * sampleRate + idx)
  m_eq : st.m = idx % samplesPerCycle
  n_eq : st.n = idx % rawParamFreqCount
  offset_eq : st.offset = idx / rawParamFreqCount * paramsLen
  maf : ∀ c a, MeanAt (cycleValue CPT ch c a) (s * mainsFreq + idx / samplesPerCycle)
    (st.maf (mafIndex c a))
  socket : st.socket = start.socket
  raw : st.raw = start.raw

/-- A counter that wraps, and the number of times it has wrapped. -/
theorem div_succ_of_wrap {L : ℕ} (hL : 1 ≤ L) (idx : ℕ) :
    (idx + 1) / L = if L ≤ idx % L + 1 then idx / L + 1 else idx / L := by
  have hMod := Nat.mod_add_div idx L
  have hLt := Nat.mod_lt idx hL
  split
  · have hWrap : idx + 1 = L * (idx / L + 1) := by
      rw [Nat.mul_add, Nat.mul_one]
      omega
    rw [hWrap, Nat.mul_div_cancel_left _ hL]
  · refine Nat.div_eq_of_lt_le ?_ ?_
    · rw [Nat.mul_comm]
      omega
    · rw [Nat.mul_comm, Nat.mul_add, Nat.mul_one]
      omega

/-- At the end of a period of `L` samples, `k` of which make a second, a run has
made a whole number of them. -/
theorem period_end {L k : ℕ} (hRate : sampleRate = L * k) (hL : 0 < L)
    (hEnd : L ≤ idx % L + 1) :
    s * sampleRate + idx + 1 = L * (s * k + idx / L + 1) := by
  have hStart : s * sampleRate = L * (s * k) := by
    rw [hRate, Nat.mul_left_comm]
  have hMod := Nat.mod_add_div idx L
  have hLt := Nat.mod_lt idx hL
  rw [Nat.mul_add, Nat.mul_add, Nat.mul_one, ← hStart]
  omega

/-- At the end of a cycle the filters take the values after update number
`samplesPerCycle * (q + 1)` of the run, where `q` cycles have ended before. -/
theorem cycle_end (hEnd : samplesPerCycle ≤ idx % samplesPerCycle + 1) :
    s * sampleRate + idx + 1 =
      samplesPerCycle * (s * mainsFreq + idx / samplesPerCycle + 1) :=
  period_end (by decide) (by decide) hEnd

/-- The filters take a value at the end of a cycle and only there. -/
theorem meanStep_spec {start : MainState ℝ F} {st : Cycle ℝ F} (h : CycleAt CPT ch s start idx st)
    {CPT' : TCPT ℝ} (hCPT : CPT' = cptAfter CPT ch (s * sampleRate + idx + 1)) :
    ∃ maf, Computes (fun m => meanStep (m := m) { st with CPT := CPT' })
        { st with CPT := CPT', m := (idx + 1) % samplesPerCycle, maf } ∧
      ∀ c a, MeanAt (cycleValue CPT ch c a) (s * mainsFreq + (idx + 1) / samplesPerCycle)
        (maf (mafIndex c a)) := by
  have hWrap := mod_succ_wrap (L := samplesPerCycle) (by decide) idx
  have hDiv := div_succ_of_wrap (L := samplesPerCycle) (by decide) idx
  unfold meanStep
  by_cases hm : samplesPerCycle ≤ idx % samplesPerCycle + 1
  -- `m` wraps exactly where a cycle ends
  · rw [if_pos hm] at hWrap hDiv
    obtain ⟨maf, hUpdate, hMaf⟩ := updateMeanValues_spec CPT' h.maf fun c a => by
      rw [cycleValue, hCPT, cycle_end hm]
    refine ⟨maf, ?_, fun c a => ?_⟩
    · simp only [h.m_eq, ge_iff_le, if_pos hm, ← hWrap]
      exact hUpdate.bind (Computes.pure _)
    · rw [hDiv, ← Nat.add_assoc]
      exact hMaf c a
  · rw [if_neg hm] at hWrap hDiv
    refine ⟨st.maf, ?_, fun c a => ?_⟩
    · simp only [h.m_eq, ge_iff_le, if_neg hm, ← hWrap]
      exact Computes.pure _
    · rw [hDiv]
      exact h.maf c a

/-- A record of the raw parameters fits behind those of the second so far. -/
theorem rawStep_spec (single : ℝ → F) {st : Cycle ℝ F} (hn : st.n = idx % rawParamFreqCount)
    (hOffset : st.offset = idx / rawParamFreqCount * paramsLen) (hIdx : idx < sampleRate) :
    Computes (fun m => rawStep (m := m) single st)
      { st with
        n := (idx + 1) % rawParamFreqCount
        params := storeParams single st.params (recordStores idx st.CPT st.offset)
        offset := (idx + 1) / rawParamFreqCount * paramsLen } := by
  have hWrap := mod_succ_wrap (L := rawParamFreqCount) (by decide) idx
  have hDiv := div_succ_of_wrap (L := rawParamFreqCount) (by decide) idx
  unfold rawStep recordStores
  by_cases hEnd : rawParamFreqCount ≤ idx % rawParamFreqCount + 1
  · rw [if_pos hEnd] at hWrap hDiv
    -- the record that ends here is one of the `rawParamFreq` of the second
    have hRecord : idx / rawParamFreqCount < rawParamFreq :=
      Nat.div_lt_of_lt_mul (hIdx.trans_eq (by decide))
    have hFits : st.offset + paramsLen ≤ rawParamFreq * paramsLen := by
      rw [hOffset, ← Nat.succ_mul]
      exact Nat.mul_le_mul_right _ hRecord
    have hRaw := updateRawValues_spec single st.params st.CPT hFits
    simp only [hn, ge_iff_le, if_pos hEnd, ← hWrap, hDiv, Nat.succ_mul, ← hOffset]
    exact hRaw.bind (Computes.pure _)
  · rw [if_neg hEnd] at hWrap hDiv
    simp only [hn, ge_iff_le, if_neg hEnd, ← hWrap, hDiv, ← hOffset]
    exact Computes.pure _

/-- **One sample keeps the invariant**, and stores a record where one ends. -/
theorem sampleBody_spec (single : ℝ → F) {start : MainState ℝ F} {st : Cycle ℝ F}
    (hConfig : Configured CPT) (h : CycleAt CPT ch s start idx st) (hIdx : idx < sampleRate) :
    ∃ st', Computes (fun m => sampleBody (m := m) single (ch s) idx st) st' ∧
      CycleAt CPT ch s start (idx + 1) st' ∧
      st'.params = storeParams single st.params (recordStores idx st'.CPT st.offset) := by
  -- sample `idx` of second `s` in the stream of all samples
  have hSample : (ch s).pac idx = stream ch (s * sampleRate + idx) := by
    rw [stream, Nat.mul_comm s, Nat.mul_add_div (by decide), Nat.mul_add_mod,
      Nat.mod_eq_of_lt hIdx, Nat.div_eq_of_lt hIdx, Nat.add_zero]
  have hUpdate := hConfig.update ch (s * sampleRate + idx)
  rw [← hSample, ← h.CPT_eq] at hUpdate
  obtain ⟨maf, hMeans, hMaf⟩ := meanStep_spec h rfl
  -- the record is written from the state after the update
  let next : Cycle ℝ F := { st with
    CPT := cptAfter CPT ch (s * sampleRate + idx + 1), m := (idx + 1) % samplesPerCycle, maf }
  have hRaw : Computes (fun m => rawStep (m := m) single next) _ :=
    rawStep_spec single h.n_eq h.offset_eq hIdx
  exact ⟨_, hUpdate.bind (hMeans.bind hRaw), {
    CPT_eq := rfl, m_eq := rfl, n_eq := rfl, offset_eq := rfl, maf := hMaf
    socket := h.socket, raw := h.raw }, rfl⟩

/-- **A second of samples.** -/
theorem sampleLoop_spec (single : ℝ → F) {start : MainState ℝ F} {st : Cycle ℝ F}
    (hConfig : Configured CPT) (h : CycleAt CPT ch s start 0 st) (hIdx : idx ≤ sampleRate) :
    ∃ st', Computes (fun m => sampleLoop (m := m) single (ch s) st idx) st' ∧
      CycleAt CPT ch s start idx st' := by
  induction idx with
  | zero => exact ⟨st, Computes.pure _, h⟩
  | succ idx ih =>
    obtain ⟨st₁, hLoop, h₁⟩ := ih (Nat.le_of_succ_le hIdx)
    obtain ⟨st₂, hBody, h₂, -⟩ := sampleBody_spec single hConfig h₁ hIdx
    exact ⟨st₂, hLoop.bind hBody, h₂⟩

end Loop

/-! ## Whole runs -/

section Run

variable {F : Type} {single : ℝ → F} {ch : ℕ → Channels ℝ} {CPT : TCPT ℝ} {s : ℕ}

/-- The mean of an attribute of a phase over the cycles of second `s`. -/
noncomputable def secondMean (CPT : TCPT ℝ) (ch : ℕ → Channels ℝ) (s : ℕ) (c : Fin 3)
    (a : EAttributes) : ℝ :=
  (∑ q ∈ Finset.range mainsFreq,
    fieldOf ((cptAfter CPT ch (s * sampleRate + samplesPerCycle * (q + 1))).Phase c) a) / mainsFreq

/-- A full window of a filter at the end of a second covers that second. -/
theorem winMean_second (c : Fin 3) (a : EAttributes) :
    winMean mainsFreq (cycleValue CPT ch c a) ((s + 1) * mainsFreq) =
      secondMean CPT ch s c a := by
  rw [winMean, secondMean, winSum, Nat.succ_mul, Nat.add_sub_cancel,
    Finset.sum_Ico_eq_sum_range, Nat.add_sub_cancel_left]
  refine congrArg (· / (mainsFreq : ℝ)) (Finset.sum_congr rfl fun q _ => ?_)
  have hCount : samplesPerCycle * (s * mainsFreq + q + 1) =
      s * sampleRate + samplesPerCycle * (q + 1) := by
    have hRate : s * sampleRate = samplesPerCycle * (s * mainsFreq) := by
      rw [Nat.mul_left_comm]
      rfl
    rw [hRate, ← Nat.mul_add, Nat.add_assoc]
  rw [cycleValue, hCount]

/-- The main loop between two seconds. -/
structure MainAt (CPT : TCPT ℝ) (ch : ℕ → Channels ℝ) (s : ℕ) (st : MainState ℝ F) : Prop where
  CPT_eq : st.CPT = cptAfter CPT ch (s * sampleRate)
  maf : ∀ c a, MeanAt (cycleValue CPT ch c a) (s * mainsFreq) (st.maf (mafIndex c a))
  socket : st.socket = (List.range s).map fun s => messageText (secondMean CPT ch s)

/-- The loop over the samples of a second starts with its counters cleared. -/
def MainState.cycle {R : Type} (st : MainState R F) : Cycle R F :=
  { st with m := 0, n := 0, offset := 0 }

theorem MainAt.cycleAt {st : MainState ℝ F} (h : MainAt CPT ch s st) :
    CycleAt CPT ch s st 0 st.cycle :=
  { m_eq := rfl, n_eq := rfl, socket := rfl, raw := rfl
    CPT_eq := by
      rw [Nat.add_zero]
      exact h.CPT_eq
    offset_eq := by simp [MainState.cycle]
    maf := fun c a => by simpa [MainState.cycle] using h.maf c a }

/-- The filters of the means after all samples of a second. -/
theorem CycleAt.means {start : MainState ℝ F} {cycle : Cycle ℝ F}
    (h : CycleAt CPT ch s start sampleRate cycle) (c : Fin 3) (a : EAttributes) :
    MeanAt (cycleValue CPT ch c a) ((s + 1) * mainsFreq) (cycle.maf (mafIndex c a)) := by
  have hMean := h.maf c a
  rwa [show sampleRate / samplesPerCycle = mainsFreq by decide, ← Nat.succ_mul] at hMean

theorem CycleAt.storedMeans {start : MainState ℝ F} {cycle : Cycle ℝ F}
    (h : CycleAt CPT ch s start sampleRate cycle) :
    storedMeans cycle.maf = secondMean CPT ch s := by
  funext c a
  have hPos : 1 ≤ (s + 1) * mainsFreq := Nat.mul_pos (Nat.succ_pos s) (by decide)
  rw [Meter.storedMeans, (h.means c a).mean hPos, winMean_second]

/-- What a second leaves when its message has been sent. -/
theorem MainAt.next {st : MainState ℝ F} {cycle : Cycle ℝ F} (h : MainAt CPT ch s st)
    (hCycle : CycleAt CPT ch s st sampleRate cycle) :
    MainAt CPT ch (s + 1) { cycle.toMainState with
      socket := cycle.socket ++ [messageText (secondMean CPT ch s)]
      raw := writeLog cycle.raw cycle.params paramsLen rawParamFreq } where
  CPT_eq := by
    rw [hCycle.CPT_eq, Nat.succ_mul]
  maf := hCycle.means
  socket := by
    rw [hCycle.socket, h.socket, List.range_succ, List.map_append, List.map_singleton]

/-- **One second of the main loop** sends the means over that second. -/
theorem second_spec {st : MainState ℝ F} (hConfig : Configured CPT) (h : MainAt CPT ch s st) :
    MainAt CPT ch (s + 1) (second (m := Id) single st (ch s)).run := by
  obtain ⟨cycle, hRun, hCycle⟩ := sampleLoop_spec single hConfig h.cycleAt le_rfl
  have hLoop : sampleLoop (m := Id) single (ch s) { st with m := 0, n := 0, offset := 0 }
      sampleRate = pure cycle := hRun Id
  have hSend : sendData (m := Id) cycle.maf = pure (messageText (secondMean CPT ch s)) := by
    rw [← hCycle.storedMeans]
    exact sendData_text cycle.maf
  rw [second, hLoop, pure_bind, hSend, pure_bind]
  exact h.next hCycle

/-- Where the message of the second fits its buffer, the second meets its
requirements. -/
theorem second_computes (single : ℝ → F) {st : MainState ℝ F} (hConfig : Configured CPT)
    (h : MainAt CPT ch s st) (hFits : (messageText (secondMean CPT ch s)).length + 1 ≤ 1000) :
    ∃ st', Computes (fun m => second (m := m) single st (ch s)) st' ∧ MainAt CPT ch (s + 1) st' := by
  obtain ⟨cycle, hRun, hCycle⟩ := sampleLoop_spec single hConfig h.cycleAt le_rfl
  rw [← hCycle.storedMeans] at hFits
  refine ⟨_, hRun.bind ((sendData_computes cycle.maf hFits).bind (Computes.pure _)), ?_⟩
  rw [hCycle.storedMeans]
  exact h.next hCycle

theorem meterRun_spec {st : MainState ℝ F} (hConfig : Configured CPT) (h : MainAt CPT ch 0 st)
    (s : ℕ) : MainAt CPT ch s (meterRun (m := Id) single st ch s).run := by
  induction s with
  | zero => exact h
  | succ s ih =>
    rw [meterRun]
    exact second_spec hConfig ih

/-- Where the messages of all seconds fit the buffer, a run meets its
requirements. -/
theorem meterRun_computes (single : ℝ → F) {st : MainState ℝ F} (hConfig : Configured CPT)
    (h : MainAt CPT ch 0 st)
    (hFits : ∀ s, (messageText (secondMean CPT ch s)).length + 1 ≤ 1000) (s : ℕ) :
    ∃ st', Computes (fun m => meterRun (m := m) single st ch s) st' ∧ MainAt CPT ch s st' := by
  induction s with
  | zero => exact ⟨st, Computes.pure _, h⟩
  | succ s ih =>
    obtain ⟨st₁, hRun, h₁⟩ := ih
    obtain ⟨st₂, hSecond, h₂⟩ := second_computes single hConfig h₁ (hFits s)
    exact ⟨st₂, hRun.bind hSecond, h₂⟩

end Run

/-! ## From the start of the program -/

section Init

variable {F : Type} [Zero F] {raw : ℕ → Option (ℕ → ℝ)}

/-- The filters are initialised on their rings. -/
theorem initMafs_eq (block : ℕ) : initMafs raw block =
    (allocRaw raw block numberOfMafBuffers mainsFreq).map
      (List.map fun buffer => movingAverageFilterInit buffer.toTBuffer 0 0 0) := by
  have hList : ∀ l : List ℕ, l.mapM (fun i => do
      let Data ← raw i
      return movingAverageFilterInit { Block := block + i, Data, Length := mainsFreq } 0 0 0) =
      (l.mapM fun i => do
        let Data ← raw i
        return (⟨{ Block := block + i, Data, Length := mainsFreq },
          mainsFreq * sizeofDouble % 2 ^ 32⟩ : Descriptor ℝ)).map
        (List.map fun (buffer : Descriptor ℝ) => movingAverageFilterInit buffer.toTBuffer 0 0 0) := by
    -- both sides fail at the same ring
    intro l
    induction l with
    | nil => rfl
    | cons i l ih =>
      simp only [List.mapM_cons, ih]
      cases raw i with
      | none => rfl
      | some Data =>
        cases l.mapM fun i => do
          let Data ← raw i
          return (⟨{ Block := block + i, Data, Length := mainsFreq },
            mainsFreq * sizeofDouble % 2 ^ 32⟩ : Descriptor ℝ) <;> rfl
  exact hList _

theorem initMafs_spec {block : ℕ} {mafs : List (TMAF ℝ)} (h : initMafs raw block = some mafs)
    (cleared : TMAF ℝ) {k : ℕ} (hk : k < numberOfMafBuffers) (x : ℕ → ℝ) :
    MeanAt x 0 (mafs[k]?.getD cleared) := by
  by_cases hRaw : ∀ k < numberOfMafBuffers, (raw k).isSome = true
  -- the filters are cleared, on rings of the right length
  · obtain ⟨l, hl, hCount, hLen, -⟩ := allocRaw_of_isSome block mainsFreq hRaw
    rw [initMafs_eq, hl, Option.map_some] at h
    have hk' : k < l.length := hk.trans_eq hCount.symm
    have hMaf : mafs[k]?.getD cleared = movingAverageFilterInit l[k].toTBuffer 0 0 0 := by
      rw [← Option.some.inj h, List.getElem?_map, List.getElem?_eq_getElem hk']
      rfl
    rw [hMaf]
    exact ⟨tracks_init (hLen _ (List.getElem_mem hk')), fun h => absurd h (by decide)⟩
  -- one allocation that fails makes all of it fail
  · push Not at hRaw
    obtain ⟨k, hk, hNone⟩ := hRaw
    rw [initMafs_eq, allocRaw_eq_none hk (Option.not_isSome_iff_eq_none.mp hNone)] at h
    cases h

/-- The program enters its loop configured. -/
theorem initMeter_spec {CPT : TCPT ℝ} {alloc : Allocator ℝ} {st : MainState ℝ F}
    (h : initMeter (m := Except Fault) CPT alloc raw = .ok (some st)) (ch : ℕ → Channels ℝ) :
    Configured st.CPT ∧ MainAt st.CPT ch 0 st := by
  rw [initMeter, bind_eq_ok] at h
  obtain ⟨cpt?, hConfig, h⟩ := h
  -- the program goes on only if both allocations have succeeded
  rcases cpt? with _ | cpt
  · cases h
  · rcases hMafs : initMafs raw (3 * (phaseRawBuffers + cptRawBuffers)) with _ | mafs
    · simp only [hMafs] at h
      cases h
    · simp only [hMafs] at h
      cases h
      exact ⟨fun pac => (cptConfig_tracks hConfig pac).2, {
        CPT_eq := by
          rw [Nat.zero_mul]
          rfl
        socket := rfl
        maf := fun c a => by
          rw [Nat.zero_mul]
          exact initMafs_spec hMafs _ (mafIndex_lt c a) _ }⟩

/-- **The messages of a whole run.** The message of second `k` prints, under
every name and letter, the mean of that attribute of that phase after the
updates at the ends of the cycles of second `k`. -/
theorem meterRun_messages (single : ℝ → F) {CPT : TCPT ℝ} {alloc : Allocator ℝ}
    {st : MainState ℝ F}
    (hInit : initMeter (m := Except Fault) CPT alloc raw = .ok (some st))
    (ch : ℕ → Channels ℝ) (s : ℕ) :
    (meterRun (m := Id) single st ch s).run.socket = (List.range s).map fun k =>
      messageText fun c a => (∑ q ∈ Finset.range mainsFreq,
        fieldOf ((cptAfter st.CPT ch (k * sampleRate + samplesPerCycle * (q + 1))).Phase c) a) /
          mainsFreq := by
  obtain ⟨hConfig, hMain⟩ := initMeter_spec hInit ch
  exact (meterRun_spec hConfig hMain s).socket

/-- With enough memory the program enters its loop. -/
theorem initMeter_plenty : ∃ st : MainState ℝ F,
    initMeter (m := Except Fault) default .plenty (fun _ => some default) = .ok (some st) := by
  obtain ⟨cpt, hConfig, -⟩ := cptConfig_spec (show 1 ≤ sampleRate by decide) samplesPerCycle
    (by decide) (Allocator.plenty_suffices 3) default
  have hRaw : ∀ k < numberOfMafBuffers,
      ((fun _ => some default : ℕ → Option (ℕ → ℝ)) k).isSome = true := fun _ _ => rfl
  obtain ⟨l, hl, -⟩ :=
    allocRaw_of_isSome (3 * (phaseRawBuffers + cptRawBuffers)) mainsFreq hRaw
  have hConfig' := hConfig.checked
  rw [initMeter, hConfig', initMafs_eq, hl]
  exact ⟨_, rfl⟩

/-- Two seconds with enough memory. -/
theorem meterRun_messages_two : ∃ st : MainState ℝ ℝ,
    initMeter (m := Except Fault) default .plenty (fun _ => some default) = .ok (some st) ∧
    (meterRun (m := Id) id st (fun _ => ⟨fun _ _ => 1, fun _ _ => 1⟩) 2).run.socket =
      (List.range 2).map fun k => messageText fun c a => (∑ q ∈ Finset.range mainsFreq,
        fieldOf ((cptAfter st.CPT (fun _ => ⟨fun _ _ => 1, fun _ _ => 1⟩)
          (k * sampleRate + samplesPerCycle * (q + 1))).Phase c) a) / mainsFreq := by
  obtain ⟨st, hInit⟩ := initMeter_plenty (F := ℝ)
  exact ⟨st, hInit, meterRun_messages id hInit _ 2⟩

end Init

end EnergyMeter.Meter

import EnergyMeter.Cpt.Initialised

/-!
# EnergyMeter — configuration of the power theory

`CPT_Config` allocates the phases and one ring for every filter, and
initialises the filters. What `malloc` answers is an `Allocator`; the content
of a block it returns is arbitrary, and its size is the one that was asked for,
a `size_t`. A failed allocation makes the function return `-1`, here `none`.

* `Descriptor` — a ring with the size of its block.
* `RingFits` — the size of a ring is a `size_t`.

Main results:

* `cptConfig_initialised` — with three phases and enough memory the configured
  state is initialised, whatever the memory held.
* `cptConfig_spec` — it tracks any feed of its parameters.
* `cptConfig_ok`, `cptConfig_tracks` — the same, from the return value.
-/

namespace EnergyMeter.Cpt

open Lib

/-- `sizeof(double)`. -/
def sizeofDouble : ℕ := 8

def phaseRawBuffers : ℕ := 9

def cptRawBuffers : ℕ := 8

/-- What `malloc` answers to the requests of `CPT_Config`: the two arrays of
descriptors, the phases, and the rings with their old content. -/
structure Allocator (R : Type) where
  Phase_Buffers : Bool
  CPT_Buffers : Bool
  Phase : Fin 3 → Option (TPhase R)
  Phase_Raw : ℕ → Option (ℕ → R)
  CPT_Raw : ℕ → Option (ℕ → R)

/-- Memory suffices for `n` phases. -/
structure Allocator.Suffices {R : Type} (alloc : Allocator R) (n : ℕ) : Prop where
  Phase_Buffers : alloc.Phase_Buffers = true
  CPT_Buffers : alloc.CPT_Buffers = true
  Phase : ∀ j : Fin 3, j.val < n → (alloc.Phase j).isSome = true
  Phase_Raw : ∀ k < phaseRawBuffers * n, (alloc.Phase_Raw k).isSome = true
  CPT_Raw : ∀ k < cptRawBuffers * n, (alloc.CPT_Raw k).isSome = true

/-- An allocator that answers every request. -/
def Allocator.plenty {R : Type} [Inhabited R] : Allocator R where
  Phase_Buffers := true
  CPT_Buffers := true
  Phase _ := some default
  Phase_Raw _ := some default
  CPT_Raw _ := some default

theorem Allocator.plenty_suffices {R : Type} [Inhabited R] (n : ℕ) :
    (plenty : Allocator R).Suffices n :=
  ⟨rfl, rfl, fun _ _ => rfl, fun _ _ => rfl, fun _ _ => rfl⟩

/-- An entry of an array of descriptors, with the size in bytes of the block that
was asked for. -/
structure Descriptor (R : Type) extends TBuffer R where
  Size : ℕ

/-- The size of a ring of `samples` entries is a `size_t`, of 32 bits. -/
abbrev RingFits (samples : ℕ) : Prop := samples * sizeofDouble < 2 ^ 32

section Code

variable {R : Type}

/-- The loop that allocates the rings of an array of descriptors. -/
def allocRaw (raw : ℕ → Option (ℕ → R)) (block count samples : ℕ) :
    Option (List (Descriptor R)) :=
  (List.range count).mapM fun k => do
    let Data ← raw k
    return { Block := block + k, Data, Length := samples, Size := samples * sizeofDouble % 2 ^ 32 }

/-- The loop that allocates the phases; `Phase[j]` stays null from `n` on. -/
def allocPhases (alloc : Fin 3 → Option (TPhase R)) (n : ℕ) (Phase : Fin 3 → TPhase R) :
    Option (Fin 3 → TPhase R) :=
  (List.finRange 3).foldlM (fun P j => do
    if j.val < n then
      return Function.update P j (← alloc j)
    else
      return P) Phase

variable {m : Type → Type} [Monad m] [MonadRequire m] [MonadArray m R] [Field R]

/-- The loop of `MovingAverageFilter_Init`, in the block of a descriptor. -/
def clearRing (buffer : Descriptor R) : m (TBuffer R) :=
  (List.range buffer.Length).foldlM (fun Buffer i => do
    require ((i + 1) * sizeofDouble ≤ buffer.Size) .outOfBounds
    Buffer.store i 0) buffer.toTBuffer

/-- `MovingAverageFilter_Init` on the descriptor `buffers[k]`. -/
def initFrom (buffers : List (Descriptor R)) (k : ℕ) (threshold : ℤ) (cmp min : R) :
    m (TMAF R) := do
  require (k < buffers.length) .outOfBounds
  let buffer := buffers[k]?.getD { Block := 0, Data := fun _ => 0, Length := 0, Size := 0 }
  -- `samples` is a `uint`, `Length` an `int`
  require (buffer.Length < 2 ^ 31) .overflow
  let Buffer ← clearRing buffer
  return { movingAverageFilterInit buffer.toTBuffer threshold cmp min with Buffer }

/-- The body of the loop that initialises the phases. It runs up to three,
whatever `n` is, through pointers that are null from `n` on. -/
def initPhaseBody (n : ℕ) (Phase_Buffers : List (Descriptor R)) (j : Fin 3) (Phase : TPhase R) :
    m (TPhase R) := do
  require (j.val < n) .nullPointer
  let k := j.val * phaseRawBuffers
  let V_maf ← initFrom Phase_Buffers (k + 0) useThreshold 0 thrMin
  let I_maf ← initFrom Phase_Buffers (k + 1) useThreshold 0 thrMin
  let P_maf ← initFrom Phase_Buffers (k + 2) 0 0 0
  let W_maf ← initFrom Phase_Buffers (k + 3) 0 0 0
  let UI_maf ← initFrom Phase_Buffers (k + 4) useThreshold 0 thrMin
  let INT_maf ← initFrom Phase_Buffers (k + 5) 0 0 0
  let Iba_maf ← initFrom Phase_Buffers (k + 6) useThreshold 0 thrMin
  let Ibr_maf ← initFrom Phase_Buffers (k + 7) useThreshold 0 thrMin
  let Iv_maf ← initFrom Phase_Buffers (k + 8) useThreshold 0 thrMin
  return phaseInit
    { Phase with V_maf, I_maf, P_maf, W_maf, UI_maf, INT_maf, Iba_maf, Ibr_maf, Iv_maf }

/-- What `CPT_Config` does after its allocations. -/
def initCpt [DecidableEq R] (me : TCPT R) (Phase_Buffers CPT_Buffers : List (Descriptor R))
    (freq samples n : ℕ) : m (TCPT R) := do
  let Phase ← mapPhases 3 me.Phase (initPhaseBody n Phase_Buffers)
  let Iba_maf ← initFrom CPT_Buffers 0 useThreshold 0 thrMin
  let Iua_maf ← initFrom CPT_Buffers 1 useThreshold 0 thrMin
  let Ibr_maf ← initFrom CPT_Buffers 2 useThreshold 0 thrMin
  let Iur_maf ← initFrom CPT_Buffers 3 useThreshold 0 thrMin
  let Iv_maf ← initFrom CPT_Buffers 4 useThreshold 0 thrMin
  let I_maf ← initFrom CPT_Buffers 5 useThreshold 0 thrMin
  let V_maf ← initFrom CPT_Buffers 6 useThreshold 0 thrMin
  let UI_maf ← initFrom CPT_Buffers 7 useThreshold 0 thrMin
  let TSH ← fdiv 1 (freq : R)
  return { me with
    Phase, Iba_maf, Iua_maf, Ibr_maf, Iur_maf, Iv_maf, I_maf, V_maf, UI_maf, TSH, samples, n
    Iba_rms := 0
    Iua_rms := 0
    Ibr_rms := 0
    Iur_rms := 0
    Iv_rms := 0 }

/-- `CPT_Config`. -/
def cptConfig [DecidableEq R] (me : TCPT R) (alloc : Allocator R) (freq samples n : ℕ) :
    m (Option (TCPT R)) := do
  if !alloc.Phase_Buffers then
    return none
  if !alloc.CPT_Buffers then
    return none
  let some Phase := allocPhases alloc.Phase n me.Phase | return none
  let some Phase_Buffers := allocRaw alloc.Phase_Raw 0 (phaseRawBuffers * n) samples
    | return none
  let some CPT_Buffers :=
      allocRaw alloc.CPT_Raw (phaseRawBuffers * n) (cptRawBuffers * n) samples
    | return none
  let me ← initCpt { me with Phase } Phase_Buffers CPT_Buffers freq samples n
  return some me

end Code

/-! ## Allocations -/

section Alloc

variable {R : Type} {raw : ℕ → Option (ℕ → R)} {block count samples n : ℕ}

theorem allocRaw_succ : allocRaw raw block (count + 1) samples = do
    let l ← allocRaw raw block count samples
    let Data ← raw count
    return l ++ [{
      Block := block + count, Data, Length := samples
      Size := samples * sizeofDouble % 2 ^ 32 }] := by
  simp only [allocRaw, List.range_succ, List.mapM_append, List.mapM_cons, List.mapM_nil,
    bind_assoc, pure_bind]

/-- The descriptors of an array after the loop that allocates their rings. -/
structure Descriptors (block count samples : ℕ) (l : List (Descriptor R)) : Prop where
  count : l.length = count
  Length : ∀ b ∈ l, b.Length = samples
  Size : ∀ b ∈ l, b.Size = samples * sizeofDouble % 2 ^ 32
  Block : ∀ k b, l[k]? = some b → b.Block = block + k

/-- A loop that gets its memory fills every descriptor. -/
theorem allocRaw_of_isSome (block samples : ℕ) (h : ∀ k < count, (raw k).isSome = true) :
    ∃ l, allocRaw raw block count samples = some l ∧ Descriptors block count samples l := by
  induction count with
  | zero => exact ⟨[], rfl, rfl, by simp, by simp, by simp⟩
  | succ count ih =>
    obtain ⟨l, hl, hCount, hLen, hSize, hBlock⟩ := ih fun k hk => h k (by omega)
    obtain ⟨Data, hData⟩ := Option.isSome_iff_exists.mp (h count (by omega))
    refine ⟨l ++ [⟨⟨block + count, Data, samples⟩, samples * sizeofDouble % 2 ^ 32⟩], ?_,
      by simp [hCount], ?_, ?_, ?_⟩
    · rw [allocRaw_succ, hl, hData]
      rfl
    · intro b hb
      rcases List.mem_append.mp hb with hb | hb
      · exact hLen b hb
      · rw [List.mem_singleton.mp hb]
    · intro b hb
      rcases List.mem_append.mp hb with hb | hb
      · exact hSize b hb
      · rw [List.mem_singleton.mp hb]
    · intro k b hb
      -- the last descriptor is the one at the position of the counter
      rcases Nat.lt_or_ge k l.length with hk | hk
      · rw [List.getElem?_append_left hk] at hb
        exact hBlock k b hb
      · rw [List.getElem?_append_right hk] at hb
        obtain ⟨hPos, rfl⟩ := List.getElem?_eq_some_iff.mp hb
        rw [List.length_singleton] at hPos
        simp only [List.getElem_singleton]
        omega

theorem allocRaw_eq_none {k : ℕ} (hk : k < count) (h : raw k = none) :
    allocRaw raw block count samples = none := by
  induction count with
  | zero => exact absurd hk (Nat.not_lt_zero k)
  | succ count ih =>
    rw [allocRaw_succ]
    rcases Nat.lt_succ_iff_lt_or_eq.mp hk with hk | rfl
    · rw [ih hk]
      rfl
    · rw [h]
      cases allocRaw raw block k samples <;> rfl

theorem allocPhases_of_isSome {alloc : Fin 3 → Option (TPhase R)} (Phase : Fin 3 → TPhase R)
    (h : ∀ j : Fin 3, j.val < n → (alloc j).isSome = true) :
    ∃ P, allocPhases alloc n Phase = some P := by
  -- over any list of phases, for an induction
  have hFold : ∀ (l : List (Fin 3)) (P : Fin 3 → TPhase R), ∃ P',
      l.foldlM (fun P j => if j.val < n then do return Function.update P j (← alloc j)
        else return P) P = some P' := by
    intro l
    induction l with
    | nil => exact fun P => ⟨P, rfl⟩
    | cons j l ih =>
      intro P
      rw [List.foldlM_cons]
      by_cases hj : j.val < n
      · obtain ⟨p, hp⟩ := Option.isSome_iff_exists.mp (h j hj)
        simpa [hj, hp] using ih (Function.update P j p)
      · simpa [hj] using ih P
  exact hFold _ _

theorem allocPhases_eq_none {alloc : Fin 3 → Option (TPhase R)} {Phase : Fin 3 → TPhase R}
    {j : Fin 3} (hj : j.val < n) (h : alloc j = none) : allocPhases alloc n Phase = none := by
  -- the loop stops at phase `j` at the latest
  have hFold : ∀ (l : List (Fin 3)) (P : Fin 3 → TPhase R), j ∈ l →
      l.foldlM (fun P j => if j.val < n then do return Function.update P j (← alloc j)
        else return P) P = none := by
    intro l
    induction l with
    | nil => simp
    | cons k l ih =>
      intro P hMem
      rw [List.foldlM_cons]
      by_cases hk : k = j
      · subst hk
        simp [hj, h]
      · have hRest : j ∈ l := (List.mem_cons.mp hMem).resolve_left (Ne.symm hk)
        split
        · cases alloc k with
          | none => rfl
          | some p => exact ih _ hRest
        · exact ih _ hRest
  exact hFold _ _ (List.mem_finRange j)

end Alloc

/-! ## Initialisation -/

section Clear

variable {R : Type} [Field R] {buffer : Descriptor R} {n : ℕ}

/-- Within its block the loop clears the ring. -/
theorem clearRing_eq {m : Type → Type} [Monad m] [LawfulMonad m] [MonadRequire m]
    [LawfulRequire m] (hSize : buffer.Length * sizeofDouble ≤ buffer.Size) (threshold : ℤ)
    (cmp min : R) : (clearRing buffer : m (TBuffer R)) =
      pure (movingAverageFilterInit buffer.toTBuffer threshold cmp min).Buffer := by
  have hRounds : ∀ n ≤ buffer.Length, (List.range n).foldlM (fun (Buffer : TBuffer R) i => do
      require ((i + 1) * sizeofDouble ≤ buffer.Size) .outOfBounds
      Buffer.store i 0) buffer.toTBuffer =
      (pure { buffer.toTBuffer with
        Data := (List.range n).foldl (fun Data i => Function.update Data i 0)
          buffer.Data } : m (TBuffer R)) := by
    intro n
    induction n with
    | zero => exact fun _ => rfl
    | succ n ih =>
      intro hn
      have hHere : (n + 1) * sizeofDouble ≤ buffer.Size :=
        (Nat.mul_le_mul_right _ hn).trans hSize
      rw [List.range_succ, List.foldlM_append, ih (by omega), pure_bind, List.foldlM_cons,
        require_of hHere, pure_bind, TBuffer.store, require_of (show n < buffer.Length from hn),
        pure_bind, write_byValue, pure_bind, pure_bind, List.foldlM_nil, List.foldl_append]
      rfl
  exact hRounds buffer.Length le_rfl

/-- A loop that returned has stayed in its block. -/
theorem size_of_clearRing {b : TBuffer R}
    (h : clearRing buffer = (.ok b : Except Fault (TBuffer R))) :
    buffer.Length * sizeofDouble ≤ buffer.Size := by
  unfold clearRing at h
  cases hLen : buffer.Length with
  | zero => omega
  | succ n =>
    -- the last round
    rw [hLen, List.range_succ, List.foldlM_append, bind_eq_ok] at h
    obtain ⟨b', -, h⟩ := h
    rw [List.foldlM_cons, bind_eq_ok] at h
    obtain ⟨b'', h, -⟩ := h
    rw [bind_eq_ok] at h
    obtain ⟨_, hRequire, -⟩ := h
    exact of_require_eq_ok hRequire

end Clear

section Init

variable {block count L : ℕ} {buffers Phase_Buffers CPT_Buffers : List (Descriptor ℝ)} {k : ℕ}

/-- A descriptor whose ring fits gives an initialised filter. -/
theorem initFrom_eq {m : Type → Type} [Monad m] [LawfulMonad m] [MonadRequire m]
    [LawfulRequire m] (hDesc : Descriptors block count L buffers) (hFits : RingFits L)
    (hk : k < buffers.length) (threshold : ℤ) (cmp min : ℝ) :
    (initFrom buffers k threshold cmp min : m (TMAF ℝ)) =
      pure (movingAverageFilterInit buffers[k].toTBuffer threshold cmp min) := by
  have hLen : buffers[k].Length = L := hDesc.Length _ (List.getElem_mem hk)
  have hSize : buffers[k].Length * sizeofDouble ≤ buffers[k].Size := by
    rw [hLen, hDesc.Size _ (List.getElem_mem hk), Nat.mod_eq_of_lt hFits]
  have hInt : buffers[k].Length < 2 ^ 31 := by
    rw [hLen]
    unfold RingFits sizeofDouble at hFits
    omega
  rw [initFrom, require_of hk, pure_bind, List.getElem?_eq_getElem hk]
  dsimp only [Option.getD_some]
  rw [require_of hInt, pure_bind, clearRing_eq hSize threshold cmp min, pure_bind]

theorem initFrom_spec (hDesc : Descriptors block count L buffers) (hFits : RingFits L)
    (hk : k < buffers.length) (threshold : ℤ) (cmp min : ℝ) :
    ∃ me, Computes (fun m => initFrom (m := m) buffers k threshold cmp min) me ∧
      FilterInitialised L threshold cmp min me := by
  refine ⟨movingAverageFilterInit buffers[k].toTBuffer threshold cmp min, ?_,
    buffers[k].toTBuffer, hDesc.Length _ (List.getElem_mem hk), rfl⟩
  intro m _ _ _ _
  exact initFrom_eq hDesc hFits hk threshold cmp min

/-- A filter that was initialised has a descriptor, and a ring that fits. -/
theorem initFrom_ok (hDesc : Descriptors block count L buffers) {threshold : ℤ} {cmp min : ℝ}
    {maf : TMAF ℝ} (h : initFrom buffers k threshold cmp min = (.ok maf : Except Fault (TMAF ℝ))) :
    RingFits L ∧ ∃ hk : k < buffers.length,
      maf = movingAverageFilterInit buffers[k].toTBuffer threshold cmp min := by
  have hCall := h
  rw [initFrom, bind_eq_ok] at h
  obtain ⟨_, hRequire, h⟩ := h
  have hk : k < buffers.length := of_require_eq_ok hRequire
  rw [List.getElem?_eq_getElem hk] at h
  dsimp only [Option.getD_some] at h
  rw [bind_eq_ok] at h
  obtain ⟨_, -, h⟩ := h
  rw [bind_eq_ok] at h
  obtain ⟨b, hClear, -⟩ := h
  have hFits : RingFits L := by
    have hSize := size_of_clearRing hClear
    rw [hDesc.Length _ (List.getElem_mem hk), hDesc.Size _ (List.getElem_mem hk)] at hSize
    exact hSize.trans_lt (Nat.mod_lt _ (by decide))
  rw [initFrom_eq hDesc hFits hk] at hCall
  cases hCall
  exact ⟨hFits, hk, rfl⟩

theorem initPhaseBody_spec {n : ℕ}
    (hDesc : Descriptors block (phaseRawBuffers * n) L Phase_Buffers) (hFits : RingFits L)
    {j : Fin 3} (hj : j.val < n) (p : TPhase ℝ) :
    ∃ p', Computes (fun m => initPhaseBody (m := m) n Phase_Buffers j p) p' ∧
      PhaseInitialised L p' := by
  -- nine filters on the descriptors from `9 * j` on
  have hk : ∀ c < 9, j.val * phaseRawBuffers + c < Phase_Buffers.length := fun c hc => by
    rw [hDesc.count, phaseRawBuffers]
    omega
  obtain ⟨V, h₀, hV⟩ := initFrom_spec hDesc hFits (hk 0 (by decide)) useThreshold 0 thrMin
  obtain ⟨I, h₁, hI⟩ := initFrom_spec hDesc hFits (hk 1 (by decide)) useThreshold 0 thrMin
  obtain ⟨P, h₂, hP⟩ := initFrom_spec hDesc hFits (hk 2 (by decide)) 0 0 0
  obtain ⟨W, h₃, hW⟩ := initFrom_spec hDesc hFits (hk 3 (by decide)) 0 0 0
  obtain ⟨UI, h₄, hUI⟩ := initFrom_spec hDesc hFits (hk 4 (by decide)) useThreshold 0 thrMin
  obtain ⟨INT, h₅, hINT⟩ := initFrom_spec hDesc hFits (hk 5 (by decide)) 0 0 0
  obtain ⟨Iba, h₆, hIba⟩ := initFrom_spec hDesc hFits (hk 6 (by decide)) useThreshold 0 thrMin
  obtain ⟨Ibr, h₇, hIbr⟩ := initFrom_spec hDesc hFits (hk 7 (by decide)) useThreshold 0 thrMin
  obtain ⟨Iv, h₈, hIv⟩ := initFrom_spec hDesc hFits (hk 8 (by decide)) useThreshold 0 thrMin
  refine ⟨phaseInit { p with
    V_maf := V, I_maf := I, P_maf := P, W_maf := W, UI_maf := UI, INT_maf := INT
    Iba_maf := Iba, Ibr_maf := Ibr, Iv_maf := Iv }, ?_, ?_⟩
  · have hNull : Computes (fun m => require (m := m) (j.val < n) .nullPointer) () :=
      fun _ => require_of hj
    exact hNull.bind <| h₀.bind <| h₁.bind <| h₂.bind <| h₃.bind <| h₄.bind <| h₅.bind <|
      h₆.bind <| h₇.bind <| h₈.bind <| Computes.pure _
  · exact ⟨hV, hI, hP, hW, hUI, hINT, hIba, hIbr, hIv, rfl, rfl, rfl, rfl, rfl, rfl, rfl, rfl⟩

theorem initCpt_spec {freq : ℕ} (hFreq : 1 ≤ freq)
    (hDesc : Descriptors block (phaseRawBuffers * 3) L Phase_Buffers)
    (hDesc' : Descriptors count (cptRawBuffers * 3) L CPT_Buffers) (hFits : RingFits L)
    (me : TCPT ℝ) :
    ∃ me', Computes (fun m => initCpt (m := m) me Phase_Buffers CPT_Buffers freq L 3) me' ∧
      CptInitialised freq L 3 me' := by
  obtain ⟨Phase, hLoop, hP⟩ := mapPhases_rule le_rfl
    (fun m _ _ => initPhaseBody (m := m) 3 Phase_Buffers) fun i hi =>
      initPhaseBody_spec hDesc hFits hi (me.Phase i)
  -- the source numbers the eight collective buffers by hand
  have hk : ∀ k < 8, k < CPT_Buffers.length := fun k hk => by
    rw [hDesc'.count, cptRawBuffers]
    omega
  obtain ⟨Iba, h₀, hIba⟩ := initFrom_spec hDesc' hFits (hk 0 (by decide)) useThreshold 0 thrMin
  obtain ⟨Iua, h₁, hIua⟩ := initFrom_spec hDesc' hFits (hk 1 (by decide)) useThreshold 0 thrMin
  obtain ⟨Ibr, h₂, hIbr⟩ := initFrom_spec hDesc' hFits (hk 2 (by decide)) useThreshold 0 thrMin
  obtain ⟨Iur, h₃, hIur⟩ := initFrom_spec hDesc' hFits (hk 3 (by decide)) useThreshold 0 thrMin
  obtain ⟨Iv, h₄, hIv⟩ := initFrom_spec hDesc' hFits (hk 4 (by decide)) useThreshold 0 thrMin
  obtain ⟨I, h₅, hI⟩ := initFrom_spec hDesc' hFits (hk 5 (by decide)) useThreshold 0 thrMin
  obtain ⟨V, h₆, hV⟩ := initFrom_spec hDesc' hFits (hk 6 (by decide)) useThreshold 0 thrMin
  obtain ⟨UI, h₇, hUI⟩ := initFrom_spec hDesc' hFits (hk 7 (by decide)) useThreshold 0 thrMin
  have hTSH : Computes (fun m => fdiv (m := m) 1 (freq : ℝ)) (1 / freq) :=
    fun _ => fdiv_of_ne (Nat.cast_ne_zero.mpr (by omega))
  refine ⟨{ me with
    Phase, Iba_maf := Iba, Iua_maf := Iua, Ibr_maf := Ibr, Iur_maf := Iur, Iv_maf := Iv
    I_maf := I, V_maf := V, UI_maf := UI, TSH := 1 / freq, samples := L, n := 3
    Iba_rms := 0, Iua_rms := 0, Ibr_rms := 0, Iur_rms := 0, Iv_rms := 0 }, ?_, ?_⟩
  · exact hLoop.bind <| h₀.bind <| h₁.bind <| h₂.bind <| h₃.bind <| h₄.bind <| h₅.bind <|
      h₆.bind <| h₇.bind <| hTSH.bind <| Computes.pure _
  · exact ⟨hP, hIba, hIua, hIbr, hIur, hIv, hI, hV, hUI, rfl, rfl, rfl, rfl, rfl, rfl, rfl, rfl⟩

end Init

/-! ## `CPT_Config` -/

section Config

variable {alloc : Allocator ℝ} {freq samples n : ℕ} {me cpt : TCPT ℝ}

/-- With enough memory the allocations succeed, and the rest is initialisation. -/
theorem cptConfig_eq_initCpt (freq samples : ℕ) (hAlloc : alloc.Suffices n) (me : TCPT ℝ) :
    ∃ P l l', Descriptors 0 (phaseRawBuffers * n) samples l ∧
      Descriptors (phaseRawBuffers * n) (cptRawBuffers * n) samples l' ∧
      ∀ (m : Type → Type) [Monad m] [LawfulMonad m] [MonadRequire m] [MonadArray m ℝ],
        cptConfig (m := m) me alloc freq samples n =
          some <$> initCpt { me with Phase := P } l l' freq samples n := by
  obtain ⟨P, hP⟩ := allocPhases_of_isSome me.Phase hAlloc.Phase
  obtain ⟨l, hl, hDesc⟩ := allocRaw_of_isSome 0 samples hAlloc.Phase_Raw
  obtain ⟨l', hl', hDesc'⟩ := allocRaw_of_isSome (phaseRawBuffers * n) samples hAlloc.CPT_Raw
  refine ⟨P, l, l', hDesc, hDesc', ?_⟩
  intro m _ _ _ _
  simp [cptConfig, hAlloc.Phase_Buffers, hAlloc.CPT_Buffers, hP, hl, hl']

/-- **Configuration succeeds** with three phases and enough memory. -/
theorem cptConfig_initialised (hFreq : 1 ≤ freq) (samples : ℕ) (hFits : RingFits samples)
    (hAlloc : alloc.Suffices 3) (me : TCPT ℝ) :
    ∃ cpt, Computes (fun m => cptConfig (m := m) me alloc freq samples 3) (some cpt) ∧
      CptInitialised freq samples 3 cpt := by
  obtain ⟨P, l, l', hDesc, hDesc', hConfig⟩ := cptConfig_eq_initCpt freq samples hAlloc me
  obtain ⟨cpt, hInit, hInitialised⟩ := initCpt_spec hFreq hDesc hDesc' hFits { me with Phase := P }
  refine ⟨cpt, ?_, hInitialised⟩
  intro m _ _ _ _
  have hInit : initCpt (m := m) { me with Phase := P } l l' freq samples 3 = pure cpt := hInit m
  show cptConfig (m := m) me alloc freq samples 3 = pure (some cpt)
  rw [hConfig, hInit, map_pure]

theorem cptConfig_spec (hFreq : 1 ≤ freq) (samples : ℕ) (hFits : RingFits samples)
    (hAlloc : alloc.Suffices 3) (me : TCPT ℝ) :
    ∃ cpt, Computes (fun m => cptConfig (m := m) me alloc freq samples 3) (some cpt) ∧
      ∀ pac, CptTracks ⟨samples, 3, 1 / freq, pac⟩ 0 cpt := by
  obtain ⟨cpt, hConfig, hInitialised⟩ := cptConfig_initialised hFreq samples hFits hAlloc me
  exact ⟨cpt, hConfig, hInitialised.tracks le_rfl⟩

/-- Initialisation clears the rings, and divides by the frequency. -/
theorem initCpt_ok {l l' : List (Descriptor ℝ)} {block count : ℕ}
    (hDesc : Descriptors block count samples l')
    (h : initCpt (m := Except Fault) me l l' freq samples n = .ok cpt) :
    RingFits samples ∧ freq ≠ 0 := by
  simp only [initCpt, bind_eq_ok] at h
  obtain ⟨_, -, _, hIba, _, -, _, -, _, -, _, -, _, -, _, -, _, -, _, hTSH, -⟩ := h
  exact ⟨(initFrom_ok hDesc hIba).1, by exact_mod_cast ne_zero_of_fdiv hTSH⟩

/-- Without enough memory `CPT_Config` returns the error. -/
theorem cptConfig_eq_none (hAlloc : ¬ alloc.Suffices n) (me : TCPT ℝ) (m : Type → Type) [Monad m]
    [LawfulMonad m] [MonadRequire m] [MonadArray m ℝ] :
    cptConfig (m := m) me alloc freq samples n = pure none := by
  -- the allocations in the order of the source: the first that fails ends the call
  by_cases hPhaseBuffers : alloc.Phase_Buffers = true
  · by_cases hCptBuffers : alloc.CPT_Buffers = true
    · by_cases hPhase : ∀ j : Fin 3, j.val < n → (alloc.Phase j).isSome = true
      · obtain ⟨P, hP⟩ := allocPhases_of_isSome me.Phase hPhase
        by_cases hRaw : ∀ k < phaseRawBuffers * n, (alloc.Phase_Raw k).isSome = true
        · obtain ⟨l, hl, -⟩ := allocRaw_of_isSome 0 samples hRaw
          have hCpt : ∃ k < cptRawBuffers * n, alloc.CPT_Raw k = none := by
            by_contra hNone
            push Not at hNone
            exact hAlloc ⟨hPhaseBuffers, hCptBuffers, hPhase, hRaw, fun k hk =>
              Option.isSome_iff_ne_none.mpr (hNone k hk)⟩
          obtain ⟨k, hk, hNone⟩ := hCpt
          simp [cptConfig, hPhaseBuffers, hCptBuffers, hP, hl, allocRaw_eq_none hk hNone]
        · push Not at hRaw
          obtain ⟨k, hk, hNone⟩ := hRaw
          simp [cptConfig, hPhaseBuffers, hCptBuffers, hP,
            allocRaw_eq_none hk (Option.not_isSome_iff_eq_none.mp hNone)]
      · push Not at hPhase
        obtain ⟨j, hj, hNone⟩ := hPhase
        simp [cptConfig, hPhaseBuffers, hCptBuffers,
          allocPhases_eq_none hj (Option.not_isSome_iff_eq_none.mp hNone)]
    · simp [cptConfig, hPhaseBuffers, hCptBuffers]
  · simp [cptConfig, hPhaseBuffers]

/-- A configuration that returned has found its memory and has initialised it. -/
theorem cptConfig_some
    (hConfig : cptConfig (m := Except Fault) me alloc freq samples n = .ok (some cpt)) :
    alloc.Suffices n ∧ ∃ P l l', Descriptors 0 (phaseRawBuffers * n) samples l ∧
      Descriptors (phaseRawBuffers * n) (cptRawBuffers * n) samples l' ∧
      initCpt (m := Except Fault) { me with Phase := P } l l' freq samples n = .ok cpt := by
  by_cases hAlloc : alloc.Suffices n
  · obtain ⟨P, l, l', hDesc, hDesc', hEq⟩ := cptConfig_eq_initCpt freq samples hAlloc me
    rw [hEq, map_eq_pure_bind, bind_eq_ok] at hConfig
    obtain ⟨cpt', hInit, hSome⟩ := hConfig
    cases hSome
    exact ⟨hAlloc, P, l, l', hDesc, hDesc', hInit⟩
  · have hEq : (.ok (some cpt) : Except Fault (Option (TCPT ℝ))) = .ok none :=
      hConfig.symm.trans (cptConfig_eq_none hAlloc me (Except Fault))
    simp at hEq

/-- **A configured state is initialised.** -/
theorem cptConfig_ok
    (hConfig : cptConfig (m := Except Fault) me alloc freq samples 3 = .ok (some cpt)) :
    1 ≤ freq ∧ CptInitialised freq samples 3 cpt := by
  obtain ⟨hAlloc, P, l, l', -, hDesc', hInit⟩ := cptConfig_some hConfig
  obtain ⟨hFits, hNe⟩ := initCpt_ok hDesc' hInit
  have hFreq : 1 ≤ freq := Nat.one_le_iff_ne_zero.mpr hNe
  obtain ⟨cpt', hComputes, hInitialised⟩ := cptConfig_initialised hFreq samples hFits hAlloc me
  have hEq : (.ok (some cpt) : Except Fault (Option (TCPT ℝ))) = .ok (some cpt') :=
    hConfig.symm.trans hComputes.checked
  have hCpt : cpt = cpt' := by simpa using hEq
  rw [hCpt]
  exact ⟨hFreq, hInitialised⟩

/-- **A configured state tracks any feed.** -/
theorem cptConfig_tracks
    (hConfig : cptConfig (m := Except Fault) me alloc freq samples 3 = .ok (some cpt))
    (pac : ℕ → TPAC ℝ) : 1 ≤ freq ∧ CptTracks ⟨samples, 3, 1 / freq, pac⟩ 0 cpt := by
  obtain ⟨hFreq, hInitialised⟩ := cptConfig_ok hConfig
  exact ⟨hFreq, hInitialised.tracks le_rfl pac⟩

/-- The configuration does not write the reactive energy of the collective. -/
theorem cptConfig_W_avg
    (hConfig : cptConfig (m := Except Fault) me alloc freq samples n = .ok (some cpt)) :
    cpt.W_avg = me.W_avg := by
  obtain ⟨-, P, l, l', -, -, hInit⟩ := cptConfig_some hConfig
  simp only [initCpt, bind_eq_ok] at hInit
  obtain ⟨_, -, _, -, _, -, _, -, _, -, _, -, _, -, _, -, _, -, _, -, hEq⟩ := hInit
  cases hEq
  rfl

end Config

end EnergyMeter.Cpt

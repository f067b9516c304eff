import EnergyMeter.Daq.Invariant

/-!
# Acquisition pipeline — progress

What the three processors can do when they are left to it. These runs are what
the delivery theorems are not empty for, and the overruns that the double
buffer has to survive.

* `prus_fill` — the PRUs by themselves always get to the end of a half.
* `arm_serves` — the ARM by itself serves a pending event.
* `inTime_copies` — for every `n` a run in time delivers `n` buffers.
* `overrun` — for every `m` a run merges `m` events before the first copy.
-/

namespace EnergyMeter.Daq

open EnergyMeter.Lib

variable {x : ℕ → Packet} {s s' t : Pipeline}

/-- The handshake is kept and no event 19 is raised. -/
def Quiet (s : Pipeline) (a : Agent) : Prop :=
  Handshake s a ∧ (a = .pru0 → ∀ h, s.pc0 ≠ .raise h)

theorem Quiet.pru0 (h : ∀ h, s.pc0 ≠ .raise h) : Quiet s .pru0 :=
  ⟨nofun, fun _ => h⟩

theorem Quiet.pru1 (h : Handshake s .pru1) : Quiet s .pru1 :=
  ⟨h, nofun⟩

theorem Quiet.inTime {a : Agent} (h : Quiet s a) : InTime s a :=
  ⟨h.1, fun ha half hpc => absurd hpc (h.2 ha half)⟩

theorem Quiet.onTime {a : Agent} (h : Quiet s a) : OnTime s a :=
  ⟨h.1, fun ha half hpc => absurd hpc (h.2 ha half)⟩

/-! ## The PRUs -/

/-- What the ARM sees of a state, the contents of the shared memory apart. -/
structure SameArm (s t : Pipeline) : Prop where
  pcA : t.pcA = s.pcA
  evt19 : t.evt19 = s.evt19
  raised : t.raised = s.raised
  merged : t.merged = s.merged
  woken : t.woken = s.woken
  copies : t.copies = s.copies

theorem SameArm.trans {u : Pipeline} (h : SameArm s t) (h' : SameArm t u) : SameArm s u :=
  ⟨h'.1.trans h.1, h'.2.trans h.2, h'.3.trans h.3, h'.4.trans h.4, h'.5.trans h.5,
    h'.6.trans h.6⟩

theorem pru1Step_frame : SameArm s (pru1Step x s) := by
  unfold pru1Step
  cases s.pc1 <;> exact ⟨rfl, rfl, rfl, rfl, rfl, rfl⟩

theorem pru0Step_sameArm (hStep : pru0Step s = some s') (hRaise : ∀ h, s.pc0 ≠ .raise h) :
    SameArm s s' := by
  obtain ⟨⟨hA, -, -, hWoken, hCopies⟩, ⟨-, hEvt, hRaised, hMerged⟩ | ⟨⟨h, hpc⟩, -⟩⟩ :=
    pru0Step_frame hStep
  · exact ⟨hA, hEvt, hRaised, hMerged, hWoken, hCopies⟩
  · exact absurd hpc (hRaise h)

/-- How far PRU0 is from the end of the half: the packets still to be read,
then the instructions until the next one is. -/
def prusRank (s : Pipeline) : ℕ :=
  1000 * (3840 * (s.raised + 1) - s.xined) +
    match s.pc0 with
    | .outerLoop => 22
    | .load _ => 21
    | .wbs _ => 12 + if s.evt18 then 0 else 2 - s.pc1.fresh
    | .sbco _ => 11
    | .xin _ => 10
    | .sbbo _ k => 600 - k
    | .add _ => 499
    | .sub _ => 498
    | .qbne _ => 497
    | .raise _ => 0

theorem wbs_rank_le (s : Pipeline) : 12 + (if s.evt18 then 0 else 2 - s.pc1.fresh) ≤ 14 := by
  split <;> omega

theorem prus_progress (h : Inv x s) (hRaise : ∀ h, s.pc0 ≠ .raise h) :
    ∃ a s', (a = .pru0 ∨ a = .pru1) ∧ Quiet s a ∧ step x s a = some s' ∧ prusRank s' < prusRank s := by
  have hQuiet := Quiet.pru0 hRaise
  have hOut := h.outline
  unfold Outline at hOut
  cases hpc : s.pc0 with
  | raise half => exact absurd hpc (hRaise half)
  | wbs half =>
    cases hEvt : s.evt18 with
    | true =>
      refine ⟨.pru0, { s with pc0 := .sbco half }, .inl rfl, hQuiet, ?_, ?_⟩
      · simp [step, pru0Step, hpc, hEvt]
      · simp [prusRank, hpc, hEvt]
    | false =>
      -- PRU0 waits, so PRU1 has to move; it may, for nothing is under way
      have hTokens := h.sync.tokens
      cases hpc1 : s.pc1 with
      | xout =>
        simp only [hpc, hEvt, hpc1, Pc1.fresh, Pc0.taking, Bool.toNat_false] at hTokens
        refine ⟨.pru1, pru1Step x s, .inr rfl, .pru1 fun _ _ => by omega, rfl, ?_⟩
        simp [prusRank, pru1Step, hpc, hEvt, hpc1, Pc1.fresh]
      | signal =>
        refine ⟨.pru1, pru1Step x s, .inr rfl, .pru1 fun _ hX => ?_, rfl, ?_⟩
        · rw [hpc1] at hX
          cases hX
        · simp [prusRank, pru1Step, hpc, hEvt, hpc1, Pc1.fresh]
  | xin half =>
    -- the outline bounds the packets read, so one more lowers the rank
    simp only [hpc] at hOut
    obtain ⟨d, hd, -, hX, -⟩ := hOut
    refine ⟨.pru0, _, .inl rfl, hQuiet, by simp only [step, pru0Step, hpc]; rfl, ?_⟩
    simp only [prusRank, hpc]
    omega
  | sbbo half k =>
    simp only [hpc] at hOut
    refine ⟨.pru0, _, .inl rfl, hQuiet, by simp only [step, pru0Step, hpc]; rfl, ?_⟩
    by_cases hLast : k + 1 < pkgSize
    · simp only [prusRank, hpc, if_pos hLast]
      omega
    · simp only [prusRank, hpc, if_neg hLast]
      omega
  | qbne half =>
    refine ⟨.pru0, _, .inl rfl, hQuiet, by simp only [step, pru0Step, hpc]; rfl, ?_⟩
    by_cases hMore : s.r27 ≠ 0
    · have hWait := wbs_rank_le s
      simp only [prusRank, hpc, if_pos hMore]
      omega
    · simp only [prusRank, hpc, if_neg hMore]
      omega
  | load half =>
    have hWait := wbs_rank_le s
    refine ⟨.pru0, _, .inl rfl, hQuiet, by simp only [step, pru0Step, hpc]; rfl, ?_⟩
    simp only [prusRank, hpc]
    omega
  | outerLoop | sbco half | add half | sub half =>
    refine ⟨.pru0, _, .inl rfl, hQuiet, by simp only [step, pru0Step, hpc]; rfl, ?_⟩
    simp [prusRank, hpc]

/-- The PRUs by themselves always get to the end of the half. -/
theorem prus_fill (h : Inv x s) :
    ∃ t, Run (step x) Quiet s t ∧ (Inv x t ∧ SameArm s t) ∧ ∃ half, t.pc0 = .raise half := by
  refine Run.reaches prusRank (fun u hu hGoal => ?_) ⟨h, rfl, rfl, rfl, rfl, rfl, rfl⟩
  have hRaise : ∀ half, u.pc0 ≠ .raise half := fun half hpc => hGoal ⟨half, hpc⟩
  obtain ⟨a, u', hPru, hQuiet, hStep, hLt⟩ := prus_progress hu.1 hRaise
  refine ⟨a, u', hQuiet, hStep, ⟨step_inv hu.1 hQuiet.1 hStep, hu.2.trans ?_⟩, hLt⟩
  rcases hPru with rfl | rfl
  · exact pru0Step_sameArm hStep hRaise
  · exact Option.some.inj hStep ▸ pru1Step_frame

/-- The PRUs by themselves fill the half and raise the event for it: at `t`, the
state before that, the guard of the run decides. -/
theorem prus_event (h : Inv x s) :
    ∃ t u, Run (step x) Quiet s t ∧ SameArm s t ∧ step x t .pru0 = some u ∧ Inv x u ∧
      u.pcA = s.pcA ∧ u.evt19 = true ∧ u.raised = s.raised + 1 ∧
      u.merged = s.merged + s.evt19.toNat ∧ u.copies = s.copies := by
  obtain ⟨t, hRun, ⟨hInv, hSame⟩, half, hpc⟩ := prus_fill h
  obtain ⟨u, hStep⟩ : ∃ u, pru0Step t = some u := ⟨_, by simp only [pru0Step, hpc]; rfl⟩
  have hInv' := pru0Step_inv hInv hStep
  obtain ⟨⟨hA, -, -, -, hCopies⟩, ⟨hNot, -⟩ | ⟨-, hEvt, hRaised, hMerged⟩⟩ := pru0Step_frame hStep
  · exact absurd hpc (hNot half)
  · refine ⟨t, u, hRun, hSame, hStep, hInv', hA.trans hSame.pcA, hEvt, ?_, ?_, ?_⟩
    · rw [hRaised, hSame.raised]
    · rw [hMerged, hSame.merged, hSame.evt19]
    · rw [hCopies, hSame.copies]

/-! ## The ARM -/

/-- What the ARM may not change: the PRUs, and how many events they raised. -/
structure SamePrus (s t : Pipeline) : Prop where
  pc0 : t.pc0 = s.pc0
  raised : t.raised = s.raised
  merged : t.merged = s.merged

theorem SamePrus.trans {u : Pipeline} (h : SamePrus s t) (h' : SamePrus t u) : SamePrus s u :=
  ⟨h'.1.trans h.1, h'.2.trans h.2, h'.3.trans h.3⟩

theorem armStep_frame (hStep : armStep s = some s') : SamePrus s s' := by
  cases armStep_moves hStep with
  | idle | wait | clear | memcpy | memcpyLast | toggle => exact ⟨rfl, rfl, rfl⟩

/-- One call of `AnalogCore_GetSamples` for a pending event, `n` buffers having
been copied before. -/
def Serving (n : ℕ) (s : Pipeline) : Prop :=
  match s.pcA with
  | .idle => s.copies.length = if s.evt19 then n else n + 1
  | .wait _ | .clear _ => s.evt19 = true ∧ s.copies.length = n
  | .memcpy _ _ => s.evt19 = false ∧ s.copies.length = n
  | .toggle => s.evt19 = false ∧ s.copies.length = n + 1

/-- The steps that the ARM still has to do for the pending event. -/
def armRank (s : Pipeline) : ℕ :=
  match s.pcA with
  | .idle => if s.evt19 then 384004 else 0
  | .wait _ => 384003
  | .clear _ => 384002
  | .memcpy _ k => 384001 - k
  | .toggle => 1

theorem arm_progress {n : ℕ} (h : Inv x s) (hServing : Serving n s)
    (hGoal : ¬(s.pcA = .idle ∧ s.evt19 = false)) :
    ∃ s', armStep s = some s' ∧ Serving n s' ∧ armRank s' < armRank s := by
  have hOut := h.served.outline
  unfold Serving at hServing
  cases hpc : s.pcA with
  | idle =>
    -- idle without an event is the goal itself
    have hEvt : s.evt19 = true := by
      cases hE : s.evt19 with
      | true => rfl
      | false => exact absurd ⟨hpc, hE⟩ hGoal
    simp only [hpc, hEvt, if_true] at hServing
    refine ⟨_, by simp only [armStep, hpc]; rfl, ?_, ?_⟩
    · exact ⟨hEvt, hServing⟩
    · simp [armRank, hpc, hEvt]
  | wait src =>
    simp only [hpc] at hServing
    refine ⟨_, by simp only [armStep, hpc, hServing.1, if_true]; rfl, ?_, ?_⟩
    · exact ⟨rfl, hServing.2⟩
    · simp [armRank, hpc]
  | clear src =>
    simp only [hpc] at hServing
    refine ⟨_, by simp only [armStep, hpc]; rfl, ?_, ?_⟩
    · exact ⟨rfl, hServing.2⟩
    · simp [armRank, hpc]
  | memcpy src k =>
    simp only [hpc] at hServing hOut
    by_cases hLast : k + 1 < pruPacketSize
    · refine ⟨_, by simp only [armStep, hpc, if_pos hLast]; rfl, ?_, ?_⟩
      · exact hServing
      · simp only [armRank, hpc]
        omega
    · refine ⟨_, by simp only [armStep, hpc, if_neg hLast]; rfl, ?_, ?_⟩
      · refine ⟨hServing.1, ?_⟩
        rw [List.length_append, List.length_singleton, hServing.2]
      · simp only [armRank, hpc]
        omega
  | toggle =>
    simp only [hpc] at hServing
    refine ⟨_, by simp only [armStep, hpc]; rfl, ?_, ?_⟩
    · simp only [Serving, hServing.1, hServing.2, Bool.false_eq_true, if_false]
    · simp [armRank, hpc, hServing.1]

/-- The ARM by itself serves a pending event: one buffer more, and the event
cleared. -/
theorem arm_serves (h : Inv x s) (hIdle : s.pcA = .idle) (hEvt : s.evt19 = true) :
    ∃ t, Run (step x) Quiet s t ∧ Inv x t ∧ SamePrus s t ∧ t.pcA = .idle ∧ t.evt19 = false ∧
      t.copies.length = s.copies.length + 1 := by
  have hStart : Serving s.copies.length s := by
    simp only [Serving, hIdle, hEvt, if_true]
  -- `armRank` falls with every step of the ARM until it is idle with no event
  have hReach : ∃ t, Run (step x) Quiet s t ∧
      (Inv x t ∧ SamePrus s t ∧ Serving s.copies.length t) ∧
      (t.pcA = .idle ∧ t.evt19 = false) := by
    refine Run.reaches armRank (fun u hu hGoal => ?_) ⟨h, ⟨rfl, rfl, rfl⟩, hStart⟩
    obtain ⟨hInv, hSame, hServing⟩ := hu
    obtain ⟨u', hStep, hServing', hLt⟩ := arm_progress hInv hServing hGoal
    exact ⟨.arm, u', ⟨nofun, nofun⟩, hStep,
      ⟨armStep_inv hInv hStep, hSame.trans (armStep_frame hStep), hServing'⟩, hLt⟩
  obtain ⟨t, hRun, ⟨hInv, hSame, hServing⟩, hEnd, hCleared⟩ := hReach
  refine ⟨t, hRun, hInv, hSame, hEnd, hCleared, ?_⟩
  simpa only [Serving, hEnd, hCleared, Bool.false_eq_true, if_false] using hServing

/-! ## Runs in time -/

/-- After `n` events, each of them served in time. -/
structure Ready (x : ℕ → Packet) (n : ℕ) (s : Pipeline) : Prop where
  inv : Inv x s
  idle : s.pcA = .idle
  cleared : s.evt19 = false
  raised : s.raised = n
  merged : s.merged = 0
  copies : s.copies.length = n

theorem Ready.next {n : ℕ} (h : Ready x n s) :
    ∃ t, Run (step x) InTime s t ∧ Ready x (n + 1) t := by
  obtain ⟨t, u, hFill, hSame, hStep, hInv, hA, hEvt, hRaised, hMerged, hCopies⟩ := prus_event h.inv
  obtain ⟨v, hServe, hInv', hPrus, hIdle, hCleared, hLen⟩ := arm_serves hInv (hA.trans h.idle) hEvt
  have hGuard : InTime t .pru0 := by
    refine ⟨nofun, fun _ _ _ => ?_⟩
    rw [hSame.copies, hSame.raised, h.copies, h.raised]
  refine ⟨v, ?_, hInv', hIdle, hCleared, ?_, ?_, ?_⟩
  · exact ((hFill.mono fun _ _ => Quiet.inTime).tail hGuard hStep).trans
      (hServe.mono fun _ _ => Quiet.inTime)
  · rw [hPrus.raised, hRaised, h.raised]
  · rw [hPrus.merged, hMerged, h.merged, h.cleared, Bool.toNat_false]
  · rw [hLen, hCopies, h.copies]

theorem inTime_copies (x : ℕ → Packet) (addr : ℕ) (mem : ℕ → Byte) (n : ℕ) :
    ∃ t, Run (step x) InTime (init addr mem) t ∧ Ready x n t := by
  induction n with
  | zero => exact ⟨_, Run.refl, init_inv addr mem, rfl, rfl, rfl, rfl, rfl⟩
  | succ n ih =>
    obtain ⟨t, hRun, hReady⟩ := ih
    obtain ⟨u, hRun', hReady'⟩ := hReady.next
    exact ⟨u, hRun.trans hRun', hReady'⟩

/-! ## Overruns -/

/-- The ARM has not moved yet; of `m + 1` events `m` are merged. -/
structure Overrun (x : ℕ → Packet) (m : ℕ) (s : Pipeline) : Prop where
  inv : Inv x s
  idle : s.pcA = .idle
  pending : s.evt19 = true
  raised : s.raised = m + 1
  merged : s.merged = m
  copies : s.copies = []

theorem overrun (x : ℕ → Packet) (addr : ℕ) (mem : ℕ → Byte) (m : ℕ) :
    ∃ t, Run (step x) Handshake (init addr mem) t ∧ Overrun x m t := by
  -- the ARM takes no step, so each event after the first merges with the one before
  induction m with
  | zero =>
    obtain ⟨t, u, hFill, -, hStep, hInv, hA, hEvt, hRaised, hMerged, hCopies⟩ :=
      prus_event (init_inv (x := x) addr mem)
    have hGuard : Handshake t .pru0 := nofun
    exact ⟨u, (hFill.mono fun _ _ h => h.1).tail hGuard hStep, hInv, hA, hEvt, hRaised, hMerged,
      hCopies⟩
  | succ m ih =>
    obtain ⟨s, hRun, h⟩ := ih
    obtain ⟨t, u, hFill, -, hStep, hInv, hA, hEvt, hRaised, hMerged, hCopies⟩ := prus_event h.inv
    have hGuard : Handshake t .pru0 := nofun
    refine ⟨u, hRun.trans ((hFill.mono fun _ _ h => h.1).tail hGuard hStep), hInv,
      hA.trans h.idle, hEvt, ?_, ?_, hCopies.trans h.copies⟩
    · rw [hRaised, h.raised]
    · rw [hMerged, h.merged, h.pending, Bool.toNat_true]

end EnergyMeter.Daq

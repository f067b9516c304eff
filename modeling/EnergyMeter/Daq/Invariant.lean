import EnergyMeter.Daq.Model
import EnergyMeter.Lib.Ring
import Mathlib.Tactic.IntervalCases

/-!
# Acquisition pipeline — invariants of every run

All that holds under the handshake between the PRUs alone, however late the
ARM is.

* `Pru0Moves`, `ArmMoves` — what a step of PRU0 and of the ARM does.
* `Sync` — the packet between the PRUs: at most one is under way, in the
  scratch pad, and the event that announces it is counted once.
* `Outline` — the assertion at each instruction of PRU0 that ties `r27`, `r29`
  and the half being filled to the packets read and the events raised.
* `Stored` — the shared memory is a ring that holds the last 768000 bytes of
  the stream, up to the byte that `SBBO` is about to store.
* `Served` — every event is merged, served or pending, and `buffer_ix` is the
  parity of the copies made.

`handshake_inv` puts them together: they hold after every run.
-/

namespace EnergyMeter.Daq

open EnergyMeter.Lib

variable {x : ℕ → Packet} {s s' : Pipeline}

/-! ## Statements -/

/-- One packet is in the scratch pad and not yet announced. -/
def Pc1.fresh : Pc1 → ℕ
  | .xout => 0
  | .signal => 1

/-- The announcement has been taken, the packet has not. -/
def Pc0.taking : Pc0 → ℕ
  | .xin _ => 1
  | _ => 0

structure Sync (x : ℕ → Packet) (s : Pipeline) : Prop where
  tokens : s.published = s.xined + s.pc1.fresh + s.evt18.toNat + s.pc0.taking
  atMostOne : s.published ≤ s.xined + 1
  announced : ∀ h, s.pc0 = .sbco h → s.evt18 = true
  scratch : s.xined < s.published → s.scratch = x s.xined

/-- Within half `h`: `d` packets read, `a` of them counted in `r29` and `c` of
them counted in `r27`. -/
def Filling (s : Pipeline) (h : Half) (d a c : ℕ) : Prop :=
  s.raised % 2 = h.num ∧ s.xined = 3840 * s.raised + d ∧
    s.r29 = 384000 * h.num + 100 * a ∧ s.r27 + c = 3840

def Outline (s : Pipeline) : Prop :=
  match s.pc0 with
  | .outerLoop => s.raised % 2 = 0 ∧ s.xined = 3840 * s.raised
  | .load h => s.raised % 2 = h.num ∧ s.xined = 3840 * s.raised ∧ s.r29 = 384000 * h.num
  | .wbs h | .sbco h | .xin h => ∃ d < 3840, Filling s h d d d
  | .sbbo h k => k < 100 ∧ ∃ d < 3840, Filling s h (d + 1) d d
  | .add h => ∃ d < 3840, Filling s h (d + 1) d d
  | .sub h => ∃ d < 3840, Filling s h (d + 1) (d + 1) d
  | .qbne h => ∃ d < 3840, Filling s h (d + 1) (d + 1) (d + 1)
  | .raise h => Filling s h 3840 3840 3840

/-- The bytes stored so far. -/
def Pipeline.stored (s : Pipeline) : ℕ :=
  match s.pc0 with
  | .sbbo _ k => 100 * (s.xined - 1) + k
  | _ => 100 * s.xined

structure Stored (x : ℕ → Packet) (s : Pipeline) : Prop where
  ring : RingHolds 768000 (byteAt x) s.stored fun i => s.ddr (s.r28 + i)
  regs : ∀ h k, s.pc0 = .sbbo h k → s.regs = x (s.xined - 1)
  ramAddr : s.ramAddr = s.r28

/-- The ARM has cleared an event and the copy for it is not complete. -/
def PcA.copying : PcA → ℕ
  | .memcpy _ _ => 1
  | _ => 0

structure Served (s : Pipeline) : Prop where
  events : s.raised = s.merged + s.woken + s.evt19.toNat
  copies : s.woken = s.copies.length + s.pcA.copying
  outline : match s.pcA with
    | .idle => s.bufferIx = s.copies.length % 2
    | .wait src => s.bufferIx = s.copies.length % 2 ∧ src = 384000 * s.bufferIx
    | .clear src => s.bufferIx = s.copies.length % 2 ∧ src = 384000 * s.bufferIx ∧ s.evt19 = true
    | .memcpy src k => s.bufferIx = s.copies.length % 2 ∧ src = 384000 * s.bufferIx ∧ k < 384000
    | .toggle => s.bufferIx = (s.copies.length + 1) % 2

/-- The invariant of the pipeline under the handshake of the PRUs. -/
structure Inv (x : ℕ → Packet) (s : Pipeline) : Prop where
  sync : Sync x s
  outline : Outline s
  stored : Stored x s
  served : Served s

theorem init_inv (addr : ℕ) (mem : ℕ → Byte) : Inv x (init addr mem) where
  sync := ⟨rfl, Nat.zero_le _, nofun, fun h => absurd h (Nat.lt_irrefl _)⟩
  outline := ⟨rfl, rfl⟩
  stored := ⟨ringHolds_zero, nofun, rfl⟩
  served := ⟨rfl, rfl, rfl⟩

/-! ## What a step does -/

/-- A step of PRU0, instruction by instruction. -/
inductive Pru0Moves (s : Pipeline) : Pipeline → Prop
  | outerLoop (hpc : s.pc0 = .outerLoop) : Pru0Moves s { s with pc0 := .load .one, r29 := 0 }
  | load (h : Half) (hpc : s.pc0 = .load h) :
      Pru0Moves s { s with pc0 := .wbs h, r27 := loopsPerMsg }
  | wbs (h : Half) (hpc : s.pc0 = .wbs h) (hEvt : s.evt18 = true) :
      Pru0Moves s { s with pc0 := .sbco h }
  | sbco (h : Half) (hpc : s.pc0 = .sbco h) :
      Pru0Moves s { s with pc0 := .xin h, evt18 := false }
  | xin (h : Half) (hpc : s.pc0 = .xin h) :
      Pru0Moves s { s with pc0 := .sbbo h 0, regs := s.scratch, xined := s.xined + 1 }
  | sbbo (h : Half) (k : ℕ) (hpc : s.pc0 = .sbbo h k) (hMore : k + 1 < pkgSize) :
      Pru0Moves s { s with
        pc0 := .sbbo h (k + 1)
        ddr := Function.update s.ddr (s.r28 + s.r29 + k) (s.regs (Fin.ofNat pkgSize k)) }
  | sbboLast (h : Half) (k : ℕ) (hpc : s.pc0 = .sbbo h k) (hLast : ¬k + 1 < pkgSize) :
      Pru0Moves s { s with
        pc0 := .add h
        ddr := Function.update s.ddr (s.r28 + s.r29 + k) (s.regs (Fin.ofNat pkgSize k)) }
  | add (h : Half) (hpc : s.pc0 = .add h) :
      Pru0Moves s { s with pc0 := .sub h, r29 := reg32 (s.r29 + 100) }
  | sub (h : Half) (hpc : s.pc0 = .sub h) :
      Pru0Moves s { s with pc0 := .qbne h, r27 := reg32 (s.r27 + 2 ^ 32 - 1) }
  | qbne (h : Half) (hpc : s.pc0 = .qbne h) (hMore : s.r27 ≠ 0) :
      Pru0Moves s { s with pc0 := .wbs h }
  | qbneLast (h : Half) (hpc : s.pc0 = .qbne h) (hLast : s.r27 = 0) :
      Pru0Moves s { s with pc0 := .raise h }
  | raise (h : Half) (pc0 : Pc0) (hpc : s.pc0 = .raise h)
      (hNext : h = .one ∧ pc0 = .load .two ∨ h = .two ∧ pc0 = .outerLoop) :
      Pru0Moves s { s with
        pc0
        evt19 := true
        raised := s.raised + 1
        merged := s.merged + s.evt19.toNat }

/-- A step of the ARM. -/
inductive ArmMoves (s : Pipeline) : Pipeline → Prop
  | idle (hpc : s.pcA = .idle) :
      ArmMoves s { s with pcA := .wait (if s.bufferIx = 0 then 0 else pruPacketSize) }
  | wait (src : ℕ) (hpc : s.pcA = .wait src) (hEvt : s.evt19 = true) :
      ArmMoves s { s with pcA := .clear src }
  | clear (src : ℕ) (hpc : s.pcA = .clear src) :
      ArmMoves s { s with pcA := .memcpy src 0, evt19 := false, woken := s.woken + 1 }
  | memcpy (src k : ℕ) (hpc : s.pcA = .memcpy src k) (hMore : k + 1 < pruPacketSize) :
      ArmMoves s { s with
        pcA := .memcpy src (k + 1)
        dbuffer := Function.update s.dbuffer k (s.ddr (s.ramAddr + src + k)) }
  | memcpyLast (src k : ℕ) (hpc : s.pcA = .memcpy src k) (hLast : ¬k + 1 < pruPacketSize) :
      ArmMoves s { s with
        pcA := .toggle
        dbuffer := Function.update s.dbuffer k (s.ddr (s.ramAddr + src + k))
        copies := s.copies ++
          [⟨src, Function.update s.dbuffer k (s.ddr (s.ramAddr + src + k)), s.raised⟩] }
  | toggle (hpc : s.pcA = .toggle) :
      ArmMoves s { s with pcA := .idle, bufferIx := if s.bufferIx = 0 then 1 else 0 }

/-- The inversion of `pru0Step`; every invariant is derived from it. -/
theorem pru0Step_moves (hStep : pru0Step s = some s') : Pru0Moves s s' := by
  unfold pru0Step at hStep
  cases hpc : s.pc0 with
  | wbs half =>
    simp only [hpc, Option.ite_none_right_eq_some, Option.some.injEq] at hStep
    obtain ⟨hEvt, rfl⟩ := hStep
    exact .wbs half hpc hEvt
  | sbbo half k =>
    simp only [hpc, Option.some.injEq] at hStep
    subst hStep
    split
    · exact .sbbo half k hpc ‹_›
    · exact .sbboLast half k hpc ‹_›
  | qbne half =>
    simp only [hpc, Option.some.injEq] at hStep
    subst hStep
    split
    · exact .qbne half hpc ‹_›
    · exact .qbneLast half hpc (not_not.mp ‹_›)
  | raise half =>
    simp only [hpc, Option.some.injEq] at hStep
    subst hStep
    -- the event that is lost in the pending one, counted
    have hMerged : (if s.evt19 then s.merged + 1 else s.merged) = s.merged + s.evt19.toNat := by
      cases s.evt19 <;> rfl
    rw [hMerged]
    cases half with
    | one => exact .raise .one _ hpc (.inl ⟨rfl, rfl⟩)
    | two => exact .raise .two _ hpc (.inr ⟨rfl, rfl⟩)
  | outerLoop =>
    simp only [hpc, Option.some.injEq] at hStep
    exact hStep ▸ .outerLoop hpc
  | load half =>
    simp only [hpc, Option.some.injEq] at hStep
    exact hStep ▸ .load half hpc
  | sbco half =>
    simp only [hpc, Option.some.injEq] at hStep
    exact hStep ▸ .sbco half hpc
  | xin half =>
    simp only [hpc, Option.some.injEq] at hStep
    exact hStep ▸ .xin half hpc
  | add half =>
    simp only [hpc, Option.some.injEq] at hStep
    exact hStep ▸ .add half hpc
  | sub half =>
    simp only [hpc, Option.some.injEq] at hStep
    exact hStep ▸ .sub half hpc

/-- The inversion of `armStep`. -/
theorem armStep_moves (hStep : armStep s = some s') : ArmMoves s s' := by
  unfold armStep at hStep
  cases hpc : s.pcA with
  | idle =>
    simp only [hpc, Option.some.injEq] at hStep
    exact hStep ▸ .idle hpc
  -- the wait is the only step that can be blocked
  | wait src =>
    simp only [hpc, Option.ite_none_right_eq_some, Option.some.injEq] at hStep
    obtain ⟨hEvt, rfl⟩ := hStep
    exact .wait src hpc hEvt
  | clear src =>
    simp only [hpc, Option.some.injEq] at hStep
    exact hStep ▸ .clear src hpc
  | memcpy src k =>
    by_cases hLast : k + 1 < pruPacketSize
    · simp only [hpc, if_pos hLast, Option.some.injEq] at hStep
      exact hStep ▸ .memcpy src k hpc hLast
    · simp only [hpc, if_neg hLast, Option.some.injEq] at hStep
      exact hStep ▸ .memcpyLast src k hpc hLast
  | toggle =>
    simp only [hpc, Option.some.injEq] at hStep
    exact hStep ▸ .toggle hpc

/-! ## PRU1 -/

theorem pru1Step_sync (h : Sync x s) (hGuard : s.pc1 = .xout → s.xined = s.published) :
    Sync x (pru1Step x s) := by
  obtain ⟨hTokens, hMost, hAnn, hScratch⟩ := h
  cases hpc : s.pc1 with
  | xout =>
    -- nothing is under way, so the new packet is the only one
    have hEq := hGuard hpc
    rw [hpc] at hTokens
    simp only [pru1Step, hpc]
    refine ⟨?_, ?_, hAnn, fun _ => congrArg x hEq.symm⟩
    · simp only [Pc1.fresh] at hTokens ⊢
      omega
    · show s.published + 1 ≤ s.xined + 1
      omega
  | signal =>
    rw [hpc] at hTokens
    simp only [pru1Step, hpc]
    refine ⟨?_, hMost, fun _ _ => rfl, hScratch⟩
    -- were the event pending, two packets would be under way
    have hClear : s.evt18 = false := by
      cases hEvt : s.evt18 with
      | false => rfl
      | true =>
        simp only [Pc1.fresh, hEvt, Bool.toNat_true] at hTokens
        omega
    simp only [Pc1.fresh, hClear, Bool.toNat_false, Bool.toNat_true] at hTokens ⊢
    omega

/-- PRU1 touches the scratch pad, event 18 and nothing else. -/
theorem pru1Step_inv (h : Inv x s) (hGuard : s.pc1 = .xout → s.xined = s.published) :
    Inv x (pru1Step x s) := by
  have hSync := pru1Step_sync h.sync hGuard
  obtain ⟨-, hOut, ⟨hRing, hRegs, hAddr⟩, ⟨hEv, hCop, hArm⟩⟩ := h
  cases hpc : s.pc1 with
  | xout =>
    simp only [pru1Step, hpc] at hSync ⊢
    exact ⟨hSync, hOut, ⟨hRing, hRegs, hAddr⟩, ⟨hEv, hCop, hArm⟩⟩
  | signal =>
    simp only [pru1Step, hpc] at hSync ⊢
    exact ⟨hSync, hOut, ⟨hRing, hRegs, hAddr⟩, ⟨hEv, hCop, hArm⟩⟩

/-! ## PRU0 -/

theorem Half.num_lt (h : Half) : h.num < 2 := by
  cases h <;> decide

theorem pru0Step_sync (h : Sync x s) (hStep : pru0Step s = some s') : Sync x s' := by
  obtain ⟨hTokens, hMost, hAnn, hScratch⟩ := h
  cases pru0Step_moves hStep with
  | wbs half hpc hEvt =>
    rw [hpc] at hTokens
    exact ⟨hTokens, hMost, fun _ _ => hEvt, hScratch⟩
  | sbco half hpc =>
    -- the pending event becomes the packet that XIN is about to take
    have hEvt := hAnn half hpc
    simp only [hpc, hEvt, Pc0.taking, Bool.toNat_true] at hTokens
    refine ⟨?_, hMost, nofun, hScratch⟩
    simp only [Pc0.taking, Bool.toNat_false]
    omega
  | xin half hpc =>
    simp only [hpc, Pc0.taking] at hTokens
    refine ⟨?_, ?_, nofun, ?_⟩
    · simp only [Pc0.taking]
      omega
    · show s.published ≤ s.xined + 1 + 1
      omega
    · intro hLt
      have : s.xined + 1 < s.published := hLt
      omega
  | raise half pc0 hpc hNext =>
    rw [hpc] at hTokens
    rcases hNext with ⟨-, rfl⟩ | ⟨-, rfl⟩
    · exact ⟨hTokens, hMost, nofun, hScratch⟩
    · exact ⟨hTokens, hMost, nofun, hScratch⟩
  | outerLoop hpc | load half hpc | sbbo half k hpc | sbboLast half k hpc | add half hpc
  | sub half hpc | qbne half hpc | qbneLast half hpc =>
    rw [hpc] at hTokens
    exact ⟨hTokens, hMost, nofun, hScratch⟩

theorem pru0Step_outline (h : Outline s) (hStep : pru0Step s = some s') : Outline s' := by
  unfold Outline at h
  cases pru0Step_moves hStep with
  | outerLoop hpc =>
    simp only [hpc] at h
    exact ⟨h.1, h.2, rfl⟩
  | load half hpc =>
    simp only [hpc] at h
    exact ⟨0, by omega, h.1, h.2.1, h.2.2, rfl⟩
  | wbs half hpc | sbco half hpc =>
    simp only [hpc] at h
    exact h
  | xin half hpc =>
    simp only [hpc] at h
    obtain ⟨d, hd, hPar, hX, h29, h27⟩ := h
    exact ⟨by omega, d, hd, hPar, congrArg (· + 1) hX, h29, h27⟩
  | sbbo half k hpc hMore =>
    simp only [hpc] at h
    exact ⟨hMore, h.2⟩
  | sbboLast half k hpc =>
    simp only [hpc] at h
    exact h.2
  | add half hpc =>
    simp only [hpc] at h
    obtain ⟨d, hd, hPar, hX, h29, h27⟩ := h
    refine ⟨d, hd, hPar, hX, ?_, h27⟩
    have hNum := half.num_lt
    show (s.r29 + 100) % 2 ^ 32 = _
    omega
  | sub half hpc =>
    simp only [hpc] at h
    obtain ⟨d, hd, hPar, hX, h29, h27⟩ := h
    refine ⟨d, hd, hPar, hX, h29, ?_⟩
    show (s.r27 + 2 ^ 32 - 1) % 2 ^ 32 + (d + 1) = 3840
    omega
  | qbne half hpc hMore =>
    simp only [hpc] at h
    obtain ⟨d, hd, hPar, hX, h29, h27⟩ := h
    exact ⟨d + 1, by omega, hPar, hX, h29, h27⟩
  | qbneLast half hpc hLast =>
    simp only [hpc] at h
    obtain ⟨d, hd, hPar, hX, h29, h27⟩ := h
    -- the half is full: 3840 packets
    obtain rfl : d = 3839 := by omega
    exact ⟨hPar, hX, h29, h27⟩
  | raise half pc0 hpc hNext =>
    simp only [hpc] at h
    obtain ⟨hPar, hX, h29, -⟩ := h
    -- raising the event is passing to the other half
    rcases hNext with ⟨rfl, rfl⟩ | ⟨rfl, rfl⟩
    · simp only [Half.num] at hPar h29
      refine ⟨?_, ?_, h29⟩
      · show (s.raised + 1) % 2 = 1
        omega
      · show s.xined = 3840 * (s.raised + 1)
        omega
    · simp only [Half.num] at hPar
      refine ⟨?_, ?_⟩
      · show (s.raised + 1) % 2 = 0
        omega
      · show s.xined = 3840 * (s.raised + 1)
        omega

/-- The address that `SBBO` writes byte `k` to is where the ring has its next
byte, and the byte is the next one of the stream. -/
theorem sbbo_next {h : Half} {k d : ℕ} (hk : k < 100) (hd : d < 3840)
    (hFill : Filling s h (d + 1) d d) (hRegs : s.regs = x (s.xined - 1)) :
    (100 * (s.xined - 1) + k) % 768000 = s.r29 + k ∧
      s.regs (Fin.ofNat pkgSize k) = byteAt x (100 * (s.xined - 1) + k) := by
  obtain ⟨hPar, hX, h29, -⟩ := hFill
  have hNum := h.num_lt
  refine ⟨by omega, ?_⟩
  have hDiv : (100 * (s.xined - 1) + k) / 100 = s.xined - 1 := by omega
  rw [hRegs, byteAt, hDiv]
  refine congrArg _ (Fin.ext ?_)
  show k % 100 = (100 * (s.xined - 1) + k) % 100
  omega

/-- One byte more in the shared memory. -/
theorem sbbo_push {half : Half} {k : ℕ} (h : Stored x s) (hOut : Outline s)
    (hpc : s.pc0 = .sbbo half k) :
    RingHolds 768000 (byteAt x) (100 * (s.xined - 1) + k + 1) (fun i =>
      Function.update s.ddr (s.r28 + s.r29 + k) (s.regs (Fin.ofNat pkgSize k)) (s.r28 + i)) ∧
      k < 100 ∧ 0 < s.xined := by
  obtain ⟨hRing, hRegs, -⟩ := h
  unfold Outline at hOut
  unfold Pipeline.stored at hRing
  simp only [hpc] at hOut hRing
  obtain ⟨hk, d, hd, hFill⟩ := hOut
  -- the address that is written is the next one of the ring
  have hNext := sbbo_next hk hd hFill (hRegs half k hpc)
  have hPush := hRing.push
  rw [hNext.1, ← hNext.2] at hPush
  have hUpd : Function.update (fun i => s.ddr (s.r28 + i)) (s.r29 + k)
      (s.regs (Fin.ofNat pkgSize k)) =
      fun i => Function.update s.ddr (s.r28 + s.r29 + k) (s.regs (Fin.ofNat pkgSize k))
        (s.r28 + i) := by
    funext i
    by_cases hi : i = s.r29 + k
    · rw [hi, ← Nat.add_assoc, Function.update_self, Function.update_self]
    · rw [Function.update_of_ne hi, Function.update_of_ne (by omega)]
  rw [hUpd] at hPush
  refine ⟨hPush, hk, ?_⟩
  have hX : s.xined = 3840 * s.raised + (d + 1) := hFill.2.1
  omega

theorem pru0Step_stored (h : Stored x s) (hSync : Sync x s) (hOut : Outline s)
    (hStep : pru0Step s = some s') : Stored x s' := by
  have hRing := h.ring
  have hRegs := h.regs
  have hAddr := h.ramAddr
  unfold Pipeline.stored at hRing
  cases pru0Step_moves hStep with
  | xin half hpc =>
    -- the packet read is the next one of the stream; none of it is stored yet
    have hTokens := hSync.tokens
    simp only [hpc, Pc0.taking] at hTokens
    have hScratch := hSync.scratch (by omega)
    simp only [hpc] at hRing
    exact ⟨hRing, fun _ _ _ => hScratch, hAddr⟩
  | sbbo half k hpc hMore =>
    obtain ⟨hPush, -, -⟩ := sbbo_push h hOut hpc
    exact ⟨hPush, fun _ _ _ => hRegs half k hpc, hAddr⟩
  | sbboLast half k hpc hLast =>
    obtain ⟨hPush, hk, hX⟩ := sbbo_push h hOut hpc
    -- the packet is stored to its end
    have hEnd : ¬k + 1 < 100 := hLast
    obtain rfl : k = 99 := by omega
    rw [show 100 * (s.xined - 1) + 99 + 1 = 100 * s.xined by omega] at hPush
    exact ⟨hPush, nofun, hAddr⟩
  | raise half pc0 hpc hNext =>
    simp only [hpc] at hRing
    rcases hNext with ⟨-, rfl⟩ | ⟨-, rfl⟩
    · exact ⟨hRing, nofun, hAddr⟩
    · exact ⟨hRing, nofun, hAddr⟩
  | outerLoop hpc | load half hpc | wbs half hpc | sbco half hpc | add half hpc | sub half hpc
  | qbne half hpc | qbneLast half hpc =>
    simp only [hpc] at hRing
    exact ⟨hRing, nofun, hAddr⟩

/-- PRU0 touches nothing of the ARM but event 19, and that at the end of a half
only. -/
theorem pru0Step_frame (hStep : pru0Step s = some s') :
    (s'.pcA = s.pcA ∧ s'.bufferIx = s.bufferIx ∧ s'.dbuffer = s.dbuffer ∧
      s'.woken = s.woken ∧ s'.copies = s.copies) ∧
    ((∀ h, s.pc0 ≠ .raise h) ∧ s'.evt19 = s.evt19 ∧ s'.raised = s.raised ∧
        s'.merged = s.merged ∨
      (∃ h, s.pc0 = .raise h) ∧ s'.evt19 = true ∧ s'.raised = s.raised + 1 ∧
        s'.merged = s.merged + s.evt19.toNat) := by
  cases pru0Step_moves hStep with
  | raise half pc0 hpc =>
    exact ⟨⟨rfl, rfl, rfl, rfl, rfl⟩, .inr ⟨⟨half, hpc⟩, rfl, rfl, rfl⟩⟩
  | outerLoop hpc | load half hpc | wbs half hpc | sbco half hpc | xin half hpc
  | sbbo half k hpc | sbboLast half k hpc | add half hpc | sub half hpc | qbne half hpc
  | qbneLast half hpc =>
    refine ⟨⟨rfl, rfl, rfl, rfl, rfl⟩, .inl ⟨fun half' hRaise => ?_, rfl, rfl, rfl⟩⟩
    exact absurd (hpc.symm.trans hRaise) nofun

theorem pru0Step_served (h : Served s) (hStep : pru0Step s = some s') : Served s' := by
  obtain ⟨hEv, hCop, hArm⟩ := h
  obtain ⟨⟨hA, hIx, -, hWoken, hCopies⟩, hSame | ⟨-, hEvt, hRaised, hMerged⟩⟩ :=
    pru0Step_frame hStep
  -- most steps of PRU0 do not concern the ARM
  · obtain ⟨-, hEvt, hRaised, hMerged⟩ := hSame
    refine ⟨?_, ?_, ?_⟩
    · rw [hRaised, hMerged, hWoken, hEvt, hEv]
    · rw [hWoken, hCopies, hA, hCop]
    · rw [hA, hIx, hCopies, hEvt]
      exact hArm
  · -- an event more: pending if none was, else merged
    refine ⟨?_, ?_, ?_⟩
    · rw [hRaised, hMerged, hWoken, hEvt, hEv, Bool.toNat_true]
      omega
    · rw [hWoken, hCopies, hA, hCop]
    · rw [hA, hIx, hCopies, hEvt]
      cases hpc : s.pcA <;> simp only [hpc] at hArm ⊢
      case clear src => exact ⟨hArm.1, hArm.2.1, trivial⟩
      all_goals exact hArm

theorem pru0Step_inv (h : Inv x s) (hStep : pru0Step s = some s') : Inv x s' where
  sync := pru0Step_sync h.sync hStep
  outline := pru0Step_outline h.outline hStep
  stored := pru0Step_stored h.stored h.sync h.outline hStep
  served := pru0Step_served h.served hStep

/-! ## ARM -/

theorem armStep_served (h : Served s) (hStep : armStep s = some s') : Served s' := by
  obtain ⟨hEv, hCop, hArm⟩ := h
  cases armStep_moves hStep with
  | idle hpc =>
    simp only [hpc] at hArm hCop
    refine ⟨hEv, hCop, hArm, ?_⟩
    show (if s.bufferIx = 0 then 0 else 384000) = 384000 * s.bufferIx
    split <;> omega
  | wait src hpc hEvt =>
    simp only [hpc] at hArm hCop
    exact ⟨hEv, hCop, hArm.1, hArm.2, hEvt⟩
  | clear src hpc =>
    simp only [hpc] at hArm hCop
    obtain ⟨hIx, hSrc, hEvt⟩ := hArm
    refine ⟨?_, congrArg (· + 1) hCop, hIx, hSrc, by omega⟩
    -- the pending event becomes a served one
    rw [hEvt, Bool.toNat_true] at hEv
    show s.raised = s.merged + (s.woken + 1) + 0
    omega
  | memcpy src k hpc hMore =>
    simp only [hpc] at hArm hCop
    exact ⟨hEv, hCop, hArm.1, hArm.2.1, hMore⟩
  | memcpyLast src k hpc hLast =>
    simp only [hpc, PcA.copying] at hArm hCop
    refine ⟨hEv, ?_, ?_⟩
    · simp only [List.length_append, List.length_singleton, PcA.copying]
      omega
    · simp only [List.length_append, List.length_singleton]
      omega
  | toggle hpc =>
    simp only [hpc] at hArm hCop
    refine ⟨hEv, hCop, ?_⟩
    show (if s.bufferIx = 0 then 1 else 0) = s.copies.length % 2
    split <;> omega

/-- The ARM writes neither the shared memory nor anything of the PRUs but
event 19. -/
theorem armStep_inv (h : Inv x s) (hStep : armStep s = some s') : Inv x s' := by
  have hServed := armStep_served h.served hStep
  obtain ⟨⟨hTokens, hMost, hAnn, hScratch⟩, hOut, ⟨hRing, hRegs, hAddr⟩, -⟩ := h
  cases armStep_moves hStep with
  | idle | wait | clear | memcpy | memcpyLast | toggle =>
    exact ⟨⟨hTokens, hMost, hAnn, hScratch⟩, hOut, ⟨hRing, hRegs, hAddr⟩, hServed⟩

/-! ## Runs -/

theorem step_inv {a : Agent} (h : Inv x s) (hGuard : Handshake s a)
    (hStep : step x s a = some s') : Inv x s' := by
  cases a with
  | pru1 =>
    obtain rfl : pru1Step x s = s' := Option.some.inj hStep
    exact pru1Step_inv h (hGuard rfl)
  | pru0 => exact pru0Step_inv h hStep
  | arm => exact armStep_inv h hStep

/-- The invariant holds after every run in which the PRUs keep their
handshake, whatever the ARM does. -/
theorem handshake_inv {addr : ℕ} {mem : ℕ → Byte}
    (h : Run (step x) Handshake (init addr mem) s) : Inv x s :=
  h.invariant (init_inv addr mem) fun _ _ _ hInv hGuard hStep => step_inv hInv hGuard hStep

/-! ## What the ARM finds in the shared memory -/

/-- An event is raised for each half that is stored, and for no other. -/
theorem Outline.bounds (h : Outline s) :
    384000 * s.raised ≤ s.stored ∧ s.stored ≤ 384000 * (s.raised + 1) ∧
      s.stored ≤ 100 * s.xined := by
  unfold Outline at h
  unfold Pipeline.stored
  -- between two events the packets of one half have come in, as far as `pc0` says
  cases hpc : s.pc0 with
  | outerLoop | load half =>
    simp only [hpc] at h ⊢
    omega
  | wbs half | sbco half | xin half | add half | sub half | qbne half =>
    simp only [hpc] at h ⊢
    obtain ⟨d, hd, -, hX, -⟩ := h
    omega
  | sbbo half k =>
    simp only [hpc] at h ⊢
    obtain ⟨hk, d, hd, -, hX, -⟩ := h
    omega
  | raise half =>
    simp only [hpc] at h ⊢
    obtain ⟨-, hX, -⟩ := h
    omega

/-- Half `e` of the stream, counted from 0, is in the shared memory from the
event that announces it until PRU0 raises the next event: PRU0 is then busy
with the other half. -/
theorem Inv.half_intact (h : Inv x s) {e j : ℕ} (hRaised : s.raised = e + 1) (hj : j < 384000) :
    s.ddr (s.ramAddr + 384000 * (e % 2) + j) = byteAt x (384000 * e + j) := by
  obtain ⟨hLow, hHigh, -⟩ := h.outline.bounds
  have hRing := h.stored.ring (384000 * e + j) (by omega) (by omega)
  rw [← hRing, h.stored.ramAddr, Nat.add_assoc]
  exact congrArg (fun i => s.ddr (s.r28 + i)) (by omega)

end EnergyMeter.Daq

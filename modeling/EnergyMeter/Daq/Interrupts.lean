import EnergyMeter.Daq.Delivery
import EnergyMeter.Daq.Readout
import EnergyMeter.Daq.Setup

/-!
# Acquisition pipeline — the interrupt controller between the processors

In `Daq.Model` an event is a flag that one side sets and the other one waits for and clears.
Here it is what the code does: a PRU raises a system event, the controller leads it to a line
as `pru_setup` has programmed it, PRU0 waits for its line, and the ARM for a counter of
`/dev/uio0` that the kernel advances when the line comes up, turning the line off;
`prussdrv_pru_clear_event` clears the event and turns the line on again.

* `Wired`, `Wired.step` — the pipeline with its flags in the controller.
* `Wiring` — which line each event has; no step changes it.
* `Phase` — how far the ARM and the kernel are with the line of event 19.

Main results:

* `wired_run_iff` — under any promises about the runs, the flags of `Daq.Model` are what the
  controller makes of them.
* `daqRun_numbers` — the numbers that `DAQ_Run` returns are consecutive, however many events
  were merged.

The handler of the kernel is not part of the repository; `Masks` is what the comments of
`prussdrv.c` rely on.
-/

namespace EnergyMeter.Daq

open Lib Lib.Intc
open Driver (intcRegister pruIntcSicrReg pruIntcSecr1Reg pruIntcHieisrReg prussIntcInitdata Routed)

/-! ## Stores -/

/-- A store at an offset of the controller. -/
def intcStore (c : Controller) (offset : ℕ) (v : BitVec 32) : Controller :=
  match intcRegister offset with
  | some r => c.write r v
  | none => c

/-- `PRU0_ARM_INTERRUPT` of the program of PRU0. -/
def pru0ArmInterrupt : ℕ := 3

/-- A store into `r31.b0` of a PRU: with `PRU_INT_VALID` in it the low four bits are the number
of one of the events from 16 on. -/
def pruEvent (c : Controller) (v : ℕ) : Controller :=
  if v.testBit 5 then c.raise (16 + v % 16) else c

/-- The first store of `prussdrv_pru_clear_event` for an event below 32. -/
def clearStatus (c : Controller) (sysevent : ℕ) : Controller :=
  intcStore c pruIntcSecr1Reg (1#32 <<< sysevent)

/-- The second one. -/
def reenableHost (c : Controller) (hostInterrupt : ℕ) : Controller :=
  intcStore c pruIntcHieisrReg (BitVec.ofNat 32 (hostInterrupt + 2))

/-- What `prussdrv.c` relies on: the handler of the first line of the host turns this line off
and does nothing else. -/
structure Masks (isr : Controller → Controller) : Prop where
  status : ∀ c, (isr c).status = c.status
  routes : ∀ c, Controller.SameRoutes c (isr c)
  hostEnabled : ∀ c, (isr c).hostEnabled = Function.update c.hostEnabled 2 false

/-! ## The system -/

/-- The flags of events 18 and 19 in `rest` are not used. -/
structure Wired where
  rest : Pipeline
  intc : Controller
  /-- The interrupts that `/dev/uio0` has counted. -/
  count : UInt32
  /-- The count that `read` has returned last. -/
  seen : UInt32
  /-- The ARM is between the two stores of `prussdrv_pru_clear_event`. -/
  reenable : Bool
  /-- History: `n` of the calls of `DAQ_Run`. -/
  eventN : List UInt32

inductive Mover
  | agent (a : Agent)
  | /-- the handler of the first line of the host -/ kernel
  deriving DecidableEq, Repr

namespace Wired

/-- What `Daq.Model` sees. -/
def pipeline (w : Wired) : Pipeline :=
  { w.rest with evt18 := w.intc.status 18, evt19 := w.intc.status 19 }

def pru1Step (x : ℕ → Packet) (w : Wired) : Wired :=
  match w.rest.pc1 with
  | .xout => { w with rest := Daq.pru1Step x w.rest }
  | .signal =>
    { w with
      rest := { w.rest with pc1 := .xout }
      intc := pruEvent w.intc (pruIntValid + pru1Pru0Interrupt) }

/-- Bit 30 of `r31` is line 0. `SBCO` stores `r0`, which is 18, through `C0`. -/
def pru0Step (w : Wired) : Option Wired :=
  match w.rest.pc0 with
  | .wbs h => if w.intc.line 0 then some { w with rest := { w.rest with pc0 := .sbco h } } else none
  | .sbco h =>
    some { w with
      rest := { w.rest with pc0 := .xin h }
      intc := intcStore w.intc 0x24 18 }
  | .raise h =>
    some { w with
      rest := { w.rest with
        pc0 := match h with
          | .one => .load .two
          | .two => .outerLoop
        raised := w.rest.raised + 1
        merged := if w.intc.status 19 then w.rest.merged + 1 else w.rest.merged }
      intc := pruEvent w.intc (pruIntValid + pru0ArmInterrupt) }
  | _ => (Daq.pru0Step w.rest).map fun rest => { w with rest }

/-- `read` blocks until the count is another one than that it has returned before. -/
def armStep (w : Wired) : Option Wired :=
  if w.reenable then some { w with reenable := false, intc := reenableHost w.intc 0 }
  else
    match w.rest.pcA with
    | .wait src =>
      if w.count ≠ w.seen then
        some { w with
          rest := { w.rest with pcA := .clear src }
          seen := w.count
          eventN := w.eventN ++ [w.count] }
      else none
    | .clear src =>
      some { w with
        rest := { w.rest with pcA := .memcpy src 0, woken := w.rest.woken + 1 }
        reenable := true
        intc := clearStatus w.intc Driver.pru0ArmInterrupt }
    | _ => (Daq.armStep w.rest).map fun rest => { w with rest }

/-- The handler runs when its line is up. -/
def kernelStep (isr : Controller → Controller) (w : Wired) : Option Wired :=
  if w.intc.line 2 then some { w with intc := isr w.intc, count := w.count + 1 } else none

def step (isr : Controller → Controller) (x : ℕ → Packet) (w : Wired) : Mover → Option Wired
  | .agent .pru1 => some (w.pru1Step x)
  | .agent .pru0 => w.pru0Step
  | .agent .arm => w.armStep
  | .kernel => w.kernelStep isr

/-- After `DAQ_Setup` for the area at `addr`: PRU0 has read its address from its data memory.
`/dev/uio0` has counted `n` interrupts by then. -/
def init (d : Driver.Session) (n : UInt32) (addr : BitVec 32) (mem : ℕ → Byte) : Wired where
  rest := { Daq.init addr.toNat mem with r28 := (d.pruss.words 0).toNat }
  intc := d.pruss.intc
  count := n
  seen := n
  reenable := false
  eventN := []

/-- The promises of a guard of `Daq.Model`; the kernel promises nothing. -/
def guard (G : Pipeline → Agent → Prop) (w : Wired) : Mover → Prop
  | .agent a => G w.pipeline a
  | .kernel => True

end Wired

/-! ## The controller -/

/-- Of the events that are enabled only 18 and 19 are ever raised. -/
structure Wiring (c : Controller) : Prop where
  global : c.global = true
  line0 : c.hostEnabled 0 = true
  enabled18 : c.enabled 18 = true
  enabled19 : c.enabled 19 = true
  route18 : c.route 18 = 0
  route19 : c.route 19 = 2
  silent : ∀ e, c.enabled e = true → c.status e = true → e = 18 ∨ e = 19

namespace Wiring

variable {c c' : Controller}

/-- PRU0 is called by event 18 and by nothing else. -/
theorem line_zero (h : Wiring c) : c.line 0 = c.status 18 := by
  rw [Bool.eq_iff_iff, Controller.line_iff]
  constructor
  · rintro ⟨-, -, e, -, hStatus, hEnabled, hRoute⟩
    rcases h.silent e hEnabled hStatus with rfl | rfl
    · exact hStatus
    · rw [h.route19] at hRoute
      cases hRoute
  · intro hStatus
    exact ⟨h.global, h.line0, 18, by decide, hStatus, h.enabled18, h.route18⟩

/-- The ARM by event 19, while its line is on. -/
theorem line_two (h : Wiring c) : c.line 2 = (c.hostEnabled 2 && c.status 19) := by
  rw [Bool.eq_iff_iff, Controller.line_iff, Bool.and_eq_true]
  constructor
  · rintro ⟨-, hHost, e, -, hStatus, hEnabled, hRoute⟩
    rcases h.silent e hEnabled hStatus with rfl | rfl
    · rw [h.route18] at hRoute
      cases hRoute
    · exact ⟨hHost, hStatus⟩
  · rintro ⟨hHost, hStatus⟩
    exact ⟨h.global, hHost, 19, by decide, hStatus, h.enabled19, h.route19⟩

/-- What keeps the routes keeps the wiring, if it raises no other event. -/
theorem of_sameRoutes (h : Wiring c) (hSame : c.SameRoutes c')
    (hLine : c'.hostEnabled 0 = c.hostEnabled 0)
    (hStatus : ∀ e, c'.status e = true → c.status e = true ∨ e = 18 ∨ e = 19) : Wiring c' where
  global := hSame.global.trans h.global
  line0 := hLine.trans h.line0
  enabled18 := (congrFun hSame.enabled 18).trans h.enabled18
  enabled19 := (congrFun hSame.enabled 19).trans h.enabled19
  route18 := (hSame.route 18).trans h.route18
  route19 := (hSame.route 19).trans h.route19
  silent e hEnabled hPending := by
    rcases hStatus e hPending with hOld | hNew
    · exact h.silent e ((congrFun hSame.enabled e).symm.trans hEnabled) hOld
    · exact hNew

end Wiring

section Stores

variable {c : Controller}

/-- PRU1 raises event 18. -/
theorem pru1_event (c : Controller) : pruEvent c (pruIntValid + pru1Pru0Interrupt) = c.raise 18 := rfl

/-- PRU0 raises event 19. -/
theorem pru0_event (c : Controller) : pruEvent c (pruIntValid + pru0ArmInterrupt) = c.raise 19 := rfl

theorem sicr_store (c : Controller) :
    intcStore c 0x24 18 = { c with status := Function.update c.status 18 false } := rfl

theorem reenableHost_zero (c : Controller) :
    reenableHost c 0 = { c with hostEnabled := Function.update c.hostEnabled 2 true } := rfl

/-- The mask of `SECR1` has one bit. -/
theorem clearStatus_eq (c : Controller) {e : ℕ} (he : e < 32) :
    clearStatus c e = { c with status := Function.update c.status e false } := by
  have hReg : intcRegister pruIntcSecr1Reg = some (.statusClear 0) := by decide
  rw [clearStatus, intcStore, hReg]
  refine congrArg (fun status => { c with status }) (funext fun e' => ?_)
  show (c.status e' && !masked 0 (1#32 <<< e) e') = _
  rw [masked, ← BitVec.twoPow_eq, BitVec.getLsbD_twoPow]
  by_cases hEq : e' = e
  · subst hEq
    rw [Function.update_self, Nat.div_eq_of_lt he, Nat.mod_eq_of_lt he, decide_eq_true he,
      decide_eq_true rfl, decide_eq_true rfl]
    exact Bool.and_false _
  · rw [Function.update_of_ne hEq]
    by_cases hWord : e' / 32 = 0
    · have hBit : ¬e = e' % 32 := by omega
      rw [decide_eq_false hBit, Bool.and_false, Bool.and_false, Bool.not_false, Bool.and_true]
    · rw [decide_eq_false hWord, Bool.false_and, Bool.not_false, Bool.and_true]

/-- The events that the PRUs raise leave the wiring. -/
theorem Wiring.raise (h : Wiring c) {e : ℕ} (he : e = 18 ∨ e = 19) : Wiring (c.raise e) := by
  refine h.of_sameRoutes ⟨rfl, rfl, rfl, rfl⟩ rfl fun e' hPending => ?_
  by_cases hEq : e' = e
  · exact .inr (hEq ▸ he)
  · have hOld : Function.update c.status e true e' = true := hPending
    rw [Function.update_of_ne hEq] at hOld
    exact .inl hOld

/-- And so does an event that is cleared. -/
theorem Wiring.clear (h : Wiring c) (e : ℕ) :
    Wiring { c with status := Function.update c.status e false } := by
  refine h.of_sameRoutes ⟨rfl, rfl, rfl, rfl⟩ rfl fun e' hPending => .inl ?_
  have hOld : Function.update c.status e false e' = true := hPending
  by_cases hEq : e' = e
  · rw [hEq, Function.update_self] at hOld
    cases hOld
  · rwa [Function.update_of_ne hEq] at hOld

theorem Wiring.reenable (h : Wiring c) :
    Wiring { c with hostEnabled := Function.update c.hostEnabled 2 true } := by
  refine h.of_sameRoutes ⟨rfl, rfl, rfl, rfl⟩ ?_ fun _ => .inl
  show Function.update c.hostEnabled 2 true 0 = c.hostEnabled 0
  rw [Function.update_of_ne (by decide)]

theorem Wiring.masked (h : Wiring c) {isr : Controller → Controller} (hIsr : Masks isr) :
    Wiring (isr c) := by
  refine h.of_sameRoutes (hIsr.routes c) ?_ fun e hPending => .inl ?_
  · rw [hIsr.hostEnabled, Function.update_of_ne (by decide)]
  · rwa [hIsr.status] at hPending

/-- **The wiring after `pru_setup`**, where no event that the configuration does not know had
been enabled before. -/
theorem wiring_of_routed {c₀ : Controller} (h : Routed prussIntcInitdata c₀ c)
    (hReset : ∀ e, c₀.enabled e = true → e ∈ prussIntcInitdata.sysevtsEnabled.map BitVec.toNat) :
    Wiring c := by
  have hCh18 : c.channelOf 18 = 0 := (h.channelOf 18 (by decide)).trans (by decide)
  have hCh19 : c.channelOf 19 = 2 := (h.channelOf 19 (by decide)).trans (by decide)
  refine ⟨h.global, ?_, ?_, ?_, ?_, ?_, fun e hEnabled hPending => ?_⟩
  · rw [h.hostEnabled]
    exact Bool.or_true _
  · rw [h.enabled]
    exact Bool.or_true _
  · rw [h.enabled]
    exact Bool.or_true _
  · rw [Controller.route, hCh18]
    exact (h.hostOf 0 (by decide)).trans (by decide)
  · rw [Controller.route, hCh19]
    exact (h.hostOf 2 (by decide)).trans (by decide)
  · -- every event that is enabled has been cleared
    have hKnown : e ∈ prussIntcInitdata.sysevtsEnabled.map BitVec.toNat := by
      rw [h.enabled, Bool.or_eq_true] at hEnabled
      exact hEnabled.elim (hReset e) of_decide_eq_true
    rw [h.status, decide_eq_true hKnown, Bool.not_true, Bool.and_false] at hPending
    cases hPending

end Stores

/-! ## What the pipeline sees -/

section View

variable {x : ℕ → Packet} {w w' : Wired}

namespace Wired

theorem pru1_view (x : ℕ → Packet) (w : Wired) :
    (w.pru1Step x).pipeline = Daq.pru1Step x w.pipeline := by
  unfold pru1Step Daq.pru1Step
  cases hpc : w.rest.pc1 with
  | xout => simp only [pipeline, hpc]
  | signal =>
    simp only [pipeline, hpc, pru1_event]
    rfl

theorem pru0_view (h : Wiring w.intc) : w.pru0Step.map pipeline = Daq.pru0Step w.pipeline := by
  unfold pru0Step
  -- PRU0 waits for line 0, clears its event and raises the one of the host: all else is its own
  cases hpc : w.rest.pc0 with
  | wbs half =>
    simp only [Daq.pru0Step, pipeline, hpc, h.line_zero]
    by_cases hPending : w.intc.status 18 = true
    · rw [if_pos hPending, if_pos hPending]
      rfl
    · rw [if_neg hPending, if_neg hPending]
      rfl
  | sbco half =>
    simp only [Daq.pru0Step, pipeline, hpc, sicr_store]
    rfl
  | raise half =>
    simp only [Daq.pru0Step, pipeline, hpc, pru0_event]
    rfl
  | outerLoop | load half | xin half | sbbo half k | add half | sub half | qbne half =>
    simp only [Daq.pru0Step, pipeline, hpc]
    rfl

/-- The ARM outside `prussdrv_pru_clear_event`, where the count agrees with the flag. -/
theorem arm_view (hRe : w.reenable = false)
    (hWait : ∀ src, w.rest.pcA = .wait src → (w.count ≠ w.seen ↔ w.intc.status 19 = true)) :
    w.armStep.map pipeline = Daq.armStep w.pipeline := by
  unfold armStep
  rw [hRe, if_neg Bool.false_ne_true]
  -- the wait is over when the count of the device has changed
  cases hpc : w.rest.pcA with
  | wait src =>
    simp only [Daq.armStep, pipeline, hpc]
    by_cases hPending : w.intc.status 19 = true
    · rw [if_pos hPending, if_pos ((hWait src hpc).mpr hPending)]
      rfl
    · rw [if_neg hPending, if_neg fun hNe => hPending ((hWait src hpc).mp hNe)]
      rfl
  | clear src =>
    have hClear := clearStatus_eq w.intc (show Driver.pru0ArmInterrupt < 32 by decide)
    simp only [Daq.armStep, pipeline, hpc, hClear]
    rfl
  | memcpy src k =>
    simp only [Daq.armStep, pipeline, hpc]
    split <;> rfl
  | idle | toggle =>
    simp only [Daq.armStep, pipeline, hpc]
    rfl

end Wired

end View

/-! ## The invariant -/

/-- The line of event 19 is on until the handler has run, and off until the ARM has cleared
the event; the count is ahead of the ARM only between the two. -/
inductive Phase (w : Wired) : Prop
  | armed (hLine : w.intc.hostEnabled 2 = true) (hCount : w.count = w.seen)
      (hRe : w.reenable = false) (hpc : ∀ src, w.rest.pcA ≠ .clear src)
  | fired (hLine : w.intc.hostEnabled 2 = false) (hCount : w.count = w.seen + 1)
      (hRe : w.reenable = false) (hpc : ∀ src, w.rest.pcA ≠ .clear src)
      (hPending : w.intc.status 19 = true)
  | read (hLine : w.intc.hostEnabled 2 = false) (hCount : w.count = w.seen)
      (hRe : w.reenable = false) (src : ℕ) (hpc : w.rest.pcA = .clear src)
      (hPending : w.intc.status 19 = true)
  | cleared (hLine : w.intc.hostEnabled 2 = false) (hCount : w.count = w.seen)
      (hRe : w.reenable = true) (src : ℕ) (hpc : w.rest.pcA = .memcpy src 0)

/-- The event that is pending has not got its number yet. -/
def PcA.unread (pc : PcA) (pending : Bool) : ℕ :=
  match pc with
  | .clear _ => 0
  | _ => pending.toNat

/-- An event more gets a number of its own or none. -/
theorem PcA.unread_raise {pc : PcA} {pending : Bool} (h : ∀ src, pc = .clear src → pending = true)
    (merged : ℕ) :
    (if pending then merged + 1 else merged) + pc.unread true = merged + pc.unread pending + 1 := by
  cases pc with
  | clear src =>
    rw [h src rfl]
    rfl
  | idle | wait src | memcpy src k | toggle => cases pending <;> rfl

structure Wired.Inv (n : UInt32) (w : Wired) : Prop where
  wiring : Wiring w.intc
  phase : Phase w
  /-- The numbers are consecutive. -/
  numbers : w.eventN = (List.range w.eventN.length).map fun i => n + 1 + UInt32.ofNat i
  seen : w.seen = n + UInt32.ofNat w.eventN.length
  /-- What is merged gets none. -/
  raised : w.rest.raised = w.rest.merged + w.eventN.length + w.rest.pcA.unread (w.intc.status 19)

section Steps

variable {x : ℕ → Packet} {n : UInt32} {w w' : Wired}

theorem Wired.Inv.number_get (h : w.Inv n) {i : ℕ} (hi : i < w.eventN.length) :
    w.eventN[i] = n + 1 + UInt32.ofNat i := by
  rw [List.getElem_of_eq h.numbers hi, List.getElem_map, List.getElem_range]

/-- `read` returns exactly while the event is pending, once the handler has run. -/
theorem Phase.count_ne_iff (h : Phase w) {src : ℕ} (hpc : w.rest.pcA = .wait src)
    (hLine : w.intc.line 2 = false) (hWiring : Wiring w.intc) :
    w.count ≠ w.seen ↔ w.intc.status 19 = true := by
  cases h with
  | armed hOn hCount =>
    rw [hWiring.line_two, hOn, Bool.true_and] at hLine
    rw [hLine]
    exact iff_of_false (not_not.mpr hCount) Bool.false_ne_true
  | fired hOff hCount _ _ hPending =>
    refine iff_of_true (fun hEq => ?_) hPending
    rw [hCount] at hEq
    exact absurd (UInt32.add_eq_left.mp hEq) (by decide)
  | read _ _ _ src' hpc' => exact absurd (hpc.symm.trans hpc') nofun
  | cleared _ _ _ src' hpc' => exact absurd (hpc.symm.trans hpc') nofun

theorem Phase.pending (h : Phase w) {src : ℕ} (hpc : w.rest.pcA = .clear src) :
    w.intc.status 19 = true := by
  cases h with
  | read _ _ _ _ _ hPending => exact hPending
  | fired _ _ _ _ hPending => exact hPending
  | armed _ _ _ hNot => exact absurd hpc (hNot src)
  | cleared _ _ _ src' hpc' => exact absurd (hpc.symm.trans hpc') nofun

theorem Phase.pending_of_ne (h : Phase w) (hNe : w.count ≠ w.seen) : w.intc.status 19 = true := by
  cases h with
  | fired _ _ _ _ hPending => exact hPending
  | armed _ hCount | read _ hCount | cleared _ hCount => exact absurd hCount hNe

/-- A step of others that leaves the ARM, the line and the count and clears no event 19. -/
theorem Phase.frame (h : Phase w) (hpcA : w'.rest.pcA = w.rest.pcA)
    (hLine : w'.intc.hostEnabled 2 = w.intc.hostEnabled 2) (hCount : w'.count = w.count)
    (hSeen : w'.seen = w.seen) (hRe : w'.reenable = w.reenable)
    (hStatus : w.intc.status 19 = true → w'.intc.status 19 = true) : Phase w' := by
  cases h with
  | armed hOn hEq hRe' hpc =>
    exact .armed (hLine.trans hOn) (by rw [hCount, hSeen, hEq]) (hRe.trans hRe') (hpcA ▸ hpc)
  | fired hOff hEq hRe' hpc hPending =>
    exact .fired (hLine.trans hOff) (by rw [hCount, hSeen, hEq]) (hRe.trans hRe') (hpcA ▸ hpc)
      (hStatus hPending)
  | read hOff hEq hRe' src hpc hPending =>
    exact .read (hLine.trans hOff) (by rw [hCount, hSeen, hEq]) (hRe.trans hRe') src
      (hpcA.trans hpc) (hStatus hPending)
  | cleared hOff hEq hRe' src hpc =>
    exact .cleared (hLine.trans hOff) (by rw [hCount, hSeen, hEq]) (hRe.trans hRe') src
      (hpcA.trans hpc)

theorem Wired.pru1Step_inv (h : w.Inv n) : (w.pru1Step x).Inv n := by
  obtain ⟨hWiring, hPhase, hNumbers, hSeen, hRaised⟩ := h
  unfold Wired.pru1Step
  cases hpc : w.rest.pc1 with
  | xout =>
    simp only [Daq.pru1Step, hpc]
    exact ⟨hWiring, hPhase.frame rfl rfl rfl rfl rfl id, hNumbers, hSeen, hRaised⟩
  | signal =>
    simp only [pru1_event]
    exact ⟨hWiring.raise (.inl rfl), hPhase.frame rfl rfl rfl rfl rfl id, hNumbers, hSeen, hRaised⟩

theorem Wired.pru0Step_inv (h : w.Inv n) (hStep : w.pru0Step = some w') : w'.Inv n := by
  obtain ⟨hWiring, hPhase, hNumbers, hSeen, hRaised⟩ := h
  unfold Wired.pru0Step at hStep
  cases hpc : w.rest.pc0 with
  | wbs half =>
    simp only [hpc, Option.ite_none_right_eq_some, Option.some.injEq] at hStep
    obtain ⟨-, rfl⟩ := hStep
    exact ⟨hWiring, hPhase.frame rfl rfl rfl rfl rfl id, hNumbers, hSeen, hRaised⟩
  | sbco half =>
    simp only [hpc, Option.some.injEq, sicr_store] at hStep
    subst hStep
    exact ⟨hWiring.clear 18, hPhase.frame rfl rfl rfl rfl rfl id, hNumbers, hSeen, hRaised⟩
  | raise half =>
    simp only [hpc, Option.some.injEq, pru0_event] at hStep
    subst hStep
    refine ⟨hWiring.raise (.inr rfl), hPhase.frame rfl rfl rfl rfl rfl fun _ => rfl, hNumbers, hSeen,
      ?_⟩
    -- a signal to an event that is pending is merged, any other one waits to be read
    have hMore := PcA.unread_raise (fun src hClear => hPhase.pending hClear) w.rest.merged
    show w.rest.raised + 1 = (if w.intc.status 19 then w.rest.merged + 1 else w.rest.merged) +
      w.eventN.length + w.rest.pcA.unread true
    omega
  | outerLoop | load half | xin half | sbbo half k | add half | sub half | qbne half =>
    simp only [hpc, Option.map_eq_some_iff] at hStep
    obtain ⟨rest, hRest, rfl⟩ := hStep
    obtain ⟨⟨hA, -⟩, ⟨-, -, hRaised', hMerged'⟩ | ⟨⟨half', hRaise⟩, -⟩⟩ := pru0Step_frame hRest
    · refine ⟨hWiring, hPhase.frame hA rfl rfl rfl rfl id, hNumbers, hSeen, ?_⟩
      show rest.raised = rest.merged + w.eventN.length + rest.pcA.unread (w.intc.status 19)
      rw [hRaised', hMerged', hA, hRaised]
    · exact absurd (hpc.symm.trans hRaise) nofun

/-- A step of the ARM outside the two calls of the driver. -/
theorem armStep_unread {s s' : Pipeline} (hStep : Daq.armStep s = some s')
    (hWait : ∀ src, s.pcA ≠ .wait src) (hClear : ∀ src, s.pcA ≠ .clear src) :
    (∀ src, s'.pcA ≠ .clear src) ∧ s'.pcA.unread = s.pcA.unread := by
  cases armStep_moves hStep with
  | wait src hpc => exact absurd hpc (hWait src)
  | clear src hpc => exact absurd hpc (hClear src)
  | idle hpc | memcpy src k hpc | memcpyLast src k hpc | toggle hpc =>
    refine ⟨fun src' hpc' => absurd hpc' nofun, ?_⟩
    rw [hpc]
    rfl

/-- One more entry of a list of numbers. -/
theorem range_concat {α : Type*} {f : ℕ → α} {l : List α} {e : α}
    (h : l = (List.range l.length).map f) (he : e = f l.length) :
    l ++ [e] = (List.range (l ++ [e]).length).map f := by
  rw [List.length_append, List.length_singleton, List.range_succ, List.map_append, ← h, he]
  rfl

theorem Wired.armStep_inv (h : w.Inv n) (hStep : w.armStep = some w') : w'.Inv n := by
  obtain ⟨hWiring, hPhase, hNumbers, hSeen, hRaised⟩ := h
  unfold Wired.armStep at hStep
  cases hRe : w.reenable with
  | true =>
    -- the line is turned on again
    simp only [hRe, if_true, Option.some.injEq, reenableHost_zero] at hStep
    subst hStep
    cases hPhase with
    | cleared _ hCount _ src hpc =>
      refine ⟨hWiring.reenable, .armed ?_ hCount rfl ?_, hNumbers, hSeen, hRaised⟩
      · show Function.update w.intc.hostEnabled 2 true 2 = true
        rw [Function.update_self]
      · intro src' hpc'
        exact absurd (hpc.symm.trans hpc') nofun
    | armed _ _ hRe' | fired _ _ hRe' | read _ _ hRe' =>
      rw [hRe'] at hRe
      cases hRe
  | false =>
    rw [hRe, if_neg Bool.false_ne_true] at hStep
    cases hpc : w.rest.pcA with
    | wait src =>
      simp only [hpc, Option.ite_none_right_eq_some, Option.some.injEq] at hStep
      obtain ⟨hNe, rfl⟩ := hStep
      cases hPhase with
      | fired hLine hCount _ _ hPending =>
        -- the number is the next one
        have hNext : w.count = n + 1 + UInt32.ofNat w.eventN.length := by
          rw [hCount, hSeen, UInt32.add_assoc, UInt32.add_comm (UInt32.ofNat _), ← UInt32.add_assoc]
        refine ⟨hWiring, .read hLine rfl rfl src rfl hPending, range_concat hNumbers hNext, ?_, ?_⟩
        · show w.count = n + UInt32.ofNat (w.eventN ++ [w.count]).length
          rw [List.length_append, List.length_singleton, UInt32.ofNat_add, hCount, hSeen,
            UInt32.add_assoc]
          rfl
        · show w.rest.raised = w.rest.merged + (w.eventN ++ [w.count]).length + 0
          rw [List.length_append, List.length_singleton, hRaised, hpc, hPending]
          rfl
      | armed _ hCount | read _ hCount | cleared _ hCount => exact absurd hCount hNe
    | clear src =>
      simp only [hpc, Option.some.injEq] at hStep
      rw [clearStatus_eq w.intc (show Driver.pru0ArmInterrupt < 32 by decide)] at hStep
      subst hStep
      cases hPhase with
      | read hLine hCount _ _ _ hPending =>
        refine ⟨hWiring.clear 19, .cleared hLine hCount rfl src rfl, hNumbers, hSeen, ?_⟩
        show w.rest.raised = w.rest.merged + w.eventN.length +
          (Function.update w.intc.status 19 false 19).toNat
        rw [Function.update_self, hRaised, hpc]
        rfl
      | armed _ _ _ hpc' | fired _ _ _ hpc' => exact absurd hpc (hpc' src)
      | cleared _ _ hRe' =>
        rw [hRe'] at hRe
        cases hRe
    | idle | memcpy src k | toggle =>
      simp only [hpc, Option.map_eq_some_iff] at hStep
      obtain ⟨rest, hRest, rfl⟩ := hStep
      obtain ⟨hNot, hUnread⟩ := armStep_unread hRest (by rw [hpc]; nofun) (by rw [hpc]; nofun)
      have hSame := armStep_frame hRest
      refine ⟨hWiring, ?_, hNumbers, hSeen, ?_⟩
      · cases hPhase with
        | armed hLine hCount => exact .armed hLine hCount rfl hNot
        | fired hLine hCount _ _ hPending => exact .fired hLine hCount rfl hNot hPending
        | read _ _ _ src' hpc' => exact absurd (hpc.symm.trans hpc') nofun
        | cleared _ _ hRe' =>
          rw [hRe'] at hRe
          cases hRe
      · show rest.raised = rest.merged + w.eventN.length + rest.pcA.unread (w.intc.status 19)
        rw [hSame.raised, hSame.merged, hUnread, hRaised]

/-- The handler runs once, and then not until its line is on again. -/
theorem Wired.kernelStep_inv {isr : Controller → Controller} (hIsr : Masks isr) (h : w.Inv n)
    (hStep : w.kernelStep isr = some w') : w'.Inv n ∧ w'.pipeline = w.pipeline := by
  obtain ⟨hWiring, hPhase, hNumbers, hSeen, hRaised⟩ := h
  simp only [Wired.kernelStep, Option.ite_none_right_eq_some, Option.some.injEq] at hStep
  obtain ⟨hLine, rfl⟩ := hStep
  rw [hWiring.line_two, Bool.and_eq_true] at hLine
  obtain ⟨hOn, hPending⟩ := hLine
  have hStatus := congrFun (hIsr.status w.intc)
  refine ⟨⟨hWiring.masked hIsr, ?_, hNumbers, hSeen, ?_⟩, ?_⟩
  · cases hPhase with
    | armed _ hCount hRe hpc =>
      refine .fired ?_ (congrArg (· + 1) hCount) hRe hpc ((hStatus 19).trans hPending)
      show (isr w.intc).hostEnabled 2 = false
      rw [hIsr.hostEnabled, Function.update_self]
    -- the handler does not run while its line is off
    | fired hOff | read hOff | cleared hOff =>
      rw [hOff] at hOn
      cases hOn
  · show w.rest.raised = w.rest.merged + w.eventN.length + w.rest.pcA.unread ((isr w.intc).status 19)
    rw [hStatus, hRaised]
  · simp only [Wired.pipeline, hStatus]

theorem Wired.step_inv {isr : Controller → Controller} (hIsr : Masks isr) {a : Mover} (h : w.Inv n)
    (hStep : Wired.step isr x w a = some w') : w'.Inv n := by
  cases a with
  | kernel => exact (Wired.kernelStep_inv hIsr h hStep).1
  | agent a =>
    cases a with
    | pru1 => exact Option.some.inj hStep ▸ Wired.pru1Step_inv h
    | pru0 => exact Wired.pru0Step_inv h hStep
    | arm => exact Wired.armStep_inv h hStep

/-- The invariant at the beginning, and what the pipeline sees there. -/
theorem Wired.init_inv {c₀ : Controller} {d : Driver.Session} {addr : BitVec 32}
    (hRouted : Routed prussIntcInitdata c₀ d.pruss.intc) (hAddr : d.pruss.words 0 = addr)
    (hReset : ∀ e, c₀.enabled e = true → e ∈ prussIntcInitdata.sysevtsEnabled.map BitVec.toNat)
    (n : UInt32) (mem : ℕ → Byte) :
    (Wired.init d n addr mem).Inv n ∧ (Wired.init d n addr mem).pipeline = Daq.init addr.toNat mem := by
  have hClear18 : d.pruss.intc.status 18 = false := (hRouted.status 18).trans (Bool.and_false _)
  have hClear19 : d.pruss.intc.status 19 = false := (hRouted.status 19).trans (Bool.and_false _)
  have hLine : d.pruss.intc.hostEnabled 2 = true := (hRouted.hostEnabled 2).trans (Bool.or_true _)
  refine ⟨⟨wiring_of_routed hRouted hReset, .armed hLine rfl rfl fun _ => nofun, rfl,
    (UInt32.add_zero n).symm, ?_⟩, ?_⟩
  · show 0 = 0 + 0 + (d.pruss.intc.status 19).toNat
    rw [hClear19]
    rfl
  · simp only [Wired.pipeline, Wired.init, Daq.init, hClear18, hClear19, hAddr]

/-! ## Both ways -/

/-- A step of the system is one of the pipeline, or one that the pipeline does not see. -/
theorem Wired.step_refines {isr : Controller → Controller} (hIsr : Masks isr)
    {G : Pipeline → Agent → Prop} {a : Mover} (h : w.Inv n) (hGuard : Wired.guard G w a)
    (hStep : Wired.step isr x w a = some w') :
    w'.pipeline = w.pipeline ∨
      ∃ b, G w.pipeline b ∧ Daq.step x w.pipeline b = some w'.pipeline := by
  cases a with
  | kernel => exact .inl (Wired.kernelStep_inv hIsr h hStep).2
  | agent a =>
    cases a with
    | pru1 =>
      obtain rfl := Option.some.inj hStep
      exact .inr ⟨.pru1, hGuard, congrArg some (Wired.pru1_view x w).symm⟩
    | pru0 =>
      refine .inr ⟨.pru0, hGuard, ?_⟩
      show Daq.pru0Step w.pipeline = _
      rw [← Wired.pru0_view h.wiring]
      exact congrArg (Option.map Wired.pipeline) hStep
    | arm =>
      have hArm : w.armStep = some w' := hStep
      -- the second store of the call is not a step of the pipeline
      cases hRe : w.reenable with
      | true =>
        simp only [Wired.armStep, hRe, if_true, Option.some.injEq, reenableHost_zero] at hArm
        exact .inl (hArm ▸ rfl)
      | false =>
        refine .inr ⟨.arm, hGuard, ?_⟩
        have hWait : ∀ src, w.rest.pcA = .wait src →
            (w.count ≠ w.seen ↔ w.intc.status 19 = true) := by
          intro src hpc
          simp only [Wired.armStep, hRe, Bool.false_eq_true, if_false, hpc,
            Option.ite_none_right_eq_some] at hArm
          exact iff_of_true hArm.1 (h.phase.pending_of_ne hArm.1)
        show Daq.armStep w.pipeline = _
        rw [← Wired.arm_view hRe hWait]
        exact congrArg (Option.map Wired.pipeline) hArm

/-- Before a step of the ARM what the pipeline does not see can be done: the second store of
`prussdrv_pru_clear_event`, or the interrupt. -/
theorem Wired.arm_ready {isr : Controller → Controller} (hIsr : Masks isr)
    {G : Pipeline → Agent → Prop} (h : w.Inv n) (hGuard : G w.pipeline .arm) :
    ∃ w', Run (Wired.step isr x) (Wired.guard G) w w' ∧ w'.Inv n ∧ w'.pipeline = w.pipeline ∧
      w'.reenable = false ∧
      ∀ src, w'.rest.pcA = .wait src → (w'.count ≠ w'.seen ↔ w'.intc.status 19 = true) := by
  cases hRe : w.reenable with
  | true =>
    have hStep : Wired.step isr x w (.agent .arm) =
        some { w with reenable := false, intc := reenableHost w.intc 0 } := by
      simp only [Wired.step, Wired.armStep, hRe, if_true]
    refine ⟨_, Run.single (a := .agent .arm) hGuard hStep, Wired.step_inv hIsr h hStep, rfl, rfl, ?_⟩
    intro src hpc
    cases h.phase with
    | cleared _ _ _ src' hpc' => exact absurd (hpc.symm.trans hpc') nofun
    | armed _ _ hRe' | fired _ _ hRe' | read _ _ hRe' =>
      rw [hRe'] at hRe
      cases hRe
  | false =>
    cases hLine : w.intc.line 2 with
    | false => exact ⟨w, Run.refl, h, rfl, hRe, fun src hpc => h.phase.count_ne_iff hpc hLine h.wiring⟩
    | true =>
      have hStep : w.kernelStep isr = some { w with intc := isr w.intc, count := w.count + 1 } := by
        rw [Wired.kernelStep, if_pos hLine]
      obtain ⟨hInv, hView⟩ := Wired.kernelStep_inv hIsr h hStep
      refine ⟨_, Run.single (a := .kernel) trivial hStep, hInv, hView, hRe, fun src hpc => ?_⟩
      -- the line has been turned off
      refine hInv.phase.count_ne_iff hpc ?_ hInv.wiring
      rw [hInv.wiring.line_two, hIsr.hostEnabled, Function.update_self, Bool.false_and]

/-- Every step of the pipeline can be done by the system. -/
theorem Wired.step_lifts {isr : Controller → Controller} (hIsr : Masks isr)
    {G : Pipeline → Agent → Prop} {a : Agent} {t : Pipeline} (h : w.Inv n) (hGuard : G w.pipeline a)
    (hStep : Daq.step x w.pipeline a = some t) :
    ∃ w', Run (Wired.step isr x) (Wired.guard G) w w' ∧ w'.Inv n ∧ w'.pipeline = t := by
  cases a with
  | pru1 =>
    have hView : (w.pru1Step x).pipeline = t := (Wired.pru1_view x w).trans (Option.some.inj hStep)
    exact ⟨_, Run.single (a := .agent .pru1) hGuard rfl, Wired.pru1Step_inv h, hView⟩
  | pru0 =>
    have hMap : w.pru0Step.map Wired.pipeline = some t := (Wired.pru0_view h.wiring).trans hStep
    obtain ⟨w', hPru0, hView⟩ := Option.map_eq_some_iff.mp hMap
    exact ⟨w', Run.single (a := .agent .pru0) hGuard hPru0, Wired.pru0Step_inv h hPru0, hView⟩
  | arm =>
    -- first what the pipeline does not see, then the step itself
    obtain ⟨w₁, hRun, hInv, hSame, hRe, hWait⟩ := Wired.arm_ready hIsr h hGuard
    have hMap : w₁.armStep.map Wired.pipeline = some t := by
      rw [Wired.arm_view hRe hWait, hSame]
      exact hStep
    obtain ⟨w', hArm, hView⟩ := Option.map_eq_some_iff.mp hMap
    have hGuard' : Wired.guard G w₁ (.agent .arm) := by
      show G w₁.pipeline .arm
      rwa [hSame]
    exact ⟨w', hRun.tail hGuard' hArm, Wired.armStep_inv hInv hArm, hView⟩

theorem Wired.run_lifts {isr : Controller → Controller} (hIsr : Masks isr)
    {G : Pipeline → Agent → Prop} {t : Pipeline} (h : w.Inv n)
    (hRun : Run (Daq.step x) G w.pipeline t) :
    ∃ w', Run (Wired.step isr x) (Wired.guard G) w w' ∧ w'.Inv n ∧ w'.pipeline = t := by
  induction hRun with
  | refl => exact ⟨w, Run.refl, h, rfl⟩
  | tail _ hGuard hStep ih =>
    obtain ⟨w₁, hRun₁, hInv₁, rfl⟩ := ih
    obtain ⟨w₂, hRun₂, hInv₂, hView⟩ := Wired.step_lifts hIsr hInv₁ hGuard hStep
    exact ⟨w₂, hRun₁.trans hRun₂, hInv₂, hView⟩

end Steps

/-! ## Results -/

section Results

variable {os : Driver.Uio} {files : Driver.Programs} {addr : BitVec 32} {d d' : Driver.Session}
  {isr : Controller → Controller} {x : ℕ → Packet}

/-- **The flags of the pipeline are what the controller makes of them.** After a `DAQ_Setup`
that succeeded on a subsystem with no other event enabled, and under any promises: what the
three processors go through with the controller and the kernel between them is what they go
through in `Daq.Model`, no more and no less. -/
theorem wired_run_iff (hChip : Driver.Chip d.pruss)
    (hSetup : Driver.daqSetup os files addr d = .ok d')
    (hReset : ∀ e, d.pruss.intc.enabled e = true →
      e ∈ prussIntcInitdata.sysevtsEnabled.map BitVec.toNat) (hIsr : Masks isr)
    (G : Pipeline → Agent → Prop) (x : ℕ → Packet) (n : UInt32) (mem : ℕ → Byte) (t : Pipeline) :
    Run (Daq.step x) G (Daq.init addr.toNat mem) t ↔
      ∃ w, Run (Wired.step isr x) (Wired.guard G) (Wired.init d' n addr mem) w ∧ w.pipeline = t := by
  obtain ⟨hRouted, hAddr⟩ := Driver.daqSetup_routed hChip hSetup
  obtain ⟨hInv, hView⟩ := Wired.init_inv hRouted hAddr hReset n mem
  constructor
  · intro hRun
    rw [← hView] at hRun
    obtain ⟨w, hRun', -, hView'⟩ := Wired.run_lifts hIsr hInv hRun
    exact ⟨w, hRun', hView'⟩
  · rintro ⟨w, hRun, rfl⟩
    rw [← hView]
    refine (hRun.simulate Wired.pipeline hInv fun u a u' hU hGuard hStep => ?_).2
    exact ⟨Wired.step_inv hIsr hU hStep, Wired.step_refines hIsr hU hGuard hStep⟩

/-- **The numbers that `DAQ_Run` returns** are consecutive, modulo `2 ^ 32`, in every run: they
number the calls. Of the events that PRU0 raises those that are merged have none, so that no
comparison of a number with the one before it can tell that a half was lost. -/
theorem daqRun_numbers (hChip : Driver.Chip d.pruss)
    (hSetup : Driver.daqSetup os files addr d = .ok d')
    (hReset : ∀ e, d.pruss.intc.enabled e = true →
      e ∈ prussIntcInitdata.sysevtsEnabled.map BitVec.toNat) (hIsr : Masks isr)
    {n : UInt32} {mem : ℕ → Byte} {w : Wired}
    (h : Run (Wired.step isr x) (fun _ _ => True) (Wired.init d' n addr mem) w) :
    w.eventN = ((List.range w.eventN.length).map fun i => n + 1 + UInt32.ofNat i) ∧
      w.rest.raised = w.rest.merged + w.eventN.length + w.rest.pcA.unread (w.intc.status 19) ∧
      ∀ i, (hi : i + 1 < w.eventN.length) → w.eventN[i + 1] - w.eventN[i] = 1 := by
  obtain ⟨hRouted, hAddr⟩ := Driver.daqSetup_routed hChip hSetup
  obtain ⟨hInit, -⟩ := Wired.init_inv hRouted hAddr hReset n mem
  have hInv : w.Inv n := h.invariant hInit fun _ _ _ hU _ hStep => Wired.step_inv hIsr hU hStep
  refine ⟨hInv.numbers, hInv.raised, fun i hi => ?_⟩
  rw [hInv.number_get hi, hInv.number_get (Nat.lt_of_succ_lt hi), UInt32.ofNat_add, ← UInt32.add_assoc,
    UInt32.add_comm _ (UInt32.ofNat 1), UInt32.add_sub_cancel]
  rfl

/-- What the kernel does, as far as it is known. -/
def turnOff (c : Controller) : Controller := c.write .hostDisableIndex 2

theorem turnOff_masks : Masks turnOff where
  status _ := rfl
  routes _ := ⟨rfl, rfl, rfl, rfl⟩
  hostEnabled _ := rfl

theorem justBegun_reset (e : ℕ) (h : Driver.justBegun.pruss.intc.enabled e = true) :
    e ∈ prussIntcInitdata.sysevtsEnabled.map BitVec.toNat :=
  absurd h Bool.false_ne_true

theorem justBegun_setup :
    ∃ d', Driver.daqSetup Driver.complete Driver.odd 0 Driver.justBegun = .ok d' := by
  obtain ⟨d', -, -, -, -, hCall, -⟩ := @Driver.daqSetup_ok Driver.complete Driver.odd 0
    Driver.justBegun Driver.justBegun_chip ⟨⟨rfl, rfl, rfl⟩, rfl, rfl, rfl⟩
    ⟨_, rfl, by decide, by decide⟩ ⟨_, rfl, by decide, by decide⟩
  exact ⟨d', hCall⟩

/-- One buffer is delivered. -/
theorem wired_run_iff_one :
    ∃ d' t, Driver.daqSetup Driver.complete Driver.odd 0 Driver.justBegun = .ok d' ∧
      t.copies.length = 1 ∧
      (Run (Daq.step counting) InTime (Daq.init 0 fun _ => 0) t ↔
        ∃ w, Run (Wired.step turnOff counting) (Wired.guard InTime)
          (Wired.init d' 7 0 fun _ => 0) w ∧ w.pipeline = t) := by
  obtain ⟨d', hSetup⟩ := justBegun_setup
  obtain ⟨t, -, hReady⟩ := inTime_copies counting 0 (fun _ => 0) 1
  exact ⟨d', t, hSetup, hReady.copies, wired_run_iff Driver.justBegun_chip hSetup justBegun_reset
    turnOff_masks InTime counting 7 _ t⟩

/-- The ARM serves one event, then two are raised before it serves the next. -/
theorem lost_run (x : ℕ → Packet) (addr : ℕ) (mem : ℕ → Byte) :
    ∃ t, Run (Daq.step x) Handshake (Daq.init addr mem) t ∧ t.raised = 3 ∧ t.merged = 1 ∧
      t.pcA = .idle ∧ t.evt19 = false := by
  obtain ⟨s, hRun, hReady⟩ := inTime_copies x addr mem 1
  obtain ⟨t₁, u₁, hFill₁, -, hStep₁, hInv₁, hA₁, hEvt₁, hRaised₁, hMerged₁, -⟩ := prus_event hReady.inv
  obtain ⟨t₂, u₂, hFill₂, -, hStep₂, hInv₂, hA₂, hEvt₂, hRaised₂, hMerged₂, -⟩ := prus_event hInv₁
  obtain ⟨v, hServe, -, hSame, hIdle, hCleared, -⟩ :=
    arm_serves hInv₂ (hA₂.trans (hA₁.trans hReady.idle)) hEvt₂
  have hGuard : ∀ t, Handshake t .pru0 := fun _ => nofun
  refine ⟨v, ?_, ?_, ?_, hIdle, hCleared⟩
  · have hFirst := (hRun.mono fun _ _ h => h.1).trans
      ((hFill₁.mono fun _ _ h => h.1).tail (hGuard t₁) hStep₁)
    have hSecond := (hFill₂.mono fun _ _ h => h.1).tail (hGuard t₂) hStep₂
    exact (hFirst.trans hSecond).trans (hServe.mono fun _ _ h => h.1)
  · rw [hSame.raised, hRaised₂, hRaised₁, hReady.raised]
  · rw [hSame.merged, hMerged₂, hMerged₁, hEvt₁, hReady.merged, hReady.cleared]
    rfl

/-- A half is lost between two calls, and their numbers are 8 and 9. -/
theorem daqRun_numbers_lost :
    ∃ d' w, Run (Wired.step turnOff counting) (fun _ _ => True) (Wired.init d' 7 0 fun _ => 0) w ∧
      w.rest.merged = 1 ∧ w.eventN = [8, 9] ∧
      ∀ i, (hi : i + 1 < w.eventN.length) → w.eventN[i + 1] - w.eventN[i] = 1 := by
  obtain ⟨d', hSetup⟩ := justBegun_setup
  obtain ⟨hRouted, hAddr⟩ := Driver.daqSetup_routed Driver.justBegun_chip hSetup
  obtain ⟨hInv, hView⟩ := Wired.init_inv hRouted hAddr justBegun_reset 7 fun _ => 0
  obtain ⟨t, hRun, hRaised, hMerged, hIdle, hCleared⟩ := lost_run counting 0 fun _ => 0
  have hRun₀ : Run (Daq.step counting) Handshake (Wired.init d' 7 0 fun _ => 0).pipeline t := by
    rw [hView]
    exact hRun
  obtain ⟨w, hWired, hInvW, rfl⟩ := Wired.run_lifts turnOff_masks hInv hRun₀
  have hTrue : Run (Wired.step turnOff counting) (fun _ _ => True) (Wired.init d' 7 0 fun _ => 0) w :=
    hWired.mono fun _ _ _ => trivial
  obtain ⟨hNumbers, hCount, hConsecutive⟩ :=
    daqRun_numbers Driver.justBegun_chip hSetup justBegun_reset turnOff_masks hTrue
  -- three signals, one of them merged: two numbers
  have hLen : w.eventN.length = 2 := by
    have hIdle' : w.rest.pcA = .idle := hIdle
    have hCleared' : w.intc.status 19 = false := hCleared
    have hRaised' : w.rest.raised = 3 := hRaised
    have hMerged' : w.rest.merged = 1 := hMerged
    rw [hIdle', hCleared', hRaised', hMerged'] at hCount
    simp only [PcA.unread, Bool.toNat_false] at hCount
    omega
  refine ⟨d', w, hTrue, hMerged, ?_, hConsecutive⟩
  rw [hNumbers, hLen]
  rfl

end Results

end EnergyMeter.Daq

import EnergyMeter.Daq.Converter

/-!
# Acquisition pipeline — bytes on the bus of the converter

`SPI_TX` and `SPI_RX` of `spi.inc` against the converter of `Daq.Converter`: the
instructions of PRU1 and the edges that the converter sees run together.

* `During` — a transfer under way: what the converter has heard, and what may have
  changed in the registers since it began.
* `spiTx_sends` — the converter hears the byte.
* `spiRx_receives` — the register gets the next byte of the frame, if the converter holds
  it for long enough.

The waits of the macros are left alone by the converter; they are taken over from
`Daq.Startup` by `Triple.quiet`, and with their time by `Triple.lasts`.
-/

namespace EnergyMeter.Daq

open Lib Lib.PruIo
open Lib.Pru (Reg Regs Field Instr Within Does Lasts Touches)

/-! ## The test bench -/

/-- The converter, and what PRU1 has handed to PRU0. -/
structure Bench where
  converter : Converter
  log : List Effect

def bench (supply : Supply) : Device Bench where
  pins b := b.converter.pins supply
  clock b pins := { b with converter := b.converter.next supply pins }
  emit b effect := { b with log := b.log ++ [effect] }

/-- `xs` as instructions with a device. -/
abbrev core (xs : List Instr) : List Instruction := xs.map .core

theorem core_append {D : Type*} {device : Device D} {code : Code} {xs ys : List Instr}
    {P Q R : Regs → D → Prop} (h : Triple device code (core xs) P Q)
    (h' : Triple device code (core ys) Q R) : Triple device code (core (xs ++ ys)) P R := by
  rw [core, List.map_append]
  exact h.append h'

/-! ## Macros -/

/-- `LBIT` from `r31`. -/
def lbitIn (bit1 : ℕ) (reg2 : Field) (bit2 : ℕ) : List Instruction :=
  [.qbbs 3 bit1, .core (.clr reg2 reg2 bit2), .core (.qba 3)] ++
    -- high?:
    ([.core (.set reg2 reg2 bit2)] ++ core nop)

/-- `SPI_RX_CLK`. -/
def spiRxClk : List Instr :=
  [.clr r30 r30 spiSclk] ++ spiWait spiSclkDelay 0 ++
    [.set r30 r30 spiSclk] ++ spiWait spiSclkDelay 1 ++ nop

/-- `SPI_RX`. -/
def spiRx (reg : Field) : List Instruction :=
  core ([.set r30 r30 spiSclk] ++ spiWait spiSclkDelay 1 ++ nop) ++ lbitIn spiMiso reg 7 ++
    [6, 5, 4, 3, 2, 1, 0].flatMap (fun bit => core spiRxClk ++ lbitIn spiMiso reg bit) ++
    core ([.clr r30 r30 spiSclk] ++ spiWait spiSclkDelay 0)

/-- `spi_rx_call` and `spi_tx_call`, in `ADS_INIT`. -/
def spiRxRoutine : List Instruction := spiRx (Reg.b 28 0) ++ [.core (.jmp (Reg.w 28 2))]

def spiTxRoutine : List Instruction := core (spiTx (Reg.b 28 0)) ++ [.core (.jmp (Reg.w 28 2))]

/-! ## A transfer under way -/

/-- Since the registers were `reg₀`, nothing has changed but `scratch` and the pins of
`bits`; the converter has heard `heard`, and nothing has been handed on since `log`. -/
structure During (scratch : List Reg) (bits : List ℕ) (reg₀ : Regs) (log : List Effect) (m : Mode)
    (s cs : Bool) (heard : List Bool) (reg : Regs) (b : Bench) : Prop where
  within : Within scratch 30 bits reg₀ reg
  hears : Hears m s cs heard (reg 30) b.converter
  log : b.log = log

section During

variable (supply : Supply) {code : Code} {scratch : List Reg} {bits : List ℕ} {reg₀ reg reg' : Regs}
  {log : List Effect} {m : Mode} {s cs : Bool} {heard : List Bool} {b : Bench}

theorem During.start (hears : Hears m s cs heard (reg 30) b.converter) (hLog : b.log = log) :
    During scratch bits reg log m s cs heard reg b :=
  ⟨Within.refl, hears, hLog⟩

/-- The pins stay as they are for some time. -/
theorem Hears.idle {o : BitVec 32} (h : Hears m s cs heard o b.converter)
    (hHeard : cs = true → heard = []) (n : ℕ) :
    Hears m s cs heard o ((bench supply).idle o n b).converter ∧
      Undisturbed n b.converter ((bench supply).idle o n b).converter ∧
      ((bench supply).idle o n b).log = b.log := by
  refine Device.idle_rule (I := fun n (b' : Bench) => Hears m s cs heard o b'.converter ∧
    Undisturbed n b.converter b'.converter ∧ b'.log = b.log) ⟨h, .refl _, rfl⟩ ?_ n
  rintro n b' ⟨h', hSame, hLog⟩
  cases cs with
  | false =>
    obtain ⟨hNext, hSame'⟩ := h'.next_same supply h'.reset h'.pinSclk h'.pinCs
    exact ⟨hNext, hSame.trans hSame', hLog⟩
  | true =>
    obtain rfl := hHeard rfl
    obtain ⟨hNext, hSame'⟩ := h'.next_parked supply h'.reset h'.pinSclk h'.pinCs
    exact ⟨hNext, hSame.trans hSame', hLog⟩

theorem During.idle {r : List Reg} (h : During scratch bits reg₀ log m s cs heard reg b)
    (hHeard : cs = true → heard = []) (hr : r ⊆ scratch) (hWithin : Within r 30 [] reg reg')
    (hPins : reg' 30 = reg 30) (n : ℕ) :
    During scratch bits reg₀ log m s cs heard reg' ((bench supply).idle (reg 30) n b) ∧
      Undisturbed n b.converter ((bench supply).idle (reg 30) n b).converter := by
  obtain ⟨hHears, hSame, hLog⟩ := h.hears.idle supply hHeard n
  exact ⟨⟨h.within.trans (hWithin.mono hr (List.nil_subset _)), by rwa [hPins], hLog.trans h.log⟩,
    hSame⟩

/-- Waits and other code without the pins: what it keeps is `During` and any `I` that
depends on neither its registers nor its time. -/
theorem During.quiet_and {r : List Reg} {xs : List Instr} {I : Regs → Converter → Prop}
    (hDoes : ∀ code, Does code xs (Within r 30 [])) (hTouches : Touches xs 30 []) (hr : r ⊆ scratch)
    (hHeard : cs = true → heard = [])
    (hI : ∀ n reg reg' c c', I reg c → Within r 30 [] reg reg' → reg' 30 = reg 30 →
      Undisturbed n c c' → I reg' c') :
    Triple (bench supply) code (core xs)
      (fun reg b => During scratch bits reg₀ log m s cs heard reg b ∧ I reg b.converter)
      (fun reg b => During scratch bits reg₀ log m s cs heard reg b ∧ I reg b.converter) := by
  refine Triple.quiet hDoes hTouches ?_
  rintro reg reg' b n ⟨h, hKeep⟩ hWithin hPins
  obtain ⟨hDuring, hSame⟩ := h.idle supply hHeard hr hWithin hPins n
  exact ⟨hDuring, hI n _ _ _ _ hKeep hWithin hPins hSame⟩

theorem During.quiet {r : List Reg} {xs : List Instr}
    (hDoes : ∀ code, Does code xs (Within r 30 [])) (hTouches : Touches xs 30 []) (hr : r ⊆ scratch)
    (hHeard : cs = true → heard = []) :
    Triple (bench supply) code (core xs) (During scratch bits reg₀ log m s cs heard)
      (During scratch bits reg₀ log m s cs heard) := by
  refine Triple.quiet hDoes hTouches ?_
  intro reg reg' b n h hWithin hPins
  exact (h.idle supply hHeard hr hWithin hPins n).1

/-- The same of code with a known time. -/
theorem During.lasts_and {r : List Reg} {xs : List Instr} {n : ℕ} {I J : Regs → Converter → Prop}
    (hLasts : ∀ code, Lasts code xs n (fun _ => True) (Within r 30 [])) (hTouches : Touches xs 30 [])
    (hr : r ⊆ scratch) (hHeard : cs = true → heard = [])
    (hI : ∀ reg reg' c c', I reg c → Within r 30 [] reg reg' → reg' 30 = reg 30 →
      Undisturbed n c c' → J reg' c') :
    Triple (bench supply) code (core xs)
      (fun reg b => During scratch bits reg₀ log m s cs heard reg b ∧ I reg b.converter)
      (fun reg b => During scratch bits reg₀ log m s cs heard reg b ∧ J reg b.converter) := by
  refine Triple.lasts hLasts hTouches ?_
  rintro reg reg' b ⟨h, hKeep⟩ hWithin hPins
  obtain ⟨hDuring, hSame⟩ := h.idle supply hHeard hr hWithin hPins n
  exact ⟨hDuring, hI _ _ _ _ hKeep hWithin hPins hSame⟩

/-- One instruction that leaves the registers alone. -/
theorem During.same (h : During scratch bits reg₀ log m s cs heard reg b)
    (hHeard : cs = true → heard = []) :
    During scratch bits reg₀ log m s cs heard reg ((bench supply).clock b (reg 30)) ∧
      Undisturbed 1 b.converter ((bench supply).clock b (reg 30)).converter :=
  h.idle supply hHeard (List.nil_subset _) Within.refl rfl 1

theorem heard_of_low (h : false = true) : heard = [] := absurd h Bool.false_ne_true

/-- An instruction that stores into a register of `scratch`. -/
theorem During.store {f : Field} {v : BitVec 32} (n : ℕ)
    (h : During scratch bits reg₀ log m s cs heard reg b) (hHeard : cs = true → heard = [])
    (hf : f.reg ∈ scratch) (hOut : f.reg ≠ 30) :
    During scratch bits reg₀ log m s cs heard (f.put reg v)
        ((bench supply).idle (f.put reg v 30) n b) ∧
      Undisturbed n b.converter ((bench supply).idle (f.put reg v 30) n b).converter := by
  have hPins : f.put reg v 30 = reg 30 := Field.put_of_ne f reg v (Ne.symm hOut)
  rw [hPins]
  exact h.idle supply hHeard (List.cons_subset.mpr ⟨hf, List.nil_subset _⟩)
    (Within.of_put (List.mem_singleton_self _) hOut) hPins n

/-- `SPI_MOSI` is driven while the converter is selected. -/
theorem During.mosi (h : During scratch bits reg₀ log m s false heard reg b)
    (hMosi : spiMosi ∈ bits) (level : Bool) :
    During scratch bits reg₀ log m s false heard
      (Function.update reg 30 (drive (reg 30) spiMosi level))
      ((bench supply).clock b (drive (reg 30) spiMosi level)) where
  within := within_drive h.within hMosi
  hears := by
    rw [Function.update_self]
    refine (h.hears.next_same supply ?_ ?_ ?_).1
    · rw [drive_of_ne (by decide), h.hears.reset]
    · rw [drive_of_ne (by decide), h.hears.pinSclk]
    · rw [drive_of_ne (by decide), h.hears.pinCs]
  log := h.log

/-- `SPI_SCLK` is driven high while the converter is selected. -/
theorem During.high (h : During scratch bits reg₀ log m s false heard reg b)
    (hSclk : spiSclk ∈ bits) :
    During scratch bits reg₀ log m true false heard
        (Function.update reg 30 (drive (reg 30) spiSclk true))
        ((bench supply).clock b (drive (reg 30) spiSclk true)) ∧
      (s = false → m.continuous = true → ∀ f n t, Holds (f + 1) n (t + 1) b.converter →
        Holds (f + 1) (n + 1) t
          ((bench supply).clock b (drive (reg 30) spiSclk true)).converter) := by
  have hReset : (drive (reg 30) spiSclk true).getLsbD adsReset = true := by
    rw [drive_of_ne (by decide), h.hears.reset]
  have hCs : (drive (reg 30) spiSclk true).getLsbD spiCs = false := by
    rw [drive_of_ne (by decide), h.hears.pinCs]
  obtain ⟨hHears, hShift⟩ := h.hears.next_high supply hReset (drive_self (by decide)) hCs
  refine ⟨⟨within_drive h.within hSclk, ?_, h.log⟩, hShift⟩
  rw [Function.update_self]
  exact hHears

/-- `SPI_SCLK` is driven low: the converter latches `SPI_MOSI`. -/
theorem During.low (h : During scratch bits reg₀ log m true false heard reg b)
    (hSclk : spiSclk ∈ bits) :
    During scratch bits reg₀ log m false false (heard ++ [(reg 30).getLsbD spiMosi])
        (Function.update reg 30 (drive (reg 30) spiSclk false))
        ((bench supply).clock b (drive (reg 30) spiSclk false)) ∧
      Undisturbed 1 b.converter
        ((bench supply).clock b (drive (reg 30) spiSclk false)).converter := by
  have hReset : (drive (reg 30) spiSclk false).getLsbD adsReset = true := by
    rw [drive_of_ne (by decide), h.hears.reset]
  have hCs : (drive (reg 30) spiSclk false).getLsbD spiCs = false := by
    rw [drive_of_ne (by decide), h.hears.pinCs]
  obtain ⟨hHears, hSame⟩ := h.hears.next_low supply hReset (drive_self (by decide)) hCs
  rw [drive_of_ne (show spiMosi ≠ spiSclk by decide)] at hHears
  refine ⟨⟨within_drive h.within hSclk, ?_, h.log⟩, hSame⟩
  rw [Function.update_self]
  exact hHears

end During

/-! ## `SPI_TX` -/

section Transmit

variable (supply : Supply) {code : Code} {scratch : List Reg} {bits : List ℕ} {reg₀ : Regs}
  {log : List Effect} {m : Mode} {s : Bool} {heard : List Bool}

/-- The level of `SPI_MOSI`, whatever the converter does. -/
def MosiIs (level : Bool) (reg : Regs) (_ : Converter) : Prop := (reg 30).getLsbD spiMosi = level

theorem MosiIs.keep {level : Bool} {r : List Reg} (n : ℕ) (reg reg' : Regs) (c c' : Converter)
    (h : MosiIs level reg c) (_ : Within r 30 [] reg reg') (hPins : reg' 30 = reg 30)
    (_ : Undisturbed n c c') : MosiIs level reg' c' := by
  rw [MosiIs, hPins]
  exact h

/-- Selected, with a bit on `SPI_MOSI`. -/
def Sending (scratch : List Reg) (bits : List ℕ) (reg₀ : Regs) (log : List Effect) (m : Mode)
    (s : Bool) (heard : List Bool) (level : Bool) (reg : Regs) (b : Bench) : Prop :=
  During scratch bits reg₀ log m s false heard reg b ∧ MosiIs level reg b.converter

theorem Sending.quiet {r : List Reg} {xs : List Instr} {level : Bool}
    (hDoes : ∀ code, Does code xs (Within r 30 [])) (hTouches : Touches xs 30 [])
    (hr : r ⊆ scratch) :
    Triple (bench supply) code (core xs) (Sending scratch bits reg₀ log m s heard level)
      (Sending scratch bits reg₀ log m s heard level) :=
  During.quiet_and supply hDoes hTouches hr nofun MosiIs.keep

/-- `LBIT` to `SPI_MOSI`. -/
theorem lbit_mosi {f : Field} (hf : f.reg ∉ scratch) (hOut : f.reg ≠ 30) (hMosi : spiMosi ∈ bits)
    (bit : ℕ) :
    Triple (bench supply) code (core (lbit f bit r30 spiMosi))
      (During scratch bits reg₀ log m s false heard)
      (Sending scratch bits reg₀ log m s heard ((f.get reg₀).getLsbD bit)) := by
  have hField : ∀ reg b, During scratch bits reg₀ log m s false heard reg b →
      f.get reg = f.get reg₀ := by
    intro reg b h
    rw [Field.get, h.within.regs f.reg hf hOut, ← Field.get]
  -- either branch drives the pin to the bit that `QBBS` has tested
  have hDrive : ∀ level reg (b : Bench), During scratch bits reg₀ log m s false heard reg b ∧
        (f.get reg₀).getLsbD bit = level →
      Sending scratch bits reg₀ log m s heard ((f.get reg₀).getLsbD bit)
        (Function.update reg 30 (drive (reg 30) spiMosi level))
        ((bench supply).clock b (drive (reg 30) spiMosi level)) := by
    rintro level reg b ⟨h, rfl⟩
    refine ⟨h.mosi supply hMosi _, ?_⟩
    rw [MosiIs, Function.update_self, drive_self (by decide)]
  have hThen : Triple (bench supply) code (core ([.set r30 r30 spiMosi] ++ nop))
      (fun reg b => During scratch bits reg₀ log m s false heard reg b ∧
        (f.get reg₀).getLsbD bit = true)
      (Sending scratch bits reg₀ log m s heard ((f.get reg₀).getLsbD bit)) :=
    (Triple.set fun reg b => hDrive true reg b).append
      (Sending.quiet supply (fun _ => does_nop) touches_nop (List.nil_subset _))
  have hElse : Triple (bench supply) code (core [.clr r30 r30 spiMosi])
      (fun reg b => During scratch bits reg₀ log m s false heard reg b ∧
        (f.get reg₀).getLsbD bit = false)
      (Sending scratch bits reg₀ log m s heard ((f.get reg₀).getLsbD bit)) :=
    Triple.clr fun reg b => hDrive false reg b
  exact Triple.ite (Branches.field 3 f bit)
    (fun reg b h hBit => ⟨(h.same supply heard_of_low).1, hField reg b h ▸ hBit⟩)
    (fun reg b h hBit => ⟨(h.same supply heard_of_low).1, hField reg b h ▸ hBit⟩) hElse
    (fun reg b h => ⟨(h.1.same supply heard_of_low).1, h.2⟩) hThen

theorem does_spiWait_only (delay stopEarly : ℕ) (code : Pru.Code) :
    Does code (spiWait delay stopEarly) (Within [29] 30 []) :=
  does_spiWait (List.mem_singleton_self 29) delay stopEarly

/-- `SPI_TX_CLK`: the converter hears the level of `SPI_MOSI`. -/
theorem spiTxClk_sends (h29 : [29] ⊆ scratch) (hSclk : spiSclk ∈ bits) (level : Bool) :
    Triple (bench supply) code (core spiTxClk) (Sending scratch bits reg₀ log m s heard level)
      (During scratch bits reg₀ log m false false (heard ++ [level])) := by
  -- the edges of the clock, and the waits in which nothing changes
  have hHigh : Triple (bench supply) code (core [.set r30 r30 spiSclk])
      (Sending scratch bits reg₀ log m s heard level)
      (Sending scratch bits reg₀ log m true heard level) := by
    refine Triple.set ?_
    rintro reg b ⟨h, hLevel⟩
    refine ⟨(h.high supply hSclk).1, ?_⟩
    rw [MosiIs, Function.update_self, drive_of_ne (by decide)]
    exact hLevel
  have hLow : Triple (bench supply) code (core [.clr r30 r30 spiSclk])
      (Sending scratch bits reg₀ log m true heard level)
      (During scratch bits reg₀ log m false false (heard ++ [level])) := by
    refine Triple.clr ?_
    rintro reg b ⟨h, rfl⟩
    exact (h.low supply hSclk).1
  have hWait : Triple (bench supply) code (core (spiWait spiSclkDelay 1))
      (During scratch bits reg₀ log m false false (heard ++ [level]))
      (During scratch bits reg₀ log m false false (heard ++ [level])) :=
    During.quiet supply (does_spiWait_only _ _) (touches_spiWait _ _) h29 nofun
  have hNop : Triple (bench supply) code (core nop)
      (During scratch bits reg₀ log m false false (heard ++ [level]))
      (During scratch bits reg₀ log m false false (heard ++ [level])) :=
    During.quiet supply (fun _ => does_nop) touches_nop (List.nil_subset _) nofun
  simp only [spiTxClk, core, List.map_append]
  exact (((hHigh.append (Sending.quiet supply (does_spiWait_only _ _) (touches_spiWait _ _) h29)).append
    hLow).append hWait).append hNop

/-- One bit of `SPI_TX`. -/
theorem bit_sends {f : Field} (hf : f.reg ∉ scratch) (hOut : f.reg ≠ 30) (h29 : [29] ⊆ scratch)
    (hSclk : spiSclk ∈ bits) (hMosi : spiMosi ∈ bits) (bit : ℕ) :
    Triple (bench supply) code (core (lbit f bit r30 spiMosi) ++ core spiTxClk)
      (During scratch bits reg₀ log m s false heard)
      (During scratch bits reg₀ log m false false (heard ++ [(f.get reg₀).getLsbD bit])) :=
  (lbit_mosi supply hf hOut hMosi bit).append (spiTxClk_sends supply h29 hSclk _)

/-- **`SPI_TX`.** The converter hears the bits of the byte in `f`, most significant first,
whatever the level of the clock before. -/
theorem spiTx_sends {f : Field} {v : Byte} (hf : f.reg ∉ scratch) (hOut : f.reg ≠ 30)
    (hv : f.get reg₀ = v.setWidth 32) (h29 : [29] ⊆ scratch) (hSclk : spiSclk ∈ bits)
    (hMosi : spiMosi ∈ bits) :
    Triple (bench supply) code (core (spiTx f)) (During scratch bits reg₀ log m s false heard)
      (Sending scratch bits reg₀ log m false (heard ++ Serial.bits v) false) := by
  have hBit : ∀ bit < 8, (f.get reg₀).getLsbD bit = v.getLsbD bit := by
    intro bit hLt
    rw [hv, BitVec.getLsbD_setWidth, decide_eq_true (by omega), Bool.true_and]
  -- after some bits the clock is low; before the first it may be high
  let I : List ℕ → Regs → Bench → Prop := fun done reg b => ∃ s', (done ≠ [] → s' = false) ∧
    During scratch bits reg₀ log m s' false (heard ++ done.map v.getLsbD) reg b
  have hBits : Triple (bench supply) code
      ([7, 6, 5, 4, 3, 2, 1, 0].flatMap fun bit => core (lbit f bit r30 spiMosi) ++ core spiTxClk)
      (I []) (I [7, 6, 5, 4, 3, 2, 1, 0]) := by
    refine Triple.flatMap I _ fun done bit rest hList => Triple.exists_pre fun s' => ?_
    have hLt : bit < 8 := by
      have hMem : bit ∈ [7, 6, 5, 4, 3, 2, 1, 0] :=
        hList ▸ List.mem_append_right done (List.mem_cons_self)
      simp only [List.mem_cons, List.not_mem_nil, or_false] at hMem
      omega
    refine ((bit_sends supply hf hOut h29 hSclk hMosi bit).pre fun _ _ h => h.2).post
      fun reg b h => ⟨false, fun _ => rfl, ?_⟩
    rw [hBit bit hLt, List.append_assoc] at h
    rwa [List.map_append]
  have hLast : ∀ reg b, I [7, 6, 5, 4, 3, 2, 1, 0] reg b →
      During scratch bits reg₀ log m false false (heard ++ Serial.bits v) reg b := by
    rintro reg b ⟨s', hLow, h⟩
    rwa [hLow (List.cons_ne_nil _ _)] at h
  have hNop : Triple (bench supply) code (core nop)
      (During scratch bits reg₀ log m false false (heard ++ Serial.bits v))
      (During scratch bits reg₀ log m false false (heard ++ Serial.bits v)) :=
    During.quiet supply (fun _ => does_nop) touches_nop (List.nil_subset _) nofun
  have hClear : Triple (bench supply) code (core [.clr r30 r30 spiMosi])
      (During scratch bits reg₀ log m false false (heard ++ Serial.bits v))
      (Sending scratch bits reg₀ log m false (heard ++ Serial.bits v) false) := by
    refine Triple.clr fun reg b h => ⟨h.mosi supply hMosi false, ?_⟩
    rw [MosiIs, Function.update_self, drive_self (by decide)]
  simp only [spiTx, core, List.map_append, List.map_flatMap]
  refine ((hBits.pre fun reg b h => ⟨s, fun hNil => absurd rfl hNil, ?_⟩).append
    (hNop.pre hLast)).append hClear
  rwa [List.map_nil, List.append_nil]

end Transmit

/-! ## `SPI_RX` -/

section Time

variable {code : Pru.Code}

theorem lasts_nop {r : List Reg} : Lasts code nop 1 (fun _ => True) (Within r 30 []) := by
  have hMove : ∀ s, (Instr.mov r0 r0).exec s = s.next (id s.reg) := by
    intro s
    simp [Instr.exec, r0]
  refine (Lasts.op hMove).mono ?_
  rintro reg _ - rfl
  exact Within.refl

theorem lasts_spiWait {stopEarly : ℕ} (hEarly : stopEarly < 7) :
    Lasts code (spiWait spiSclkDelay stopEarly) (5 + 2 * (7 - stopEarly)) (fun _ => True)
      (Within [29] 30 []) := by
  have hSet : Lasts code ([.ldi32 r29 spiSclkDelay] ++ [.sub r29 r29 2] ++ [.sub r29 r29 stopEarly])
      4 (fun _ => True) fun reg reg' =>
        reg' = Function.update reg 29 (BitVec.ofNat 32 (9 - 2 - stopEarly)) :=
    Lasts.sub (by omega) (by omega) (Lasts.sub (by omega) (by decide) (Lasts.load 9))
  have hNop : Lasts code nop 1 (fun _ => True) fun reg reg' => reg' = id reg :=
    Lasts.op fun s => by simp [Instr.exec, r0]
  refine Lasts.countdown (by omega) (by omega) r29_ne (hSet.seq hNop (fun _ _ _ _ => trivial) ?_)
  rintro reg _ _ - rfl rfl
  rfl

/-- Before the clock goes high, and before it goes low. -/
theorem lasts_spiWait_low : Lasts code (spiWait spiSclkDelay 0) 19 (fun _ => True)
    (Within [29] 30 []) :=
  lasts_spiWait (by decide)

theorem lasts_spiWait_high : Lasts code (spiWait spiSclkDelay 1) 17 (fun _ => True)
    (Within [29] 30 []) :=
  lasts_spiWait (by decide)

end Time

section Receive

variable (supply : Supply) {code : Code} {scratch : List Reg} {bits : List ℕ} {reg₀ reg : Regs}
  {log : List Effect} {m : Mode} {s : Bool} {heard : List Bool} {b : Bench} {ret : BitVec 32}
  {f j k n t : ℕ}

/-- Frame `f` is held for more than `t`, and `n` bits of it have been shifted out; the first
`k` bits of its byte `j` are in `r28.b0`. The return address of the subroutine is in
`r28`, too. -/
structure Got (ret : BitVec 32) (f j n k t : ℕ) (reg : Regs) (c : Converter) : Prop where
  mosi : (reg 30).getLsbD spiMosi = false
  holds : Holds (f + 1) n t c
  ret : (Reg.w 28 2).get reg = ret
  bits : ∀ i < k, (reg 28).getLsbD (7 - i) = (supply.bytes (27 * f + j)).getLsbD (7 - i)

def Receiving (scratch : List Reg) (bits : List ℕ) (reg₀ : Regs) (log : List Effect) (m : Mode)
    (s : Bool) (heard : List Bool) (ret : BitVec 32) (f j n k t : ℕ) (reg : Regs) (b : Bench) :
    Prop :=
  During scratch bits reg₀ log m s false heard reg b ∧ Got supply ret f j n k t reg b.converter

variable {supply}

theorem Got.keep {r : List Reg} {d : ℕ} (hr : 28 ∉ r) (reg reg' : Regs) (c c' : Converter)
    (h : Got supply ret f j n k (t + d) reg c) (hWithin : Within r 30 [] reg reg')
    (hPins : reg' 30 = reg 30) (hSame : Undisturbed d c c') :
    Got supply ret f j n k t reg' c' where
  mosi := hPins ▸ h.mosi
  holds := hSame.held _ _ _ h.holds
  ret := by
    rw [Field.get, hWithin.regs (Reg.w 28 2).reg hr r28_ne, ← Field.get, h.ret]
  bits i hi := by rw [hWithin.regs 28 hr r28_ne, h.bits i hi]

/-- One bit more, stored into `r28.b0`. -/
theorem Got.store {c c' : Converter} (h : Got supply ret f j n k (t + 1) reg c) (hk : k < 8)
    (hSame : Undisturbed 1 c c') :
    Got supply ret f j n (k + 1) t ((Reg.b 28 0).put reg (drive ((Reg.b 28 0).get reg) (7 - k)
      ((supply.bytes (27 * f + j)).getLsbD (7 - k)))) c' := by
  have hBit : ∀ i < 32, ((Reg.b 28 0).put reg (drive ((Reg.b 28 0).get reg) (7 - k)
      ((supply.bytes (27 * f + j)).getLsbD (7 - k))) 28).getLsbD i =
      if i = 8 * 0 + (7 - k) then (supply.bytes (27 * f + j)).getLsbD (7 - k)
      else (reg 28).getLsbD i :=
    fun i hi => put_drive (f := Reg.b 28 0) (show 7 - k < 8 by omega) hi
  refine ⟨?_, hSame.held _ _ _ h.holds, ?_, fun i hi => ?_⟩
  · rw [Field.put_of_ne _ _ _ (Ne.symm r28_ne), h.mosi]
  -- the return address is in another part of the register
  · rw [← h.ret]
    refine get_congr fun i hi => ?_
    have hLt : i < 16 := hi
    exact (hBit (8 * 2 + i) (by omega)).trans (if_neg (by omega))
  · rw [hBit _ (by omega)]
    rcases Nat.lt_succ_iff_lt_or_eq.mp hi with hlt | rfl
    · rw [if_neg (by omega), h.bits i hlt]
    · rw [if_pos (by omega)]

/-- The pin shows the bit that was shifted out last. -/
theorem Got.pin (h : Got supply ret f j (8 * j + k + 1) k t reg b.converter) (hj : j < 27)
    (hk : k < 8) :
    ((bench supply).pins b).getLsbD spiMiso = (supply.bytes (27 * f + j)).getLsbD (7 - k) := by
  have hByte : (8 * j + k + 1 - 1) / 8 = j := by omega
  have hPlace : (8 * j + k + 1 - 1) % 8 = k := by omega
  have hInside : 8 * j + k + 1 ≤ frameBits := by
    unfold frameBits
    omega
  show (b.converter.pins supply).getLsbD spiMiso = _
  rw [Converter.pins_miso, Converter.miso, h.holds.shifted, h.holds.done, hByte, hPlace,
    decide_eq_true hInside, Bool.true_and, Nat.add_sub_cancel]

variable (supply)

theorem Receiving.lasts {r : List Reg} {xs : List Instr} {d : ℕ}
    (hLasts : ∀ code, Lasts code xs d (fun _ => True) (Within r 30 [])) (hTouches : Touches xs 30 [])
    (hr : r ⊆ scratch) (h28 : 28 ∉ r) :
    Triple (bench supply) code (core xs)
      (Receiving supply scratch bits reg₀ log m s heard ret f j n k (t + d))
      (Receiving supply scratch bits reg₀ log m s heard ret f j n k t) :=
  During.lasts_and supply hLasts hTouches hr nofun (Got.keep h28)

theorem Receiving.nop :
    Triple (bench supply) code (core nop)
      (Receiving supply scratch bits reg₀ log m s heard ret f j n k (t + 1))
      (Receiving supply scratch bits reg₀ log m s heard ret f j n k t) :=
  Receiving.lasts supply (fun _ => lasts_nop) touches_nop (List.nil_subset _) List.not_mem_nil

theorem Receiving.wait_low (h29 : [29] ⊆ scratch) :
    Triple (bench supply) code (core (spiWait spiSclkDelay 0))
      (Receiving supply scratch bits reg₀ log m s heard ret f j n k (t + 19))
      (Receiving supply scratch bits reg₀ log m s heard ret f j n k t) :=
  Receiving.lasts supply (fun _ => lasts_spiWait_low) (touches_spiWait _ _) h29 (by decide)

theorem Receiving.wait_high (h29 : [29] ⊆ scratch) :
    Triple (bench supply) code (core (spiWait spiSclkDelay 1))
      (Receiving supply scratch bits reg₀ log m s heard ret f j n k (t + 17))
      (Receiving supply scratch bits reg₀ log m s heard ret f j n k t) :=
  Receiving.lasts supply (fun _ => lasts_spiWait_high) (touches_spiWait _ _) h29 (by decide)

theorem Receiving.same
    (h : Receiving supply scratch bits reg₀ log m s heard ret f j n k (t + 1) reg b) :
    Receiving supply scratch bits reg₀ log m s heard ret f j n k t reg
      ((bench supply).clock b (reg 30)) := by
  obtain ⟨hDuring, hSame⟩ := h.1.same supply nofun
  exact ⟨hDuring, h.2.keep (List.not_mem_nil) reg reg _ _ Within.refl rfl hSame⟩

/-- `LBIT` from `SPI_MISO`, behind a rising edge. -/
theorem lbitIn_receives (h28 : 28 ∈ scratch) (hj : j < 27) (hk : k < 8) :
    Triple (bench supply) code (lbitIn spiMiso (Reg.b 28 0) (7 - k))
      (Receiving supply scratch bits reg₀ log m s heard ret f j (8 * j + k + 1) k (t + 3))
      (Receiving supply scratch bits reg₀ log m s heard ret f j (8 * j + k + 1) (k + 1) t) := by
  -- either branch stores the bit that `QBBS` has tested
  have hStore : ∀ level reg (b : Bench),
      Receiving supply scratch bits reg₀ log m s heard ret f j (8 * j + k + 1) k (t + 2) reg b ∧
        (supply.bytes (27 * f + j)).getLsbD (7 - k) = level →
      Receiving supply scratch bits reg₀ log m s heard ret f j (8 * j + k + 1) (k + 1) (t + 1)
        ((Reg.b 28 0).put reg (drive ((Reg.b 28 0).get reg) (7 - k) level))
        ((bench supply).clock b
          ((Reg.b 28 0).put reg (drive ((Reg.b 28 0).get reg) (7 - k) level) 30)) := by
    rintro level reg b ⟨⟨hDuring, hGot⟩, rfl⟩
    obtain ⟨hDuring', hSame⟩ := hDuring.store supply 1 nofun
      (show (Reg.b 28 0).reg ∈ scratch from h28) r28_ne
    exact ⟨hDuring', hGot.store hk hSame⟩
  have hThen : Triple (bench supply) code
      ([.core (.set (Reg.b 28 0) (Reg.b 28 0) (7 - k))] ++ core nop)
      (fun reg b =>
        Receiving supply scratch bits reg₀ log m s heard ret f j (8 * j + k + 1) k (t + 2) reg b ∧
        (supply.bytes (27 * f + j)).getLsbD (7 - k) = true)
      (Receiving supply scratch bits reg₀ log m s heard ret f j (8 * j + k + 1) (k + 1) t) :=
    (Triple.setField fun reg b => hStore true reg b).append (Receiving.nop supply)
  have hElse : Triple (bench supply) code [.core (.clr (Reg.b 28 0) (Reg.b 28 0) (7 - k))]
      (fun reg b =>
        Receiving supply scratch bits reg₀ log m s heard ret f j (8 * j + k + 1) k (t + 2) reg b ∧
        (supply.bytes (27 * f + j)).getLsbD (7 - k) = false)
      (Receiving supply scratch bits reg₀ log m s heard ret f j (8 * j + k + 1) (k + 1) (t + 1)) :=
    Triple.clrField fun reg b => hStore false reg b
  exact Triple.ite (Branches.qbbs 3 spiMiso)
    (fun reg b h hPin => ⟨h.same supply, (h.2.pin hj hk).symm.trans hPin⟩)
    (fun reg b h hPin => ⟨h.same supply, (h.2.pin hj hk).symm.trans hPin⟩) hElse
    (fun reg b h => h.same supply) hThen

/-- A pin is driven that is not `SPI_MOSI`. -/
theorem Got.drive {c c' : Converter} {x n' t' : ℕ} {level : Bool}
    (h : Got supply ret f j n k t reg c) (hx : spiMosi ≠ x) (hHolds : Holds (f + 1) n' t' c') :
    Got supply ret f j n' k t' (Function.update reg 30 (drive (reg 30) x level)) c' where
  mosi := by rw [Function.update_self, drive_of_ne hx, h.mosi]
  holds := hHolds
  ret := by
    rw [← h.ret]
    exact get_congr fun _ _ => by rw [Function.update_of_ne (show (Reg.w 28 2).reg ≠ 30 from r28_ne)]
  bits i hi := by rw [Function.update_of_ne r28_ne, h.bits i hi]

/-- The rising edge: one bit more is shifted out. -/
theorem Receiving.high (hSclk : spiSclk ∈ bits) (hContinuous : m.continuous = true) :
    Triple (bench supply) code (core [.set r30 r30 spiSclk])
      (Receiving supply scratch bits reg₀ log m false heard ret f j n k (t + 1))
      (Receiving supply scratch bits reg₀ log m true heard ret f j (n + 1) k t) := by
  refine Triple.set ?_
  rintro reg b ⟨hDuring, hGot⟩
  obtain ⟨hHigh, hShift⟩ := hDuring.high supply hSclk
  exact ⟨hHigh, hGot.drive supply (by decide) (hShift rfl hContinuous f n t hGot.holds)⟩

/-- The falling edge: the converter hears nothing but zeros. -/
theorem Receiving.low (hSclk : spiSclk ∈ bits) :
    Triple (bench supply) code (core [.clr r30 r30 spiSclk])
      (Receiving supply scratch bits reg₀ log m true heard ret f j n k (t + 1))
      (Receiving supply scratch bits reg₀ log m false (heard ++ [false]) ret f j n k t) := by
  refine Triple.clr ?_
  rintro reg b ⟨hDuring, hGot⟩
  obtain ⟨hLow, hSame⟩ := hDuring.low supply hSclk
  rw [hGot.mosi] at hLow
  exact ⟨hLow, hGot.drive supply (by decide) (hSame.held _ _ _ hGot.holds)⟩

/-- One bit of `SPI_RX` but the first. -/
theorem bit_receives (h28 : 28 ∈ scratch) (h29 : [29] ⊆ scratch) (hSclk : spiSclk ∈ bits)
    (hContinuous : m.continuous = true) (hj : j < 27) (hk : k < 8) :
    Triple (bench supply) code (core spiRxClk ++ lbitIn spiMiso (Reg.b 28 0) (7 - k))
      (Receiving supply scratch bits reg₀ log m true heard ret f j (8 * j + k) k (t + 42))
      (Receiving supply scratch bits reg₀ log m true (heard ++ [false]) ret f j (8 * j + k + 1)
        (k + 1) t) := by
  have hClock : Triple (bench supply) code (core spiRxClk)
      (Receiving supply scratch bits reg₀ log m true heard ret f j (8 * j + k) k (t + 42))
      (Receiving supply scratch bits reg₀ log m true (heard ++ [false]) ret f j (8 * j + k + 1)
        k (t + 3)) := by
    simp only [spiRxClk, core, List.map_append]
    exact ((((Receiving.low supply (t := t + 41) hSclk).append
      (Receiving.wait_low supply (t := t + 22) h29)).append
      (Receiving.high supply (t := t + 21) hSclk hContinuous)).append
      (Receiving.wait_high supply (t := t + 4) h29)).append (Receiving.nop supply)
  exact hClock.append (lbitIn_receives supply h28 hj hk)

/-- **`SPI_RX`.** In less time than the frame is held for, the register gets a byte of it,
and the converter hears a zero byte. -/
theorem spiRx_receives (h28 : 28 ∈ scratch) (h29 : [29] ⊆ scratch) (hSclk : spiSclk ∈ bits)
    (hContinuous : m.continuous = true) (hj : j < 27) :
    Triple (bench supply) code (spiRx (Reg.b 28 0))
      (Receiving supply scratch bits reg₀ log m false heard ret f j (8 * j) 0 (t + 336))
      (Receiving supply scratch bits reg₀ log m false (heard ++ List.replicate 8 false) ret f j
        (8 * j + 8) 8 t) := by
  have hFirst : Triple (bench supply) code
      (core ([.set r30 r30 spiSclk] ++ spiWait spiSclkDelay 1 ++ nop) ++
        lbitIn spiMiso (Reg.b 28 0) 7)
      (Receiving supply scratch bits reg₀ log m false heard ret f j (8 * j) 0 (t + 336))
      (Receiving supply scratch bits reg₀ log m true heard ret f j (8 * j + 1) 1 (t + 314)) := by
    simp only [core, List.map_append]
    exact (((Receiving.high supply (t := t + 335) hSclk hContinuous).append
      (Receiving.wait_high supply (t := t + 318) h29)).append
      (Receiving.nop supply (t := t + 317))).append (lbitIn_receives supply (k := 0) h28 hj (by decide))
  -- behind `done` as many bits and one have been received
  let I : List ℕ → Regs → Bench → Prop := fun done =>
    Receiving supply scratch bits reg₀ log m true (heard ++ List.replicate done.length false) ret f j
      (8 * j + done.length + 1) (done.length + 1) (t + 20 + 42 * (7 - done.length))
  have hRest : Triple (bench supply) code
      ([6, 5, 4, 3, 2, 1, 0].flatMap fun bit => core spiRxClk ++ lbitIn spiMiso (Reg.b 28 0) bit)
      (I []) (I [6, 5, 4, 3, 2, 1, 0]) := by
    refine Triple.flatMap I _ fun done bit rest hList => ?_
    have hLen : done.length < 7 := by
      have hLength := congrArg List.length hList
      rw [List.length_append, List.length_cons] at hLength
      simp only [List.length_cons, List.length_nil] at hLength
      omega
    have hGet : [6, 5, 4, 3, 2, 1, 0][done.length]? = some bit := by
      rw [hList, List.getElem?_append_right le_rfl, Nat.sub_self]
      rfl
    have hBit : ∀ k < 7, [6, 5, 4, 3, 2, 1, 0][k]? = some bit → bit = 7 - (k + 1) := by
      intro k hk hk'
      interval_cases k <;> exact (Option.some.inj hk').symm
    have hTime : 42 * (7 - done.length) = 42 * (7 - (done.length + 1)) + 42 := by omega
    show Triple _ _ _ (Receiving _ _ _ _ _ _ _ _ _ _ _ _ _ _) _
    rw [hBit _ hLen hGet, hTime, ← Nat.add_assoc]
    refine (bit_receives supply h28 h29 hSclk hContinuous hj (by omega)).post fun reg b h => ?_
    show Receiving _ _ _ _ _ _ _ _ _ _ _ _ _ _ _ _
    rw [List.length_append, List.length_singleton, List.replicate_succ', ← List.append_assoc]
    exact h
  have hLast : Triple (bench supply) code (core ([.clr r30 r30 spiSclk] ++ spiWait spiSclkDelay 0))
      (I [6, 5, 4, 3, 2, 1, 0])
      (Receiving supply scratch bits reg₀ log m false (heard ++ List.replicate 8 false) ret f j
        (8 * j + 8) 8 t) := by
    have hLow : Triple (bench supply) code (core [.clr r30 r30 spiSclk]) (I [6, 5, 4, 3, 2, 1, 0])
        (Receiving supply scratch bits reg₀ log m false (heard ++ List.replicate 7 false ++ [false])
          ret f j (8 * j + 8) 8 (t + 19)) := Receiving.low supply hSclk
    rw [List.append_assoc] at hLow
    simp only [core, List.map_append]
    exact hLow.append (Receiving.wait_low supply h29)
  have hStart : ∀ reg b,
      Receiving supply scratch bits reg₀ log m true heard ret f j (8 * j + 1) 1 (t + 314) reg b →
      I [] reg b := by
    intro reg b h
    show Receiving _ _ _ _ _ _ _ _ _ _ _ _ _ _ _ _
    rwa [List.length_nil, List.replicate_zero, List.append_nil]
  exact ((hFirst.post hStart).append hRest).append hLast

end Receive

/-! ## The subroutines -/

section Calls

variable (supply : Supply) {code : Code} {scratch : List Reg} {bits : List ℕ} {reg₀ : Regs}
  {log : List Effect} {m : Mode} {s : Bool} {heard : List Bool} {spi_tx_call spi_rx_call f j t : ℕ}
  {v : Byte}

/-- What has changed since a later point has changed since an earlier one. -/
theorem During.trans {r : List Reg} {l : List ℕ} {reg₁ reg : Regs} {b : Bench}
    (h : Within scratch 30 bits reg₀ reg₁) (h' : During r l reg₁ log m s false heard reg b)
    (hr : r ⊆ scratch) (hl : l ⊆ bits) : During scratch bits reg₀ log m s false heard reg b :=
  ⟨h.trans (h'.within.mono hr hl), h'.hears, h'.log⟩

/-- The byte in `r28.b0` is apart from the return address in `r28.w2`. -/
theorem get_put_ret (reg : Regs) (ret : BitVec 32) :
    (Reg.b 28 0).get ((Reg.w 28 2).put reg ret) = (Reg.b 28 0).get reg := by
  refine get_congr fun i hi => ?_
  have hLt : i < 8 := hi
  show ((Reg.w 28 2).put reg ret (Reg.w 28 2).reg).getLsbD (8 * 0 + i) = _
  rw [Field.put_bit _ _ _ (by omega), if_neg fun hIn => ?_]
  · rfl
  · have hOff : 16 ≤ 8 * 0 + i := hIn.1
    omega

/-- **A call of `spi_tx_call`** sends the byte in `r28.b0`. -/
theorem spiTxCall_sends (hAt : At code spi_tx_call spiTxRoutine) (h28 : 28 ∈ scratch)
    (h29 : [29] ⊆ scratch) (hBits : [spiSclk, spiMosi] ⊆ bits) :
    Triple (bench supply) code (core [.jal (Reg.w 28 2) spi_tx_call])
      (fun reg b => During scratch bits reg₀ log m s false heard reg b ∧
        (Reg.b 28 0).get reg = v.setWidth 32)
      (Sending scratch bits reg₀ log m false (heard ++ Serial.bits v) false) := by
  -- the routine itself changes no register but `r29`
  have hBody : ∀ ret, Triple (bench supply) code (core (spiTx (Reg.b 28 0)))
      (fun reg b => (During scratch bits reg₀ log m s false heard reg b ∧
        (Reg.b 28 0).get reg = v.setWidth 32) ∧ (Reg.w 28 2).get reg = ret)
      (fun reg b => Sending scratch bits reg₀ log m false (heard ++ Serial.bits v) false reg b ∧
        (Reg.w 28 2).get reg = ret) := by
    intro ret
    refine Triple.ghost ?_
    rintro reg₁ b₁ ⟨⟨h, hByte⟩, hRet⟩
    have hSend : Triple (bench supply) code (core (spiTx (Reg.b 28 0)))
        (During [29] [spiSclk, spiMosi] reg₁ log m s false heard)
        (Sending [29] [spiSclk, spiMosi] reg₁ log m false (heard ++ Serial.bits v) false) :=
      spiTx_sends supply (by decide) r28_ne hByte (List.Subset.refl _) (by simp) (by simp)
    refine (hSend.pre ?_).post ?_
    · rintro reg b ⟨rfl, rfl⟩
      exact During.start h.hears h.log
    · rintro reg b ⟨h', hLevel⟩
      refine ⟨⟨During.trans h.within h' h29 hBits, hLevel⟩, ?_⟩
      rw [Field.get, h'.within.regs (Reg.w 28 2).reg (by decide) r28_ne, ← Field.get, hRet]
  refine Triple.call hAt (by decide) (by decide) ?_ hBody ?_
  · rintro ret reg b ⟨h, hByte⟩
    exact ⟨(h.store supply 1 heard_of_low (show (Reg.w 28 2).reg ∈ scratch from h28) r28_ne).1,
      (get_put_ret reg ret).trans hByte⟩
  · rintro ret reg b ⟨h, hLevel⟩
    exact ⟨(h.same supply heard_of_low).1, hLevel⟩

/-- Between bytes: the converter holds its frame, and the program keeps `SPI_MOSI` low. -/
structure Between (done bits t : ℕ) (reg : Regs) (c : Converter) : Prop where
  mosi : (reg 30).getLsbD spiMosi = false
  holds : Holds done bits t c

theorem Between.keep {done bits d : ℕ} {reg reg' : Regs} {c c' : Converter}
    (h : Between done bits (t + d) reg c) (hSame : Undisturbed d c c') (hPins : reg' 30 = reg 30) :
    Between done bits t reg' c' where
  mosi := hPins ▸ h.mosi
  holds := hSame.held _ _ _ h.holds

/-- **A call of `spi_rx_call`** receives byte `j` of frame `f` into `r28.b0`. -/
theorem spiRxCall_receives (hAt : At code spi_rx_call spiRxRoutine) (h28 : 28 ∈ scratch)
    (h29 : [29] ⊆ scratch) (hSclk : spiSclk ∈ bits) (hContinuous : m.continuous = true)
    (hj : j < 27) :
    Triple (bench supply) code (core [.jal (Reg.w 28 2) spi_rx_call])
      (fun reg b => During scratch bits reg₀ log m false false heard reg b ∧
        Between (f + 1) (8 * j) (t + 338) reg b.converter)
      (fun reg b =>
        During scratch bits reg₀ log m false false (heard ++ List.replicate 8 false) reg b ∧
        Between (f + 1) (8 * j + 8) t reg b.converter ∧
        (Reg.b 28 0).get reg = (supply.bytes (27 * f + j)).setWidth 32) := by
  have hBody : ∀ ret, Triple (bench supply) code (spiRx (Reg.b 28 0))
      (fun reg b => (During scratch bits reg₀ log m false false heard reg b ∧
        Between (f + 1) (8 * j) (t + 337) reg b.converter) ∧ (Reg.w 28 2).get reg = ret)
      (fun reg b => (During scratch bits reg₀ log m false false
          (heard ++ List.replicate 8 false) reg b ∧
        Between (f + 1) (8 * j + 8) (t + 1) reg b.converter ∧
        (Reg.b 28 0).get reg = (supply.bytes (27 * f + j)).setWidth 32) ∧
          (Reg.w 28 2).get reg = ret) := by
    intro ret
    have hReceive : Triple (bench supply) code (spiRx (Reg.b 28 0))
        (Receiving supply scratch bits reg₀ log m false heard ret f j (8 * j) 0 (t + 1 + 336)) _ :=
      spiRx_receives supply h28 h29 hSclk hContinuous hj
    refine (hReceive.pre ?_).post ?_
    · rintro reg b ⟨⟨h, hBetween⟩, hRet⟩
      exact ⟨h, hBetween.mosi, hBetween.holds, hRet, nofun⟩
    · rintro reg b ⟨h, hGot⟩
      refine ⟨⟨h, ⟨hGot.mosi, hGot.holds⟩, ?_⟩, hGot.ret⟩
      refine BitVec.eq_of_getLsbD_eq fun i _ => ?_
      rw [Field.get_bit, BitVec.getLsbD_setWidth]
      -- all eight bits have come, most significant first
      by_cases hi : i < 8
      · have hBit := hGot.bits (7 - i) (by omega)
        rw [show 7 - (7 - i) = i by omega] at hBit
        show (decide (i < 8) && (reg 28).getLsbD (8 * 0 + i)) = _
        rw [decide_eq_true hi, decide_eq_true (show i < 32 by omega), Nat.mul_zero, Nat.zero_add,
          hBit]
      · show (decide (i < 8) && _) = _
        rw [decide_eq_false hi, Bool.false_and, BitVec.getLsbD_of_ge _ _ (Nat.not_lt.mp hi),
          Bool.and_false]
  refine Triple.call hAt (by decide) (by decide) ?_ hBody ?_
  · rintro ret reg b ⟨h, hBetween⟩
    obtain ⟨hStore, hSame⟩ := h.store supply (v := ret) 1 nofun
      (show (Reg.w 28 2).reg ∈ scratch from h28) r28_ne
    exact ⟨hStore, Between.keep (t := t + 337) hBetween hSame
      (Field.put_of_ne _ _ _ (Ne.symm r28_ne))⟩
  · rintro ret reg b ⟨h, hBetween, hByte⟩
    obtain ⟨hDuring, hSame⟩ := h.same supply nofun
    exact ⟨hDuring, hBetween.keep hSame rfl, hByte⟩

end Calls

end EnergyMeter.Daq

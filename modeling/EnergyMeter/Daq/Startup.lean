import EnergyMeter.Lib.Pru

/-!
# Acquisition pipeline — start-up of the converter by PRU1

`ads131e08s_pru1.asm` begins with the macro `ADS_STARTUP` of `ads131e08s.inc`: it is
to pulse the reset pin of the converter, hold its start pin low, and send two
commands over the SPI bus of `spi.inc`, bit by bit. A macro is a list of
instructions here, with its local labels resolved; the subroutine `spi_tx_call`
stands further on, at an address that is a parameter.

The pins of the converter are `ADS_RESET` and `ADS_START`. The macro names
`ADS_CMD_RESET` and `ADS_CMD_START` in their place: these are commands of the
converter, 6 and 8, and as pins two others.

* `DrivesPins` — what the sequence is for, for a pair of pins.

Main results:

* `adsStartup_pins` — the sequence ends from every contents of the registers, drives
  the pins 6 and 8 as it is to drive `ADS_RESET` and `ADS_START`, and never those.
* `adsStartup_reset` — from a cleared `r30` the converter stays in reset.
-/

namespace EnergyMeter.Daq

open Lib.Pru StateTransition

/-! ## Symbols -/

def spiSclk : ℕ := 5
def spiMosi : ℕ := 0
def spiCs : ℕ := 7
def adsStart : ℕ := 4
def adsReset : ℕ := 2
def spiSclkDelay : ℕ := 9

def adsCmdReset : ℕ := 0x06
def adsCmdStart : ℕ := 0x08
def adsCmdSdatac : ℕ := 0x11

def r0 : Field := Reg.word 0
def r28 : Field := Reg.word 28
def r29 : Field := Reg.word 29
def r30 : Field := Reg.word 30

/-! ## Macros -/

/-- `NOP`. -/
def nop : List Instr := [.mov r0 r0]

/-- `SPI_WAIT`. -/
def spiWait (delay stopEarly : ℕ) : List Instr :=
  [.ldi32 r29 delay, .sub r29 r29 2, .sub r29 r29 stopEarly] ++ nop ++
    -- delay?:
    [.sub r29 r29 1, .qbne (-1) r29 0]

/-- `LBIT`. -/
def lbit (reg1 : Field) (bit1 : ℕ) (reg2 : Field) (bit2 : ℕ) : List Instr :=
  [.qbbs 3 reg1 bit1, .clr reg2 reg2 bit2, .qba 3] ++
    -- high?:
    [.set reg2 reg2 bit2] ++ nop

/-- `SPI_TX_CLK`. -/
def spiTxClk : List Instr :=
  [.set r30 r30 spiSclk] ++ spiWait spiSclkDelay 0 ++
    [.clr r30 r30 spiSclk] ++ spiWait spiSclkDelay 1 ++ nop

/-- `SPI_TX`. -/
def spiTx (reg : Field) : List Instr :=
  [7, 6, 5, 4, 3, 2, 1, 0].flatMap (fun bit => lbit reg bit r30 spiMosi ++ spiTxClk) ++ nop ++
    [.clr r30 r30 spiMosi]

/-- `spi_tx_call`, in `ADS_INIT`. -/
def spiTxCall : List Instr := spiTx (Reg.b 28 0) ++ [.jmp (Reg.w 28 2)]

/-- `ADS_WAIT`. -/
def adsWait (n : ℕ) : List Instr :=
  [.ldi32 r28 n, .sub r28 r28 1] ++
    -- delay?:
    [.sub r28 r28 1, .qbne (-1) r28 0]

/-- `ADS_SEND_CMD`. -/
def adsSendCmd (spi_tx_call command : ℕ) : List Instr :=
  [.clr r30 r30 spiCs, .ldi (Reg.b 28 0) command, .jal (Reg.w 28 2) spi_tx_call] ++
    adsWait 200 ++ [.set r30 r30 spiCs] ++ adsWait 100

/-- `ADS_STARTUP`. -/
def adsStartup (spi_tx_call : ℕ) : List Instr :=
  [.set r30 r30 adsCmdReset, .clr r30 r30 adsCmdStart, .set r30 r30 spiCs] ++
    adsWait (15 * 1000 * 1000) ++
    [.clr r30 r30 adsCmdReset] ++ adsWait (1000 * 100) ++ [.set r30 r30 adsCmdReset] ++
    adsWait (1000 * 1000) ++
    adsSendCmd spi_tx_call adsCmdReset ++ adsWait (1000 * 1000) ++
    adsSendCmd spi_tx_call adsCmdSdatac

/-- The program as far as the sequence goes: `ADS_STARTUP` from address zero on, and
the subroutine it calls. A run stops at the instruction behind the sequence. -/
def text (spi_tx_call : ℕ) : Code := fun a =>
  if a < spi_tx_call then (adsStartup spi_tx_call)[a]? else spiTxCall[a - spi_tx_call]?

/-- An output pin. -/
def pin (s : State) (b : ℕ) : Bool := (s.reg 30).getLsbD b

/-- What the sequence is for: it ends with `reset` high, after it has been low, with
`start` low and the chip not selected, and touches no other pin but those of the
bus. -/
structure DrivesPins (reset start : ℕ) (code : Code) (s : State) : Prop where
  ends : ∃ t ∈ eval (step code) s, pin t reset = true ∧ pin t start = false ∧ pin t spiCs = true
  pulse : ∃ u, Reaches (step code) s u ∧ pin u reset = false
  frame : ∀ u, Reaches (step code) s u →
    ∀ b, b ∉ [reset, start, spiCs, spiSclk, spiMosi] → pin u b = pin s b

/-! ## The pins that the code touches -/

section Touches

variable {bits : List ℕ}

theorem touches_set {b : ℕ} (hb : b ∈ bits) : Touches [.set r30 r30 b] 30 bits := by
  simpa [Instr.touches, r30, Reg.word] using hb

theorem touches_clr {b : ℕ} (hb : b ∈ bits) : Touches [.clr r30 r30 b] 30 bits := by
  simpa [Instr.touches, r30, Reg.word] using hb

theorem touches_nop : Touches nop 30 bits := by
  simp [nop, Instr.touches, r0, Reg.word]

theorem touches_spiWait (delay stopEarly : ℕ) : Touches (spiWait delay stopEarly) 30 bits := by
  simp [spiWait, touches_nop, Instr.touches, r29, Reg.word]

theorem touches_lbit {reg1 : Field} {bit1 bit2 : ℕ} (hBit : bit2 ∈ bits) :
    Touches (lbit reg1 bit1 r30 bit2) 30 bits := by
  simp [lbit, touches_nop, Instr.touches, r30, Reg.word, hBit]

theorem touches_spiTxClk (hSclk : spiSclk ∈ bits) : Touches spiTxClk 30 bits := by
  simp only [spiTxClk, Touches.append_iff]
  exact ⟨⟨⟨⟨touches_set hSclk, touches_spiWait _ _⟩, touches_clr hSclk⟩, touches_spiWait _ _⟩,
    touches_nop⟩

theorem touches_spiTxCall (hSclk : spiSclk ∈ bits) (hMosi : spiMosi ∈ bits) :
    Touches spiTxCall 30 bits := by
  have hBits : ∀ bit, Touches (lbit (Reg.b 28 0) bit r30 spiMosi ++ spiTxClk) 30 bits :=
    fun bit => Touches.append_iff.mpr ⟨touches_lbit hMosi, touches_spiTxClk hSclk⟩
  simp only [spiTxCall, spiTx, Touches.append_iff]
  exact ⟨⟨⟨Touches.flatMap hBits, touches_nop⟩, touches_clr hMosi⟩, by simp [Instr.touches]⟩

theorem touches_adsWait (n : ℕ) : Touches (adsWait n) 30 bits := by
  simp [adsWait, Instr.touches, r28, Reg.word]

theorem touches_adsSendCmd {spi_tx_call command : ℕ} (hCs : spiCs ∈ bits) :
    Touches (adsSendCmd spi_tx_call command) 30 bits := by
  simp [adsSendCmd, touches_adsWait, Instr.touches, r30, Reg.word, Reg.b, Reg.w, hCs]

theorem touches_adsStartup (spi_tx_call : ℕ) :
    Touches (adsStartup spi_tx_call) 30 [adsCmdReset, adsCmdStart, spiCs] := by
  simp [adsStartup, touches_adsWait, touches_adsSendCmd, Instr.touches, r30, Reg.word]

end Touches

/-! ## The run -/

theorem r28_ne : (28 : Reg) ≠ 30 := by decide

theorem r29_ne : (29 : Reg) ≠ 30 := by decide

section Run

variable {code : Code} {scratch : List Reg} {bits : List ℕ}

theorem does_set {b : ℕ} (hb : b ∈ bits) (hLt : b < 32) :
    Does code [.set r30 r30 b] (Within scratch 30 bits) := by
  refine (Does.set hLt).mono ?_
  rintro _ _ ⟨-, hPin⟩
  exact hPin.mono (List.nil_subset _) (List.cons_subset.mpr ⟨hb, List.nil_subset _⟩)

theorem does_clr {b : ℕ} (hb : b ∈ bits) :
    Does code [.clr r30 r30 b] (Within scratch 30 bits) := by
  refine Does.clr.mono ?_
  rintro _ _ ⟨-, hPin⟩
  exact hPin.mono (List.nil_subset _) (List.cons_subset.mpr ⟨hb, List.nil_subset _⟩)

theorem does_nop : Does code nop (Within scratch 30 bits) := by
  -- a move of a register to itself
  have hMove : ∀ s, (Instr.mov r0 r0).exec s = s.next (id s.reg) := by
    intro s
    simp [Instr.exec, r0]
  refine (Does.op hMove).mono ?_
  rintro reg _ rfl
  exact Within.refl

theorem does_delay {r : Reg} (hr : r ∈ scratch) (hOut : r ≠ 30) :
    Does code [.sub r.word r.word 1, .qbne (-1) r.word 0] (Within scratch 30 bits) := by
  refine Does.delay.mono ?_
  rintro reg _ rfl
  rw [← Reg.word_put]
  exact Within.of_put hr hOut

theorem does_spiWait (h29 : 29 ∈ scratch) (delay stopEarly : ℕ) :
    Does code (spiWait delay stopEarly) (Within scratch 30 bits) := by
  have hStore : Does code [.ldi32 r29 delay, .sub r29 r29 2, .sub r29 r29 stopEarly]
      (Within scratch 30 bits) :=
    (Does.ldi32 h29 r29_ne _).cons ((Does.sub h29 r29_ne _ _).cons (Does.sub h29 r29_ne _ _))
  exact (hStore.within does_nop).within (does_delay h29 r29_ne)

theorem does_lbit {reg1 : Field} {bit1 bit2 : ℕ} (hBit : bit2 ∈ bits) (hLt : bit2 < 32) :
    Does code (lbit reg1 bit1 r30 bit2) (Within scratch 30 bits) := by
  have hElse : Does code [.clr r30 r30 bit2] (Within scratch 30 bits) := does_clr hBit
  have hThen : Does code ([.set r30 r30 bit2] ++ nop) (Within scratch 30 bits) :=
    (does_set hBit hLt).within does_nop
  exact hElse.ite hThen

theorem does_spiTxClk (h29 : 29 ∈ scratch) (hSclk : spiSclk ∈ bits) :
    Does code spiTxClk (Within scratch 30 bits) := by
  have hHigh : Does code ([.set r30 r30 spiSclk] ++ spiWait spiSclkDelay 0)
      (Within scratch 30 bits) :=
    (does_set hSclk (by decide)).within (does_spiWait h29 _ _)
  exact ((hHigh.within (does_clr hSclk)).within (does_spiWait h29 _ _)).within does_nop

theorem does_spiTx {reg : Field} (h29 : 29 ∈ scratch) (hSclk : spiSclk ∈ bits)
    (hMosi : spiMosi ∈ bits) : Does code (spiTx reg) (Within scratch 30 bits) := by
  have hBit : ∀ bit, Does code (lbit reg bit r30 spiMosi ++ spiTxClk) (Within scratch 30 bits) := by
    intro bit
    exact (does_lbit hMosi (by decide)).within (does_spiTxClk h29 hSclk)
  exact ((Does.flatMap hBit).within does_nop).within (does_clr hMosi)

/-- The subroutine leaves `r28`, which holds its return address, as it is. -/
theorem does_spiTxCall {spi_tx_call : ℕ} (hAt : At code spi_tx_call spiTxCall)
    (h28 : 28 ∈ scratch) (h29 : 29 ∈ scratch) (hSclk : spiSclk ∈ bits) (hMosi : spiMosi ∈ bits) :
    Does code [.jal (Reg.w 28 2) spi_tx_call] (Within scratch 30 bits) := by
  have hBody : Does code (spiTx (Reg.b 28 0)) fun reg reg' =>
      Within [29] 30 bits reg reg' ∧ reg' (Reg.w 28 2).reg = reg (Reg.w 28 2).reg := by
    refine (does_spiTx (List.mem_singleton_self _) hSclk hMosi).mono ?_
    intro reg reg' hWithin
    exact ⟨hWithin, hWithin.regs 28 (by decide) r28_ne⟩
  -- `JAL` itself stores into `r28`
  refine (Does.call hAt (by decide) (by decide) hBody).mono ?_
  rintro reg reg' ⟨ret, hWithin⟩
  have hPut : Within scratch 30 bits reg ((Reg.w 28 2).put reg ret) :=
    Within.of_put h28 r28_ne
  exact hPut.trans (hWithin.mono (by simpa using h29) (List.Subset.refl _))

theorem does_adsWait (h28 : 28 ∈ scratch) (n : ℕ) :
    Does code (adsWait n) (Within scratch 30 bits) := by
  have hStore : Does code [.ldi32 r28 n, .sub r28 r28 1] (Within scratch 30 bits) :=
    (Does.ldi32 h28 r28_ne _).cons (Does.sub h28 r28_ne _ _)
  exact hStore.within (does_delay h28 r28_ne)

/-- A command is sent on the bus and leaves the chip not selected. -/
theorem does_adsSendCmd {spi_tx_call : ℕ} (hAt : At code spi_tx_call spiTxCall) (command : ℕ) :
    Does code (adsSendCmd spi_tx_call command) fun reg reg' =>
      (reg' 30).getLsbD spiCs = true ∧ Within [28, 29] 30 [spiCs, spiSclk, spiMosi] reg reg' := by
  have hSend : Does code
      [.clr r30 r30 spiCs, .ldi (Reg.b 28 0) command, .jal (Reg.w 28 2) spi_tx_call]
      (Within [28, 29] 30 [spiCs, spiSclk, spiMosi]) :=
    (does_clr (by simp)).cons ((Does.ldi (by decide) r28_ne _).cons
      (does_spiTxCall hAt (by simp) (by simp) (by simp) (by simp)))
  have hSelected := hSend.within (does_adsWait (by simp) 200)
  have hSet : Does code _ fun reg reg' =>
      (reg' 30).getLsbD spiCs = true ∧ Within [28, 29] 30 [spiCs, spiSclk, spiMosi] reg reg' :=
    hSelected.seq (Does.set (by decide)) fun _ _ _ hWithin ⟨hCs, hPin⟩ =>
      ⟨hCs, hWithin.trans (hPin.mono (by simp) (by simp))⟩
  -- the wait behind it leaves the pins alone
  have hWait : Does code (adsWait 100) (Within [28] 30 []) :=
    does_adsWait (List.mem_singleton_self 28) 100
  exact hSet.seq hWait fun _ _ _ ⟨hCs, hWithin⟩ hKeep =>
    ⟨(hKeep.bits _ (List.not_mem_nil)).trans hCs, hWithin.trans (hKeep.mono (by simp) (by simp))⟩

/-- The pins of `l` have the levels that it names. -/
def Levels (l : List (ℕ × Bool)) (reg : Regs) : Prop := ∀ p ∈ l, (reg 30).getLsbD p.1 = p.2

theorem Levels.keep {l : List (ℕ × Bool)} {reg reg' : Regs} (h : Levels l reg)
    (hWithin : Within scratch 30 bits reg reg') (hKeep : ∀ p ∈ l, p.1 ∉ bits) : Levels l reg' := by
  intro p hp
  exact (hWithin.bits p.1 (hKeep p hp)).trans (h p hp)

theorem Levels.cons {l : List (ℕ × Bool)} {reg : Regs} {b : ℕ} {level : Bool} (h : Levels l reg)
    (hb : (reg 30).getLsbD b = level) : Levels ((b, level) :: l) reg :=
  List.forall_mem_cons.mpr ⟨hb, h⟩

/-- A wait leaves all levels. -/
theorem does_levels_wait {xs : List Instr} {l : List (ℕ × Bool)}
    (h : Does code xs fun _ reg' => Levels l reg') (n : ℕ) :
    Does code (xs ++ adsWait n) fun _ reg' => Levels l reg' := by
  have hWait : Does code (adsWait n) (Within [28] 30 []) :=
    does_adsWait (List.mem_singleton_self 28) n
  refine h.seq hWait ?_
  intro _ _ _ hLevels hWithin
  exact hLevels.keep hWithin fun _ _ => List.not_mem_nil

/-- The sequence up to the middle of the pulse. -/
theorem does_pulse : Does code
    ([.set r30 r30 adsCmdReset, .clr r30 r30 adsCmdStart, .set r30 r30 spiCs] ++
      adsWait (15 * 1000 * 1000) ++ [.clr r30 r30 adsCmdReset])
    fun _ reg' => Levels [(adsCmdReset, false), (adsCmdStart, false)] reg' := by
  have hStart : Does code ([.set r30 r30 adsCmdReset] ++ [.clr r30 r30 adsCmdStart])
      fun _ reg' => Levels [(adsCmdStart, false)] reg' := by
    refine (Does.set (by decide)).seq Does.clr ?_
    rintro _ _ _ - ⟨hLow, -⟩
    exact Levels.cons (fun _ => nofun) hLow
  -- the chip is deselected, and the start pin stays low
  have hCs : Does code ([.set r30 r30 adsCmdReset] ++ [.clr r30 r30 adsCmdStart] ++
      [.set r30 r30 spiCs]) fun _ reg' => Levels [(adsCmdStart, false)] reg' := by
    refine hStart.seq (Does.set (by decide)) ?_
    rintro _ _ _ hLevels ⟨-, hPin⟩
    exact hLevels.keep hPin (by decide)
  refine (does_levels_wait hCs _).seq Does.clr ?_
  rintro _ _ _ hLevels ⟨hLow, hPin⟩
  exact (hLevels.keep hPin (by decide)).cons hLow

/-- Where the sequence leaves the pins that it drives. -/
theorem does_adsStartup {spi_tx_call : ℕ} (hAt : At code spi_tx_call spiTxCall) :
    Does code (adsStartup spi_tx_call) fun _ reg' =>
      Levels [(spiCs, true), (adsCmdReset, true), (adsCmdStart, false)] reg' := by
  let released : Regs → Prop := Levels [(adsCmdReset, true), (adsCmdStart, false)]
  have hLow := does_levels_wait (@does_pulse code) (1000 * 100)
  -- the end of the pulse
  have hHigh := Does.seq (R := fun _ reg' => released reg') hLow
    (Does.set (show adsCmdReset < 32 by decide)) <| by
      rintro _ _ _ hLevels ⟨hReset, hPin⟩
      have hStart : Levels [(adsCmdStart, false)] _ := (List.forall_mem_cons.mp hLevels).2
      exact (hStart.keep hPin (by decide)).cons hReset
  -- the first command uses the pins of the bus only
  have hCommand := Does.seq (R := fun _ reg' => released reg')
    (does_levels_wait hHigh (1000 * 1000)) (does_adsSendCmd hAt adsCmdReset) <| by
      rintro _ _ _ hLevels ⟨-, hWithin⟩
      exact hLevels.keep hWithin (by decide)
  refine (does_levels_wait hCommand (1000 * 1000)).seq (does_adsSendCmd hAt adsCmdSdatac) ?_
  rintro _ _ _ hLevels ⟨hCs, hWithin⟩
  exact (hLevels.keep hWithin (by decide)).cons hCs

end Run

/-! ## The sequence in the program -/

section Text

variable {spi_tx_call : ℕ}

theorem text_startup (hMain : (adsStartup spi_tx_call).length < spi_tx_call)
    (hFits : spi_tx_call + spiTxCall.length < 2 ^ 16) :
    At (text spi_tx_call) 0 (adsStartup spi_tx_call) where
  fits := by omega
  get i hi := by
    rw [Nat.zero_add, text, if_pos (hi.trans hMain), List.getElem?_eq_getElem hi]

theorem text_spiTxCall (hFits : spi_tx_call + spiTxCall.length < 2 ^ 16) :
    At (text spi_tx_call) spi_tx_call spiTxCall where
  fits := hFits
  get i hi := by
    rw [text, if_neg (by omega), Nat.add_sub_cancel_left, List.getElem?_eq_getElem hi]

/-- There is no instruction behind the sequence. -/
theorem text_end (hMain : (adsStartup spi_tx_call).length < spi_tx_call) :
    text spi_tx_call (adsStartup spi_tx_call).length = none := by
  rw [text, if_pos hMain, List.getElem?_eq_none_iff]

/-- The pins that the program touches at all. -/
theorem text_touches {a : ℕ} {ins : Instr} (h : text spi_tx_call a = some ins) {b : ℕ}
    (hb : b ∉ [adsCmdReset, adsCmdStart, spiCs, spiSclk, spiMosi]) : ¬ins.touches 30 b := by
  intro hTouch
  have hCall : Touches spiTxCall 30 [spiSclk, spiMosi] :=
    touches_spiTxCall (by simp) (by simp)
  unfold text at h
  split at h
  · have hMem := touches_adsStartup spi_tx_call ins (List.mem_of_getElem? h) b hTouch
    exact hb (List.mem_append_left [spiSclk, spiMosi] hMem)
  · have hMem := hCall ins (List.mem_of_getElem? h) b hTouch
    exact hb (List.mem_append_right [adsCmdReset, adsCmdStart, spiCs] hMem)

/-- The frame: no other pin changes at any point. -/
theorem pin_eq {s u : State} (hRun : Reaches (step (text spi_tx_call)) s u) {b : ℕ}
    (hb : b ∉ [adsCmdReset, adsCmdStart, spiCs, spiSclk, spiMosi]) : pin u b = pin s b :=
  reaches_untouched (fun _ _ h => text_touches h hb) hRun

/-- A pin that the program does not touch has not been pulsed. -/
theorem not_drivesPins {reset start : ℕ} {s : State}
    (hReset : reset ∉ [adsCmdReset, adsCmdStart, spiCs, spiSclk, spiMosi]) :
    ¬DrivesPins reset start (text spi_tx_call) s := by
  rintro ⟨⟨t, hEnd, hHigh, -⟩, ⟨u, hRun, hLow⟩, -⟩
  obtain ⟨hRunEnd, -⟩ := mem_eval.mp hEnd
  rw [pin_eq hRunEnd hReset] at hHigh
  rw [pin_eq hRun hReset, hHigh] at hLow
  cases hLow

/-- **The sequence drives the wrong pins.** From every contents of the registers it
runs to its end and does to the pins 6 and 8, the codes of two commands, what it is to
do to `ADS_RESET` and `ADS_START`; to these it never does. -/
theorem adsStartup_pins (hMain : (adsStartup spi_tx_call).length < spi_tx_call)
    (hFits : spi_tx_call + spiTxCall.length < 2 ^ 16) (reg : Regs) :
    (∃ t ∈ eval (step (text spi_tx_call)) ⟨0, reg⟩, t.pc = (adsStartup spi_tx_call).length) ∧
      DrivesPins adsCmdReset adsCmdStart (text spi_tx_call) ⟨0, reg⟩ ∧
      ¬DrivesPins adsReset adsStart (text spi_tx_call) ⟨0, reg⟩ := by
  have hAt := text_startup hMain hFits
  obtain ⟨t, hRun, hLevels⟩ := does_adsStartup (text_spiTxCall hFits) 0 reg hAt
  rw [Nat.zero_add] at hRun
  have hEnd := mem_eval.mpr ⟨hRun, by rw [step, text_end hMain, Option.map_none]⟩
  -- the pulse is in a prefix of the sequence
  obtain ⟨u, hPulse, hLow⟩ := does_pulse 0 reg hAt.left.left.left.left.left.left
  refine ⟨⟨_, hEnd, rfl⟩, ⟨⟨_, hEnd, ?_, ?_, ?_⟩, ⟨_, hPulse, ?_⟩, fun u hRun b hb => ?_⟩, ?_⟩
  · exact hLevels (adsCmdReset, true) (by simp)
  · exact hLevels (adsCmdStart, false) (by simp)
  · exact hLevels (spiCs, true) (by simp)
  · exact hLow (adsCmdReset, false) (by simp)
  · exact pin_eq hRun hb
  · exact not_drivesPins (by decide)

end Text

/-- With the subroutine at address 64. -/
theorem adsStartup_pins_cleared :
    DrivesPins adsCmdReset adsCmdStart (text 64) ⟨0, fun _ => 0⟩ :=
  (adsStartup_pins (by decide) (by decide +kernel) _).2.1

/-- **The converter is not started up.** From a cleared `r30` the sequence does not
release `ADS_RESET`. -/
theorem adsStartup_reset : ¬DrivesPins adsReset adsStart (text 64) ⟨0, fun _ => 0⟩ :=
  not_drivesPins (by decide)

end EnergyMeter.Daq

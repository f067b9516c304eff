import EnergyMeter.Daq.Transfer

/-!
# Acquisition pipeline — the converter is configured

The commands of `ads131e08s.inc` on the bus, and the part of `ads131e08s_pru1.asm` in
front of `mainloop`.

* `transaction_executes` — the converter is selected, hears some bytes, is deselected and
  executes them: `ADS_SEND_CMD` and `ADS_WRITE_REG` are both of this form.
* `setup_configures` — what the converter is like when PRU1 comes to `mainloop`.
-/

namespace EnergyMeter.Daq

open Lib Lib.PruIo
open Lib.Pru (Reg Regs Field Instr Within Does Lasts Touches)

/-! ## Macros -/

/-- `ADS_WRITE_REG`. -/
def adsWriteReg (spi_tx_call addr data : ℕ) : List Instr :=
  [.clr r30 r30 spiCs,
    .ldi (Reg.b 28 0) (adsCmdWreg + addr), .jal (Reg.w 28 2) spi_tx_call,
    .ldi (Reg.b 28 0) 0, .jal (Reg.w 28 2) spi_tx_call,
    .ldi (Reg.b 28 0) data, .jal (Reg.w 28 2) spi_tx_call] ++
    adsWait 200 ++ [.set r30 r30 spiCs] ++ adsWait 100

/-- `main` up to `mainloop`; `channel` is what the channels are set to. -/
def setup (spi_tx_call channel : ℕ) : List Instr :=
  adsStartup spi_tx_call ++
    adsWait 2000 ++ adsWriteReg spi_tx_call config3 0xE0 ++
    adsWait 2000 ++ adsWriteReg spi_tx_call config1 0x92 ++
    (List.range 8).flatMap (fun i => adsWriteReg spi_tx_call (chSet i) channel) ++
    adsSendCmd spi_tx_call adsCmdOffsetcal ++
    adsSendCmd spi_tx_call adsCmdRdatac ++
    [.set r30 r30 adsStart]

/-- The two forms of the macros. -/
def transaction (spi_tx_call : ℕ) (cmd : List ℕ) : List Instr :=
  [.clr r30 r30 spiCs] ++
    cmd.flatMap (fun v => [.ldi (Reg.b 28 0) v, .jal (Reg.w 28 2) spi_tx_call]) ++
    adsWait 200 ++ [.set r30 r30 spiCs] ++ adsWait 100

theorem adsSendCmd_eq (spi_tx_call command : ℕ) :
    adsSendCmd spi_tx_call command = transaction spi_tx_call [command] := rfl

theorem adsWriteReg_eq (spi_tx_call addr data : ℕ) :
    adsWriteReg spi_tx_call addr data = transaction spi_tx_call [adsCmdWreg + addr, 0, data] := rfl

/-! ## A transaction -/

section Transaction

variable (supply : Supply) {code : Code} {scratch : List Reg} {bits : List ℕ} {reg₀ : Regs}
  {log : List Effect} {m : Mode} {s : Bool} {heard : List Bool} {spi_tx_call : ℕ}

theorem During.select {reg : Regs} {b : Bench}
    (h : During scratch bits reg₀ log m s true [] reg b) (hCs : spiCs ∈ bits) :
    During scratch bits reg₀ log m s false []
        (Function.update reg 30 (drive (reg 30) spiCs false))
        ((bench supply).clock b (drive (reg 30) spiCs false)) ∧
      Undisturbed 1 b.converter
        ((bench supply).clock b (drive (reg 30) spiCs false)).converter := by
  have hReset : (drive (reg 30) spiCs false).getLsbD adsReset = true := by
    rw [drive_of_ne (by decide), h.hears.reset]
  have hSclk : (drive (reg 30) spiCs false).getLsbD spiSclk = s := by
    rw [drive_of_ne (by decide), h.hears.pinSclk]
  obtain ⟨hHears, hSame⟩ := h.hears.next_same supply hReset hSclk (drive_self (by decide))
  refine ⟨⟨within_drive h.within hCs, ?_, h.log⟩, hSame⟩
  rw [Function.update_self]
  exact hHears

/-- The converter executes what it has heard; from no frames to frames it begins with the
first. -/
theorem During.deselect {reg : Regs} {b : Bench}
    (h : During scratch bits reg₀ log m s false heard reg b) (hCs : spiCs ∈ bits) :
    During scratch bits reg₀ log (m.execute supply.defaults (Serial.bytes heard)) s true []
        (Function.update reg 30 (drive (reg 30) spiCs true))
        ((bench supply).clock b (drive (reg 30) spiCs true)) ∧
      (m.continuous = false → (m.execute supply.defaults (Serial.bytes heard)).continuous = true →
        Fresh supply 0 ((bench supply).clock b (drive (reg 30) spiCs true)).converter) ∧
      (m.continuous = true →
        Undisturbed 1 b.converter ((bench supply).clock b (drive (reg 30) spiCs true)).converter) := by
  have hReset : (drive (reg 30) spiCs true).getLsbD adsReset = true := by
    rw [drive_of_ne (by decide), h.hears.reset]
  have hSclk : (drive (reg 30) spiCs true).getLsbD spiSclk = s := by
    rw [drive_of_ne (by decide), h.hears.pinSclk]
  obtain ⟨hHears, hFrames⟩ := h.hears.next_deselect supply hReset hSclk (drive_self (by decide))
  refine ⟨⟨within_drive h.within hCs, ?_, h.log⟩, hFrames⟩
  rw [Function.update_self]
  exact hHears

theorem does_adsWait_only (n : ℕ) (code : Pru.Code) : Does code (adsWait n) (Within [28] 30 []) :=
  does_adsWait (List.mem_singleton_self 28) n

/-- One byte of a command. -/
theorem byte_sends (hAt : At code spi_tx_call spiTxRoutine) (h28 : 28 ∈ scratch)
    (h29 : [29] ⊆ scratch) (hBits : [spiSclk, spiMosi] ⊆ bits) {v : ℕ} (hv : v < 256) :
    Triple (bench supply) code
      (core [.ldi (Reg.b 28 0) v] ++ core [.jal (Reg.w 28 2) spi_tx_call])
      (During scratch bits reg₀ log m s false heard)
      (Sending scratch bits reg₀ log m false (heard ++ Serial.bits (BitVec.ofNat 8 v)) false) := by
  have hLoad : Triple (bench supply) code (core [.ldi (Reg.b 28 0) v])
      (During scratch bits reg₀ log m s false heard)
      (fun reg b => During scratch bits reg₀ log m s false heard reg b ∧
        (Reg.b 28 0).get reg = (BitVec.ofNat 8 v).setWidth 32) := by
    refine Triple.op (g := fun reg => (Reg.b 28 0).put reg (BitVec.ofNat 32 v)) (fun _ => rfl) ?_
    intro reg b h
    refine ⟨(h.store supply 1 nofun (show (Reg.b 28 0).reg ∈ scratch from h28) r28_ne).1, ?_⟩
    have hNat : (BitVec.ofNat 32 v).toNat = v :=
      (BitVec.toNat_ofNat _ _).trans (Nat.mod_eq_of_lt (by omega))
    -- a byte fits into its field
    rw [Field.get_put (Reg.b 28 0) _ (by decide) (hNat.trans_lt hv)]
    refine BitVec.eq_of_toNat_eq ?_
    rw [hNat, BitVec.toNat_setWidth, BitVec.toNat_ofNat]
    omega
  exact hLoad.append (spiTxCall_sends supply hAt h28 h29 hBits)

/-- What a transaction leaves: the level of `SPI_MOSI`, and `frames` if the converter has
turned to frames. -/
def Executed (turned : Prop) (frames : Converter → Prop) (reg : Regs) (c : Converter) : Prop :=
  MosiIs false reg c ∧ (turned → frames c)

theorem lasts_adsWait {n : ℕ} (hPos : 1 < n) (hLt : n < 2 ^ 32) {code : Pru.Code} :
    Lasts code (adsWait n) (3 + 2 * (n - 1)) (fun _ => True) (Within [28] 30 []) :=
  Lasts.countdown (by omega) (by omega) r28_ne (Lasts.sub hPos.le hLt (Lasts.load n))

/-- **A transaction.** The converter executes the bytes that the macro names. -/
theorem transaction_executes (hAt : At code spi_tx_call spiTxRoutine) (h28 : 28 ∈ scratch)
    (h29 : [29] ⊆ scratch) (hBits : [spiSclk, spiMosi] ⊆ bits) (hCs : spiCs ∈ bits) {cmd : List ℕ}
    (hCmd : ∀ v ∈ cmd, v < 256) (hNil : cmd ≠ []) {m' : Mode}
    (hExecute : m.execute supply.defaults (cmd.map (BitVec.ofNat 8)) = m') :
    Triple (bench supply) code (core (transaction spi_tx_call cmd))
      (During scratch bits reg₀ log m s true [])
      (fun reg b => During scratch bits reg₀ log m' false true [] reg b ∧
        Executed (m.continuous = false ∧ m'.continuous = true) (Begun supply 201) reg
          b.converter) := by
  have hScratch : [28] ⊆ scratch := List.cons_subset.mpr ⟨h28, List.nil_subset _⟩
  have hSelect : Triple (bench supply) code (core [.clr r30 r30 spiCs])
      (During scratch bits reg₀ log m s true []) (During scratch bits reg₀ log m s false []) :=
    Triple.clr fun reg b h => (h.select supply hCs).1
  -- before the first byte the clock may be high, after it both lines are low
  let I : List ℕ → Regs → Bench → Prop := fun done reg b => ∃ s',
    (done ≠ [] → s' = false ∧ MosiIs false reg b.converter) ∧
    During scratch bits reg₀ log m s' false
      ((done.map (BitVec.ofNat 8)).flatMap Serial.bits) reg b
  have hBytes : Triple (bench supply) code
      (cmd.flatMap fun v => core [.ldi (Reg.b 28 0) v] ++ core [.jal (Reg.w 28 2) spi_tx_call])
      (I []) (I cmd) := by
    refine Triple.flatMap I cmd fun done v rest hList => Triple.exists_pre fun s' => ?_
    have hv : v < 256 := hCmd v (hList ▸ List.mem_append_right done List.mem_cons_self)
    refine ((byte_sends supply hAt h28 h29 hBits hv).pre fun _ _ h => h.2).post
      fun reg b h => ⟨false, fun _ => ⟨rfl, h.2⟩, ?_⟩
    rw [List.map_append, List.flatMap_append, List.map_singleton, List.flatMap_singleton]
    exact h.1
  have hSent : ∀ reg b, I cmd reg b → Sending scratch bits reg₀ log m false
      ((cmd.map (BitVec.ofNat 8)).flatMap Serial.bits) false reg b := by
    rintro reg b ⟨s', hLow, h⟩
    obtain ⟨rfl, hLevel⟩ := hLow hNil
    exact ⟨h, hLevel⟩
  have hDeselect : Triple (bench supply) code (core [.set r30 r30 spiCs])
      (Sending scratch bits reg₀ log m false ((cmd.map (BitVec.ofNat 8)).flatMap Serial.bits) false)
      (fun reg b => During scratch bits reg₀ log m' false true [] reg b ∧
        Executed (m.continuous = false ∧ m'.continuous = true) (Fresh supply 0) reg
          b.converter) := by
    refine Triple.set ?_
    rintro reg b ⟨h, hLevel⟩
    obtain ⟨hDone, hFresh, -⟩ := h.deselect supply hCs
    rw [Serial.bytes_flatMap_bits, hExecute] at hDone hFresh
    refine ⟨hDone, ?_, fun hModes => hFresh hModes.1 hModes.2⟩
    rw [MosiIs, Function.update_self, drive_of_ne (by decide)]
    exact hLevel
  simp only [transaction, core, List.map_append, List.map_flatMap]
  exact ((((hSelect.post fun reg b h => ⟨s, fun hDone => absurd rfl hDone, h⟩).append
    (hBytes.post hSent)).append (Sending.quiet supply (does_adsWait_only _) (touches_adsWait _)
      hScratch)).append hDeselect).append
    (During.lasts_and supply (fun _ => lasts_adsWait (by decide) (by decide)) (touches_adsWait _)
      hScratch (fun _ => rfl) fun reg reg' c c' h hWithin hPins hSame =>
        ⟨h.1.keep 201 reg reg' c c' hWithin hPins hSame,
          fun hTurned => Nat.zero_add 201 ▸ (h.2 hTurned).begun.later hSame⟩)

end Transaction

/-! ## The set-up -/

/-- The registers behind the set-up. -/
def configured (defaults : ℕ → Byte) (channel : ℕ) : ℕ → Byte := fun r =>
  if r = config1 then 0x92
  else if r = config3 then 0xE0
  else if chSet 0 ≤ r ∧ r ≤ chSet 7 then BitVec.ofNat 8 channel
  else defaults r

section Setup

variable (supply : Supply) {code : Code} {reg₀ : Regs} {log : List Effect} {m : Mode} {s : Bool}
  {spi_tx_call channel : ℕ}

/-- The pins that the set-up uses. -/
def setupPins : List ℕ := [adsCmdReset, adsCmdStart, spiCs, spiSclk, spiMosi, adsStart]

/-- Not selected, in mode `m`. -/
abbrev Parked (reg₀ : Regs) (log : List Effect) (m : Mode) (s : Bool) : Regs → Bench → Prop :=
  During [28, 29] setupPins reg₀ log m s true []

/-- At `mainloop`: the converter has its registers and delivers frames from the first on;
its start pin is high, the bus at rest. -/
structure Configured (supply : Supply) (channel : ℕ) (reg₀ : Regs) (log : List Effect)
    (reg : Regs) (b : Bench) : Prop where
  parked : Parked reg₀ log ⟨configured supply.defaults channel, true⟩ false reg b
  start : (reg 30).getLsbD adsStart = true
  mosi : (reg 30).getLsbD spiMosi = false
  begun : Begun supply 202 b.converter

/-- A pin that is not one of the bus. -/
theorem During.other {reg : Regs} {b : Bench} {x : ℕ} {level : Bool}
    (h : Parked reg₀ log m s reg b) (hx : x ∈ setupPins) (hOther : x ∉ [adsReset, spiSclk, spiCs]) :
    Parked reg₀ log m s (Function.update reg 30 (drive (reg 30) x level))
        ((bench supply).clock b (drive (reg 30) x level)) ∧
      Undisturbed 1 b.converter ((bench supply).clock b (drive (reg 30) x level)).converter := by
  have hKeep : ∀ i ∈ [adsReset, spiSclk, spiCs],
      (drive (reg 30) x level).getLsbD i = (reg 30).getLsbD i := by
    intro i hi
    exact drive_of_ne fun hEq => hOther (hEq ▸ hi)
  obtain ⟨hHears, hSame⟩ := h.hears.next_parked supply
    ((hKeep adsReset (by simp)).trans h.hears.reset)
    ((hKeep spiSclk (by simp)).trans h.hears.pinSclk) ((hKeep spiCs (by simp)).trans h.hears.pinCs)
  refine ⟨⟨within_drive h.within hx, ?_, h.log⟩, hSame⟩
  rw [Function.update_self]
  exact hHears

theorem parked_wait (n : ℕ) :
    Triple (bench supply) code (core (adsWait n)) (Parked reg₀ log m s) (Parked reg₀ log m s) :=
  During.quiet supply (does_adsWait_only n) (touches_adsWait n) (by simp) fun _ => rfl

/-- A command whose effect on the frames does not matter. -/
theorem parked_transaction (hAt : At code spi_tx_call spiTxRoutine) {cmd : List ℕ}
    (hCmd : ∀ v ∈ cmd, v < 256) (hNil : cmd ≠ []) {m' : Mode}
    (hExecute : m.execute supply.defaults (cmd.map (BitVec.ofNat 8)) = m') :
    Triple (bench supply) code (core (transaction spi_tx_call cmd)) (Parked reg₀ log m s)
      (Parked reg₀ log m' false) :=
  (transaction_executes supply hAt (by simp) (by simp) (by simp [setupPins]) (by simp [setupPins])
    hCmd hNil hExecute).post fun _ _ h => h.1

theorem writeRegs_single (regs : ℕ → Byte) (first : ℕ) (v : Byte) :
    writeRegs regs first [v] = Function.update regs first v := by
  funext r
  unfold writeRegs
  rcases Nat.lt_trichotomy r first with hlt | rfl | hgt
  · rw [if_neg (by omega), Function.update_of_ne (by omega)]
  · rw [if_pos le_rfl, Nat.sub_self, Function.update_self]
    rfl
  · rw [if_pos hgt.le, Function.update_of_ne (by omega), List.getElem?_eq_none]
    · rfl
    · rw [List.length_singleton]
      omega

/-- `ADS_WRITE_REG` out of continuous mode. -/
theorem adsWriteReg_executes (hAt : At code spi_tx_call spiTxRoutine) {regs : ℕ → Byte}
    {addr data : ℕ} (hAddr : addr < 32) (hData : data < 256) :
    Triple (bench supply) code (core (adsWriteReg spi_tx_call addr data))
      (Parked reg₀ log ⟨regs, false⟩ s)
      (Parked reg₀ log ⟨Function.update regs addr (BitVec.ofNat 8 data), false⟩ false) := by
  have hByte : (BitVec.ofNat 8 (adsCmdWreg + addr)).toNat = adsCmdWreg + addr := by
    rw [BitVec.toNat_ofNat]
    unfold adsCmdWreg
    omega
  rw [adsWriteReg_eq]
  refine parked_transaction supply hAt ?_ (List.cons_ne_nil _ _) ?_
  · intro v hv
    simp only [List.mem_cons, List.not_mem_nil, or_false, adsCmdWreg] at hv
    omega
  · show Mode.execute _ _ [_, _, _] = _
    unfold Mode.execute
    -- the opcode carries the address in its five low bits
    have hOpcode : (adsCmdWreg + addr) / 32 * 32 = adsCmdWreg := by
      unfold adsCmdWreg
      omega
    have hFirst : (adsCmdWreg + addr) % 32 = addr := by
      unfold adsCmdWreg
      omega
    dsimp only
    rw [hByte, hOpcode, hFirst, if_pos ⟨rfl, rfl, rfl⟩, writeRegs_single]

/-- Power-up: of the converter nothing is known but that it is not held in reset. -/
structure Powered (reg₀ : Regs) (log : List Effect) (reg : Regs) (b : Bench) : Prop where
  within : Within [28, 29] 30 setupPins reg₀ reg
  reset : (reg 30).getLsbD adsReset = true
  log : b.log = log

theorem Powered.drive {reg : Regs} {b : Bench} {x : ℕ} {level : Bool} (h : Powered reg₀ log reg b)
    (hx : x ∈ setupPins) (hOther : adsReset ≠ x) :
    Powered reg₀ log (Function.update reg 30 (drive (reg 30) x level))
      ((bench supply).clock b (drive (reg 30) x level)) where
  within := within_drive h.within hx
  reset := by rw [Function.update_self, drive_of_ne hOther, h.reset]
  log := h.log

/-- `ADS_STARTUP`: the converter has its defaults, and its registers can be written. -/
theorem adsStartup_executes (hAt : At code spi_tx_call spiTxRoutine) :
    Triple (bench supply) code (core (adsStartup spi_tx_call)) (Powered reg₀ log)
      (Parked reg₀ log ⟨supply.defaults, false⟩ false) := by
  have hDeselect : Triple (bench supply) code (core [.set r30 r30 spiCs]) (Powered reg₀ log)
      (fun reg b => ∃ p : Mode × Bool, Parked reg₀ log p.1 p.2 reg b) := by
    refine Triple.set fun reg b h => ?_
    have hReset : (PruIo.drive (reg 30) spiCs true).getLsbD adsReset = true := by
      rw [drive_of_ne (by decide), h.reset]
    obtain ⟨m, s, hHears⟩ := hears_deselected supply (c := b.converter) hReset
      (drive_self (by decide))
    refine ⟨(m, s), within_drive h.within (by simp [setupPins]), ?_, h.log⟩
    rw [Function.update_self]
    exact hHears
  have hPins : Triple (bench supply) code
      (core [.set r30 r30 adsCmdReset, .clr r30 r30 adsCmdStart, .set r30 r30 spiCs])
      (Powered reg₀ log) (fun reg b => ∃ p : Mode × Bool, Parked reg₀ log p.1 p.2 reg b) :=
    (Triple.set fun reg b h => h.drive supply (by simp [setupPins]) (by decide)).cons
      ((Triple.clr fun reg b h => h.drive supply (by simp [setupPins]) (by decide)).cons hDeselect)
  -- the pin that is pulsed is not the one of the converter
  have hPulse : ∀ p : Mode × Bool, Triple (bench supply) code
      (core (adsWait (15 * 1000 * 1000) ++ [.clr r30 r30 adsCmdReset] ++ adsWait (1000 * 100) ++
        [.set r30 r30 adsCmdReset] ++ adsWait (1000 * 1000)))
      (Parked reg₀ log p.1 p.2) (Parked reg₀ log p.1 p.2) := by
    intro p
    have hClear : Triple (bench supply) code (core [.clr r30 r30 adsCmdReset])
        (Parked reg₀ log p.1 p.2) (Parked reg₀ log p.1 p.2) :=
      Triple.clr fun reg b h => (h.other supply (by simp [setupPins]) (by decide)).1
    have hSet : Triple (bench supply) code (core [.set r30 r30 adsCmdReset])
        (Parked reg₀ log p.1 p.2) (Parked reg₀ log p.1 p.2) :=
      Triple.set fun reg b h => (h.other supply (by simp [setupPins]) (by decide)).1
    exact core_append (core_append (core_append (core_append (parked_wait supply _) hClear)
      (parked_wait supply _)) hSet) (parked_wait supply _)
  have hReset : ∀ p : Mode × Bool, Triple (bench supply) code
      (core (adsSendCmd spi_tx_call adsCmdReset)) (Parked reg₀ log p.1 p.2)
      (Parked reg₀ log ⟨supply.defaults, true⟩ false) := by
    intro p
    rw [adsSendCmd_eq]
    exact parked_transaction supply hAt (by decide) (List.cons_ne_nil _ _) rfl
  have hStop : Triple (bench supply) code (core (adsSendCmd spi_tx_call adsCmdSdatac))
      (Parked reg₀ log ⟨supply.defaults, true⟩ false)
      (Parked reg₀ log ⟨supply.defaults, false⟩ false) := by
    rw [adsSendCmd_eq]
    exact parked_transaction supply hAt (by decide) (List.cons_ne_nil _ _) rfl
  have hRest : ∀ p : Mode × Bool, Triple (bench supply) code
      (core ((adsWait (15 * 1000 * 1000) ++ [.clr r30 r30 adsCmdReset] ++ adsWait (1000 * 100) ++
          [.set r30 r30 adsCmdReset] ++ adsWait (1000 * 1000)) ++
        (adsSendCmd spi_tx_call adsCmdReset ++ adsWait (1000 * 1000) ++
          adsSendCmd spi_tx_call adsCmdSdatac)))
      (Parked reg₀ log p.1 p.2) (Parked reg₀ log ⟨supply.defaults, false⟩ false) := fun p =>
    core_append (hPulse p) (core_append (core_append (hReset p) (parked_wait supply _)) hStop)
  have hAll := core_append hPins (Triple.exists_pre hRest)
  simp only [← List.append_assoc] at hAll
  exact hAll

/-- The channels one by one. -/
theorem channels_execute (hAt : At code spi_tx_call spiTxRoutine) (hChannel : channel < 256)
    {regs : ℕ → Byte} :
    Triple (bench supply) code
      (core ((List.range 8).flatMap fun i => adsWriteReg spi_tx_call (chSet i) channel))
      (Parked reg₀ log ⟨regs, false⟩ false)
      (Parked reg₀ log
        ⟨fun r => if chSet 0 ≤ r ∧ r ≤ chSet 7 then BitVec.ofNat 8 channel else regs r, false⟩
        false) := by
  -- after some channels the registers below the next one are written
  let I : List ℕ → Regs → Bench → Prop := fun done => Parked reg₀ log
    ⟨fun r => if chSet 0 ≤ r ∧ r < chSet done.length then BitVec.ofNat 8 channel else regs r, false⟩
    false
  have hChannels : Triple (bench supply) code
      ((List.range 8).flatMap fun i => core (adsWriteReg spi_tx_call (chSet i) channel))
      (I []) (I (List.range 8)) := by
    refine Triple.flatMap I _ fun done i rest hList => ?_
    have hLen : done.length < 8 := by
      have hLength := congrArg List.length hList
      rw [List.length_append, List.length_cons, List.length_range] at hLength
      omega
    have hi : i = done.length := by
      have hGet : (List.range 8)[done.length]? = some i := by
        rw [hList, List.getElem?_append_right le_rfl, Nat.sub_self]
        rfl
      rw [List.getElem?_range hLen] at hGet
      exact (Option.some.inj hGet).symm
    rw [hi]
    refine (adsWriteReg_executes supply hAt (by unfold chSet; omega) hChannel).post
      fun reg b h => ?_
    have hRegs : Function.update (fun r => if chSet 0 ≤ r ∧ r < chSet done.length then
          BitVec.ofNat 8 channel else regs r) (chSet done.length) (BitVec.ofNat 8 channel) =
        fun r => if chSet 0 ≤ r ∧ r < chSet (done ++ [done.length]).length then
          BitVec.ofNat 8 channel else regs r := by
      funext r
      rw [List.length_append, List.length_singleton]
      by_cases hr : r = chSet done.length
      · subst hr
        rw [Function.update_self, if_pos (by unfold chSet; omega)]
      · rw [Function.update_of_ne hr]
        have hSame : (chSet 0 ≤ r ∧ r < chSet done.length) ↔
            (chSet 0 ≤ r ∧ r < chSet (done.length + 1)) := by
          unfold chSet at hr ⊢
          omega
        rw [if_congr hSame rfl rfl]
    rw [hRegs] at h
    exact h
  rw [core, List.map_flatMap]
  refine (hChannels.pre fun reg b h => ?_).post fun reg b h => ?_
  · have hNone : (fun r => if chSet 0 ≤ r ∧ r < chSet ([] : List ℕ).length then
        BitVec.ofNat 8 channel else regs r) = regs :=
      funext fun r => if_neg fun hr => absurd hr.2 (Nat.not_lt.mpr hr.1)
    show Parked _ _ _ _ _ _
    rw [hNone]
    exact h
  · have hAll : (fun r => if chSet 0 ≤ r ∧ r < chSet (List.range 8).length then
          BitVec.ofNat 8 channel else regs r) =
        fun r => if chSet 0 ≤ r ∧ r ≤ chSet 7 then BitVec.ofNat 8 channel else regs r := by
      funext r
      refine if_congr ?_ rfl rfl
      rw [List.length_range]
      unfold chSet
      omega
    rw [← hAll]
    exact h

/-- **The set-up.** Whatever the converter was doing, and whatever the registers hold: at
`mainloop` the converter is configured and delivers frames. -/
theorem setup_configures (hAt : At code spi_tx_call spiTxRoutine) (hChannel : channel < 256) :
    Triple (bench supply) code (core (setup spi_tx_call channel)) (Powered reg₀ log)
      (Configured supply channel reg₀ log) := by
  -- the three kinds of registers that are written are apart
  have hRegs : (fun r => if chSet 0 ≤ r ∧ r ≤ chSet 7 then BitVec.ofNat 8 channel else
      Function.update (Function.update supply.defaults config3 (BitVec.ofNat 8 0xE0)) config1
        (BitVec.ofNat 8 0x92) r) = configured supply.defaults channel := by
    funext r
    have hApart : chSet 0 ≤ r → r ≠ config1 ∧ r ≠ config3 := by
      unfold chSet config1 config3
      omega
    rw [configured, Function.update_apply, Function.update_apply]
    by_cases hr : chSet 0 ≤ r ∧ r ≤ chSet 7
    · rw [if_pos hr, if_neg (hApart hr.1).1, if_neg (hApart hr.1).2, if_pos hr]
    · rw [if_neg hr, if_neg hr]
      rfl
  have hWrite3 : Triple (bench supply) code (core (adsWriteReg spi_tx_call config3 0xE0))
      (Parked reg₀ log ⟨supply.defaults, false⟩ false) _ :=
    adsWriteReg_executes supply hAt (by decide) (by decide)
  have hWrite1 : Triple (bench supply) code (core (adsWriteReg spi_tx_call config1 0x92))
      (Parked reg₀ log ⟨Function.update supply.defaults config3 (BitVec.ofNat 8 0xE0), false⟩ false)
      _ :=
    adsWriteReg_executes supply hAt (by decide) (by decide)
  have hChannels : Triple (bench supply) code
      (core ((List.range 8).flatMap fun i => adsWriteReg spi_tx_call (chSet i) channel))
      (Parked reg₀ log ⟨Function.update (Function.update supply.defaults config3
        (BitVec.ofNat 8 0xE0)) config1 (BitVec.ofNat 8 0x92), false⟩ false) _ :=
    channels_execute supply hAt hChannel
  rw [hRegs] at hChannels
  have hCalibrate : Triple (bench supply) code (core (adsSendCmd spi_tx_call adsCmdOffsetcal))
      (Parked reg₀ log ⟨configured supply.defaults channel, false⟩ false)
      (Parked reg₀ log ⟨configured supply.defaults channel, false⟩ false) := by
    rw [adsSendCmd_eq]
    exact parked_transaction supply hAt (by decide) (List.cons_ne_nil _ _) rfl
  -- `RDATAC` is the last command: with it the converter begins to shift from the first bit
  have hContinue : Triple (bench supply) code (core (adsSendCmd spi_tx_call adsCmdRdatac))
      (Parked reg₀ log ⟨configured supply.defaults channel, false⟩ false)
      (fun reg b => Parked reg₀ log ⟨configured supply.defaults channel, true⟩ false reg b ∧
        MosiIs false reg b.converter ∧ Begun supply 201 b.converter) := by
    rw [adsSendCmd_eq]
    refine (transaction_executes supply hAt (by simp) (by simp) (by simp [setupPins])
      (by simp [setupPins]) (by decide) (List.cons_ne_nil _ _) rfl).post ?_
    rintro reg b ⟨h, hLevel, hBegun⟩
    exact ⟨h, hLevel, hBegun ⟨rfl, rfl⟩⟩
  have hStart : Triple (bench supply) code (core [.set r30 r30 adsStart])
      (fun reg b => Parked reg₀ log ⟨configured supply.defaults channel, true⟩ false reg b ∧
        MosiIs false reg b.converter ∧ Begun supply 201 b.converter)
      (Configured supply channel reg₀ log) := by
    refine Triple.set ?_
    rintro reg b ⟨h, hLevel, hBegun⟩
    obtain ⟨hParked, hSame⟩ :
        Parked reg₀ log _ false (Function.update reg 30 (drive (reg 30) adsStart true))
            ((bench supply).clock b (drive (reg 30) adsStart true)) ∧
          Undisturbed 1 b.converter _ :=
      h.other supply (by simp [setupPins]) (by decide)
    refine ⟨hParked, ?_, ?_, hBegun.later hSame⟩
    · rw [Function.update_self, drive_self (by decide)]
    · rw [Function.update_self, drive_of_ne (by decide)]
      exact hLevel
  exact core_append (core_append (core_append (core_append (core_append (core_append (core_append
    (core_append (adsStartup_executes supply hAt) (parked_wait supply _)) hWrite3)
    (parked_wait supply _)) hWrite1) hChannels) hCalibrate) hContinue) hStart

end Setup

end EnergyMeter.Daq

import EnergyMeter.Daq.Routes

/-!
# `DAQ_Setup` and `DAQ_Stop`

What has to be there for `DAQ_Setup` to succeed, in which order it then prepares and starts
the PRUs, and what `main` does when it fails: the label that it jumps to calls `DAQ_Stop`.

* `Uio.Ready`, `Uio.Mapped`, `Fits` — what is looked for in the system, and in the programs.
* `Prepared` — the subsystem at the moments when PRU0 and PRU1 are started.

Main results:

* `daqSetup_ok_iff` — when `DAQ_Setup` succeeds.
* `daqSetup_prepared` — no PRU is started before everything that it uses is in place.
* `daqStop_after_setup` — `DAQ_Stop` halts both PRUs after any `DAQ_Setup`, failed or not,
  except after one that has not come to map the subsystem: then it dereferences a null
  pointer.

All of it on an AM33XX; what distinguishes it from the chip of the other version is `Chip`.
-/

namespace EnergyMeter.Daq.Driver

open Lib Lib.Intc

/-! ## Conditions -/

/-- Where an AM18XX has the revision of its interrupt controller this is not that of an AM18XX. -/
def Chip (p : Pruss) : Prop := p.words 0x1000 ≠ 0x4E825900

/-- `__prussdrv_memmap_init` comes to `mmap`. -/
def Uio.Mapped (os : Uio) : Prop := os.dev 0 = true ∧ os.prussBase = true ∧ os.prussSize = true

structure Uio.Ready (os : Uio) : Prop where
  mapped : os.Mapped
  extramBase : os.extramBase = true
  extramSize : os.extramSize = true
  dev1 : os.dev 1 = true

/-- A program that there is, and that the instruction memory can hold. -/
def Fits (file : Option (List Byte)) : Prop :=
  ∃ bytes, file = some bytes ∧ 0 < bytes.length ∧ bytes.length ≤ prussMaxIramSize

/-- The bytes of a program are those from the beginning of an instruction memory on. -/
def Holds (p : Pruss) (iram : ℕ) (file : List Byte) : Prop :=
  ∀ b, (hb : b < file.length) → field (fun w => p.words (iram + w)) b = file[b]

/-! ## Opening -/

section Open

variable {os : Uio} {d : Session}

theorem detectHwVersion_chip {p : Pruss} (h : Chip p) : prussDetectHwVersion p = .v2 := by
  have hLow : p.load ((0x01C34000 - 0x01C30000) / 4) = p.words 0x1000 := if_neg (by decide)
  rw [prussDetectHwVersion, hLow, if_neg h]
  rfl

/-- The session once the subsystem is mapped. -/
def Session.map (d : Session) : Session :=
  { d with drv := { d.drv with version := .v2, base := some am33xx } }

theorem memmapInit_eq (hChip : Chip d.pruss) :
    prussdrvMemmapInit os d =
      if os.prussBase = true ∧ os.prussSize = true then
        if os.extramBase = true ∧ os.extramSize = true then .ok d.map else .error (.failed, d.map)
      else .error (.failed, d) := by
  rw [prussdrvMemmapInit, detectHwVersion_chip hChip]
  cases os.prussBase <;> cases os.prussSize <;> cases os.extramBase <;> cases os.extramSize <;> rfl

/-- The session with what `open` returned in it. -/
def Session.opened (d : Session) (i : ℕ) : Session :=
  { d with drv := { d.drv with fd := Function.update d.drv.fd i true } }

/-- `prussdrv_open` of a line that is not open yet. -/
theorem open_eq {i : ℕ} (hFd : d.drv.fd i = false) :
    prussdrvOpen os d i =
      if os.dev i = true then prussdrvMemmapInit os (d.opened i) else .error (.failed, d.opened i) := by
  rw [prussdrvOpen, hFd]
  rfl

theorem open_ok (hReady : os.Ready) (hChip : Chip d.pruss) {i : ℕ} (hDev : os.dev i = true)
    (hFd : d.drv.fd i = false) : prussdrvOpen os d i = .ok (d.opened i).map := by
  have hChip' : Chip (d.opened i).pruss := hChip
  rw [open_eq hFd, if_pos hDev, memmapInit_eq hChip', if_pos hReady.mapped.2,
    if_pos ⟨hReady.extramBase, hReady.extramSize⟩]

/-- `pru_setup` where everything is found. -/
theorem pruSetup_ok (hReady : os.Ready) (hChip : Chip d.pruss) :
    ∃ d' intc, pruSetup os d = .ok d' ∧ d'.pruss = { d.pruss with intc } ∧
      d'.started = d.started ∧ d'.drv.base = some am33xx ∧
      Routed prussIntcInitdata d.pruss.intc intc := by
  obtain ⟨intc, hIntc, hRouted⟩ := routed_spec prussIntcInitdata_valid d.pruss
  have hEvents : ∀ e ∈ prussIntcInitdata.sysevtsEnabled, e.toNat < 64 :=
    prussIntcInitdata_valid.enabled_lt
  have hChip₀ : Chip (prussdrvInit d).pruss := hChip
  have hChip₁ : Chip ((prussdrvInit d).opened 0).map.pruss := hChip
  have hSetup : pruSetup os d =
      prussdrvPruintcInit prussIntcInitdata (((prussdrvInit d).opened 0).map.opened 1).map := by
    rw [pruSetup, open_ok hReady hChip₀ hReady.mapped.1 rfl]
    show (prussdrvOpen os _ 1 >>= fun d => prussdrvPruintcInit prussIntcInitdata d) = _
    rw [open_ok hReady hChip₁ hReady.dev1 rfl]
    rfl
  rw [pruintcInit_eq rfl, enabledMasks_eq hEvents] at hSetup
  exact ⟨_, intc, hSetup, hIntc, rfl, rfl, hRouted⟩

/-- `pru_setup` where something is missing: nothing of the subsystem has been touched. -/
theorem pruSetup_error (hNot : ¬os.Ready) (hChip : Chip d.pruss) :
    ∃ d', pruSetup os d = .error (.failed, d') ∧ d'.pruss = d.pruss ∧
      (os.Mapped → d'.drv.base = some am33xx) ∧ (¬os.Mapped → d'.drv.base = none) := by
  have hChip₀ : Chip ((prussdrvInit d).opened 0).pruss := hChip
  have hFirst := @open_eq os (prussdrvInit d) 0 rfl
  by_cases hDev0 : os.dev 0 = true
  · rw [if_pos hDev0, memmapInit_eq hChip₀] at hFirst
    by_cases hPruss : os.prussBase = true ∧ os.prussSize = true
    · rw [if_pos hPruss] at hFirst
      have hMapped : os.Mapped := ⟨hDev0, hPruss⟩
      by_cases hExtram : os.extramBase = true ∧ os.extramSize = true
      · -- it is the second line that is missing
        have hDev1 : ¬os.dev 1 = true := fun hDev1 =>
          hNot ⟨hMapped, hExtram.1, hExtram.2, hDev1⟩
        rw [if_pos hExtram] at hFirst
        have hSecond := @open_eq os ((prussdrvInit d).opened 0).map 1 rfl
        rw [if_neg hDev1] at hSecond
        refine ⟨(((prussdrvInit d).opened 0).map).opened 1, ?_, rfl, fun _ => rfl, absurd hMapped⟩
        rw [pruSetup, hFirst]
        show (prussdrvOpen os _ 1 >>= fun d => prussdrvPruintcInit prussIntcInitdata d) = _
        rw [hSecond]
        rfl
      · rw [if_neg hExtram] at hFirst
        refine ⟨((prussdrvInit d).opened 0).map, ?_, rfl, fun _ => rfl, absurd hMapped⟩
        rw [pruSetup, hFirst]
        rfl
    · rw [if_neg hPruss] at hFirst
      refine ⟨(prussdrvInit d).opened 0, ?_, rfl, fun h => absurd h.2 hPruss, fun _ => rfl⟩
      rw [pruSetup, hFirst]
      rfl
  · rw [if_neg hDev0] at hFirst
    refine ⟨(prussdrvInit d).opened 0, ?_, rfl, fun h => absurd h.1 hDev0, fun _ => rfl⟩
    rw [pruSetup, hFirst]
    rfl

end Open

/-! ## Loading -/

section Load

variable {d : Session} {prunum : ℕ}

/-- The bytes of a word. -/
theorem field_wordAt (bytes : ℕ → Byte) (b : ℕ) : field (wordAt bytes) b = bytes b := by
  have hByte : field (wordAt bytes) b = bytes (4 * (b / 4) + b % 4) :=
    extractLsb'_word (fun k => bytes (4 * (b / 4) + k)) (Nat.mod_lt b (by decide))
  rw [hByte, Nat.div_add_mod]

theorem startedBy_of_ne {w : ℕ} (h₀ : w ≠ am33xx.pru0Control) (h₁ : w ≠ am33xx.pru1Control)
    (v : BitVec 32) : startedBy w v = none := by
  rw [startedBy, if_neg fun h => h₀ h.2, if_neg fun h => h₁ h.2]

/-- A store that starts no PRU. -/
theorem store_of_none {w : ℕ} {v : BitVec 32} (h : startedBy w v = none) (d : Session) :
    d.store w v = { d with pruss := d.pruss.store w v } := by
  rw [Session.store, h]
  exact congrArg (fun l => Session.mk _ _ l) (List.append_nil _)

/-- The loop of `prussdrv_pru_write_memory` outside the controller and the control registers. -/
theorem copyWords_eq {n area : ℕ} (hArea : ∀ i < n, ¬InIntc (area + i))
    (hControl : am33xx.pru1Control < area) (m : ℕ → BitVec 32) (p : Pruss) (drv : Prussdrv)
    (started : List (ℕ × Pruss)) :
    copyWords ⟨drv, p, started⟩ area m n =
      ⟨drv, { p with words := fun w =>
        if area ≤ w ∧ w < area + n then m (w - area) else p.words w }, started⟩ := by
  -- the loop writes one word after the other
  induction n with
  | zero =>
    have hNone : ∀ w, ¬(area ≤ w ∧ w < area + 0) := fun w => by omega
    simp only [hNone, if_false]
    rfl
  | succ n ih =>
    have hLast : copyWords ⟨drv, p, started⟩ area m (n + 1) =
        (copyWords ⟨drv, p, started⟩ area m n).store (area + n) (m n) := by
      rw [copyWords, List.range_succ, List.foldl_append]
      rfl
    have hLow : am33xx.pru0Control < am33xx.pru1Control := by decide
    rw [hLast, ih fun i hi => hArea i (Nat.lt_succ_of_lt hi),
      store_of_none (startedBy_of_ne (by omega) (by omega) _),
      store_words (hArea n (Nat.lt_succ_self n))]
    refine congrArg (fun words => Session.mk drv { p with words } started) (funext fun w => ?_)
    by_cases hEq : w = area + n
    · subst hEq
      rw [Function.update_self, if_pos ⟨Nat.le_add_right _ _, by omega⟩, Nat.add_sub_cancel_left]
    · have hIff : (area ≤ w ∧ w < area + (n + 1)) ↔ area ≤ w ∧ w < area + n := by omega
      rw [Function.update_of_ne hEq]
      simp only [hIff]
/-- The control register and the instruction memory of a PRU. -/
def controlOf (prunum : ℕ) : ℕ := if prunum = 0 then am33xx.pru0Control else am33xx.pru1Control

def iramOf (prunum : ℕ) : ℕ := if prunum = 0 then am33xx.pru0Iram else am33xx.pru1Iram

/-- From `p` to `p'` a PRU has been halted and has got its program, and nothing else has
changed. -/
structure Loaded (prunum : ℕ) (file : List Byte) (p p' : Pruss) : Prop where
  program : Holds p' (iramOf prunum) file
  halted : p'.words (controlOf prunum) = 1
  intc : p'.intc = p.intc
  others : ∀ w, w ≠ controlOf prunum → ¬(iramOf prunum ≤ w ∧ w < iramOf prunum + 2048) →
    p'.words w = p.words w

theorem not_inIntc_control (prunum : ℕ) : ¬InIntc (controlOf prunum) := by
  unfold controlOf
  split <;> decide

theorem not_inIntc_iram (prunum i : ℕ) : ¬InIntc (iramOf prunum + i) := by
  rintro ⟨-, hHigh⟩
  have hLow : am33xx.pru0Control ≤ iramOf prunum := by
    unfold iramOf
    split <;> decide
  omega

theorem control_lt_iram (n m : ℕ) : controlOf n < iramOf m := by
  unfold controlOf iramOf
  split <;> split <;> decide

/-- Halting a PRU starts none. -/
theorem startedBy_halt (prunum : ℕ) : startedBy (controlOf prunum) 1 = none := by
  unfold controlOf
  split <;> decide

theorem startedBy_start (hPru : prunum < 2) : startedBy (controlOf prunum) 2 = some prunum := by
  have hCases : prunum = 0 ∨ prunum = 1 := by omega
  rcases hCases with rfl | rfl <;> decide

/-- A store into a control register. -/
theorem store_control_intc (p : Pruss) (v : BitVec 32) :
    (p.store (controlOf prunum) v).intc = p.intc := by
  rw [store_words (not_inIntc_control prunum)]

theorem store_control_self (p : Pruss) (v : BitVec 32) :
    (p.store (controlOf prunum) v).words (controlOf prunum) = v := by
  rw [store_words (not_inIntc_control prunum)]
  show Function.update p.words (controlOf prunum) v (controlOf prunum) = v
  rw [Function.update_self]

theorem store_control_of_ne {w : ℕ} (hw : w ≠ controlOf prunum) (p : Pruss) (v : BitVec 32) :
    (p.store (controlOf prunum) v).words w = p.words w := by
  rw [store_words (not_inIntc_control prunum)]
  show Function.update p.words (controlOf prunum) v w = p.words w
  rw [Function.update_of_ne hw]

theorem storeControl_eq (hBase : d.drv.base = some am33xx) (hPru : prunum < 2) (v : BitVec 32) :
    storeControl d prunum v = .ok (d.store (controlOf prunum) v) := by
  have hCases : prunum = 0 ∨ prunum = 1 := by omega
  rw [storeControl, bases, hBase]
  rcases hCases with rfl | rfl <;> rfl

theorem writeMemory_eq (hBase : d.drv.base = some am33xx) (memarea : ℕ → BitVec 32) (n : ℕ) :
    prussdrvPruWriteMemory d prunum memarea n =
      .ok (copyWords d (iramOf prunum) memarea ((n + 3) >>> 2)) := by
  rw [prussdrvPruWriteMemory, bases, hBase]
  rfl

/-- The subsystem with a program loaded into a PRU that has been halted. -/
def programmed (prunum : ℕ) (stack : ℕ → Byte) (file : List Byte) (p : Pruss) : Pruss :=
  { p with
    words := fun w =>
      if iramOf prunum ≤ w ∧ w < iramOf prunum + (file.length + 3) / 4 then
        wordAt (fileData stack file) (w - iramOf prunum)
      else Function.update p.words (controlOf prunum) 1 w }

theorem programmed_loaded {file : List Byte} (hLen : file.length ≤ prussMaxIramSize)
    (stack : ℕ → Byte) (p : Pruss) : Loaded prunum file p (programmed prunum stack file p) where
  program b hb := by
    -- byte `b` is in a word that has been copied
    have hWord : (programmed prunum stack file p).words (iramOf prunum + b / 4) =
        wordAt (fileData stack file) (b / 4) := by
      show (if _ then _ else _) = _
      rw [if_pos ⟨Nat.le_add_right _ _, by omega⟩, Nat.add_sub_cancel_left]
    rw [field, hWord, ← field, field_wordAt, fileData, List.getD_eq_getElem?_getD,
      List.getElem?_eq_getElem hb, Option.getD_some]
  halted := by
    have hLow := control_lt_iram prunum prunum
    show (if _ then _ else _) = _
    rw [if_neg (by omega), Function.update_self]
  intc := rfl
  others w hControl hIram := by
    have hLen' : file.length ≤ 8192 := hLen
    show (if _ then _ else _) = _
    rw [if_neg (by omega), Function.update_of_ne hControl]

/-- The session once a PRU has been started on a program that has been loaded into it. -/
def Session.executed (prunum : ℕ) (stack : ℕ → Byte) (file : List Byte) (d : Session) : Session where
  drv := d.drv
  pruss := (programmed prunum stack file d.pruss).store (controlOf prunum) 2
  started := d.started ++ [(prunum, programmed prunum stack file d.pruss)]

/-- `prussdrv_exec_program` for a program that fits: the PRU is started last. -/
theorem execProgram_ok (hBase : d.drv.base = some am33xx) (hPru : prunum < 2) {file : List Byte}
    (hPos : 0 < file.length) (hLen : file.length ≤ prussMaxIramSize) (stack : ℕ → Byte) :
    prussdrvExecProgram d prunum stack (some file) = .ok (d.executed prunum stack file) := by
  have hBase' : (d.store (controlOf prunum) 1).drv.base = some am33xx := hBase
  have hBase'' : (Session.mk d.drv (programmed prunum stack file d.pruss) d.started).drv.base =
      some am33xx := hBase
  have hWords : (file.length + 3) >>> 2 = (file.length + 3) / 4 := Nat.shiftRight_eq_div_pow _ 2
  have hCopy : copyWords (d.store (controlOf prunum) 1) (iramOf prunum) (wordAt (fileData stack file))
      ((file.length + 3) / 4) = ⟨d.drv, programmed prunum stack file d.pruss, d.started⟩ := by
    rw [store_of_none (startedBy_halt prunum),
      copyWords_eq (fun i _ => not_inIntc_iram prunum i) (control_lt_iram 1 prunum),
      store_words (not_inIntc_control prunum)]
    rfl
  rw [prussdrvExecProgram, if_neg (by omega), if_neg (Nat.not_lt.mpr hLen), prussdrvExecCodeAt,
    if_pos (by omega), prussdrvPruDisable, storeControl_eq hBase hPru]
  show (prussdrvPruWriteMemory _ prunum _ _ >>= fun d => prussdrvPruEnableAt d prunum 0) = _
  rw [writeMemory_eq hBase', hWords, hCopy]
  show storeControl _ prunum _ = _
  rw [storeControl_eq hBase'' hPru]
  show Except.ok (Session.store _ (controlOf prunum) 2) = _
  rw [Session.store, startedBy_start hPru]
  rfl

/-- And for one that does not. -/
theorem execProgram_error {file : Option (List Byte)} (hNot : ¬Fits file) (stack : ℕ → Byte) :
    prussdrvExecProgram d prunum stack file = .error (.failed, d) := by
  unfold prussdrvExecProgram
  cases file with
  | none => rfl
  | some file =>
    by_cases hZero : file.length = 0
    · simp only [hZero, if_true]
    · have hLong : file.length > prussMaxIramSize := by
        refine Nat.lt_of_not_le fun hLen => hNot ⟨file, rfl, Nat.pos_of_ne_zero hZero, hLen⟩
      simp only [hZero, hLong, if_true, if_false]

end Load

/-! ## `DAQ_Setup` -/

section Setup

variable {os : Uio} {files : Programs} {addr : BitVec 32} {d d' : Session}

/-- `DAQ_Setup` behind `pru_setup`. -/
theorem daqSetup_eq {d₁ : Session} (h : pruSetup os d = .ok d₁) :
    daqSetup os files addr d =
      (prussdrvExecProgram (d₁.store 0 addr) 0 files.stack files.pru0 >>= fun d =>
        prussdrvExecProgram d 1 files.stack files.pru1) := by
  rw [daqSetup, h]
  rfl

/-- The subsystem when `DAQ_Setup` starts PRU0, `p₀`, and PRU1, `p₁`; it was `p` before. -/
structure Prepared (addr : BitVec 32) (file₀ file₁ : List Byte) (p p₀ p₁ : Pruss) : Prop where
  routed : Routed prussIntcInitdata p.intc p₀.intc
  address : p₀.words 0 = addr
  program₀ : Holds p₀ am33xx.pru0Iram file₀
  halted₀ : p₀.words am33xx.pru0Control = 1
  /-- In between only PRU1 is touched. -/
  loaded₁ : Loaded 1 file₁ (p₀.store am33xx.pru0Control 2) p₁

/-- The calls where nothing is missing. -/
theorem daqSetup_ok (hChip : Chip d.pruss) (hReady : os.Ready) (h₀ : Fits files.pru0)
    (h₁ : Fits files.pru1) :
    ∃ d' p₀ p₁ file₀ file₁, daqSetup os files addr d = .ok d' ∧ files.pru0 = some file₀ ∧
      files.pru1 = some file₁ ∧ d'.started = d.started ++ [(0, p₀), (1, p₁)] ∧
      d'.pruss = p₁.store am33xx.pru1Control 2 ∧ d'.drv.base = some am33xx ∧
      Prepared addr file₀ file₁ d.pruss p₀ p₁ := by
  obtain ⟨d₁, intc, hSetup, hPruss, hStarted, hBase, hRouted⟩ := pruSetup_ok hReady hChip
  obtain ⟨file₀, hFile₀, hPos₀, hLen₀⟩ := h₀
  obtain ⟨file₁, hFile₁, hPos₁, hLen₁⟩ := h₁
  -- what PRU0 finds when it starts: the second program is loaded afterwards
  let p₀ := programmed 0 files.stack file₀ (d₁.pruss.store 0 addr)
  have hBase₀ : (d₁.store 0 addr).drv.base = some am33xx := hBase
  have hFirst := execProgram_ok hBase₀ (show 0 < 2 by decide) hPos₀ hLen₀ files.stack
  let d₂ := (d₁.store 0 addr).executed 0 files.stack file₀
  have hFirstStart : d₂.started = d.started ++ [(0, p₀)] := by
    show (d₁.store 0 addr).started ++ [(0, p₀)] = _
    rw [store_of_none (startedBy_of_ne (by decide) (by decide) _)]
    exact congrArg (· ++ [(0, p₀)]) hStarted
  have hBase₁ : d₂.drv.base = some am33xx := hBase
  have hSecond := execProgram_ok hBase₁ (show 1 < 2 by decide) hPos₁ hLen₁ files.stack
  have hLoaded := @programmed_loaded 0 file₀ hLen₀ files.stack (d₁.pruss.store 0 addr)
  have hAddress : (d₁.pruss.store 0 addr).words 0 = addr := by
    rw [store_words (by decide)]
    show Function.update d₁.pruss.words 0 addr 0 = addr
    rw [Function.update_self]
  have hCall := @daqSetup_eq os files addr d d₁ hSetup
  rw [hFile₀, hFirst, hFile₁] at hCall
  refine ⟨_, p₀, _, file₀, file₁, hCall.trans hSecond, hFile₀, hFile₁, ?_, rfl, hBase, ?_, ?_,
    hLoaded.program, hLoaded.halted, programmed_loaded hLen₁ files.stack _⟩
  · show d₂.started ++ [_] = _
    rw [hFirstStart, List.append_assoc]
    rfl
  · have hIntc : p₀.intc = intc := by
      rw [hLoaded.intc, store_words (by decide), hPruss]
    rwa [hIntc]
  · exact (hLoaded.others 0 (by decide) (by decide)).trans hAddress

/-- And where something is: what is left behind. -/
theorem daqSetup_error (hChip : Chip d.pruss)
    (hNot : ¬(os.Ready ∧ Fits files.pru0 ∧ Fits files.pru1)) :
    ∃ d', daqSetup os files addr d = .error (.failed, d') ∧
      (os.Mapped → d'.drv.base = some am33xx) ∧ (¬os.Mapped → d'.drv.base = none) := by
  -- the driver, the first program or the second one is missing
  by_cases hReady : os.Ready
  · obtain ⟨d₁, intc, hSetup, hPruss, -, hBase, hRouted⟩ := pruSetup_ok hReady hChip
    have hBase₀ : (d₁.store 0 addr).drv.base = some am33xx := hBase
    by_cases h₀ : Fits files.pru0
    · obtain ⟨file₀, hFile₀, hPos₀, hLen₀⟩ := h₀
      have h₁ : ¬Fits files.pru1 := fun h₁ => hNot ⟨hReady, ⟨file₀, hFile₀, hPos₀, hLen₀⟩, h₁⟩
      have hFirst := execProgram_ok hBase₀ (show 0 < 2 by decide) hPos₀ hLen₀ files.stack
      have hCall := @daqSetup_eq os files addr d d₁ hSetup
      rw [hFile₀, hFirst] at hCall
      exact ⟨_, hCall.trans (execProgram_error h₁ files.stack), fun _ => hBase, absurd hReady.mapped⟩
    · refine ⟨d₁.store 0 addr, ?_, fun _ => hBase, absurd hReady.mapped⟩
      rw [daqSetup_eq hSetup, execProgram_error h₀]
      rfl
  · obtain ⟨d', hSetup, -, hMapped, hUnmapped⟩ := pruSetup_error hReady hChip
    refine ⟨d', ?_, hMapped, hUnmapped⟩
    rw [daqSetup, hSetup]
    rfl

/-- **When `DAQ_Setup` succeeds.** -/
theorem daqSetup_ok_iff (hChip : Chip d.pruss) :
    (∃ d', daqSetup os files addr d = .ok d') ↔ os.Ready ∧ Fits files.pru0 ∧ Fits files.pru1 := by
  constructor
  · rintro ⟨d', hCall⟩
    by_contra hNot
    obtain ⟨d'', hError, -⟩ := daqSetup_error hChip hNot
    rw [hError] at hCall
    cases hCall
  · rintro ⟨hReady, h₀, h₁⟩
    obtain ⟨d', p₀, p₁, file₀, file₁, hCall, -⟩ := daqSetup_ok hChip hReady h₀ h₁
    exact ⟨d', hCall⟩

/-- What PRU0 and the controller are left with. -/
theorem daqSetup_routed (hChip : Chip d.pruss) (h : daqSetup os files addr d = .ok d') :
    Routed prussIntcInitdata d.pruss.intc d'.pruss.intc ∧ d'.pruss.words 0 = addr := by
  obtain ⟨hReady, h₀, h₁⟩ := (daqSetup_ok_iff hChip).mp ⟨d', h⟩
  obtain ⟨d'', p₀, p₁, file₀, file₁, hCall, -, -, -, hPruss, -, hPrepared⟩ :=
    @daqSetup_ok os files addr d hChip hReady h₀ h₁
  rw [h] at hCall
  cases hCall
  obtain ⟨hRouted, hAddress, -, -, hLoaded⟩ := hPrepared
  -- loading a program and starting it touch neither the controller nor the address
  have hIntc : d'.pruss.intc = p₀.intc := by
    rw [hPruss]
    exact (@store_control_intc 1 p₁ 2).trans (hLoaded.intc.trans (@store_control_intc 0 p₀ 2))
  have hWord : d'.pruss.words 0 = p₀.words 0 := by
    rw [hPruss]
    calc (p₁.store am33xx.pru1Control 2).words 0 = p₁.words 0 :=
          @store_control_of_ne 1 0 (by decide) p₁ 2
      _ = (p₀.store am33xx.pru0Control 2).words 0 := hLoaded.others 0 (by decide) (by decide)
      _ = p₀.words 0 := @store_control_of_ne 0 0 (by decide) p₀ 2
  exact ⟨hIntc ▸ hRouted, hWord.trans hAddress⟩

/-- Everything is there. -/
def complete : Uio := ⟨fun _ => true, true, true, true, true⟩

/-- Five and three bytes: neither program ends with a word. -/
def odd : Programs := ⟨some [0x24, 0, 0, 0x10, 0x2A], some [0, 0, 0x2A], fun _ => 0xFF⟩

/-- A process that has just begun, with the subsystem as another one has left it. -/
def justBegun : Session := ⟨⟨.none, fun _ => false, none, none⟩, ⟨fun _ => 0, stale⟩, []⟩

theorem justBegun_chip : Chip justBegun.pruss := by
  show (0 : BitVec 32) ≠ 0x4E825900
  decide

end Setup

/-! ## `DAQ_Stop` -/

section Stop

variable {os : Uio} {files : Programs} {addr : BitVec 32} {d : Session}

/-- The state that a call leaves, however it ends. -/
def sessionAfter : Call → Session
  | .ok d => d
  | .error (_, d) => d

structure Halted (p : Pruss) : Prop where
  pru0 : p.words am33xx.pru0Control = 1
  pru1 : p.words am33xx.pru1Control = 1

theorem daqStop_mapped (hBase : d.drv.base = some am33xx) :
    ∃ d', daqStop d = .ok d' ∧ Halted d'.pruss := by
  have hBase' : (d.store (controlOf 1) 1).drv.base = some am33xx := hBase
  have hStop : daqStop d = .ok ⟨{ d.drv with base := none },
      (d.pruss.store (controlOf 1) 1).store (controlOf 0) 1,
      ((d.store (controlOf 1) 1).store (controlOf 0) 1).started⟩ := by
    rw [daqStop, prussdrvPruDisable, storeControl_eq hBase (by decide)]
    show (prussdrvPruDisable _ 0 >>= fun d =>
      Except.ok { d with drv := { d.drv with base := none } }) = _
    rw [prussdrvPruDisable, storeControl_eq hBase' (by decide)]
    rfl
  refine ⟨_, hStop, ?_, ?_⟩
  · exact @store_control_self 0 _ 1
  · exact (@store_control_of_ne 0 (controlOf 1) (by decide) _ 1).trans
      (@store_control_self 1 d.pruss 1)

theorem daqStop_unmapped (hBase : d.drv.base = none) : daqStop d = .error (.crashed, d) := by
  rw [daqStop, prussdrvPruDisable, storeControl, bases, hBase]
  rfl

/-- **`main` stops the PRUs after any `DAQ_Setup`**, also one that failed: with its label
`exit_failure_pru` both PRUs end halted. But where `DAQ_Setup` failed before the subsystem
was mapped, the label dereferences a null pointer. `DAQ_Setup` itself never does. -/
theorem daqStop_after_setup (hChip : Chip d.pruss) :
    (∀ d', daqSetup os files addr d ≠ .error (.crashed, d')) ∧
      (os.Mapped → ∃ d', daqStop (sessionAfter (daqSetup os files addr d)) = .ok d' ∧
        Halted d'.pruss) ∧
      (¬os.Mapped → daqStop (sessionAfter (daqSetup os files addr d)) =
        .error (.crashed, sessionAfter (daqSetup os files addr d))) := by
  by_cases hAll : os.Ready ∧ Fits files.pru0 ∧ Fits files.pru1
  · obtain ⟨hReady, h₀, h₁⟩ := hAll
    obtain ⟨d', p₀, p₁, file₀, file₁, hCall, -, -, -, -, hBase, -⟩ :=
      @daqSetup_ok os files addr d hChip hReady h₀ h₁
    rw [hCall]
    exact ⟨nofun, fun _ => daqStop_mapped hBase, absurd hReady.mapped⟩
  · obtain ⟨d', hCall, hMapped, hUnmapped⟩ := @daqSetup_error os files addr d hChip hAll
    rw [hCall]
    exact ⟨nofun, fun h => daqStop_mapped (hMapped h), fun h => daqStop_unmapped (hUnmapped h)⟩

/-- Without `/dev/uio0`. -/
theorem daqStop_after_setup_missing :
    daqStop (sessionAfter (daqSetup ⟨fun _ => false, true, true, true, true⟩ odd 0 justBegun)) =
      .error (.crashed,
        sessionAfter (daqSetup ⟨fun _ => false, true, true, true, true⟩ odd 0 justBegun)) :=
  (daqStop_after_setup justBegun_chip).2.2 fun hMapped => Bool.false_ne_true hMapped.1

end Stop

end EnergyMeter.Daq.Driver

import EnergyMeter.Daq.Configure

/-!
# Acquisition pipeline — what PRU1 publishes

`ads131e08s_pru1.asm` as a whole, instruction by instruction, against the converter of
`Daq.Converter`. The functions of `Daq.Packing` say what it is for: `Reads` is the
simulation relation between their state and the two sides of the bus.

* `pru1Text` — the program, for either setting of the channels.
* `adsGetData24_reads`, `mainloop_reads` — the macro and the loop do what their namesakes
  of `Daq.Packing` do.
* `pru1_configures` — the run from the first instruction comes to `mainloop` with the
  converter configured.
* `pru1_publishes` — and then leaves every packet in the scratch pad and signals it, and
  does nothing else, where no conversion takes less than `frameTime`.
-/

namespace EnergyMeter.Daq

open Lib Lib.PruIo Relation StateTransition
open Lib.Pru (Reg Regs Field Instr Within Lasts Touches)

/-! ## The program -/

def pruIntValid : ℕ := 32
def pru1Pru0Interrupt : ℕ := 2
def xfrBank0 : ℕ := 10

/-- A general-purpose register by its number. -/
abbrev gpr (r : ℕ) : Reg := Fin.ofNat 31 r

/-- `JAL r28.w2, spi_rx_call` and `MOV :r:.b, r28.b0`. -/
def rxMovText (spi_rx_call : ℕ) (d : ℕ × Fin 4) : List Instruction :=
  core [.jal (Reg.w 28 2) spi_rx_call, .mov (Reg.b (gpr d.1) d.2) (Reg.b 28 0)]

/-- `ADS_GET_DATA24`. -/
def adsGetData24Text (spi_rx_call reg1 reg2 reg3 reg4 reg5 reg6 reg7 : ℕ) : List Instruction :=
  core [.ldi32 (gpr reg1).word 0] ++ [wbc adsDrdy] ++ core [.clr r30 r30 spiCs] ++
    (adsTargets reg1 reg2 reg3 reg4 reg5 reg6 reg7).flatMap (rxMovText spi_rx_call) ++
    core (adsWait 200 ++ [.set r30 r30 spiCs] ++ adsWait 100)

/-- `mainloop` without the jump behind it. -/
def mainloopText (spi_rx_call : ℕ) : List Instruction :=
  adsGetData24Text spi_rx_call 1 2 3 4 5 6 7 ++
    adsGetData24Text spi_rx_call 1 8 9 10 11 12 13 ++
    adsGetData24Text spi_rx_call 1 14 15 16 17 18 19 ++
    adsGetData24Text spi_rx_call 1 20 21 22 23 24 25 ++
    core [.ldi (Reg.b 1 3) 222, .ldi (Reg.b 1 2) 173, .ldi (Reg.b 1 1) 190, .ldi (Reg.b 1 0) 239] ++
    [.xout xfrBank0 1 25, .event (pruIntValid + pru1Pru0Interrupt)]

/-- The whole text, the addresses of its labels given. -/
def layout (channel mainloop spi_rx_call spi_tx_call : ℕ) : List Instruction :=
  core (setup spi_tx_call channel) ++ mainloopText spi_rx_call ++ [.jmp mainloop, .halt] ++
    spiRxRoutine ++ spiTxRoutine

/-! ### Labels -/

def mainloopAddr : ℕ := (setup 0 0).length
def spiRxAddr : ℕ := mainloopAddr + (mainloopText 0).length + 2
def spiTxAddr : ℕ := spiRxAddr + spiRxRoutine.length

/-- `ads131e08s_pru1.asm`, with `CH_GAIN_1 + CH_NORMAL` for `channel`, and
`ads131e08s_pru1_mvdd.asm`, with `CH_GAIN_1 + CH_VDD`. -/
def pru1Text (channel : ℕ) : List Instruction := layout channel mainloopAddr spiRxAddr spiTxAddr

def pru1Code (channel : ℕ) : Code := fun a => (pru1Text channel)[a]?

@[instance] theorem pkgSize_neZero : NeZero pkgSize := ⟨by decide⟩

/-- A packet as `XOUT` copies it: 25 registers. -/
def packetWords (p : Packet) : List (BitVec 32) :=
  (List.range 25).map fun i =>
    p (Fin.ofNat pkgSize (4 * i + 3)) ++ p (Fin.ofNat pkgSize (4 * i + 2)) ++
      p (Fin.ofNat pkgSize (4 * i + 1)) ++ p (Fin.ofNat pkgSize (4 * i))

/-- A packet in the scratch pad, and the signal to PRU0. -/
def publication (p : Packet) : List Effect :=
  [.xout xfrBank0 (packetWords p), .event (pruIntValid + pru1Pru0Interrupt)]

/-- The first `n` packets of a stream. -/
def publications (x : ℕ → Packet) (n : ℕ) : List Effect :=
  (List.range n).flatMap fun k => publication (x k)

/-! ## The registers by byte -/

/-- Byte `b` of register `r`. -/
def regByte (regs : Regs) (r : ℕ) (b : Fin 4) : Byte := (regs (gpr r)).extractLsb' (8 * b) 8

section Bytes

variable {regs : Regs} {r r' : ℕ} {b b' : Fin 4}

theorem gpr_inj (hr : r < 31) (hr' : r' < 31) : gpr r = gpr r' ↔ r = r' := by
  rw [Fin.ext_iff, Fin.val_ofNat, Fin.val_ofNat, Nat.mod_eq_of_lt hr, Nat.mod_eq_of_lt hr']

theorem regByte_congr {regs' : Regs} (h : regs' (gpr r) = regs (gpr r)) :
    regByte regs' r b = regByte regs r b := by
  rw [regByte, h, regByte]

theorem regByte_bit (i : ℕ) (hi : i < 8) :
    (regByte regs r b).getLsbD i = (regs (gpr r)).getLsbD (8 * b + i) := by
  rw [regByte, BitVec.getLsbD_extractLsb', decide_eq_true hi, Bool.true_and]

theorem regByte_put (hr : r < 31) (hr' : r' < 31) (v : BitVec 32) :
    regByte ((Reg.b (gpr r') b').put regs v) r b =
      if (r, b) = (r', b') then v.setWidth 8 else regByte regs r b := by
  have hb : b.val < 4 := b.isLt
  -- another register, another byte of the register, or the byte itself
  by_cases hReg : r = r'
  · subst hReg
    refine BitVec.eq_of_getLsbD_eq fun i hi => ?_
    have hPut := Field.put_bit (Reg.b (gpr r) b') regs v (show 8 * b.val + i < 32 by omega)
    rw [regByte_bit i hi]
    refine hPut.trans ?_
    by_cases hByte : b = b'
    · subst hByte
      have hIn : (Reg.b (gpr r) b).off ≤ 8 * b.val + i ∧
          8 * b.val + i < (Reg.b (gpr r) b).off + (Reg.b (gpr r) b).len :=
        ⟨Nat.le_add_right _ _, Nat.add_lt_add_left hi _⟩
      rw [if_pos hIn, if_pos rfl, BitVec.getLsbD_setWidth, decide_eq_true hi, Bool.true_and]
      congr 1
      exact Nat.add_sub_cancel_left _ _
    · have hNe : b.val ≠ b'.val := fun hEq => hByte (Fin.ext hEq)
      have hOut : ¬((Reg.b (gpr r) b').off ≤ 8 * b.val + i ∧
          8 * b.val + i < (Reg.b (gpr r) b').off + (Reg.b (gpr r) b').len) := by
        show ¬(8 * b'.val ≤ 8 * b.val + i ∧ 8 * b.val + i < 8 * b'.val + 8)
        omega
      rw [if_neg hOut, if_neg fun hEq => hByte (Prod.mk.inj hEq).2, regByte_bit i hi]
      rfl
  · rw [if_neg fun hEq => hReg (Prod.mk.inj hEq).1]
    exact regByte_congr (Field.put_of_ne _ _ _ fun hEq => hReg ((gpr_inj hr hr').mp hEq))

theorem regByte_word (hr : r < 31) (hr' : r' < 31) (v : BitVec 32) :
    regByte ((gpr r').word.put regs v) r b =
      if r = r' then v.extractLsb' (8 * b) 8 else regByte regs r b := by
  by_cases hReg : r = r'
  · rw [if_pos hReg, hReg, regByte, Pru.Reg.word_put, Function.update_self]
  · rw [if_neg hReg]
    exact regByte_congr (Field.put_of_ne _ _ _ fun hEq => hReg ((gpr_inj hr hr').mp hEq))

theorem word_bytes (v : BitVec 32) :
    v.extractLsb' 24 8 ++ v.extractLsb' 16 8 ++ v.extractLsb' 8 8 ++ v.extractLsb' 0 8 = v := by
  grind

end Bytes

/-! ## The simulation relation -/

/-- The registers that the loop uses. -/
def loopRegs : List Reg := (List.range 25).map (fun i => gpr (i + 1)) ++ [28, 29]

theorem mem_loopRegs {r : ℕ} (h : 1 ≤ r) (h' : r ≤ 25) : gpr r ∈ loopRegs := by
  refine List.mem_append_left _ (List.mem_map.mpr ⟨r - 1, List.mem_range.mpr (by omega), ?_⟩)
  rw [Nat.sub_add_cancel h]

/-- The registers `r1` to `r25` are those of `s`; the converter is selected or not, has heard
`heard`, and holds its frame. -/
structure Reads (reg₀ : Regs) (log : List Effect) (m : Mode) (s : Pru1) (cs : Bool)
    (heard : List Bool) (done bits t : ℕ) (regs : Regs) (b : Bench) : Prop where
  during : During loopRegs [spiSclk, spiCs] reg₀ log m false cs heard regs b
  between : Between done bits t regs b.converter
  holds : ∀ r x, 1 ≤ r → r ≤ 25 → regByte regs r x = s.regs r x

/-- What has been shifted out of the last of `f` frames that have been read. -/
def readBits (f : ℕ) : ℕ := if f = 0 then 0 else frameBits

/-- The time in which PRU1 reads a frame and waits for the next one: 27 bytes of 339, the two
waits of `ADS_GET_DATA24`, and what is between the calls of it. Conversions at 16 kSps
take 12500. -/
def frameTime : ℕ := 9768

/-- The read-out is in time: no conversion takes less than PRU1 with the frame before. -/
def Supply.Spaced (supply : Supply) : Prop := ∀ f, frameTime ≤ supply.period f

section Read

variable (supply : Supply) {code : Code} {reg₀ regs regs' : Regs} {log : List Effect} {m : Mode}
  {s : Pru1} {cs : Bool} {heard : List Bool} {b : Bench} {spi_rx_call done bits f j t : ℕ}

theorem scratch_subset : [28, 29] ⊆ loopRegs := List.subset_append_right _ _

/-- Code outside `r1` to `r25`. -/
theorem regByte_within {r : List Reg} {l : List ℕ} {i : ℕ} {x : Fin 4}
    (hWithin : Within r 30 l regs regs') (hr : r ⊆ [28, 29]) (hLe : i ≤ 25) :
    regByte regs' i x = regByte regs i x := by
  refine regByte_congr (hWithin.regs (gpr i) (fun hMem => ?_) fun hEq => ?_)
  · have hIn : gpr i ∈ [gpr 28, gpr 29] := hr hMem
    rw [List.mem_pair, gpr_inj (by omega) (by omega), gpr_inj (by omega) (by omega)] at hIn
    omega
  · have hOut : gpr i = gpr 30 := hEq
    rw [gpr_inj (by omega) (by omega)] at hOut
    omega

theorem Reads.mono {t' : ℕ} (h : Reads reg₀ log m s cs heard done bits t regs b) (hLe : t' ≤ t) :
    Reads reg₀ log m s cs heard done bits t' regs b :=
  ⟨h.during, ⟨h.between.mosi, h.between.holds.mono hLe⟩, h.holds⟩

theorem Reads.keep {r : List Reg} {l : List ℕ} {n : ℕ} {c' : Bench} {cs' : Bool}
    {heard' : List Bool} (h : Reads reg₀ log m s cs heard done bits (t + n) regs b)
    (hDuring : During loopRegs [spiSclk, spiCs] reg₀ log m false cs' heard' regs' c')
    (hWithin : Within r 30 l regs regs') (hr : r ⊆ [28, 29]) (hl : spiMosi ∉ l)
    (hSame : Undisturbed n b.converter c'.converter) :
    Reads reg₀ log m s cs' heard' done bits t regs' c' where
  during := hDuring
  between := ⟨by rw [hWithin.bits spiMosi hl, h.between.mosi], hSame.held _ _ _ h.between.holds⟩
  holds i x hPos hLe := by rw [regByte_within hWithin hr hLe, h.holds i x hPos hLe]

theorem Reads.same (h : Reads reg₀ log m s cs heard done bits (t + 1) regs b)
    (hHeard : cs = true → heard = []) :
    Reads reg₀ log m s cs heard done bits t regs ((bench supply).clock b (regs 30)) := by
  obtain ⟨hDuring, hSame⟩ := h.during.same supply hHeard
  exact h.keep hDuring Within.refl (List.nil_subset _) List.not_mem_nil hSame

/-- Waits. -/
theorem Reads.lasts {r : List Reg} {xs : List Instr} {n : ℕ}
    (hLasts : ∀ code, Lasts code xs n (fun _ => True) (Within r 30 [])) (hTouches : Touches xs 30 [])
    (hr : r ⊆ [28, 29]) (hHeard : cs = true → heard = []) :
    Triple (bench supply) code (core xs) (Reads reg₀ log m s cs heard done bits (t + n))
      (Reads reg₀ log m s cs heard done bits t) := by
  refine Triple.lasts hLasts hTouches ?_
  intro regs regs' b h hWithin hPins
  obtain ⟨hDuring, hSame⟩ :=
    h.during.idle supply hHeard (List.Subset.trans hr scratch_subset) hWithin hPins n
  exact h.keep hDuring hWithin hr List.not_mem_nil hSame

/-- A store into one of `r1` to `r25`, with what it means for the bytes. -/
theorem Reads.store {g : Field} {v : BitVec 32} {s' : Pru1} (n : ℕ)
    (h : Reads reg₀ log m s cs heard done bits (t + n) regs b) (hHeard : cs = true → heard = [])
    (hg : g.reg ∈ loopRegs) (hOut : g.reg ≠ 30)
    (hHolds : ∀ r x, 1 ≤ r → r ≤ 25 → regByte (g.put regs v) r x = s'.regs r x) :
    Reads reg₀ log m s' cs heard done bits t (g.put regs v)
      ((bench supply).idle (g.put regs v 30) n b) := by
  obtain ⟨hDuring, hSame⟩ := h.during.store supply n hHeard hg hOut
  exact ⟨hDuring, h.between.keep hSame (Field.put_of_ne _ _ _ (Ne.symm hOut)), hHolds⟩

/-- A store into byte `d`. -/
theorem Reads.storeByte {d : ℕ × Fin 4} {v : BitVec 32}
    (h : Reads reg₀ log m s cs heard done bits (t + 1) regs b) (hHeard : cs = true → heard = [])
    (hPos : 1 ≤ d.1) (hLe : d.1 ≤ 25) :
    Reads reg₀ log m (s.setByte d.1 d.2 (v.setWidth 8)) cs heard done bits t
      ((Reg.b (gpr d.1) d.2).put regs v)
      ((bench supply).clock b ((Reg.b (gpr d.1) d.2).put regs v 30)) := by
  refine h.store supply 1 hHeard (mem_loopRegs hPos hLe) ?_ (fun r x hr hr' => ?_)
  · show gpr d.1 ≠ gpr 30
    rw [Ne, gpr_inj (by omega) (by omega)]
    omega
  · rw [regByte_put (by omega) (by omega)]
    by_cases hEq : (r, x) = (d.1, d.2)
    · obtain ⟨rfl, rfl⟩ := Prod.mk.inj hEq
      rw [if_pos rfl]
      simp [Pru1.setByte]
    · rw [if_neg hEq, Pru1.setByte_ne hEq, h.holds r x hr hr']

/-- `LDI32 r, 0`. -/
theorem Reads.zero {r : ℕ} (h : Reads reg₀ log m s cs heard done bits (t + 2) regs b)
    (hHeard : cs = true → heard = []) (hPos : 1 ≤ r) (hLe : r ≤ 25) :
    Reads reg₀ log m { s with regs := Function.update s.regs r fun _ => 0 } cs heard done bits t
      ((gpr r).word.put regs 0) ((bench supply).idle ((gpr r).word.put regs 0 30) 2 b) := by
  refine h.store supply 2 hHeard (mem_loopRegs hPos hLe) ?_ (fun i x hi hi' => ?_)
  · show gpr r ≠ gpr 30
    rw [Ne, gpr_inj (by omega) (by omega)]
    omega
  · rw [regByte_word (by omega) (by omega)]
    show _ = Function.update s.regs r (fun _ => 0) i x
    rw [Function.update_apply]
    split_ifs
    · exact BitVec.extractLsb'_zero
    · exact h.holds i x hi hi'

/-- Between frames the pin is high. -/
theorem Holds.drdy_high {c : Converter} (h : Holds f (readBits f) t c) : c.drdy = true := by
  unfold Converter.drdy
  rw [h.done, h.shifted, readBits, decide_eq_true_eq]
  split_ifs with hFirst
  · exact .inl hFirst
  · exact .inr (show frameBits ≠ 0 by decide)

theorem Holds.drdy_low {c : Converter} (h : Holds (f + 1) 0 t c) : c.drdy = false := by
  unfold Converter.drdy
  rw [h.done, h.shifted]
  rfl

/-- One round of the wait for `ADS_DRDY`: the next conversion comes closer, or ends. -/
theorem Reads.converts (hContinuous : m.continuous = true)
    (hStart : (reg₀ 30).getLsbD adsStart = true)
    (h : Reads reg₀ log m s true [] f (readBits f) 0 regs b) :
    (Reads reg₀ log m s true [] f (readBits f) 0 regs ((bench supply).clock b (regs 30)) ∧
        ((bench supply).clock b (regs 30)).converter.wait < b.converter.wait) ∨
      ∀ t < supply.period (f + 1),
        Reads reg₀ log m s true [] (f + 1) 0 t regs ((bench supply).clock b (regs 30)) := by
  have hHears := h.during.hears
  have hHigh : (regs 30).getLsbD adsStart = true := by
    rw [h.during.within.bits adsStart (by decide), hStart]
  have hDone : b.converter.done = f := h.between.holds.done
  have hNext := hHears.next_converts supply hHears.reset hHears.pinCs hContinuous hHigh
  by_cases hEnd : b.converter.wait ≤ 1
  · rw [if_pos hEnd, hDone] at hNext
    obtain ⟨hDuring, -⟩ := h.during.same supply fun _ => rfl
    exact .inr fun t ht => ⟨hDuring, ⟨h.between.mosi, hNext.holds ht⟩, h.holds⟩
  · rw [if_neg hEnd] at hNext
    have hHolds : Holds f (readBits f) (0 + 1) b.converter :=
      ⟨hDone, h.between.holds.shifted, Nat.not_le.mp hEnd⟩
    refine .inl ⟨?_, ?_⟩
    · exact Reads.same supply ⟨h.during, ⟨h.between.mosi, hHolds⟩, h.holds⟩ fun _ => rfl
    · show (b.converter.next supply (regs 30)).wait < _
      omega

/-- The wait for `ADS_DRDY` ends with the next conversion. -/
theorem Reads.wbc (hSpaced : supply.Spaced) (hContinuous : m.continuous = true)
    (hStart : (reg₀ 30).getLsbD adsStart = true) :
    Triple (bench supply) code [wbc adsDrdy] (Reads reg₀ log m s true [] f (readBits f) 0)
      (Reads reg₀ log m s true [] (f + 1) 0 9766) := by
  have hTime : 9767 < supply.period (f + 1) := hSpaced (f + 1)
  let I : Regs → Bench → Prop := fun regs b => Reads reg₀ log m s true [] f (readBits f) 0 regs b ∨
    Reads reg₀ log m s true [] (f + 1) 0 9767 regs b
  -- a round that ends the conversion is followed by the last one
  let rank : Bench → ℕ := fun b => if b.converter.done = f then b.converter.wait else 0
  have hRank : ∀ {b : Bench}, b.converter.done = f → rank b = b.converter.wait := fun h => if_pos h
  refine Triple.pre (P := I) (Triple.wbc rank ?_ ?_) fun _ _ => .inl
  · rintro regs b h hPin
    have hDrdy : b.converter.drdy = true := (Converter.pins_drdy supply _).symm.trans hPin
    rcases h with h | h
    · have hDone : b.converter.done = f := h.between.holds.done
      rw [hRank hDone]
      rcases h.converts supply hContinuous hStart with ⟨hReads, hLt⟩ | hReads
      · rw [hRank hReads.between.holds.done]
        exact ⟨.inl hReads, hLt⟩
      · have hNext := (hReads 0 (Nat.zero_lt_of_lt hTime)).between.holds.done
        refine ⟨.inr (hReads 9767 hTime), ?_⟩
        show ite _ _ _ < _
        rw [if_neg (by omega)]
        exact h.between.holds.time
    · rw [h.between.holds.drdy_low] at hDrdy
      cases hDrdy
  · rintro regs b h hPin
    have hDrdy : b.converter.drdy = false := (Converter.pins_drdy supply _).symm.trans hPin
    rcases h with h | h
    · rw [h.between.holds.drdy_high] at hDrdy
      cases hDrdy
    · exact h.same supply fun _ => rfl

/-- `JAL` and `MOV`: the next byte is at `d`. -/
theorem rxMov_reads (hAt : At code spi_rx_call spiRxRoutine) (hContinuous : m.continuous = true)
    (hReceived : s.received = 27 * f + j) (hj : j < 27) {d : ℕ × Fin 4} (hPos : 1 ≤ d.1)
    (hLe : d.1 ≤ 25) :
    Triple (bench supply) code (rxMovText spi_rx_call d)
      (Reads reg₀ log m s false heard (f + 1) (8 * j) (t + 339))
      (Reads reg₀ log m (s.rxMov supply.bytes d) false (heard ++ List.replicate 8 false) (f + 1)
        (8 * j + 8) t) := by
  -- `SPI_RX` leaves the byte in `r28.b0`, from where it is moved
  have hCall : Triple (bench supply) code (core [.jal (Reg.w 28 2) spi_rx_call])
      (Reads reg₀ log m s false heard (f + 1) (8 * j) (t + 339))
      (fun regs b => Reads reg₀ log m { s with received := s.received + 1 } false
        (heard ++ List.replicate 8 false) (f + 1) (8 * j + 8) (t + 1) regs b ∧
        (Reg.b 28 0).get regs = (supply.bytes s.received).setWidth 32) := by
    -- the routine is called from these registers: what it does not touch is as in them
    refine Triple.ghost fun regs₁ b₁ h₁ => ?_
    have hReceive : Triple (bench supply) code (core [.jal (Reg.w 28 2) spi_rx_call])
        (fun regs b => During [28, 29] [spiSclk] regs₁ log m false false heard regs b ∧
          Between (f + 1) (8 * j) (t + 1 + 338) regs b.converter) _ :=
      spiRxCall_receives supply hAt (by simp) (by simp) (by simp) hContinuous hj
    refine (hReceive.pre ?_).post ?_
    · rintro regs b ⟨rfl, rfl⟩
      exact ⟨During.start h₁.during.hears h₁.during.log, h₁.between⟩
    · rintro regs b ⟨hDuring, hBetween, hByte⟩
      refine ⟨⟨During.trans h₁.during.within hDuring scratch_subset (by simp), hBetween,
        fun r x hr hr' => ?_⟩, hReceived ▸ hByte⟩
      rw [regByte_within hDuring.within (List.Subset.refl _) hr', h₁.holds r x hr hr']
  refine hCall.cons (Triple.op
    (g := fun regs => (Reg.b (gpr d.1) d.2).put regs ((Reg.b 28 0).get regs)) (fun _ => rfl) ?_)
  rintro regs b ⟨h, hByte⟩
  have hStore := h.storeByte supply (v := (Reg.b 28 0).get regs) nofun hPos hLe
  rw [hByte, BitVec.setWidth_setWidth_of_le _ (by decide), BitVec.setWidth_eq] at hStore
  rw [hByte]
  exact hStore

/-! ## `ADS_GET_DATA24` -/

theorem Reads.select :
    Triple (bench supply) code (core [.clr r30 r30 spiCs])
      (Reads reg₀ log m s true [] done bits (t + 1)) (Reads reg₀ log m s false [] done bits t) := by
  refine Triple.clr fun regs b h => ?_
  obtain ⟨hDuring, hSame⟩ := h.during.select supply (by simp)
  exact h.keep hDuring (within_drive Within.refl (List.mem_singleton_self spiCs))
    (List.nil_subset _) (by decide) hSame

/-- A frame of zeros is no command. -/
theorem Reads.deselect (hContinuous : m.continuous = true) :
    Triple (bench supply) code (core [.set r30 r30 spiCs])
      (Reads reg₀ log m s false (List.replicate frameBits false) done bits (t + 1))
      (Reads reg₀ log m s true [] done bits t) := by
  refine Triple.set fun regs b h => ?_
  obtain ⟨hDuring, -, hSame⟩ := h.during.deselect supply (by simp)
  have hNone : m.execute supply.defaults (Serial.bytes (List.replicate frameBits false)) = m := by
    rw [show frameBits = 8 * 27 from rfl, Serial.bytes_silence]
    rfl
  rw [hNone] at hDuring
  exact h.keep hDuring (within_drive Within.refl (List.mem_singleton_self spiCs))
    (List.nil_subset _) (by decide) (hSame hContinuous)

/-- The moves of a frame. -/
theorem rxFold_reads (hAt : At code spi_rx_call spiRxRoutine) (hContinuous : m.continuous = true)
    (hReceived : s.received = 27 * f) {ds : List (ℕ × Fin 4)} (hLen : ds.length = 27)
    (hRegs : ∀ d ∈ ds, 1 ≤ d.1 ∧ d.1 ≤ 25) :
    Triple (bench supply) code (ds.flatMap (rxMovText spi_rx_call))
      (Reads reg₀ log m s false [] (f + 1) 0 (t + 9153))
      (Reads reg₀ log m (ds.foldl (Pru1.rxMov supply.bytes) s) false
        (List.replicate frameBits false) (f + 1) frameBits t) := by
  -- behind some moves as many bytes have come
  let I : List (ℕ × Fin 4) → Regs → Bench → Prop := fun done =>
    Reads reg₀ log m (done.foldl (Pru1.rxMov supply.bytes) s) false
      (List.replicate (8 * done.length) false) (f + 1) (8 * done.length)
      (t + 339 * (27 - done.length))
  have hMoves : Triple (bench supply) code (ds.flatMap (rxMovText spi_rx_call)) (I []) (I ds) := by
    refine Triple.flatMap I ds fun done d rest hList => ?_
    have hLt : done.length < 27 := by
      rw [← hLen, hList, List.length_append, List.length_cons]
      omega
    obtain ⟨hPos, hLe⟩ := hRegs d (hList ▸ List.mem_append_right done List.mem_cons_self)
    have hCount : (done.foldl (Pru1.rxMov supply.bytes) s).received = 27 * f + done.length := by
      rw [rxFold_received, hReceived]
    have hTime : 339 * (27 - done.length) = 339 * (27 - (done.length + 1)) + 339 := by omega
    show Triple _ _ _ (Reads _ _ _ _ _ _ _ _ _) (Reads _ _ _ _ _ _ _ _ _)
    rw [hTime, ← Nat.add_assoc, List.foldl_append, List.length_append, List.length_singleton,
      Nat.mul_succ, List.replicate_add]
    exact rxMov_reads supply hAt hContinuous hCount hLt hPos hLe
  have hBits : 8 * ds.length = frameBits := by rw [hLen]; rfl
  have hEnd : I ds = Reads reg₀ log m (ds.foldl (Pru1.rxMov supply.bytes) s) false
      (List.replicate frameBits false) (f + 1) frameBits t := by
    show Reads _ _ _ _ _ _ _ _ _ = _
    rw [hBits, hLen]
    rfl
  rw [← hEnd]
  exact hMoves

theorem adsTargets_reg {reg1 reg2 reg3 reg4 reg5 reg6 reg7 : ℕ} {d : ℕ × Fin 4}
    (hd : d ∈ adsTargets reg1 reg2 reg3 reg4 reg5 reg6 reg7) :
    d.1 ∈ [reg1, reg2, reg3, reg4, reg5, reg6, reg7] := by
  have hMap : (adsTargets reg1 reg2 reg3 reg4 reg5 reg6 reg7).map Prod.fst ⊆
      [reg1, reg2, reg3, reg4, reg5, reg6, reg7] := by simp [adsTargets]
  exact hMap (List.mem_map_of_mem hd)

/-- **`ADS_GET_DATA24`** does what its namesake says, with the frame of the next conversion. -/
theorem adsGetData24_reads (hSpaced : supply.Spaced) (hAt : At code spi_rx_call spiRxRoutine)
    (hContinuous : m.continuous = true) (hStart : (reg₀ 30).getLsbD adsStart = true)
    (hReceived : s.received = 27 * f) {reg1 reg2 reg3 reg4 reg5 reg6 reg7 : ℕ}
    (hRegs : ∀ r ∈ [reg1, reg2, reg3, reg4, reg5, reg6, reg7], 1 ≤ r ∧ r ≤ 25) :
    Triple (bench supply) code (adsGetData24Text spi_rx_call reg1 reg2 reg3 reg4 reg5 reg6 reg7)
      (Reads reg₀ log m s true [] f (readBits f) 2)
      (Reads reg₀ log m (adsGetData24 supply.bytes reg1 reg2 reg3 reg4 reg5 reg6 reg7 s) true []
        (f + 1) (readBits (f + 1)) 9) := by
  have hZero : Triple (bench supply) code (core [.ldi32 (gpr reg1).word 0])
      (Reads reg₀ log m s true [] f (readBits f) 2)
      (Reads reg₀ log m { s with regs := Function.update s.regs reg1 fun _ => 0 } true [] f
        (readBits f) 0) := by
    obtain ⟨hPos, hLe⟩ := hRegs reg1 List.mem_cons_self
    exact Triple.op (g := fun regs => (gpr reg1).word.put regs 0) (fun _ => rfl)
      fun regs b h => h.zero supply (fun _ => rfl) hPos hLe
  -- a frame is read from its first bit to its last one
  have hMoves : ∀ s₀ : Pru1, s₀.received = 27 * f → Triple (bench supply) code
      ((adsTargets reg1 reg2 reg3 reg4 reg5 reg6 reg7).flatMap (rxMovText spi_rx_call))
      (Reads reg₀ log m s₀ false [] (f + 1) 0 9765)
      (Reads reg₀ log m ((adsTargets reg1 reg2 reg3 reg4 reg5 reg6 reg7).foldl
        (Pru1.rxMov supply.bytes) s₀) false (List.replicate frameBits false) (f + 1) frameBits 612) :=
    fun _ hReceived => rxFold_reads supply hAt hContinuous hReceived rfl fun d hd =>
      hRegs d.1 (adsTargets_reg hd)
  have hWait : ∀ n t cs heard, 1 < n → n < 2 ^ 32 → (cs = true → heard = []) →
      Triple (bench supply) code (core (adsWait n))
        (Reads reg₀ log m (adsGetData24 supply.bytes reg1 reg2 reg3 reg4 reg5 reg6 reg7 s) cs heard
          (f + 1) frameBits (t + (3 + 2 * (n - 1))))
        (Reads reg₀ log m (adsGetData24 supply.bytes reg1 reg2 reg3 reg4 reg5 reg6 reg7 s) cs heard
          (f + 1) frameBits t) :=
    fun n t cs heard hPos hLt hHeard =>
      Reads.lasts supply (fun _ => lasts_adsWait hPos hLt) (touches_adsWait n) (by simp) hHeard
  exact (((hZero.append (Reads.wbc supply hSpaced hContinuous hStart)).append
    (Reads.select supply)).append (hMoves _ hReceived)).append
      (core_append (core_append (hWait 200 211 _ _ (by decide) (by decide) nofun)
        (Reads.deselect supply hContinuous)) (hWait 100 9 _ _ (by decide) (by decide) fun _ => rfl))

/-! ## `mainloop` -/

/-- What the program hands over; the bus is at rest. -/
theorem Reads.emit {effect : Effect} (h : Reads reg₀ log m s true [] done bits (t + 1) regs b) :
    Reads reg₀ (log ++ [effect]) m s true [] done bits t regs
      ((bench supply).clock ((bench supply).emit b effect) (regs 30)) := by
  have hEmit : During loopRegs [spiSclk, spiCs] reg₀ (log ++ [effect]) m false true [] regs
      ((bench supply).emit b effect) :=
    ⟨h.during.within, h.during.hears, congrArg (· ++ [effect]) h.during.log⟩
  obtain ⟨hDuring, hSame⟩ := hEmit.same supply fun _ => rfl
  exact ⟨hDuring, h.between.keep hSame rfl, h.holds⟩

/-- `XOUT` copies the packet that its namesake makes of the registers. -/
theorem Reads.words (h : Reads reg₀ log m s cs heard done bits t regs b) :
    ((List.range 25).map fun i => regs (1 + Fin.ofNat 31 i)) = packetWords (xout s) := by
  refine List.map_congr_left fun i hi => ?_
  have hLt : i < 25 := List.mem_range.mp hi
  have hReg : (1 : Reg) + Fin.ofNat 31 i = gpr (1 + i) := by
    refine Fin.ext ?_
    rw [Fin.val_add, Fin.val_ofNat, Fin.val_ofNat, Nat.add_mod_mod]
    rfl
  -- byte `k` of word `i` is byte `k` of register `1 + i`
  have hByte : ∀ k (x : Fin 4), x.val = k →
      xout s (Fin.ofNat pkgSize (4 * i + k)) = regByte regs (1 + i) x := by
    intro k x hk
    have hx : x.val < 4 := x.isLt
    have hPlace : (4 * i + k) % pkgSize = 4 * i + k :=
      Nat.mod_eq_of_lt (show 4 * i + k < 100 by omega)
    rw [h.holds _ _ (Nat.le_add_right _ _) (by omega), xout, Fin.val_ofNat, hPlace,
      show (4 * i + k) / 4 = i by omega]
    congr 1
    refine Fin.ext ?_
    rw [Fin.val_ofNat]
    omega
  have hLow : xout s (Fin.ofNat pkgSize (4 * i)) = regByte regs (1 + i) 0 := hByte 0 0 rfl
  rw [hReg, hByte 3 3 rfl, hByte 2 2 rfl, hByte 1 1 rfl, hLow]
  exact (word_bytes _).symm

/-- `LDI r1.b, imm`. -/
theorem ldi_reads (x : Fin 4) (imm : ℕ) :
    Triple (bench supply) code (core [.ldi (Reg.b 1 x) imm])
      (Reads reg₀ log m s true [] done bits (t + 1))
      (Reads reg₀ log m (s.setByte 1 x ((BitVec.ofNat 32 imm).setWidth 8)) true [] done bits t) :=
  Triple.op (g := fun regs => (Reg.b 1 x).put regs (BitVec.ofNat 32 imm)) (fun _ => rfl)
    fun _ _ h => h.storeByte supply (d := (1, x)) (fun _ => rfl) le_rfl
      (show 1 ≤ 25 by decide)

/-- **`mainloop`** does what its namesake says with the frames of the next four conversions,
and hands over its packet. -/
theorem mainloop_reads (hSpaced : supply.Spaced) (hAt : At code spi_rx_call spiRxRoutine)
    (hContinuous : m.continuous = true) (hStart : (reg₀ 30).getLsbD adsStart = true)
    (hReceived : s.received = 27 * f) :
    Triple (bench supply) code (mainloopText spi_rx_call)
      (Reads reg₀ log m s true [] f (readBits f) 2)
      (Reads reg₀ (log ++ publication (xout (mainloop supply.bytes s))) m (mainloop supply.bytes s)
        true [] (f + 4) (readBits (f + 4)) 3) := by
  -- the time that is left behind a frame is more than the next call needs
  have hData : ∀ j < 4, ∀ t ≤ 9, Triple (bench supply) code
      (adsGetData24Text spi_rx_call 1 (2 + 6 * j) (3 + 6 * j) (4 + 6 * j) (5 + 6 * j) (6 + 6 * j)
        (7 + 6 * j))
      (Reads reg₀ log m (dataCalls supply.bytes s j) true [] (f + j) (readBits (f + j)) 2)
      (Reads reg₀ log m (dataCalls supply.bytes s (j + 1)) true [] (f + j + 1) (readBits (f + j + 1))
        t) := by
    intro j hj t ht
    refine (adsGetData24_reads supply hSpaced hAt hContinuous hStart ?_ ?_).post fun _ _ h => h.mono ht
    · rw [dataCalls_received]
      omega
    · intro r hr
      simp only [List.mem_cons, List.not_mem_nil, or_false] at hr
      omega
  -- the marker overwrites the register that the four calls have cleared
  have hMarker : Triple (bench supply) code
      (core [.ldi (Reg.b 1 3) 222, .ldi (Reg.b 1 2) 173, .ldi (Reg.b 1 1) 190,
        .ldi (Reg.b 1 0) 239])
      (Reads reg₀ log m (dataCalls supply.bytes s 4) true [] (f + 4) (readBits (f + 4)) 9)
      (Reads reg₀ log m (mainloop supply.bytes s) true [] (f + 4) (readBits (f + 4)) 5) :=
    (ldi_reads supply 3 222).cons ((ldi_reads supply 2 173).cons ((ldi_reads supply 1 190).cons
      (ldi_reads supply 0 239)))
  have hXout : Triple (bench supply) code [.xout xfrBank0 1 25]
      (Reads reg₀ log m (mainloop supply.bytes s) true [] (f + 4) (readBits (f + 4)) 5)
      (Reads reg₀ (log ++ [.xout xfrBank0 (packetWords (xout (mainloop supply.bytes s)))]) m
        (mainloop supply.bytes s) true [] (f + 4) (readBits (f + 4)) 4) := by
    refine Triple.xout fun regs b h => ?_
    rw [h.words]
    exact h.emit supply
  have hSignal : Triple (bench supply) code [.event (pruIntValid + pru1Pru0Interrupt)]
      (Reads reg₀ (log ++ [.xout xfrBank0 (packetWords (xout (mainloop supply.bytes s)))]) m
        (mainloop supply.bytes s) true [] (f + 4) (readBits (f + 4)) 4)
      (Reads reg₀ (log ++ publication (xout (mainloop supply.bytes s))) m
        (mainloop supply.bytes s) true [] (f + 4) (readBits (f + 4)) 3) := by
    refine Triple.event fun regs b h => ?_
    rw [publication, List.append_cons]
    exact h.emit supply
  have hNext : ∀ j < 4, _ := fun j hj => hData j hj 2 (by decide)
  exact (((((hNext 0 (by decide)).append (hNext 1 (by decide))).append (hNext 2 (by decide))).append
    (hData 3 (by decide) 9 le_rfl)).append hMarker).append (hXout.cons hSignal)

end Read

/-! ## The run -/

section Layout

theorem length_adsWait (n : ℕ) : (adsWait n).length = 4 := rfl

theorem length_setup (spi_tx_call channel : ℕ) : (setup spi_tx_call channel).length = 238 := by
  simp [setup, adsStartup, adsWriteReg, adsSendCmd, length_adsWait, List.length_flatMap]

theorem length_adsGetData24Text (spi_rx_call reg1 reg2 reg3 reg4 reg5 reg6 reg7 : ℕ) :
    (adsGetData24Text spi_rx_call reg1 reg2 reg3 reg4 reg5 reg6 reg7).length = 66 := by
  have hMove : ∀ d, (rxMovText spi_rx_call d).length = 2 := fun _ => rfl
  have hTargets : (adsTargets reg1 reg2 reg3 reg4 reg5 reg6 reg7).length = 27 := rfl
  simp [adsGetData24Text, hMove, hTargets, length_adsWait, List.length_flatMap]

theorem length_mainloopText (spi_rx_call : ℕ) : (mainloopText spi_rx_call).length = 270 := by
  simp [mainloopText, length_adsGetData24Text]

theorem length_routines : spiRxRoutine.length + spiTxRoutine.length = 324 := by
  have hWait : ∀ delay stopEarly, (spiWait delay stopEarly).length = 6 := fun _ _ => rfl
  simp [spiRxRoutine, spiTxRoutine, spiRx, spiTx, spiRxClk, spiTxClk, lbit, lbitIn, nop, hWait]

section Pru1

variable {channel : ℕ}

theorem pru1_fits : (pru1Text channel).length < 2 ^ 16 := by
  simp only [pru1Text, layout, List.length_append, List.length_map, length_setup,
    length_mainloopText, List.length_cons, List.length_nil]
  have hRoutines := length_routines
  omega

theorem setup_at : At (pru1Code channel) 0 (core (setup spiTxAddr channel)) := by
  have hText : pru1Text channel = [] ++ core (setup spiTxAddr channel) ++
      (mainloopText spiRxAddr ++ [.jmp mainloopAddr, .halt] ++ spiRxRoutine ++ spiTxRoutine) := by
    simp only [pru1Text, layout, List.append_assoc, List.nil_append]
  exact At.of_text hText rfl pru1_fits

theorem mainloop_at :
    At (pru1Code channel) mainloopAddr (mainloopText spiRxAddr ++ [.jmp mainloopAddr]) := by
  have hText : pru1Text channel = core (setup spiTxAddr channel) ++
      (mainloopText spiRxAddr ++ [.jmp mainloopAddr]) ++
      ([.halt] ++ spiRxRoutine ++ spiTxRoutine) := by
    simp only [pru1Text, layout, List.append_assoc, List.cons_append, List.nil_append]
  refine At.of_text hText ?_ pru1_fits
  rw [List.length_map, mainloopAddr, length_setup, length_setup]

theorem spiRx_at : At (pru1Code channel) spiRxAddr spiRxRoutine := by
  have hText : pru1Text channel = (core (setup spiTxAddr channel) ++ mainloopText spiRxAddr ++
      [.jmp mainloopAddr, .halt]) ++ spiRxRoutine ++ spiTxRoutine := rfl
  refine At.of_text hText ?_ pru1_fits
  simp only [List.length_append, List.length_map, List.length_cons, List.length_nil, spiRxAddr,
    mainloopAddr, length_setup, length_mainloopText]

theorem spiTx_at : At (pru1Code channel) spiTxAddr spiTxRoutine := by
  have hText : pru1Text channel = (core (setup spiTxAddr channel) ++ mainloopText spiRxAddr ++
      [.jmp mainloopAddr, .halt] ++ spiRxRoutine) ++ spiTxRoutine ++ [] := by
    rw [List.append_nil, pru1Text, layout]
  refine At.of_text hText ?_ pru1_fits
  simp only [List.length_append, List.length_map, List.length_cons, List.length_nil, spiTxAddr,
    spiRxAddr, mainloopAddr, length_setup, length_mainloopText]

end Pru1

end Layout

section Run

variable (supply : Supply) {channel : ℕ} {log : List Effect}

/-- The way to `mainloop`. -/
theorem reaches_mainloop (hChannel : channel < 256) {regs : Regs}
    (hReset : (regs 30).getLsbD adsReset = true) (c : Converter) (log : List Effect) :
    ∃ regs' b, Reaches (PruIo.step (bench supply) (pru1Code channel)) ⟨0, regs, ⟨c, log⟩⟩
        ⟨mainloopAddr, regs', b⟩ ∧
      Configured supply channel regs log regs' b := by
  obtain ⟨regs', b, hRun, hDone⟩ := setup_configures supply spiTx_at hChannel 0 regs ⟨c, log⟩
    setup_at ⟨Within.refl, hReset, rfl⟩
  have hEnd : 0 + (core (setup spiTxAddr channel)).length = mainloopAddr := by
    rw [List.length_map, mainloopAddr, length_setup, length_setup]
  rw [hEnd] at hRun
  exact ⟨regs', b, hRun, hDone⟩

/-- One round. -/
theorem round_reads (hSpaced : supply.Spaced) {reg₀ regs : Regs} {m : Mode} {s : Pru1} {b : Bench}
    {f : ℕ} (hContinuous : m.continuous = true) (hStart : (reg₀ 30).getLsbD adsStart = true)
    (hReceived : s.received = 27 * f) (h : Reads reg₀ log m s true [] f (readBits f) 2 regs b) :
    ∃ regs' b', Reaches (PruIo.step (bench supply) (pru1Code channel)) ⟨mainloopAddr, regs, b⟩
        ⟨mainloopAddr, regs', b'⟩ ∧
      Reads reg₀ (log ++ publication (xout (mainloop supply.bytes s))) m (mainloop supply.bytes s)
        true [] (f + 4) (readBits (f + 4)) 2 regs' b' := by
  have hText : At (pru1Code channel) mainloopAddr (mainloopText spiRxAddr) := mainloop_at.left
  obtain ⟨regs', b', hRun, hDone⟩ := mainloop_reads supply hSpaced spiRx_at hContinuous hStart
    hReceived mainloopAddr regs b hText h
  have hJump : (⟨mainloopAddr, regs', (bench supply).clock b' (regs' 30)⟩ : State Bench) ∈
      PruIo.step (bench supply) (pru1Code channel)
        ⟨mainloopAddr + (mainloopText spiRxAddr).length, regs', b'⟩ :=
    mem_step _ mainloop_at.right.head rfl
  exact ⟨regs', _, hRun.tail hJump, hDone.same supply fun _ => rfl⟩

theorem pru1After_received (frames : ℕ → Frame) (s : Pru1) (n : ℕ) :
    (pru1After frames s n).received = s.received + 108 * n := by
  induction n with
  | zero => rfl
  | succ n ih =>
    rw [pru1After, mainloop_received, ih]
    omega

/-- `n` rounds, from the first frame on. -/
theorem rounds_read (hSpaced : supply.Spaced) {frames : ℕ → Frame}
    (hBytes : supply.bytes = spiBytes frames) {reg₀ regs : Regs} {m : Mode}
    {bytes : ℕ → Fin 4 → Byte} {b : Bench}
    (hContinuous : m.continuous = true) (hStart : (reg₀ 30).getLsbD adsStart = true)
    (h : Reads reg₀ log m ⟨bytes, 0⟩ true [] 0 0 2 regs b) (n : ℕ) :
    ∃ regs' b', Reaches (PruIo.step (bench supply) (pru1Code channel)) ⟨mainloopAddr, regs, b⟩
        ⟨mainloopAddr, regs', b'⟩ ∧
      Reads reg₀ (log ++ publications (packets frames bytes) n) m (pru1After frames ⟨bytes, 0⟩ n)
        true [] (4 * n) (readBits (4 * n)) 2 regs' b' := by
  induction n with
  | zero =>
    refine ⟨regs, b, ReflTransGen.refl, ?_⟩
    rw [publications, List.range_zero, List.flatMap_nil, List.append_nil]
    exact h
  | succ n ih =>
    obtain ⟨regs', b', hRun, hReads⟩ := ih
    -- every round reads 108 bytes, which are four frames
    have hReceived : (pru1After frames ⟨bytes, 0⟩ n).received = 27 * (4 * n) := by
      rw [pru1After_received]
      show 0 + 108 * n = _
      omega
    obtain ⟨regs'', b'', hRun', hReads'⟩ :=
      round_reads supply hSpaced hContinuous hStart hReceived hReads
    refine ⟨regs'', b'', hRun.trans hRun', ?_⟩
    rw [publications, List.range_succ, List.flatMap_append, List.flatMap_singleton,
      ← List.append_assoc, ← publications]
    rw [hBytes] at hReads'
    exact hReads'

/-! ## Nothing else is handed over -/

theorem idle_log (pins : BitVec 32) (n : ℕ) (b : Bench) : ((bench supply).idle pins n b).log = b.log :=
  Device.idle_rule (I := fun _ (b' : Bench) => b'.log = b.log) rfl (fun _ _ h => h) n

theorem step_log {code : Code} {s t : State Bench} (h : t ∈ PruIo.step (bench supply) code s) :
    s.dev.log <+: t.dev.log := by
  obtain ⟨ins, -, hExec⟩ := Option.bind_eq_some_iff.mp (Option.mem_def.mp h)
  cases ins with
  | halt => cases hExec
  | event imm | xout bank first len =>
    obtain rfl := Option.some.inj hExec
    exact List.prefix_append _ _
  | core ins =>
    obtain rfl := Option.some.inj hExec
    exact (idle_log supply _ _ _).symm ▸ List.prefix_refl _
  | qbbs offset bit | jmp target =>
    obtain rfl := Option.some.inj hExec
    exact List.prefix_refl _

theorem reaches_log {code : Code} {s t : State Bench}
    (h : Reaches (PruIo.step (bench supply) code) s t) : s.dev.log <+: t.dev.log := by
  induction h with
  | refl => exact List.prefix_refl _
  | tail _ hStep ih => exact ih.trans (step_log supply hStep)

theorem length_publications (x : ℕ → Packet) (n : ℕ) : (publications x n).length = 2 * n := by
  simp [publications, publication, List.length_flatMap, Nat.mul_comm]

end Run

/-! ## The stream -/

section Publish

variable {channel : ℕ}

/-- What a converter delivers: frames, and the time that each conversion takes. -/
structure Conversions where
  defaults : ℕ → Byte
  frames : ℕ → Frame
  period : ℕ → ℕ

def Conversions.supply (v : Conversions) : Supply := ⟨v.defaults, spiBytes v.frames, v.period⟩

/-- The states that PRU1 comes to from the first instruction, with nothing handed over
yet. -/
def Pru1Run (supply : Supply) (channel : ℕ) (regs : Regs) (c : Converter) : State Bench → Prop :=
  Reaches (PruIo.step (bench supply) (pru1Code channel)) ⟨0, regs, ⟨c, []⟩⟩

/-- **The set-up by PRU1.** From the first instruction, with any registers and a converter in
any state that is not held in reset, either program comes to `mainloop`. There the
converter has its defaults but for the registers that the program names, converts, and
has begun no frame; nothing has been handed over. -/
theorem pru1_configures (supply : Supply) (hChannel : channel < 256) {regs : Regs}
    (hReset : (regs 30).getLsbD adsReset = true) (c : Converter) :
    ∃ t, Pru1Run supply channel regs c t ∧ t.pc = mainloopAddr ∧ t.dev.log = [] ∧
      (t.reg 30).getLsbD adsStart = true ∧ (t.reg 30).getLsbD spiCs = true ∧
      t.dev.converter.mode.continuous = true ∧ t.dev.converter.shifted = 0 ∧
      t.dev.converter.mode.regs config1 = 0x92 ∧ t.dev.converter.mode.regs config3 = 0xE0 ∧
      (∀ i < 8, t.dev.converter.mode.regs (chSet i) = BitVec.ofNat 8 channel) ∧
      ∀ r, r ≠ config1 → r ≠ config3 → (∀ i < 8, r ≠ chSet i) →
        t.dev.converter.mode.regs r = supply.defaults r := by
  obtain ⟨regs', b, hRun, hParked, hStart, -, hBegun⟩ :=
    reaches_mainloop supply hChannel hReset c []
  have hMode : b.converter.mode = ⟨configured supply.defaults channel, true⟩ := hParked.hears.mode
  have hRegs : ∀ r, b.converter.mode.regs r = configured supply.defaults channel r := by
    intro r
    rw [hMode]
  refine ⟨_, hRun, rfl, hParked.log, hStart, hParked.hears.pinCs, congrArg Mode.continuous hMode,
    hBegun.shifted, hRegs config1, hRegs config3, fun i hi => ?_, fun r h1 h3 hCh => ?_⟩
  -- a channel register, and one that the set-up does not write
  · have hApart : chSet i ≠ config1 ∧ chSet i ≠ config3 := by
      unfold chSet config1 config3
      omega
    have hIn : chSet 0 ≤ chSet i ∧ chSet i ≤ chSet 7 := by
      unfold chSet
      omega
    refine (hRegs (chSet i)).trans ?_
    rw [configured, if_neg hApart.1, if_neg hApart.2, if_pos hIn]
  · have hOut : ¬(chSet 0 ≤ r ∧ r ≤ chSet 7) := by
      intro hIn
      have hNe := hCh (r - chSet 0)
      unfold chSet at hIn hNe
      omega
    refine (hRegs r).trans ?_
    rw [configured, if_neg h1, if_neg h3, if_neg hOut]

/-- Registers with the reset pin high. -/
def released : Regs := fun _ => BitVec.twoPow 32 adsReset

/-- A converter after power-up. -/
def powerUp (defaults : ℕ → Byte) : Converter where
  mode := ⟨defaults, true⟩
  sclk := false
  cs := false
  heard := []
  done := 0
  shifted := 0
  wait := 0

/-- Every code is its own number; 16 kSps, with instructions of 5 ns. -/
def counted : Conversions where
  defaults _ := 0
  frames n := ⟨0, fun k => BitVec.ofNat 24 (8 * n + k)⟩
  period _ := 12500

theorem pru1_configures_counted :
    ∃ t, Pru1Run counted.supply (chGain1 + chVdd) released (powerUp fun _ => 0) t ∧
      t.pc = mainloopAddr ∧ t.dev.log = [] ∧
      (t.reg 30).getLsbD adsStart = true ∧ (t.reg 30).getLsbD spiCs = true ∧
      t.dev.converter.mode.continuous = true ∧ t.dev.converter.shifted = 0 ∧
      t.dev.converter.mode.regs config1 = 0x92 ∧ t.dev.converter.mode.regs config3 = 0xE0 ∧
      (∀ i < 8, t.dev.converter.mode.regs (chSet i) = BitVec.ofNat 8 (chGain1 + chVdd)) ∧
      ∀ r, r ≠ config1 → r ≠ config3 → (∀ i < 8, r ≠ chSet i) →
        t.dev.converter.mode.regs r = counted.supply.defaults r :=
  pru1_configures counted.supply (by decide) (by decide) _

theorem counted_spaced : counted.supply.Spaced := fun _ => show 9768 ≤ 12500 by decide

/-- Every packet of the stream is published. -/
theorem pru1_reaches_publications (hChannel : channel < 256) {regs : Regs}
    (hReset : (regs 30).getLsbD adsReset = true) (c : Converter) {v : Conversions}
    (hSpaced : v.supply.Spaced) (n : ℕ) :
    ∃ t, Pru1Run v.supply channel regs c t ∧
      t.dev.log = publications (packets v.frames (regByte regs)) n := by
  obtain ⟨regs', b, hSetup, hDone⟩ := reaches_mainloop v.supply hChannel hReset c []
  -- the first conversion does not end on the way to `mainloop`
  have hFirst : 2 + 202 < v.supply.period 0 :=
    (show 2 + 202 < frameTime by decide).trans_le (hSpaced 0)
  have hReads : Reads regs' [] ⟨configured v.defaults channel, true⟩ ⟨regByte regs, 0⟩ true [] 0 0 2
      regs' b :=
    ⟨During.start hDone.parked.hears hDone.parked.log, ⟨hDone.mosi, hDone.begun.holds 2 hFirst⟩,
      fun r x _ hLe => regByte_within hDone.parked.within (List.Subset.refl _) hLe⟩
  obtain ⟨regs'', b', hRun, hReads'⟩ := rounds_read v.supply hSpaced rfl rfl hDone.start hReads n
  exact ⟨_, hSetup.trans hRun, hReads'.during.log⟩

/-- The run is one line: a state is before the end of some round, for the log grows. -/
theorem pru1_log_prefix (hChannel : channel < 256) {regs : Regs}
    (hReset : (regs 30).getLsbD adsReset = true) {c : Converter} {v : Conversions}
    (hSpaced : v.supply.Spaced) {u : State Bench} (hu : Pru1Run v.supply channel regs c u) :
    ∃ n, u.dev.log <+: publications (packets v.frames (regByte regs)) n := by
  obtain ⟨t, ht, hLog⟩ :=
    pru1_reaches_publications hChannel hReset c hSpaced (u.dev.log.length + 1)
  refine ⟨_, hLog ▸ reaches_log _ ((reaches_total hu ht).resolve_right fun hBehind => ?_)⟩
  have hLe := (reaches_log _ hBehind).length_le
  rw [hLog, length_publications] at hLe
  omega

/-- **PRU1 publishes the stream.** From the first instruction, with any registers and a
converter in any state that is not held in reset: where no conversion takes less than
PRU1 with a frame, every packet of the stream comes to the scratch pad and is signalled,
one after the other, and at no moment has anything else been handed over. -/
theorem pru1_publishes (hChannel : channel < 256) {regs : Regs}
    (hReset : (regs 30).getLsbD adsReset = true) (c : Converter) {v : Conversions}
    (hSpaced : v.supply.Spaced) :
    (∀ n, ∃ t, Pru1Run v.supply channel regs c t ∧
        t.dev.log = publications (packets v.frames (regByte regs)) n) ∧
      ∀ u, Pru1Run v.supply channel regs c u →
        ∃ n, u.dev.log <+: publications (packets v.frames (regByte regs)) n :=
  ⟨pru1_reaches_publications hChannel hReset c hSpaced,
    fun _ => pru1_log_prefix hChannel hReset hSpaced⟩

theorem pru1_publishes_counted :
    (∀ n, ∃ t, Pru1Run counted.supply (chGain1 + chNormal) released (powerUp fun _ => 0) t ∧
        t.dev.log = publications (packets counted.frames (regByte released)) n) ∧
      ∀ u, Pru1Run counted.supply (chGain1 + chNormal) released (powerUp fun _ => 0) u →
        ∃ n, u.dev.log <+: publications (packets counted.frames (regByte released)) n :=
  pru1_publishes (by decide) (by decide) _ counted_spaced

end Publish

end EnergyMeter.Daq

import EnergyMeter.Daq.Model
import Mathlib.Logic.Function.Basic

/-!
# Sample format — packing by `ADS_GET_DATA24`

The converter delivers frames: a status word and eight signed codes of 24 bits,
most significant byte first. PRU1 moves the bytes of four frames into `r2` to
`r25`, overwrites `r1` with a marker and publishes the 25 registers, low byte
first.

* `Pru1`, `adsGetData24`, `mainloop` — the registers of PRU1 and the bytes
  received so far.
* `packets` — the packets that PRU1 publishes for a stream of frames.

Main result: `packets_byte` — after the marker, a packet holds the bytes of the
channels of its four frames in the order of their delivery. The moves of one
call are a list of targets (`adsTargets`); `rxFold_get` and `rxFold_frame` say
what such a list leaves in the registers.
-/

namespace EnergyMeter.Daq

/-! ## Frames -/

/-- One conversion of the ADS131E08. -/
structure Frame where
  status : BitVec 24
  code : Fin 8 → BitVec 24

/-- Byte `l` of a word of 24 bits, most significant first. -/
def msbByte (v : BitVec 24) (l : ℕ) : Byte := v.extractLsb' (8 * (2 - l)) 8

/-- The bytes of a frame in the order of their delivery. -/
def Frame.byte (f : Frame) (p : ℕ) : Byte :=
  if p < 3 then msbByte f.status p else msbByte (f.code (Fin.ofNat 8 ((p - 3) / 3))) ((p - 3) % 3)

/-- What successive calls of `spi_rx_call` yield. -/
def spiBytes (frames : ℕ → Frame) (q : ℕ) : Byte := (frames (q / 27)).byte (q % 27)

/-! ## PRU1 -/

/-- The registers by byte, and the number of calls of `spi_rx_call`. -/
structure Pru1 where
  regs : ℕ → Fin 4 → Byte
  received : ℕ

/-- A store into byte `b` of register `r`. -/
def Pru1.setByte (s : Pru1) (r : ℕ) (b : Fin 4) (v : Byte) : Pru1 :=
  { s with regs := Function.update s.regs r (Function.update (s.regs r) b v) }

/-- `JAL r28.w2, spi_rx_call` and `MOV :r:.b, r28.b0`. -/
def Pru1.rxMov (spi : ℕ → Byte) (s : Pru1) (d : ℕ × Fin 4) : Pru1 :=
  { s.setByte d.1 d.2 (spi s.received) with received := s.received + 1 }

/-- The targets of the moves of `ADS_GET_DATA24`, in the order of the source. -/
def adsTargets (reg1 reg2 reg3 reg4 reg5 reg6 reg7 : ℕ) : List (ℕ × Fin 4) :=
  [ -- status
    (reg1, 3), (reg1, 2), (reg1, 1),
    -- channels 1 to 8
    (reg2, 0), (reg2, 1), (reg2, 2),
    (reg2, 3), (reg3, 0), (reg3, 1),
    (reg3, 2), (reg3, 3), (reg4, 0),
    (reg4, 1), (reg4, 2), (reg4, 3),
    (reg5, 0), (reg5, 1), (reg5, 2),
    (reg5, 3), (reg6, 0), (reg6, 1),
    (reg6, 2), (reg6, 3), (reg7, 0),
    (reg7, 1), (reg7, 2), (reg7, 3)]

/-- `ADS_GET_DATA24`. -/
def adsGetData24 (spi : ℕ → Byte) (reg1 reg2 reg3 reg4 reg5 reg6 reg7 : ℕ) (s : Pru1) : Pru1 :=
  -- LDI32 reg1, 0
  let s := { s with regs := Function.update s.regs reg1 fun _ => 0 }
  (adsTargets reg1 reg2 reg3 reg4 reg5 reg6 reg7).foldl (Pru1.rxMov spi) s

/-- `mainloop` up to `XOUT`. -/
def mainloop (spi : ℕ → Byte) (s : Pru1) : Pru1 :=
  let s := adsGetData24 spi 1 2 3 4 5 6 7 s
  let s := adsGetData24 spi 1 8 9 10 11 12 13 s
  let s := adsGetData24 spi 1 14 15 16 17 18 19 s
  let s := adsGetData24 spi 1 20 21 22 23 24 25 s
  let s := s.setByte 1 3 222
  let s := s.setByte 1 2 173
  let s := s.setByte 1 1 190
  s.setByte 1 0 239

/-- `XOUT XFR_BANK0, &r1, 100`: `r1` to `r25`, low byte first. -/
def xout (s : Pru1) : Packet := fun p => s.regs (1 + p.val / 4) (Fin.ofNat 4 p.val)

/-- The state of PRU1 after `n` rounds of `mainloop`. -/
def pru1After (frames : ℕ → Frame) (s : Pru1) : ℕ → Pru1
  | 0 => s
  | n + 1 => mainloop (spiBytes frames) (pru1After frames s n)

/-- The packets that PRU1 publishes, with any contents of the registers at the
start. -/
def packets (frames : ℕ → Frame) (regs : ℕ → Fin 4 → Byte) (n : ℕ) : Packet :=
  xout (pru1After frames ⟨regs, 0⟩ (n + 1))

/-! ## PRU1 puts every byte in its place -/

section Packing

variable {spi : ℕ → Byte} {s : Pru1}

@[simp] theorem Pru1.rxMov_received (d : ℕ × Fin 4) :
    (s.rxMov spi d).received = s.received + 1 := rfl

theorem Pru1.rxMov_self (d : ℕ × Fin 4) : (s.rxMov spi d).regs d.1 d.2 = spi s.received := by
  simp [Pru1.rxMov, Pru1.setByte]

theorem Pru1.setByte_ne {r r' : ℕ} {b b' : Fin 4} {v : Byte} (h : (r', b') ≠ (r, b)) :
    (s.setByte r b v).regs r' b' = s.regs r' b' := by
  unfold Pru1.setByte
  dsimp only
  by_cases hr : r' = r
  · subst hr
    have hb : b' ≠ b := fun hb => h (by rw [hb])
    rw [Function.update_self, Function.update_of_ne hb]
  · rw [Function.update_of_ne hr]

theorem rxFold_received (ds : List (ℕ × Fin 4)) :
    (ds.foldl (Pru1.rxMov spi) s).received = s.received + ds.length := by
  induction ds generalizing s with
  | nil => rfl
  | cons d ds ih =>
    rw [List.foldl_cons, ih, Pru1.rxMov_received, List.length_cons]
    omega

/-- The moves write their targets only. -/
theorem rxFold_frame {ds : List (ℕ × Fin 4)} {d : ℕ × Fin 4} (h : d ∉ ds) :
    (ds.foldl (Pru1.rxMov spi) s).regs d.1 d.2 = s.regs d.1 d.2 := by
  induction ds generalizing s with
  | nil => rfl
  | cons d' ds ih =>
    rw [List.mem_cons, not_or] at h
    rw [List.foldl_cons, ih h.2]
    exact Pru1.setByte_ne h.1

/-- Where no target occurs twice, byte number `i` stays at target number `i`. -/
theorem rxFold_get {ds : List (ℕ × Fin 4)} (hNodup : ds.Nodup) {i : ℕ} {d : ℕ × Fin 4}
    (hd : ds[i]? = some d) :
    (ds.foldl (Pru1.rxMov spi) s).regs d.1 d.2 = spi (s.received + i) := by
  induction ds generalizing s i with
  | nil => simp at hd
  | cons d' ds ih =>
    obtain ⟨hFresh, hNodup⟩ := List.nodup_cons.mp hNodup
    rw [List.foldl_cons]
    cases i with
    | zero =>
      -- the first byte is not overwritten by the later ones
      obtain rfl : d' = d := by simpa using hd
      rw [rxFold_frame hFresh, Pru1.rxMov_self, Nat.add_zero]
    | succ i =>
      rw [ih hNodup (by simpa using hd), Pru1.rxMov_received]
      congr 1
      omega

/-- The first `j` calls of `ADS_GET_DATA24` in `mainloop`. -/
def dataCalls (spi : ℕ → Byte) (s : Pru1) : ℕ → Pru1
  | 0 => s
  | j + 1 =>
    adsGetData24 spi 1 (2 + 6 * j) (3 + 6 * j) (4 + 6 * j) (5 + 6 * j) (6 + 6 * j) (7 + 6 * j)
      (dataCalls spi s j)

theorem mainloop_eq :
    mainloop spi s =
      ((((dataCalls spi s 4).setByte 1 3 222).setByte 1 2 173).setByte 1 1 190).setByte 1 0 239 :=
  rfl

/-- The targets of call number `j`. -/
def callTargets (j : ℕ) : List (ℕ × Fin 4) :=
  adsTargets 1 (2 + 6 * j) (3 + 6 * j) (4 + 6 * j) (5 + 6 * j) (6 + 6 * j) (7 + 6 * j)

/-- The place of byte `m` of the channels in the registers. -/
def place (j m : ℕ) : ℕ × Fin 4 := (2 + 6 * j + m / 4, Fin.ofNat 4 m)

theorem callTargets_nodup : ∀ j < 4, (callTargets j).Nodup := by decide

theorem callTargets_get : ∀ j < 4, ∀ m < 24, (callTargets j)[3 + m]? = some (place j m) := by
  decide

theorem callTargets_reg : ∀ j < 4, ∀ d ∈ callTargets j, d.1 = 1 ∨ 2 + 6 * j ≤ d.1 := by decide

/-- A call writes `r1` and registers behind those of the calls before it. -/
theorem place_not_mem {j j' m : ℕ} (hj : j < 4) (hlt : j' < j) (hm : m < 24) :
    place j' m ∉ callTargets j := by
  intro hMem
  have hReg : 2 + 6 * j' + m / 4 = 1 ∨ 2 + 6 * j ≤ 2 + 6 * j' + m / 4 :=
    callTargets_reg j hj _ hMem
  omega

theorem dataCalls_succ (j : ℕ) :
    dataCalls spi s (j + 1) = (callTargets j).foldl (Pru1.rxMov spi)
      ⟨Function.update (dataCalls spi s j).regs 1 fun _ => 0, (dataCalls spi s j).received⟩ :=
  rfl

theorem dataCalls_received (j : ℕ) : (dataCalls spi s j).received = s.received + 27 * j := by
  induction j with
  | zero => rfl
  | succ j ih =>
    rw [dataCalls_succ, rxFold_received]
    show (dataCalls spi s j).received + 27 = _
    omega

/-- After `J` calls byte `m` of the channels of each of the `J` frames is in its
place. -/
theorem dataCalls_get {J j m : ℕ} (hJ : J ≤ 4) (hj : j < J) (hm : m < 24) :
    (dataCalls spi s J).regs (place j m).1 (place j m).2 = spi (s.received + 27 * j + 3 + m) := by
  induction J with
  | zero => omega
  | succ J ih =>
    rw [dataCalls_succ]
    rcases Nat.lt_succ_iff_lt_or_eq.mp hj with hlt | rfl
    · -- a call keeps what the calls before it have received
      rw [rxFold_frame (place_not_mem (by omega) hlt hm)]
      have hReg : (place j m).1 ≠ 1 := by
        show 2 + 6 * j + m / 4 ≠ 1
        omega
      dsimp only
      rw [Function.update_of_ne hReg]
      exact ih (by omega) hlt
    · rw [rxFold_get (callTargets_nodup j (by omega)) (callTargets_get j (by omega) m hm)]
      show spi ((dataCalls spi s j).received + (3 + m)) = _
      rw [dataCalls_received, Nat.add_assoc, Nat.add_assoc, Nat.add_assoc]

theorem mainloop_get {j m : ℕ} (hj : j < 4) (hm : m < 24) :
    (mainloop spi s).regs (place j m).1 (place j m).2 = spi (s.received + 27 * j + 3 + m) := by
  -- the marker is in register 1, the frames are behind it
  have hReg : ∀ b : Fin 4, ((place j m).1, (place j m).2) ≠ (1, b) := by
    intro b hEq
    have hFst : 2 + 6 * j + m / 4 = 1 := (Prod.mk.inj hEq).1
    omega
  rw [mainloop_eq, Pru1.setByte_ne (hReg 0), Pru1.setByte_ne (hReg 1), Pru1.setByte_ne (hReg 2),
    Pru1.setByte_ne (hReg 3), dataCalls_get (Nat.le_refl 4) hj hm]

theorem mainloop_received : (mainloop spi s).received = s.received + 108 :=
  dataCalls_received 4

end Packing

/-- Every packet begins with the marker, low byte first. -/
theorem packets_marker (frames : ℕ → Frame) (regs : ℕ → Fin 4 → Byte) (n : ℕ) :
    packets frames regs n 0 = 0xEF ∧ packets frames regs n 1 = 0xBE ∧
      packets frames regs n 2 = 0xAD ∧ packets frames regs n 3 = 0xDE := by
  refine ⟨?_, ?_, ?_, ?_⟩
  · show (mainloop _ _).regs 1 0 = _
    simp [mainloop_eq, Pru1.setByte]
  · show (mainloop _ _).regs 1 1 = _
    simp [mainloop_eq, Pru1.setByte]
  · show (mainloop _ _).regs 1 2 = _
    simp [mainloop_eq, Pru1.setByte]
  · show (mainloop _ _).regs 1 3 = _
    simp [mainloop_eq, Pru1.setByte]

/-- Byte `4 + 24 * j + m` of packet `n` is byte `3 + m` of frame `4 * n + j`: the
bytes of the channels in the order of their delivery. -/
theorem packets_byte (frames : ℕ → Frame) (regs : ℕ → Fin 4 → Byte) (n : ℕ) {j m : ℕ}
    (hj : j < 4) (hm : m < 24) :
    packets frames regs n (Fin.ofNat pkgSize (4 + 24 * j + m)) =
      (frames (4 * n + j)).byte (3 + m) := by
  -- every packet takes 108 bytes, whatever the registers hold
  have hReceived : (pru1After frames ⟨regs, 0⟩ n).received = 108 * n := by
    induction n with
    | zero => rfl
    | succ n ih =>
      rw [pru1After, mainloop_received, ih]
      omega
  have hVal : (4 + 24 * j + m) % 100 = 4 + 24 * j + m := by omega
  -- in the packet, byte by byte, and in the registers, four bytes each
  have hPlace : (1 + (4 + 24 * j + m) / 4, Fin.ofNat 4 (4 + 24 * j + m)) = place j m := by
    refine Prod.ext ?_ (Fin.ext ?_)
    · show 1 + (4 + 24 * j + m) / 4 = 2 + 6 * j + m / 4
      omega
    · show (4 + 24 * j + m) % 4 = m % 4
      omega
  have hGet : (mainloop (spiBytes frames) (pru1After frames ⟨regs, 0⟩ n)).regs _ _ = _ :=
    mainloop_get hj hm
  rw [← hPlace, hReceived] at hGet
  -- and on the line, 27 bytes a frame
  have hDiv : (108 * n + 27 * j + 3 + m) / 27 = 4 * n + j := by omega
  have hMod : (108 * n + 27 * j + 3 + m) % 27 = 3 + m := by omega
  rw [spiBytes, hDiv, hMod] at hGet
  rw [← hGet]
  show (mainloop _ _).regs (1 + (4 + 24 * j + m) % 100 / 4)
    (Fin.ofNat 4 ((4 + 24 * j + m) % 100)) = _
  rw [hVal]

end EnergyMeter.Daq

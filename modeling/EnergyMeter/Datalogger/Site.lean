import EnergyMeter.Daq.System
import EnergyMeter.Datalogger.Records
import EnergyMeter.Meter.Fits

/-!
# From the converter to `site_meter.dat`

The three programs one behind the other: the acquisition with PRU1 instruction by
instruction, the main loop of the meter on the buffers that it delivers, and the thread
of the datalogger on the messages of the main loop.

* `codeChannels` — the samples of a second as a function of the frames of the converter.
* `site_records` — the lines of the file as a function of the same frames.
-/

namespace EnergyMeter.Datalogger

open Lib Daq Cpt Meter Binary32
open Lib.Pru (Regs)

/-! ## The samples -/

@[instance] theorem rows_neZero : NeZero 8 := ⟨by decide⟩

/-- `ch_data` of second `e`: the codes of the converter, converted and scaled. -/
noncomputable def codeRows (v : Conversions) (e : ℕ) : ℕ → ℕ → Binary32 ℝ :=
  metrologyCoreScale single double sampleRate fun k i =>
    sampleValue single double ((v.frames (15360 * e + i)).code (Fin.ofNat 8 k)).toInt

/-- The samples of second `e`, as `pac` takes them. -/
noncomputable def codeChannels (v : Conversions) (e : ℕ) : Channels ℝ where
  VChannels j i := double (codeRows v e (voltageRow j) i)
  IChannels j i := double (codeRows v e (currentRow j) i)

/-- The first `u` samples decide what the theory is after them. -/
theorem cptAfter_congr {CPT : TCPT ℝ} {ch ch' : ℕ → Channels ℝ} {u : ℕ}
    (h : ∀ t < u, Meter.stream ch t = Meter.stream ch' t) :
    cptAfter CPT ch u = cptAfter CPT ch' u := by
  induction u with
  | zero => rfl
  | succ u ih =>
    show (cptUpdate (m := Id) (cptAfter CPT ch u) (Meter.stream ch u)).run =
      (cptUpdate (m := Id) (cptAfter CPT ch' u) (Meter.stream ch' u)).run
    rw [ih fun t ht => h t (by omega), h u (by omega)]

theorem secondMean_congr {CPT : TCPT ℝ} {ch ch' : ℕ → Channels ℝ} {k : ℕ}
    (h : ∀ t < (k + 1) * sampleRate, Meter.stream ch t = Meter.stream ch' t) :
    secondMean CPT ch k = secondMean CPT ch' k := by
  funext c a
  have hSum : ∀ q ∈ Finset.range mainsFreq,
      fieldOf ((cptAfter CPT ch (k * sampleRate + samplesPerCycle * (q + 1))).Phase c) a =
        fieldOf ((cptAfter CPT ch' (k * sampleRate + samplesPerCycle * (q + 1))).Phase c) a := by
    intro q hq
    have hEnd : k * sampleRate + samplesPerCycle * (q + 1) ≤ (k + 1) * sampleRate := by
      have hLt : q < 60 := Finset.mem_range.mp hq
      show k * 15360 + 256 * (q + 1) ≤ (k + 1) * 15360
      omega
    rw [cptAfter_congr fun t ht => h t (by omega)]
  rw [secondMean, secondMean, Finset.sum_congr rfl hSum]

/-! ## The file -/

section Site

variable {channel S : ℕ} {regs : Regs} {c : Converter} {v : Conversions} {addr : ℕ} {mem : ℕ → Byte}
  {s : System} {dbuffer : ℕ → ℕ → Byte}

/-- Before second `S` the main loop works on the codes. -/
theorem stream_codes (hChannel : channel < 256) (hReset : (regs 30).getLsbD adsReset = true)
    (hSpaced : v.supply.Spaced)
    (hRun : Run (System.step v.supply channel) (System.InTime channel) (System.init regs c addr mem) s)
    (hBuffer : ∀ e < S, s.rest.copies[e]?.map Copied.data = some (dbuffer e))
    (chData : ℕ → ℕ → Binary32 ℝ) {t : ℕ} (ht : t < S * sampleRate) :
    Meter.stream (channels single double dbuffer chData) t = Meter.stream (codeChannels v) t := by
  have hPos : 0 < sampleRate := by decide
  have hSecond : t / sampleRate < S := Nat.div_lt_of_lt_mul (by rwa [Nat.mul_comm])
  have hIdx : t % sampleRate < sampleRate := Nat.mod_lt _ hPos
  obtain ⟨d, hd, hData⟩ := Option.map_eq_some_iff.mp (hBuffer _ hSecond)
  have hRow : ∀ k < 8, valueAt (single : ℝ → Binary32 ℝ) double (dbuffer (t / sampleRate)) k
      (t % sampleRate) = sampleValue single double
        ((v.frames (15360 * (t / sampleRate) + t % sampleRate)).code (Fin.ofNat 8 k)).toInt := by
    intro k hk
    have hCode := system_valueAt hChannel hReset hSpaced hRun hd (single : ℝ → Binary32 ℝ)
      double (Fin.ofNat 8 k) hIdx
    rwa [Fin.val_ofNat, Nat.mod_eq_of_lt hk, hData] at hCode
  have hPac := fun j =>
    channels_apply (single : ℝ → Binary32 ℝ) double dbuffer chData (t / sampleRate) j hIdx
  have hRows : ∀ j, voltageRow j < 8 ∧ currentRow j < 8 := by decide
  have hV : (Meter.stream (channels single double dbuffer chData) t).V =
      (Meter.stream (codeChannels v) t).V := by
    funext j
    refine (hPac j).1.trans ?_
    show _ = double (codeRows v (t / sampleRate) (voltageRow j) (t % sampleRate))
    rw [codeRows, metrologyCoreScale_voltage _ j hIdx, hRow _ (hRows j).1]
  have hI : (Meter.stream (channels single double dbuffer chData) t).I =
      (Meter.stream (codeChannels v) t).I := by
    funext j
    refine (hPac j).2.trans ?_
    show _ = double (codeRows v (t / sampleRate) (currentRow j) (t % sampleRate))
    rw [codeRows, metrologyCoreScale_current _ j hIdx, hRow _ (hRows j).2]
  exact congrArg₂ TPAC.mk hV hI

/-- **From the converter to the file.** For every frame sequence, where no conversion takes less
than PRU1 with a frame, every interleaving of the three processors in time, and every
second that has been delivered: the main loop runs on without a fault, and when its
messages arrive whole, the file of the site meter has one record for each second, in
order, with the means of that second of the theory that is fed with the codes of the
converter. -/
theorem site_records (hChannel : channel < 256) (hReset : (regs 30).getLsbD adsReset = true)
    (hSpaced : v.supply.Spaced)
    (hRun : Run (System.step v.supply channel) (System.InTime channel) (System.init regs c addr mem) s)
    (hBuffer : ∀ e < S, s.rest.copies[e]?.map Copied.data = some (dbuffer e))
    {CPT : TCPT ℝ} {alloc : Allocator ℝ} {rings : ℕ → Option (ℕ → ℝ)}
    {st : MainState ℝ (Binary32 ℝ)}
    (hInit : initMeter (m := Except Fault) CPT alloc rings = .ok (some st))
    (chData : ℕ → ℕ → Binary32 ℝ) :
    ∃ st', meterRun (m := Except Fault) single st (channels single double dbuffer chData) S =
        .ok st' ∧
      ∀ recvs : List (DateTime × Text), recvs.map Prod.snd = st'.socket →
        List.Forall₂ IsRecord ((List.range S).map (secondMean st.CPT (codeChannels v)))
          (recordLines (clientThread (Utils.ofLine cmeterParamsTri) Client.start recvs)) := by
  obtain ⟨hConfig, hMain⟩ := initMeter_spec hInit (channels single double dbuffer chData)
  have hFits : ∀ k, (messageText (secondMean st.CPT (channels single double dbuffer chData)
      k)).length + 1 ≤ 1000 := fun k =>
    messageText_fits fun _ _ => secondMean_lt hConfig (delivered_channels dbuffer chData)
  obtain ⟨st', hComputes, hMain'⟩ := meterRun_computes single hConfig hMain hFits S
  refine ⟨st', hComputes.checked, fun recvs hRecvs => ?_⟩
  -- the messages are those of the codes
  have hMeans : st'.socket =
      ((List.range S).map (secondMean st.CPT (codeChannels v))).map messageText := by
    rw [hMain'.socket, List.map_map]
    refine List.map_congr_left fun k hk => congrArg messageText (secondMean_congr fun t ht => ?_)
    refine stream_codes hChannel hReset hSpaced hRun hBuffer chData (ht.trans_le ?_)
    exact Nat.mul_le_mul_right _ (List.mem_range.mp hk)
  rw [hMeans] at hRecvs
  have hStart : Serving Client.start := ⟨rfl, fun _ => rfl, nofun⟩
  have hNonempty : ∀ recv ∈ recvs, recv.2 ≠ [] := by
    intro recv hRecv
    have hMem : recv.2 ∈ recvs.map Prod.snd := List.mem_map_of_mem hRecv
    rw [hRecvs] at hMem
    obtain ⟨value, -, hText⟩ := List.mem_map.mp hMem
    rw [← hText, messageText_args]
    exact List.cons_ne_nil _ _
  obtain ⟨new, hNew, hAll⟩ := (clientThread_records cmeterColumns_tri _ hStart
    (congrArg List.flatten hRecvs) hNonempty).mpr hRecvs
  rw [hNew]
  exact hAll

/-- Two seconds of codes that are their own numbers. -/
theorem site_records_counted :
    ∃ (st : MainState ℝ (Binary32 ℝ)) (dbuffer : ℕ → ℕ → Byte) (st' : MainState ℝ (Binary32 ℝ)),
      initMeter (m := Except Fault) default .plenty (fun _ => some default) = .ok (some st) ∧
      meterRun (m := Except Fault) single st
        (channels single double dbuffer fun _ _ => 0) 2 = .ok st' ∧
      ∀ recvs : List (DateTime × Text), recvs.map Prod.snd = st'.socket →
        List.Forall₂ IsRecord ((List.range 2).map (secondMean st.CPT (codeChannels counted)))
          (recordLines (clientThread (Utils.ofLine cmeterParamsTri) Client.start recvs)) := by
  obtain ⟨p, hPipeline, hReady⟩ := inTime_copies (packetStream counted released) 0 (fun _ => 0) 2
  obtain ⟨s, hRun, -, rfl⟩ := system_lifts
    (show chGain1 + chNormal < 256 by decide) (by decide) counted_spaced (powerUp fun _ => 0) hPipeline
  obtain ⟨st, hInit⟩ : ∃ st : MainState ℝ (Binary32 ℝ), _ := initMeter_plenty
  have hBuffer : ∀ e < 2, s.rest.copies[e]?.map Copied.data =
      some ((s.rest.copies[e]?.map Copied.data).getD fun _ => 0) := by
    intro e he
    rw [List.getElem?_eq_getElem (by rw [hReady.copies]; exact he)]
    rfl
  obtain ⟨st', hMeter, hFile⟩ := site_records (by decide) (by decide) counted_spaced hRun hBuffer hInit
    fun _ _ => 0
  exact ⟨st, _, st', hInit, hMeter, hFile⟩

end Site

end EnergyMeter.Datalogger

import EnergyMeter.Datalogger.Records

/-!
# Datalogger — the wire format

The labels of a message are written in three places: in the format strings of
`send_data`, in the parser, which reserves some, and in the file of columns
that the datalogger reads. A message that arrives whole is nevertheless
understood column by column.

* `twoDecimals_shape` — what `%.2f` writes.

Main result:

* `sendData_received` — what `process_input` and `client_thread` make of a
  message that `send_data` has built.
-/

namespace EnergyMeter.Datalogger

open EnergyMeter.Lib EnergyMeter.Cpt EnergyMeter.Meter EAttributes

variable {R : Type} [Field R] [LinearOrder R] [FloorRing R]

/-! ## Values -/

/-- A number in fixed notation: perhaps a minus sign, digits, a point and two
digits. -/
def IsFixed (s : Text) : Prop :=
  ∃ sign int c₁ c₂, s = sign ++ int ++ [ '.', c₁, c₂] ∧ (sign = [] ∨ sign = [ '-']) ∧
    int ≠ [] ∧ (∀ c ∈ int, c.isDigit = true) ∧ c₁.isDigit = true ∧ c₂.isDigit = true

theorem twoDecimals_shape (x : R) : IsFixed (twoDecimals x) := by
  have hDigit : ∀ n : ℕ, (Nat.digitChar (n % 10)).isDigit = true := by
    intro n
    rw [Nat.isDigit_digitChar]
    simpa using Nat.mod_lt n (by decide)
  refine ⟨_, _, _, _, rfl, ?_, ?_, ?_, hDigit _, hDigit _⟩
  · split
    · exact .inr rfl
    · exact .inl rfl
  · exact Nat.toDigits_ne_nil
  · exact fun c hc => Nat.isDigit_of_mem_toDigits (by decide) le_rfl hc

/-! ## Columns -/

/-- The columns other than the time are the attributes of the phases. -/
theorem mem_cmeterColumns_tri {col : Text}
    (h : col ∈ (Utils.ofLine cmeterParamsTri).cmeterColumns) (hTime : col ≠ "time".toList) :
    ∃ c a, col = paramName a ++ [phase c] := by
  rw [cmeterColumns_tri] at h
  have hName : col ∈ columnNames := (List.mem_cons.mp h).resolve_left hTime
  simp only [columnNames, List.mem_flatMap, List.mem_finRange, List.mem_map, true_and] at hName
  obtain ⟨c, a, -, rfl⟩ := hName
  exact ⟨c, a, rfl⟩

/-- The dictionary of a message has every value under its name. -/
theorem fill_fields (d : Dict) (value : Fin 3 → EAttributes → R) (c : Fin 3) (a : EAttributes) :
    fill d (fields value) (paramName a ++ [phase c]) = some (twoDecimals (value c a)) := by
  have hNodup : ((fields value).map Prod.fst).Nodup := by
    rw [fields_names]
    exact columnNames_nodup
  refine fill_of_mem hNodup ?_
  rw [fields, List.mem_flatMap]
  exact ⟨c, List.mem_finRange c, List.mem_map.mpr ⟨a, mem_attributes a, rfl⟩⟩

/-! ## The round trip -/

/-- **What arrives is what was sent.** Whatever the means are, a message that
fits the buffer of `send_data` and is delivered whole is accepted as one of board
1; under every column but the time the dictionary has the text of the mean of
that attribute and phase; and the thread finds every column and appends the
values to the file of the site meter in the order of the header. -/
theorem sendData_received {maf : ℕ → TMAF R} {message : Text}
    (hSend : sendData (m := Except Fault) maf = .ok message) (now : DateTime) :
    ∃ d, processInput now message = some (d, 1) ∧ receiveInput now message = some (d, 1) ∧
      (∀ col ∈ (Utils.ofLine cmeterParamsTri).cmeterColumns, col ≠ "time".toList →
        ∃ c a, col = paramName a ++ [phase c]) ∧
      (∀ c a, paramName a ++ [phase c] ∈ (Utils.ofLine cmeterParamsTri).cmeterColumns ∧
        d (paramName a ++ [phase c]) = some (twoDecimals (storedMeans maf c a))) ∧
      ∀ s : Client, s.failed = false →
        let s' := clientStep (Utils.ofLine cmeterParamsTri) s (now, message)
        s'.failed = false ∧ s'.files siteMeter =
          (if s.f then s.files siteMeter else [cmeterParamsTri]) ++
            [[ ','].intercalate (strftime now :: rowValues (storedMeans maf))] := by
  obtain ⟨-, rfl⟩ := sendData_eq_ok_iff.mp hSend
  let d := fill (startDict now) (fields (storedMeans maf))
  have hReceive : receiveInput now (messageText (storedMeans maf)) = some (d, 1) :=
    receiveInput_message (storedMeans maf) now
  refine ⟨d, processInput_message (storedMeans maf) now, hReceive,
    fun col => mem_cmeterColumns_tri, fun c a => ⟨?_, ?_⟩, ?_⟩
  · rw [cmeterColumns_tri, columnNames]
    refine List.mem_cons_of_mem _ (List.mem_flatMap.mpr ⟨c, List.mem_finRange c, ?_⟩)
    exact List.mem_map.mpr ⟨a, mem_attributes a, rfl⟩
  · exact fill_fields _ _ c a
  -- the thread looks the columns up in the order of the header
  · intro s hAlive s'
    have hCols : (Utils.ofLine cmeterParamsTri).cmeterColumns.mapM d =
        some (strftime now :: rowValues (storedMeans maf)) :=
      cmeterColumns_tri ▸ mapM_message (storedMeans maf) now
    obtain ⟨hFailed, hFiles⟩ := clientStep_site hAlive hReceive hCols
    refine ⟨hFailed, ?_⟩
    rw [hFiles, lineOf_eq (List.cons_ne_nil _ _), openLines_ofLine]

/-- Filters whose means are all zero. -/
def zeroMaf : ℕ → TMAF ℚ := fun _ => movingAverageFilterInit ⟨0, fun _ => 0, 0⟩ 0 0 0

theorem storedMeans_zeroMaf : storedMeans zeroMaf = zeroMeans := rfl

set_option maxRecDepth 4000 in
/-- The message of a second in which every mean is zero. -/
theorem sendData_received_zero :
    sendData (m := Except Fault) zeroMaf = .ok (messageText zeroMeans) ∧
      ∃ d, processInput noon (messageText zeroMeans) = some (d, 1) ∧
        d "VF_C".toList = some (twoDecimals (0 : ℚ)) := by
  have hSend : sendData (m := Except Fault) zeroMaf = .ok (messageText zeroMeans) := by
    rw [sendData_eq_ok_iff, storedMeans_zeroMaf]
    refine ⟨?_, rfl⟩
    rw [messageText_zeroMeans]
    decide
  obtain ⟨d, hParse, -, -, hColumns, -⟩ := sendData_received hSend noon
  exact ⟨hSend, d, hParse, (hColumns 2 ATTR_VF).2⟩

end EnergyMeter.Datalogger

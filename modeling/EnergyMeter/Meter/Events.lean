import Mathlib.Data.List.Induction
import Mathlib.Data.UInt

/-!
# EnergyMeter — the detector of lost packets

`main.cpp` compares the event number of every second with the one before it and
is to report a packet that was lost in between. The variable that should keep
the previous number, `lastEventN`, is initialised and read, but the loop does
not assign it: it is zero in every iteration, and on zero the report is left
out.

Main results:

* `mainLoop_lastEventN` — the variable over whole runs.
* `mainLoop_notified_iff` — the detector is right exactly where nothing was
  lost.
* `mainLoop_unnoticed` — a lost packet that is not reported.
-/

namespace EnergyMeter.Meter

/-- The variables `used to check if there is a missed packet`, which the loop
carries from one second to the next. `notified` says for every second whether
the loss was reported. -/
structure PacketCheck where
  lastEventN : UInt32
  notified : List Bool

/-- `unsigned int lastEventN = 0`. -/
def PacketCheck.init : PacketCheck := ⟨0, []⟩

/-- What a second of the main loop does with the event number that
`AnalogCore_GetSamples` returned. The difference is unsigned. -/
def verifyPackets (st : PacketCheck) (EventN : UInt32) : PacketCheck :=
  let notify :=
    if EventN - st.lastEventN > 1 then
      if st.lastEventN ≠ 0 then true else false
    else false
  { st with notified := st.notified ++ [notify] }

/-- The main loop over the event numbers of its first seconds. -/
def mainLoop (EventN : List UInt32) : PacketCheck :=
  EventN.foldl verifyPackets PacketCheck.init

theorem mainLoop_concat (EventN : List UInt32) (e : UInt32) :
    mainLoop (EventN ++ [e]) = verifyPackets (mainLoop EventN) e := by
  rw [mainLoop, List.foldl_append, List.foldl_cons, List.foldl_nil, mainLoop]

/-- **No iteration assigns `lastEventN`.** -/
theorem mainLoop_lastEventN (EventN : List UInt32) : (mainLoop EventN).lastEventN = 0 := by
  induction EventN using List.reverseRecOn with
  | nil => rfl
  | append_singleton EventN e ih =>
    rw [mainLoop_concat]
    exact ih

/-- Where the variable is zero nothing is reported. -/
theorem verifyPackets_notified {st : PacketCheck} (h : st.lastEventN = 0) (e : UInt32) :
    (verifyPackets st e).notified = st.notified ++ [false] := by
  -- the second guard of the source is the one that fails
  simp [verifyPackets, h]

theorem mainLoop_notified (EventN : List UInt32) :
    (mainLoop EventN).notified = List.replicate EventN.length false := by
  induction EventN using List.reverseRecOn with
  | nil => rfl
  | append_singleton EventN e ih =>
    rw [mainLoop_concat, verifyPackets_notified (mainLoop_lastEventN EventN), ih,
      List.length_append, List.length_singleton, List.replicate_succ']

/-- **The detector over whole runs.** In every iteration from the second on the
report is issued exactly when the event number has advanced by more than one,
if and only if it has not. -/
theorem mainLoop_notified_iff (EventN : List UInt32) (i : ℕ) (hi : i + 1 < EventN.length) :
    (((mainLoop EventN).notified[i + 1]? = some true) ↔ 1 < EventN[i + 1] - EventN[i]) ↔
      EventN[i + 1] - EventN[i] ≤ 1 := by
  have hSilent : (mainLoop EventN).notified[i + 1]? = some false := by
    rw [mainLoop_notified, List.getElem?_replicate, if_pos hi]
  rw [hSilent]
  constructor
  · intro h
    exact UInt32.not_lt.mp fun hLost => nomatch h.mpr hLost
  · intro h
    exact ⟨nofun, fun hLost => absurd h (UInt32.not_le.mpr hLost)⟩

/-- Three seconds without a loss, with a wrap of the event number. -/
theorem mainLoop_notified_iff_wrap :
    ((mainLoop [4294967295, 0, 1]).notified[1]? = some true) ↔
      (1 : UInt32) < ([4294967295, 0, 1] : List UInt32)[1] - ([4294967295, 0, 1] : List UInt32)[0] :=
  (mainLoop_notified_iff [4294967295, 0, 1] 0 (by decide)).mpr (by decide)

/-- **A lost packet that is not reported.** The event number advances from 1 to 3. -/
theorem mainLoop_unnoticed :
    (mainLoop [1, 3]).notified[1]? = some false ∧
      (1 : UInt32) < ([1, 3] : List UInt32)[1] - ([1, 3] : List UInt32)[0] := by
  decide

end EnergyMeter.Meter

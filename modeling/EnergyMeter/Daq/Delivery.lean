import EnergyMeter.Daq.Progress
import Mathlib.Algebra.Group.Nat.Even

/-!
# Acquisition pipeline — what `DAQ_Run` delivers

Main results:

* `daqRun_contiguous` — in a run in time the buffer number `e` is packet by
  packet the second number `e` of the stream.
* `getSamples_justFinished_iff` — from the point on where the ARM is on time, a
  buffer is the half that PRU0 has just finished if and only if the number of
  events merged before that point is even: `buffer_ix` is toggled per call, so
  it follows the calls and not the events.
* `getSamples_overrun` — one merged event, and the ARM copies the half that
  PRU0 is about to overwrite.

Both theorems rest on `onTime_delivered`, which says what a copy made on time
contains, for any number of events merged before.
-/

namespace EnergyMeter.Daq

open EnergyMeter.Lib

variable {x : ℕ → Packet} {s s' t : Pipeline}

/-! ## Copies made on time -/

/-- Buffer number `i` of a run in which `m` events were merged. Only for an
even `m` the half that `buffer_ix` selects is the one just finished. -/
structure Delivered (x : ℕ → Packet) (m i : ℕ) (c : Copied) : Prop where
  raised : c.raised = m + i + 1
  src : c.src = 384000 * (i % 2)
  data : Even m → ∀ j < 384000, c.data j = byteAt x (384000 * (m + i) + j)

/-- From the moment when `w` events had been cleared and `m` merged, the ARM
has been on time. -/
structure Tail (x : ℕ → Packet) (m w : ℕ) (s : Pipeline) : Prop where
  inv : Inv x s
  merged : s.merged = m
  delivered : ∀ i c, w ≤ i → s.copies[i]? = some c → Delivered x m i c
  copying : ∀ src k, s.pcA = .memcpy src k → w ≤ s.copies.length →
    s.evt19 = false ∧
      (Even m → ∀ j < k, s.dbuffer j = byteAt x (384000 * (m + s.copies.length) + j))

/-- The copies that the tail is about are still to begin. -/
theorem tail_start (h : Inv x s) : Tail x s.merged s.woken s where
  inv := h
  merged := rfl
  delivered i c hi hc := by
    have hLt := (List.getElem?_eq_some_iff.mp hc).1
    have hCop := h.served.copies
    omega
  copying src k hpc hw := by
    have hCop := h.served.copies
    simp only [hpc, PcA.copying] at hCop
    omega

theorem pru1Step_tail {m w : ℕ} (h : Tail x m w s) (hInv : Inv x (pru1Step x s)) :
    Tail x m w (pru1Step x s) := by
  refine ⟨hInv, ?_, ?_, ?_⟩
  all_goals unfold pru1Step
  all_goals cases s.pc1
  · exact h.merged
  · exact h.merged
  · exact h.delivered
  · exact h.delivered
  · exact h.copying
  · exact h.copying

theorem pru0Step_tail {m w : ℕ} (h : Tail x m w s) (hStep : pru0Step s = some s')
    (hGuard : ∀ half, s.pc0 = .raise half → s.evt19 = false ∧ ∀ src k, s.pcA ≠ .memcpy src k) :
    Tail x m w s' := by
  obtain ⟨⟨hA, -, hBuf, -, hCopies⟩, ⟨-, hEvt, -, hMerged⟩ | ⟨⟨half, hpc⟩, -, -, hMerged⟩⟩ :=
    pru0Step_frame hStep
  · refine ⟨pru0Step_inv h.inv hStep, hMerged.trans h.merged, ?_, ?_⟩
    · rw [hCopies]
      exact h.delivered
    · rw [hA, hBuf, hCopies, hEvt]
      exact h.copying
  · -- the event is raised while nothing is pending and nothing is copied
    obtain ⟨hClear, hNot⟩ := hGuard half hpc
    refine ⟨pru0Step_inv h.inv hStep, ?_, ?_, ?_⟩
    · rw [hMerged, hClear, Bool.toNat_false, h.merged, Nat.add_zero]
    · rw [hCopies]
      exact h.delivered
    · intro src k hCopy
      exact absurd (hA.symm.trans hCopy) (hNot src k)

/-- One byte of `memcpy`, at a time when PRU0 is busy with the other half. -/
theorem memcpy_byte {m src k : ℕ} (h : Inv x s) (hMerged : s.merged = m)
    (hpc : s.pcA = .memcpy src k) (hEvt : s.evt19 = false) (hEven : Even m)
    (hData : ∀ j < k, s.dbuffer j = byteAt x (384000 * (m + s.copies.length) + j)) :
    ∀ j < k + 1, Function.update s.dbuffer k (s.ddr (s.ramAddr + src + k)) j =
      byteAt x (384000 * (m + s.copies.length) + j) := by
  intro j hj
  rcases Nat.lt_succ_iff_lt_or_eq.mp hj with hlt | rfl
  · rw [Function.update_of_ne (Nat.ne_of_lt hlt), hData j hlt]
  · obtain ⟨hEv, hCop, hOut⟩ := h.served
    simp only [hpc, PcA.copying] at hCop hOut
    obtain ⟨hIx, hSrc, hj'⟩ := hOut
    have hRaised : s.raised = m + s.copies.length + 1 := by
      rw [hEv, hEvt, Bool.toNat_false, hMerged, hCop]
      omega
    -- an even number of merged events leaves the parity of the copies
    have hHalf : src = 384000 * ((m + s.copies.length) % 2) := by
      have hm := Nat.even_iff.mp hEven
      omega
    rw [Function.update_self, hHalf]
    exact h.half_intact hRaised hj'

/-- The copy that `memcpy` completes with its last byte. -/
theorem memcpy_last {m src k : ℕ} (h : Inv x s) (hMerged : s.merged = m)
    (hpc : s.pcA = .memcpy src k) (hLast : ¬k + 1 < pruPacketSize) (hEvt : s.evt19 = false)
    (hData : Even m → ∀ j < k, s.dbuffer j = byteAt x (384000 * (m + s.copies.length) + j)) :
    Delivered x m s.copies.length
      ⟨src, Function.update s.dbuffer k (s.ddr (s.ramAddr + src + k)), s.raised⟩ := by
  obtain ⟨hEv, hCop, hOut⟩ := h.served
  simp only [hpc, PcA.copying] at hCop hOut
  obtain ⟨hIx, hSrc, hk⟩ := hOut
  have hEnd : ¬k + 1 < 384000 := hLast
  obtain rfl : k = 383999 := by omega
  -- no event is pending, so the count of the raised ones is that of the copies
  refine ⟨?_, ?_, fun hEven => memcpy_byte h hMerged hpc hEvt hEven (hData hEven)⟩
  · show s.raised = _
    rw [hEv, hEvt, Bool.toNat_false, hMerged, hCop]
    omega
  · show src = _
    rw [hSrc, hIx]

theorem armStep_tail {m w : ℕ} (h : Tail x m w s) (hStep : armStep s = some s') :
    Tail x m w s' := by
  have hInv := armStep_inv h.inv hStep
  obtain ⟨hInv₀, hMerged, hDel, hCopying⟩ := h
  cases armStep_moves hStep with
  | memcpy src k hpc =>
    -- one more byte is the right one
    refine ⟨hInv, hMerged, hDel, ?_⟩
    intro src' k' hpc' hw
    obtain ⟨rfl, rfl⟩ := PcA.memcpy.inj hpc'
    obtain ⟨hEvt, hData⟩ := hCopying src k hpc hw
    exact ⟨hEvt, fun hEven => memcpy_byte hInv₀ hMerged hpc hEvt hEven (hData hEven)⟩
  | memcpyLast src k hpc hLast =>
    refine ⟨hInv, hMerged, ?_, fun _ _ hpc' => by cases hpc'⟩
    intro i c hi hc
    rcases lt_trichotomy i s.copies.length with hlt | rfl | hgt
    · rw [List.getElem?_append_left hlt] at hc
      exact hDel i c hi hc
    · -- the copy that has just been completed
      rw [List.getElem?_concat_length] at hc
      obtain rfl := Option.some.inj hc
      obtain ⟨hEvt, hData⟩ := hCopying src k hpc hi
      exact memcpy_last hInv₀ hMerged hpc hLast hEvt hData
    · -- there is no copy behind it
      have hLen := (List.getElem?_eq_some_iff.mp hc).1
      rw [List.length_append, List.length_singleton] at hLen
      omega
  | clear src =>
    -- the event is cleared, and no byte has been copied for it
    refine ⟨hInv, hMerged, hDel, ?_⟩
    intro src' k' hpc' _
    obtain ⟨rfl, rfl⟩ := PcA.memcpy.inj hpc'
    exact ⟨rfl, fun _ j hj => absurd hj (Nat.not_lt_zero j)⟩
  | idle | wait | toggle =>
    exact ⟨hInv, hMerged, hDel, fun _ _ hpc' => by cases hpc'⟩

theorem onTime_step_tail {m w : ℕ} {a : Agent} (h : Tail x m w s) (hGuard : OnTime s a)
    (hStep : step x s a = some s') : Tail x m w s' := by
  cases a with
  | pru1 =>
    obtain rfl : pru1Step x s = s' := Option.some.inj hStep
    exact pru1Step_tail h (step_inv h.inv hGuard.1 hStep)
  | pru0 => exact pru0Step_tail h hStep (hGuard.2 rfl)
  | arm => exact armStep_tail h hStep

/-- What the ARM copies while it is on time, after any past. -/
theorem onTime_delivered (h : Inv x s) (hRun : Run (step x) OnTime s t) {i : ℕ} {c : Copied}
    (hi : s.woken ≤ i) (hc : t.copies[i]? = some c) : Delivered x s.merged i c :=
  (hRun.invariant (tail_start h) fun _ _ _ hTail hGuard hStep =>
    onTime_step_tail hTail hGuard hStep).delivered i c hi hc

/-! ## Runs in time -/

/-- While every copy is complete before the next event, no event is merged. -/
theorem InTime.onTime {a : Agent} (h : Inv x s) (hGuard : InTime s a) : OnTime s a := by
  refine ⟨hGuard.1, fun ha half hpc => ?_⟩
  have hAll := hGuard.2 ha half hpc
  obtain ⟨hEv, hCop, -⟩ := h.served
  refine ⟨?_, fun src k hCopy => ?_⟩
  · cases hEvt : s.evt19 with
    | false => rfl
    | true =>
      rw [hEvt, Bool.toNat_true] at hEv
      omega
  · simp only [hCopy, PcA.copying] at hCop
    omega

theorem byteAt_packet (n : ℕ) (b : Fin 100) : byteAt x (100 * n + b) = x n b := by
  have hb := b.isLt
  have hDiv : (100 * n + b) / 100 = n := by omega
  have hMod : Fin.ofNat pkgSize (100 * n + b) = b := Fin.ext (by
    show (100 * n + b) % 100 = b
    omega)
  rw [byteAt, hDiv, hMod]

/-- In a run in time, buffer number `e` (from 0) that `DAQ_Run` returns is made
of the packets `3840 * e` to `3840 * e + 3839`, in the order of their
publication: none lost, none repeated and none torn, for any interleaving of
the bytes stored and copied. -/
theorem daqRun_contiguous {addr : ℕ} {mem : ℕ → Byte}
    (h : Run (step x) InTime (init addr mem) s) {e : ℕ} {c : Copied}
    (hc : s.copies[e]? = some c) :
    3840 * (e + 1) ≤ s.published ∧
      ∀ p < 3840, ∀ b : Fin 100, c.data (100 * p + b) = x (3840 * e + p) b := by
  have hStep : ∀ u a u', Inv x u → InTime u a → step x u a = some u' → Inv x u' := by
    intro u a u' hInv hGuard hs
    exact step_inv hInv hGuard.1 hs
  have hInv : Inv x s := h.invariant (init_inv addr mem) hStep
  -- a run in time is one on time, from its first step on
  have hRun : Run (step x) OnTime (init addr mem) s :=
    h.mono_of_invariant (init_inv addr mem) hStep fun _ _ => InTime.onTime
  have hDel := onTime_delivered (init_inv addr mem) hRun (Nat.zero_le e) hc
  refine ⟨?_, fun p hp b => ?_⟩
  · -- every copy is for an event, every event for 3840 packets read
    have hLt := (List.getElem?_eq_some_iff.mp hc).1
    obtain ⟨hEv, hCop, -⟩ := hInv.served
    obtain ⟨hLow, -, hRead⟩ := hInv.outline.bounds
    have hTokens := hInv.sync.tokens
    omega
  · have hb := b.isLt
    rw [hDel.data Even.zero (100 * p + b) (by omega),
      show 384000 * ((init addr mem).merged + e) + (100 * p + b) =
        100 * (3840 * e + p) + b by
          show 384000 * (0 + e) + (100 * p + b) = _
          omega]
    exact byteAt_packet _ b

/-- Packets that are numbered in each of their bytes. -/
def counting : ℕ → Packet := fun n _ => BitVec.ofNat 8 n

theorem daqRun_contiguous_two :
    ∃ s c, Run (step counting) InTime (init 0 fun _ => 0) s ∧ s.copies[1]? = some c ∧
      3840 * 2 ≤ s.published ∧
      ∀ p < 3840, ∀ b : Fin 100, c.data (100 * p + b) = counting (3840 * 1 + p) b := by
  obtain ⟨s, hRun, hReady⟩ := inTime_copies counting 0 (fun _ => 0) 2
  have hLen : 1 < s.copies.length := by
    rw [hReady.copies]
    decide
  have hc := List.getElem?_eq_getElem hLen
  exact ⟨s, _, hRun, hc, daqRun_contiguous hRun hc⟩

/-! ## Resynchronisation -/

/-- The copy is of the complete half that PRU0 has finished last, and not of
the one that it is writing. -/
def Copied.JustFinished (x : ℕ → Packet) (c : Copied) : Prop :=
  c.src = 384000 * ((c.raised - 1) % 2) ∧
    ∀ j < 384000, c.data j = byteAt x (384000 * (c.raised - 1) + j)

theorem Delivered.justFinished_iff {m i : ℕ} {c : Copied} (h : Delivered x m i c) :
    c.JustFinished x ↔ Even m := by
  obtain ⟨hRaised, hSrc, hData⟩ := h
  have hLast : c.raised - 1 = m + i := by omega
  rw [Copied.JustFinished, hLast, hSrc]
  constructor
  · rintro ⟨hHalf, -⟩
    rw [Nat.even_iff]
    omega
  · intro hEven
    refine ⟨?_, hData hEven⟩
    have hm := Nat.even_iff.mp hEven
    omega

/-- After any run in which the PRUs keep their handshake, however late the ARM
was in it, and from then on on time: the buffers copied are those that PRU0
has just finished if and only if the number of events merged is even. -/
theorem getSamples_justFinished_iff {addr : ℕ} {mem : ℕ → Byte}
    (hs : Run (step x) Handshake (init addr mem) s) (ht : Run (step x) OnTime s t) {i : ℕ}
    {c : Copied} (hi : s.woken ≤ i) (hc : t.copies[i]? = some c) :
    c.JustFinished x ↔ Even s.merged :=
  (onTime_delivered (handshake_inv hs) ht hi hc).justFinished_iff

/-- For every `m` the ARM may be so late that `m` events are merged, and then
on time. -/
theorem overrun_then_onTime (x : ℕ → Packet) (m : ℕ) :
    ∃ s t c, Run (step x) Handshake (init 0 fun _ => 0) s ∧ s.merged = m ∧
      Run (step x) OnTime s t ∧ s.woken = 0 ∧ t.copies[0]? = some c := by
  obtain ⟨s, hRun, hOver⟩ := overrun x 0 (fun _ => 0) m
  obtain ⟨t, hServe, -, -, -, -, hLen⟩ := arm_serves hOver.inv hOver.idle hOver.pending
  have hLt : 0 < t.copies.length := by
    rw [hLen]
    omega
  have hWoken : s.woken = 0 := by
    have hCop := hOver.inv.served.copies
    simpa only [hOver.idle, hOver.copies, PcA.copying, List.length_nil] using hCop
  exact ⟨s, t, _, hRun, hOver.merged, hServe.mono fun _ _ => Quiet.onTime, hWoken,
    List.getElem?_eq_getElem hLt⟩

theorem getSamples_justFinished_iff_two :
    ∃ s t c, Run (step counting) Handshake (init 0 fun _ => 0) s ∧ s.merged = 2 ∧
      Run (step counting) OnTime s t ∧ t.copies[0]? = some c ∧
      (c.JustFinished counting ↔ Even s.merged) := by
  obtain ⟨s, t, c, hs, hMerged, ht, hWoken, hc⟩ := overrun_then_onTime counting 2
  exact ⟨s, t, c, hs, hMerged, ht, hc,
    getSamples_justFinished_iff hs ht (Nat.le_of_eq hWoken) hc⟩

/-- PRU0 fills both halves before the ARM clears the first event, and from then
on the ARM is on time: it copies half 0, which PRU0 is about to overwrite,
where half 1 is the one just finished. -/
theorem getSamples_overrun :
    ∃ s t c, Run (step counting) Handshake (init 0 fun _ => 0) s ∧
      Run (step counting) OnTime s t ∧ s.woken ≤ 0 ∧ t.copies[0]? = some c ∧
      c.raised = 2 ∧ c.src = 0 ∧ ¬c.JustFinished counting := by
  obtain ⟨s, t, c, hs, hMerged, ht, hWoken, hc⟩ := overrun_then_onTime counting 1
  have hDel := onTime_delivered (handshake_inv hs) ht (Nat.le_of_eq hWoken) hc
  rw [hMerged] at hDel
  refine ⟨s, t, c, hs, ht, Nat.le_of_eq hWoken, hc, hDel.raised, hDel.src, ?_⟩
  rw [hDel.justFinished_iff]
  decide

end EnergyMeter.Daq

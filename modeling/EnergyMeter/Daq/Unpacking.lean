import EnergyMeter.Daq.Packing
import EnergyMeter.Lib.Numerals
import Mathlib.Algebra.Field.Basic
import Mathlib.Data.Int.Cast.Basic
import Mathlib.Data.List.Nodup

/-!
# Sample format — unpacking by `ConvertRawValues`

`ConvertRawValues` takes the packets of a second apart on the ARM: three nested
loops with their own arithmetic of offsets, and a sign extension by shifts.

* `convertRawValues` — the loops, with the list of the bytes they read and of
  the entries they write.
* `sign_extension` — the shifts give the signed code, over its whole range.
* `Unpacked` — the invariant of the loops, by the number of samples and of
  channels done; `convertRawValues_spec` is what it amounts to at the end.

Main result: `convertRawValues_frames` — packing and unpacking agree.
-/

namespace EnergyMeter.Daq

open EnergyMeter.Lib

/-! ## The C code -/

/-- The union `raw` of `ConvertRawValues` after its four stores; `bn[3]` is the
most significant byte. -/
def rawValue (bn3 bn2 bn1 bn0 : Byte) : BitVec 32 := bn3 ++ bn2 ++ bn1 ++ bn0

/-- The local variables of `ConvertRawValues`, `ch_data`, and what has been read
and written. -/
structure Unpack (F : Type) where
  /-- `pbuffer_endiann - from` -/
  pbuffer : ℕ
  pIdx : ℕ
  sIdx : ℕ
  chData : ℕ → ℕ → F
  /-- History: the offsets in `from` that have been read. -/
  reads : List ℕ
  /-- History: the channels and samples that have been written. -/
  writes : List (ℕ × ℕ)

section Convert

variable {R F : Type} [Field R] (single : R → F) (double : F → R)

/-- `sample.value`: `ADC_REF` is 4.0 and `ADC_RES` is 8388607.0, both of type
`double`. -/
def sampleValue (value : ℤ) : F := single (double (single ((value : R) * 4)) / 8388607)

variable (src : ℕ → Byte)

/-- The body of the loop over the channels. -/
def channelBody (st : Unpack F) (k : ℕ) : Unpack F :=
  let raw := rawValue 0 (src st.pbuffer) (src (st.pbuffer + 1)) (src (st.pbuffer + 2))
  let raw := raw <<< 8
  let raw := raw.sshiftRight 8
  { st with
    pbuffer := st.pbuffer + 3
    chData := Function.update st.chData k
      (Function.update (st.chData k) st.sIdx (sampleValue single double raw.toInt))
    reads := st.reads ++ [st.pbuffer, st.pbuffer + 1, st.pbuffer + 2]
    writes := st.writes ++ [(k, st.sIdx)] }

/-- The body of the loop over the samples of a packet. -/
def frameBody (n : ℕ) (st : Unpack F) : Unpack F :=
  let st := (List.range n).foldl (channelBody single double src) { st with pbuffer := st.pIdx }
  { st with pIdx := st.pIdx + 24, sIdx := st.sIdx + 1 }

/-- The body of the loop over the packets. -/
def packetBody (n : ℕ) (st : Unpack F) (i : ℕ) : Unpack F :=
  (List.range 4).foldl (fun st _ => frameBody single double src n st)
    { st with pIdx := i * pkgSize + 4 }

/-- `ConvertRawValues(from, n)`. -/
def convertRawValues (n : ℕ) (chData : ℕ → ℕ → F) : Unpack F :=
  (List.range loopsPerMsg).foldl (packetBody single double src n)
    { pbuffer := 0, pIdx := 0, sIdx := 0, chData := chData, reads := [], writes := [] }

end Convert


/-! ## Sign extension -/

theorem rawValue_msbByte (v : BitVec 24) :
    rawValue 0 (msbByte v 0) (msbByte v 1) (msbByte v 2) = v.setWidth 32 := by
  apply BitVec.eq_of_getLsbD_eq
  intro i hi
  simp only [rawValue, msbByte, BitVec.getLsbD_append, BitVec.getLsbD_extractLsb',
    BitVec.getLsbD_setWidth]
  grind

theorem shifts_setWidth (v : BitVec 24) :
    (v.setWidth 32 <<< 8).sshiftRight 8 = v.signExtend 32 := by
  apply BitVec.eq_of_getLsbD_eq
  intro i hi
  simp only [BitVec.getLsbD_sshiftRight, BitVec.getLsbD_shiftLeft, BitVec.getLsbD_setWidth,
    BitVec.getLsbD_signExtend, BitVec.msb_eq_getLsbD_last]
  grind

/-- The three bytes of a code, shifted left and right again, give its value as a
signed number of 24 bits. -/
theorem sign_extension (v : BitVec 24) :
    ((rawValue 0 (msbByte v 0) (msbByte v 1) (msbByte v 2) <<< 8).sshiftRight 8).toInt =
      v.toInt := by
  rw [rawValue_msbByte, shifts_setWidth, BitVec.toInt_signExtend_of_le (by decide)]

example : ((rawValue 0 0xFF 0xFF 0xFE <<< 8).sshiftRight 8).toInt = -2 := by decide

/-! ## The loops -/

section Loops

variable {R F : Type} [Field R] {single : R → F} {double : F → R} {src : ℕ → Byte}

/-- The offset in the buffer of channel `c` of sample `s`. -/
def offset (s c : ℕ) : ℕ := 100 * (s / 4) + 4 + 24 * (s % 4) + 3 * c

/-- What the loops leave in `ch_data[c][s]`. -/
def valueAt (single : R → F) (double : F → R) (src : ℕ → Byte) (c s : ℕ) : F :=
  sampleValue single double
    ((rawValue 0 (src (offset s c)) (src (offset s c + 1)) (src (offset s c + 2)) <<< 8).sshiftRight
      8).toInt

/-- `S` samples of `n` channels are done, and `k` channels of sample `S`. -/
def Written (n S k c s : ℕ) : Prop := c < n ∧ s < S ∨ s = S ∧ c < k

structure Unpacked (single : R → F) (double : F → R) (src : ℕ → Byte) (n S k : ℕ)
    (st : Unpack F) : Prop where
  sIdx : st.sIdx = S
  values : ∀ c s, Written n S k c s → st.chData c s = valueAt single double src c s
  writes : ∀ c s, (c, s) ∈ st.writes ↔ Written n S k c s
  once : st.writes.Nodup
  reads : ∀ a ∈ st.reads, a < 384000 ∧ 4 ≤ a % 100

/-- The three bytes of a channel are in one packet, and behind its marker. -/
theorem read_inside {S k a : ℕ} (hk : k < 8) (hS : S < 15360)
    (ha : a = offset S k ∨ a = offset S k + 1 ∨ a = offset S k + 2) :
    a < 384000 ∧ 4 ≤ a % 100 := by
  unfold offset at ha
  have hFrame := Nat.mod_lt S (show 0 < 4 by decide)
  obtain ⟨r, hr, hMarker, hEnd⟩ : ∃ r, a = 100 * (S / 4) + r ∧ 4 ≤ r ∧ r < 100 :=
    ⟨a - 100 * (S / 4), by omega, by omega, by omega⟩
  have hPacket : S / 4 < 3840 := by omega
  omega

/-- One channel: three bytes of the right packet are read, behind the marker,
and one entry is written that was not written before. -/
theorem channelBody_spec {n S k : ℕ} {st : Unpack F} (hn : n ≤ 8) (hk : k < n)
    (hS : S < 15360) (h : Unpacked single double src n S k st) (hBuf : st.pbuffer = offset S k) :
    Unpacked single double src n S (k + 1) (channelBody single double src st k) := by
  obtain ⟨hIdx, hValues, hWrites, hOnce, hReads⟩ := h
  -- the entry of this round has not been written
  have hNew : (k, S) ∉ st.writes := by
    rw [hWrites]
    unfold Written
    omega
  have hEntry : ∀ c s, Written n S (k + 1) c s ↔ Written n S k c s ∨ (c, s) = (k, S) := by
    intro c s
    rw [Prod.mk.injEq]
    unfold Written
    omega
  refine ⟨hIdx, ?_, ?_, ?_, ?_⟩
  · intro c s hcs
    simp only [channelBody, hIdx, hBuf]
    rcases (hEntry c s).mp hcs with hOld | hEq
    · -- an entry of before: not the one written now
      have hNe : (c, s) ≠ (k, S) := by
        rintro hEq
        rw [← hEq] at hNew
        exact hNew ((hWrites c s).mpr hOld)
      by_cases hc : c = k
      · subst hc
        have hs : s ≠ S := fun hs => hNe (by rw [hs])
        rw [Function.update_self, Function.update_of_ne hs, hValues c s hOld]
      · rw [Function.update_of_ne hc, hValues c s hOld]
    · -- the new entry is the value of the three bytes
      obtain ⟨rfl, rfl⟩ := Prod.mk.inj hEq
      rw [Function.update_self, Function.update_self]
      rfl
  -- the log of the writes is one longer, and still without repetition
  · intro c s
    simp only [channelBody, hIdx, List.mem_append, List.mem_singleton, hWrites, hEntry]
  · simp only [channelBody, hIdx]
    exact List.Nodup.append hOnce (List.nodup_singleton _) (List.disjoint_singleton.mpr hNew)
  · intro a ha
    simp only [channelBody, hBuf, List.mem_append, List.mem_cons, List.not_mem_nil, or_false] at ha
    rcases ha with ha | ha
    · exact hReads a ha
    · exact read_inside (hk.trans_le hn) hS ha

theorem frameBody_spec {n S : ℕ} {st : Unpack F} (hn : n ≤ 8) (hS : S < 15360)
    (h : Unpacked single double src n S 0 st) (hIdx : st.pIdx = offset S 0) :
    Unpacked single double src n (S + 1) 0 (frameBody single double src n st) ∧
      (frameBody single double src n st).pIdx = st.pIdx + 24 := by
  -- the loop over the channels keeps the offset of the next one
  have hLoop := foldl_range_rule (f := channelBody single double src) (n := n)
    (P := fun k (u : Unpack F) => Unpacked single double src n S k u ∧ u.pbuffer = offset S k ∧
      u.pIdx = st.pIdx)
    (s := { st with pbuffer := st.pIdx })
    ⟨⟨h.1, h.2, h.3, h.4, h.5⟩, hIdx, rfl⟩
    (fun k hk u hu => ⟨channelBody_spec hn hk hS hu.1 hu.2.1, by
      show u.pbuffer + 3 = offset S (k + 1)
      rw [hu.2.1]
      unfold offset
      omega, hu.2.2⟩)
  obtain ⟨⟨hSIdx, hValues, hWrites, hOnce, hReads⟩, -, hPIdx⟩ := hLoop
  have hEntry : ∀ c s, Written n S n c s ↔ Written n (S + 1) 0 c s := by
    intro c s
    unfold Written
    omega
  refine ⟨⟨congrArg (· + 1) hSIdx, ?_, ?_, hOnce, hReads⟩, congrArg (· + 24) hPIdx⟩
  · exact fun c s hcs => hValues c s ((hEntry c s).mpr hcs)
  · exact fun c s => (hWrites c s).trans (hEntry c s)

theorem packetBody_spec {n i : ℕ} {st : Unpack F} (hn : n ≤ 8) (hi : i < 3840)
    (h : Unpacked single double src n (4 * i) 0 st) :
    Unpacked single double src n (4 * (i + 1)) 0 (packetBody single double src n st i) := by
  -- four frames behind the marker, of 24 bytes each
  have hLoop := foldl_range_rule (f := fun u _ => frameBody single double src n u) (n := 4)
    (P := fun j (u : Unpack F) => Unpacked single double src n (4 * i + j) 0 u ∧
      u.pIdx = 100 * i + 4 + 24 * j)
    (s := { st with pIdx := i * pkgSize + 4 })
    ⟨⟨h.1, h.2, h.3, h.4, h.5⟩, by
      show i * 100 + 4 = 100 * i + 4 + 24 * 0
      omega⟩
    (fun j hj u hu => by
      have hOffset : u.pIdx = offset (4 * i + j) 0 := by
        rw [hu.2]
        unfold offset
        omega
      obtain ⟨hNext, hPIdx⟩ := frameBody_spec hn (by omega) hu.1 hOffset
      refine ⟨hNext, ?_⟩
      rw [hPIdx, hu.2]
      omega)
  exact hLoop.1

/-- The loops as a whole, for any buffer: every entry has the value of its own
three bytes and is written once. -/
theorem convertRawValues_spec {n : ℕ} (hn : n ≤ 8) (chData : ℕ → ℕ → F) :
    Unpacked single double src n 15360 0 (convertRawValues single double src n chData) := by
  refine foldl_range_rule (P := fun i u => Unpacked single double src n (4 * i) 0 u) ?_
    fun i hi u hu => packetBody_spec hn hi hu
  refine ⟨rfl, ?_, ?_, List.nodup_nil, nofun⟩
  · intro c s hcs
    unfold Written at hcs
    omega
  · intro c s
    unfold Written
    simp

end Loops

/-! ## Packing and unpacking -/

theorem Frame.byte_code (f : Frame) (k : Fin 8) {l : ℕ} (hl : l < 3) :
    f.byte (3 + (3 * k + l)) = msbByte (f.code k) l := by
  have hk := k.isLt
  have hDiv : (3 + (3 * k.val + l) - 3) / 3 = k.val := by omega
  have hMod : (3 + (3 * k.val + l) - 3) % 3 = l := by omega
  rw [Frame.byte, if_neg (by omega), hDiv, hMod]
  exact congrArg (fun c => msbByte (f.code c) l) (Fin.ext (Nat.mod_eq_of_lt hk))

/-- Byte `l` of channel `k` of sample `s` of second number `e`, where
`ConvertRawValues` looks for it. -/
theorem byteAt_offset (frames : ℕ → Frame) (regs : ℕ → Fin 4 → Byte) (e : ℕ) {s l : ℕ} (k : Fin 8)
    (hl : l < 3) :
    byteAt (packets frames regs) (384000 * e + (offset s k + l)) =
      msbByte ((frames (15360 * e + s)).code k) l := by
  have hk := k.isLt
  have hFrame := Nat.mod_lt s (show 0 < 4 by decide)
  -- packet `3840 * e + s / 4`, frame `s % 4` of it
  have hPos : 384000 * e + (offset s k + l) =
      100 * (3840 * e + s / 4) + (4 + 24 * (s % 4) + (3 * k.val + l)) := by
    unfold offset
    omega
  have hDiv : (384000 * e + (offset s k + l)) / 100 = 3840 * e + s / 4 := by omega
  have hByte : Fin.ofNat pkgSize (384000 * e + (offset s k + l)) =
      Fin.ofNat pkgSize (4 + 24 * (s % 4) + (3 * k.val + l)) := by
    refine Fin.ext ?_
    show (384000 * e + (offset s k + l)) % 100 = (4 + 24 * (s % 4) + (3 * k.val + l)) % 100
    omega
  rw [byteAt, hDiv, hByte, packets_byte frames regs _ hFrame (by omega), Frame.byte_code _ k hl]
  exact congrArg (fun q => msbByte ((frames q).code k) l) (by omega)

section Agree

variable {R F : Type} [Field R]

/-- Packing and unpacking agree, in every second of the stream: entry `4 * i + j`
of channel `k` is the conversion of the signed code of channel `k` in frame `j`
of packet `i`. Every entry is written exactly once, and what is read is in the
buffer and behind the markers. -/
theorem convertRawValues_frames (single : R → F) (double : F → R) (frames : ℕ → Frame)
    (regs : ℕ → Fin 4 → Byte) (e : ℕ) (chData : ℕ → ℕ → F) :
    let st := convertRawValues single double
      (fun a => byteAt (packets frames regs) (384000 * e + a)) 8 chData
    (∀ i < 3840, ∀ j < 4, ∀ k : Fin 8, st.chData k (4 * i + j) =
      sampleValue single double ((frames (15360 * e + (4 * i + j))).code k).toInt) ∧
    (∀ k < 8, ∀ s < 15360, st.writes.count (k, s) = 1) ∧
    (∀ w ∈ st.writes, w.1 < 8 ∧ w.2 < 15360) ∧
    ∀ a ∈ st.reads, a < 384000 ∧ 4 ≤ a % 100 := by
  intro st
  have hSpec : Unpacked single double _ 8 15360 0 st := convertRawValues_spec (by decide) chData
  obtain ⟨-, hValues, hWrites, hOnce, hReads⟩ := hSpec
  have hEntry : ∀ c s, Written 8 15360 0 c s ↔ c < 8 ∧ s < 15360 := by
    intro c s
    unfold Written
    omega
  refine ⟨fun i hi j hj k => ?_, fun k hk s hs => ?_, fun w hw => ?_, hReads⟩
  · -- the three bytes of the code, the first of them with the sign
    rw [hValues k (4 * i + j) ((hEntry _ _).mpr ⟨k.isLt, by omega⟩), valueAt]
    have h0 := byteAt_offset frames regs e (s := 4 * i + j) k (show 0 < 3 by decide)
    have h1 := byteAt_offset frames regs e (s := 4 * i + j) k (show 1 < 3 by decide)
    have h2 := byteAt_offset frames regs e (s := 4 * i + j) k (show 2 < 3 by decide)
    rw [Nat.add_zero] at h0
    rw [h0, h1, h2, sign_extension]
  · exact List.count_eq_one_of_mem hOnce ((hWrites k s).mpr ((hEntry k s).mpr ⟨hk, hs⟩))
  · exact (hEntry w.1 w.2).mp ((hWrites w.1 w.2).mp hw)

end Agree

end EnergyMeter.Daq

import Modbus.Data.Lfsr
import Modbus.Rtu.Crc

/-!
This module contains the checksum bit by bit, as CRC-16/MODBUS is defined, and the fact that the two
tables compute it. The errors that the polynomial detects are therefore detected by `mb_crc`.
-/

namespace Modbus

def crcTaps : BitVec 16 :=
  0xA001#16

/--
Each byte is added to the low half of the register. Then the register is shifted right eight times,
and if the bit that is shifted out is 1 the taps are added.
-/
def crcReference (bs : List UInt8) (preload : UInt16) : UInt16 :=
  UInt16.ofBitVec
    (bs.foldl (fun r b => (Lfsr.step crcTaps)^[8] (r ^^^ b.toBitVec.setWidth 16)) preload.toBitVec)

theorem toBitVec_word (hi lo : UInt8) : (word hi lo).toBitVec = hi.toBitVec ++ lo.toBitVec := by
  apply BitVec.eq_of_toNat_eq
  rw [UInt16.toNat_toBitVec, toNat_word, BitVec.toNat_append]
  rw [← Nat.shiftLeft_add_eq_or_of_lt lo.toBitVec.isLt]
  rw [Nat.shiftLeft_eq]
  rfl

/-- The tables are right in every entry, with the roles of their names swapped. -/
theorem zipWith_mbTableCrc
    : List.zipWith (fun lo hi => lo.toBitVec ++ hi.toBitVec) mbTableCrcLo mbTableCrcHi
        =
      (List.range 256).map (fun i => (Lfsr.step crcTaps)^[8] (0#8 ++ BitVec.ofNat 8 i)) := by
  decide +kernel

theorem mbTableCrc_eq {i : Nat} (h : i < 256)
    : (mbTableCrcLo.getD i 0).toBitVec ++ (mbTableCrcHi.getD i 0).toBitVec
        =
      (Lfsr.step crcTaps)^[8] (0#8 ++ BitVec.ofNat 8 i) := by
  have hlo : i < mbTableCrcLo.length := by
    rw [length_mbTableCrcLo]
    exact h
  have hhi : i < mbTableCrcHi.length := by
    rw [length_mbTableCrcHi]
    exact h
  have hentry := congrArg (fun entries => entries[i]?) zipWith_mbTableCrc
  rw [List.getElem?_zipWith, List.getElem?_map, List.getElem?_range h] at hentry
  rw [List.getElem?_eq_getElem hlo, List.getElem?_eq_getElem hhi] at hentry
  rw [List.getD_eq_getElem _ _ hlo, List.getD_eq_getElem _ _ hhi]
  injection hentry

theorem iterate_step_high : ∀ i < 256,
    (Lfsr.step crcTaps)^[8] (BitVec.ofNat 8 i ++ 0#8) = 0#8 ++ BitVec.ofNat 8 i := by
  decide +kernel

theorem iterate_step_append (hi lo : UInt8)
    : (Lfsr.step crcTaps)^[8] (hi.toBitVec ++ lo.toBitVec)
        =
      (mbTableCrcLo.getD lo.toNat 0).toBitVec ++
        (hi ^^^ mbTableCrcHi.getD lo.toNat 0).toBitVec := by
  have hsplit : hi.toBitVec ++ lo.toBitVec
      = (hi.toBitVec ++ 0#8) ^^^ (0#8 ++ lo.toBitVec) := by
    rw [BitVec.xor_append, BitVec.xor_zero, BitVec.zero_xor]
  have hhi := iterate_step_high hi.toNat hi.toNat_lt
  have hlo := mbTableCrc_eq lo.toNat_lt
  rw [show BitVec.ofNat 8 hi.toNat = hi.toBitVec from BitVec.ofNat_toNat 8 hi.toBitVec] at hhi
  rw [show BitVec.ofNat 8 lo.toNat = lo.toBitVec from BitVec.ofNat_toNat 8 lo.toBitVec] at hlo
  rw [hsplit, Lfsr.iterate_step_xor, hhi, ← hlo]
  rw [BitVec.xor_append, BitVec.zero_xor]
  rfl

theorem Crc.step_eq (crc : Crc) (b : UInt8)
    : (word (crc.step b).crcHi (crc.step b).crcLo).toBitVec
        =
      (Lfsr.step crcTaps)^[8]
        ((word crc.crcHi crc.crcLo).toBitVec ^^^ b.toBitVec.setWidth 16) := by
  have hb : b.toBitVec.setWidth 16 = 0#8 ++ b.toBitVec := by
    apply BitVec.setWidth_eq_append
    decide
  rw [toBitVec_word, toBitVec_word, hb, BitVec.xor_append, BitVec.xor_zero]
  rw [← UInt8.toBitVec_xor, iterate_step_append]
  rfl

theorem crcOf_eq_crcReference (bs : List UInt8) (preload : UInt16)
    : crcOf bs preload = crcReference bs preload := by
  have hfold (crc : Crc) :
      (word (bs.foldl Crc.step crc).crcHi (bs.foldl Crc.step crc).crcLo).toBitVec
        =
      bs.foldl (fun r b => (Lfsr.step crcTaps)^[8] (r ^^^ b.toBitVec.setWidth 16))
        (word crc.crcHi crc.crcLo).toBitVec := by
    induction bs generalizing crc with
    | nil => rfl
    | cons b bs ih =>
      rw [List.foldl_cons, List.foldl_cons, ih, Crc.step_eq]
  apply UInt16.toBitVec_inj.mp
  unfold crcOf crcReference
  dsimp only
  rw [hfold, word_hiByte_loByte]

/-- For every message of up to 255 bytes the tables give the checksum as it is defined. -/
theorem mbCrc_reference (buffer : Mem) (len : UInt8) (preload : UInt16)
    : mbCrc buffer len preload = crcReference (buffer.load 0 len.toNat) preload := by
  apply crcOf_eq_crcReference

end Modbus

import Modbus.Data.Mem

/-!
This module contains the checksum of `mb_crc.c`, with its two tables, and the fact that the checksum
of a message followed by its own checksum is 0.
-/

namespace Modbus

def mbTableCrcHi : List UInt8 :=
  [0x00, 0xC1, 0x81, 0x40, 0x01, 0xC0, 0x80, 0x41, 0x01, 0xC0, 0x80, 0x41, 0x00, 0xC1, 0x81, 0x40,
   0x01, 0xC0, 0x80, 0x41, 0x00, 0xC1, 0x81, 0x40, 0x00, 0xC1, 0x81, 0x40, 0x01, 0xC0, 0x80, 0x41,
   0x01, 0xC0, 0x80, 0x41, 0x00, 0xC1, 0x81, 0x40, 0x00, 0xC1, 0x81, 0x40, 0x01, 0xC0, 0x80, 0x41,
   0x00, 0xC1, 0x81, 0x40, 0x01, 0xC0, 0x80, 0x41, 0x01, 0xC0, 0x80, 0x41, 0x00, 0xC1, 0x81, 0x40,
   0x01, 0xC0, 0x80, 0x41, 0x00, 0xC1, 0x81, 0x40, 0x00, 0xC1, 0x81, 0x40, 0x01, 0xC0, 0x80, 0x41,
   0x00, 0xC1, 0x81, 0x40, 0x01, 0xC0, 0x80, 0x41, 0x01, 0xC0, 0x80, 0x41, 0x00, 0xC1, 0x81, 0x40,
   0x00, 0xC1, 0x81, 0x40, 0x01, 0xC0, 0x80, 0x41, 0x01, 0xC0, 0x80, 0x41, 0x00, 0xC1, 0x81, 0x40,
   0x01, 0xC0, 0x80, 0x41, 0x00, 0xC1, 0x81, 0x40, 0x00, 0xC1, 0x81, 0x40, 0x01, 0xC0, 0x80, 0x41,
   0x01, 0xC0, 0x80, 0x41, 0x00, 0xC1, 0x81, 0x40, 0x00, 0xC1, 0x81, 0x40, 0x01, 0xC0, 0x80, 0x41,
   0x00, 0xC1, 0x81, 0x40, 0x01, 0xC0, 0x80, 0x41, 0x01, 0xC0, 0x80, 0x41, 0x00, 0xC1, 0x81, 0x40,
   0x00, 0xC1, 0x81, 0x40, 0x01, 0xC0, 0x80, 0x41, 0x01, 0xC0, 0x80, 0x41, 0x00, 0xC1, 0x81, 0x40,
   0x01, 0xC0, 0x80, 0x41, 0x00, 0xC1, 0x81, 0x40, 0x00, 0xC1, 0x81, 0x40, 0x01, 0xC0, 0x80, 0x41,
   0x00, 0xC1, 0x81, 0x40, 0x01, 0xC0, 0x80, 0x41, 0x01, 0xC0, 0x80, 0x41, 0x00, 0xC1, 0x81, 0x40,
   0x01, 0xC0, 0x80, 0x41, 0x00, 0xC1, 0x81, 0x40, 0x00, 0xC1, 0x81, 0x40, 0x01, 0xC0, 0x80, 0x41,
   0x01, 0xC0, 0x80, 0x41, 0x00, 0xC1, 0x81, 0x40, 0x00, 0xC1, 0x81, 0x40, 0x01, 0xC0, 0x80, 0x41,
   0x00, 0xC1, 0x81, 0x40, 0x01, 0xC0, 0x80, 0x41, 0x01, 0xC0, 0x80, 0x41, 0x00, 0xC1, 0x81, 0x40]

def mbTableCrcLo : List UInt8 :=
  [0x00, 0xC0, 0xC1, 0x01, 0xC3, 0x03, 0x02, 0xC2, 0xC6, 0x06, 0x07, 0xC7, 0x05, 0xC5, 0xC4, 0x04,
   0xCC, 0x0C, 0x0D, 0xCD, 0x0F, 0xCF, 0xCE, 0x0E, 0x0A, 0xCA, 0xCB, 0x0B, 0xC9, 0x09, 0x08, 0xC8,
   0xD8, 0x18, 0x19, 0xD9, 0x1B, 0xDB, 0xDA, 0x1A, 0x1E, 0xDE, 0xDF, 0x1F, 0xDD, 0x1D, 0x1C, 0xDC,
   0x14, 0xD4, 0xD5, 0x15, 0xD7, 0x17, 0x16, 0xD6, 0xD2, 0x12, 0x13, 0xD3, 0x11, 0xD1, 0xD0, 0x10,
   0xF0, 0x30, 0x31, 0xF1, 0x33, 0xF3, 0xF2, 0x32, 0x36, 0xF6, 0xF7, 0x37, 0xF5, 0x35, 0x34, 0xF4,
   0x3C, 0xFC, 0xFD, 0x3D, 0xFF, 0x3F, 0x3E, 0xFE, 0xFA, 0x3A, 0x3B, 0xFB, 0x39, 0xF9, 0xF8, 0x38,
   0x28, 0xE8, 0xE9, 0x29, 0xEB, 0x2B, 0x2A, 0xEA, 0xEE, 0x2E, 0x2F, 0xEF, 0x2D, 0xED, 0xEC, 0x2C,
   0xE4, 0x24, 0x25, 0xE5, 0x27, 0xE7, 0xE6, 0x26, 0x22, 0xE2, 0xE3, 0x23, 0xE1, 0x21, 0x20, 0xE0,
   0xA0, 0x60, 0x61, 0xA1, 0x63, 0xA3, 0xA2, 0x62, 0x66, 0xA6, 0xA7, 0x67, 0xA5, 0x65, 0x64, 0xA4,
   0x6C, 0xAC, 0xAD, 0x6D, 0xAF, 0x6F, 0x6E, 0xAE, 0xAA, 0x6A, 0x6B, 0xAB, 0x69, 0xA9, 0xA8, 0x68,
   0x78, 0xB8, 0xB9, 0x79, 0xBB, 0x7B, 0x7A, 0xBA, 0xBE, 0x7E, 0x7F, 0xBF, 0x7D, 0xBD, 0xBC, 0x7C,
   0xB4, 0x74, 0x75, 0xB5, 0x77, 0xB7, 0xB6, 0x76, 0x72, 0xB2, 0xB3, 0x73, 0xB1, 0x71, 0x70, 0xB0,
   0x50, 0x90, 0x91, 0x51, 0x93, 0x53, 0x52, 0x92, 0x96, 0x56, 0x57, 0x97, 0x55, 0x95, 0x94, 0x54,
   0x9C, 0x5C, 0x5D, 0x9D, 0x5F, 0x9F, 0x9E, 0x5E, 0x5A, 0x9A, 0x9B, 0x5B, 0x99, 0x59, 0x58, 0x98,
   0x88, 0x48, 0x49, 0x89, 0x4B, 0x8B, 0x8A, 0x4A, 0x4E, 0x8E, 0x8F, 0x4F, 0x8D, 0x4D, 0x4C, 0x8C,
   0x44, 0x84, 0x85, 0x45, 0x87, 0x47, 0x46, 0x86, 0x82, 0x42, 0x43, 0x83, 0x41, 0x81, 0x80, 0x40]

structure Crc where
  crcHi : UInt8
  crcLo : UInt8
  deriving DecidableEq, Repr

def Crc.step (crc : Crc) (b : UInt8) : Crc :=
  let index := (crc.crcLo ^^^ b).toNat
  {
    crcHi := mbTableCrcLo.getD index 0
    crcLo := crc.crcHi ^^^ mbTableCrcHi.getD index 0
  }

def crcOf (bs : List UInt8) (preload : UInt16) : UInt16 :=
  let crc := bs.foldl Crc.step ⟨hiByte preload, loByte preload⟩
  word crc.crcHi crc.crcLo

def mbCrc (buffer : Mem) (len : UInt8) (preload : UInt16) : UInt16 :=
  crcOf (buffer.load 0 len.toNat) preload

theorem mbCrc_one (b : UInt8) (preload : UInt16)
    : mbCrc (fun _ => b) 1 preload = crcOf [b] preload := by
  have hload : Mem.load (fun _ => b) 0 (1 : UInt8).toNat = [b] := rfl
  rw [mbCrc, hload]

theorem Crc.step_self (crc : Crc) : crc.step crc.crcLo = ⟨0, crc.crcHi⟩ := by
  have hhi : mbTableCrcHi.getD (0 : UInt8).toNat 0 = 0 := rfl
  have hlo : mbTableCrcLo.getD (0 : UInt8).toNat 0 = 0 := rfl
  unfold Crc.step
  rw [UInt8.xor_self]
  dsimp only
  rw [hhi, hlo, UInt8.xor_zero]

theorem crcOf_append (bs bs' : List UInt8) (preload : UInt16)
    : crcOf (bs ++ bs') preload = crcOf bs' (crcOf bs preload) := by
  simp only [crcOf, List.foldl_append, hiByte_word, loByte_word]

theorem crcOf_bytes (crc : UInt16) : crcOf [loByte crc, hiByte crc] crc = 0 := by
  have hlo := Crc.step_self ⟨hiByte crc, loByte crc⟩
  have hhi := Crc.step_self ⟨0, hiByte crc⟩
  dsimp only at hlo hhi
  simp only [crcOf, List.foldl_cons, List.foldl_nil]
  rw [hlo, hhi]
  rfl

theorem length_mbTableCrcHi : mbTableCrcHi.length = 256 := by
  decide +kernel

theorem length_mbTableCrcLo : mbTableCrcLo.length = 256 := by
  decide +kernel

theorem mbTableCrcLo_tail : ∀ b ∈ mbTableCrcLo.tail, b ≠ 0 := by
  decide +kernel

theorem mbTableCrcLo_ne_zero {i : Nat} (hi : i < 256) (h : mbTableCrcLo.getD i 0 = 0) : i = 0 := by
  rw [← length_mbTableCrcLo] at hi
  rw [List.getD_eq_getElem _ _ hi] at h
  cases i with
  | zero => rfl
  | succ i =>
    have hlt : i < mbTableCrcLo.tail.length := by
      rw [List.length_tail]
      omega
    have hne := mbTableCrcLo_tail _ (List.getElem_mem hlt)
    rw [List.getElem_tail] at hne
    exact absurd h hne

theorem Crc.crcHi_step_eq_zero {crc : Crc} {b : UInt8} (h : (crc.step b).crcHi = 0)
    : b = crc.crcLo := by
  have hindex := mbTableCrcLo_ne_zero (UInt8.toNat_lt _) h
  have hxor : crc.crcLo ^^^ b = 0 := UInt8.toNat_inj.mp hindex
  exact (UInt8.xor_eq_zero_iff.mp hxor).symm

theorem word_eq_zero {hi lo : UInt8} (h : word hi lo = 0) : hi = 0 ∧ lo = 0 := by
  have hhi := hiByte_word hi lo
  have hlo := loByte_word hi lo
  rw [h] at hhi hlo
  exact ⟨hhi.symm, hlo.symm⟩

theorem crcOf_one_ne_zero (b : UInt8) : crcOf [b] 0xFFFF ≠ 0 := by
  intro h
  obtain ⟨hhi, hlo⟩ := word_eq_zero h
  have hb := Crc.crcHi_step_eq_zero hhi
  rw [hb] at hlo
  exact absurd hlo (by decide)

/-- Of the messages of two bytes at most one has the checksum 0. -/
theorem crcOf_two_eq_zero {b c : UInt8} (h : crcOf [b, c] 0xFFFF = 0) : b = 0xFF := by
  obtain ⟨hhi, hlo⟩ := word_eq_zero h
  have hc := Crc.crcHi_step_eq_zero hhi
  simp only [List.foldl_cons, List.foldl_nil] at hc hlo
  rw [hc, Crc.step_self] at hlo
  exact Crc.crcHi_step_eq_zero hlo

/-- No legal address starts a message with the checksum 0 that is shorter than three bytes. -/
theorem two_le_of_crcOf {slave : UInt8} {rest : List UInt8} (hslave : slave ≤ 247)
    (hcrc : crcOf (slave :: rest) 0xFFFF = 0)
    : 2 ≤ rest.length := by
  rcases rest with _ | ⟨b, _ | ⟨c, rest⟩⟩
  . exact absurd hcrc (crcOf_one_ne_zero slave)
  . rw [crcOf_two_eq_zero hcrc] at hslave
    exact absurd hslave (by decide)
  . simp only [List.length_cons]
    omega

end Modbus

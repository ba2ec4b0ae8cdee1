import Modbus.Rtu.Accept

/-!
This module contains the errors on the line that the checksum detects, in frames of any length that
`mb_rtu_tx` can send: an odd number of wrong bits, two wrong bits, and a burst of up to 16 bits.
-/

namespace Modbus

/-- The bits of a message in the order in which they are sent. -/
def serialBits (bs : List UInt8) : List Bool :=
  bs.flatMap (fun b => Lfsr.bitsOf b.toBitVec)

theorem length_serialBits (bs : List UInt8) : (serialBits bs).length = 8 * bs.length := by
  induction bs with
  | nil => rfl
  | cons b bs ih =>
    simp only [serialBits, List.flatMap_cons, List.length_append] at ih ⊢
    rw [ih, Lfsr.bitsOf, List.length_map, List.length_range, List.length_cons]
    omega

theorem wordOf_bitsOf (b : UInt8)
    : Lfsr.wordOf 16 (Lfsr.bitsOf b.toBitVec) = b.toBitVec.setWidth 16 := by
  apply BitVec.eq_of_getLsbD_eq
  intro i hi
  rw [Lfsr.getLsbD_wordOf, BitVec.getLsbD_setWidth, Lfsr.bitsOf]
  by_cases hlt : i < 8
  . simp [hlt]
  . rw [List.getD_eq_default _ _ (by simp; omega)]
    rw [BitVec.getLsbD_of_ge _ _ (by omega)]

theorem toBitVec_crcOf (bs : List UInt8) (preload : UInt16)
    : (crcOf bs preload).toBitVec = Lfsr.feed crcTaps preload.toBitVec (serialBits bs) := by
  rw [crcOf_eq_crcReference]
  change bs.foldl _ preload.toBitVec = _
  generalize preload.toBitVec = r
  induction bs generalizing r with
  | nil => rfl
  | cons b bs ih =>
    have hbyte := @Lfsr.feed_eq_iterate 16 crcTaps r (Lfsr.bitsOf b.toBitVec)
      (by simp [Lfsr.bitsOf])
    rw [wordOf_bitsOf] at hbyte
    rw [List.foldl_cons, ih]
    simp only [serialBits, List.flatMap_cons]
    rw [Lfsr.feed_append, hbyte]
    simp [Lfsr.bitsOf]

theorem toBitVec_crcOf_of_eq_zero {frame frame' : List UInt8} (hlen : frame'.length = frame.length)
    (hcrc : crcOf frame 0xFFFF = 0)
    : (crcOf frame' 0xFFFF).toBitVec
        =
      Lfsr.feed crcTaps 0#16 (Lfsr.differences (serialBits frame) (serialBits frame')) := by
  have hserial : (serialBits frame).length = (serialBits frame').length := by
    rw [length_serialBits, length_serialBits, hlen]
  have hxor := Lfsr.feed_xor crcTaps (0xFFFF : UInt16).toBitVec (0xFFFF : UInt16).toBitVec hserial
  rw [← toBitVec_crcOf, ← toBitVec_crcOf, hcrc, BitVec.xor_self] at hxor
  rw [hxor]
  exact BitVec.zero_xor.symm

/-- An odd number of wrong bits, two of them, or a burst of up to 16 bits. -/
def Detectable (errors : List Bool) : Prop :=
  Odd (errors.count true)
    ∨
  errors.count true = 2
    ∨
  true ∈ errors ∧ ∃ (i : Nat), ∀ (j : Nat), errors[j]? = some true → i ≤ j ∧ j < i + 16

theorem crcTaps_cycle (d : Nat) (hpos : 0 < d) (hlt : d < 2048)
    : (Lfsr.step crcTaps)^[d] (Lfsr.wordOf 16 [true]) ≠ Lfsr.wordOf 16 [true] := by
  apply Lfsr.iterate_step_ne_of_avoids crcTaps (n := 2047)
  . decide +kernel
  . exact hpos
  . omega

theorem feed_ne_zero_of_detectable {errors : List Bool} (hlen : errors.length ≤ 2048)
    (h : Detectable errors)
    : Lfsr.feed crcTaps 0#16 errors ≠ 0#16 := by
  have htop : crcTaps.getLsbD (16 - 1) = true := by decide
  obtain hodd | htwo | ⟨hmem, i, hburst⟩ := h
  . exact Lfsr.feed_ne_zero_of_odd crcTaps (by decide) hodd
  . exact Lfsr.feed_ne_zero_of_two crcTaps htop crcTaps_cycle hlen htwo
  . exact Lfsr.feed_ne_zero_of_burst crcTaps htop hmem i hburst

theorem crcOf_ne_zero_of_detectable {frame frame' : List UInt8}
    (hlen : frame'.length = frame.length) (hle : frame.length ≤ 256)
    (hcrc : crcOf frame 0xFFFF = 0)
    (h : Detectable (Lfsr.differences (serialBits frame) (serialBits frame')))
    : crcOf frame' 0xFFFF ≠ 0 := by
  intro hcrc'
  apply feed_ne_zero_of_detectable _ h
  . rw [← toBitVec_crcOf_of_eq_zero hlen hcrc, hcrc']
    rfl
  . rw [Lfsr.differences, List.length_zipWith, length_serialBits, length_serialBits, hlen]
    omega

def rxCheck (slave : UInt8) (rest : List UInt8) : UInt16 :=
  mbCrc (Mem.copy (fun _ => 0) 0 rest) (UInt8.ofNat rest.length) (mbCrc (fun _ => slave) 1 0xFFFF)

theorem rxCheck_eq (slave : UInt8) {rest : List UInt8} (hrest : rest.length ≤ 255)
    : rxCheck slave rest = crcOf (slave :: rest) 0xFFFF := by
  have hlen : (UInt8.ofNat rest.length).toNat = rest.length := by
    rw [UInt8.toNat_ofNat']
    omega
  rw [rxCheck, mbCrc_one, mbCrc, hlen, Mem.load_copy]
  rw [← crcOf_append, List.singleton_append]

theorem mbRtuRx_neg {slave : UInt8} {rest : List UInt8} (hrest : rest.length < 2 ^ 63)
    (hcrc : crcOf (slave :: rest) 0xFFFF ≠ 0) {rtu : MbRtu Line}
    (h : rtu.line.Untouched (slave :: rest)) {transaction : Txn} {tmo : UInt32} {rounds : Nat}
    {result : Int} {transaction' : Txn} {rtu' : MbRtu Line}
    (hrx : mbRtuRx rtuLine rounds transaction tmo rtu = some (result, transaction', rtu'))
    : result < 0 := by
  obtain ⟨-, -, hresult⟩ := mbRtuRx_frame hrest h hrx
  rw [hresult, rxResult, if_pos hcrc]
  split_ifs
  all_goals decide

/--
The frame that `mb_rtu_tx` sends on a little-endian host passes the check of `mb_rtu_rx`. A frame of
the same length with an error of one of the three kinds does not, and is not accepted whatever the
chunks in which it arrives.
-/
theorem mbRtu_detects (sender : MbRtu Line) (transaction : Txn) (size : Nat)
    (hsize : size ≤ maxPduSize)
    : ∃ (rounds : Nat) (sender' : MbRtu Line) (rest : List UInt8),
        mbRtuTx rtuLine .little rounds transaction size sender = some sender'
          ∧
        rest = rtuTail transaction.unit (transaction.data.load 0 size)
          ∧
        sender'.line.written = sender.line.written ++ transaction.unit :: rest
          ∧
        rxCheck transaction.unit rest = 0
          ∧
        ∀ (slave' : UInt8) (rest' : List UInt8),
          rest'.length = rest.length →
          Detectable (Lfsr.differences (serialBits (transaction.unit :: rest))
            (serialBits (slave' :: rest'))) →
            rxCheck slave' rest' ≠ 0
              ∧
            ∀ (receiver : MbRtu Line) (transaction' : Txn) (tmo : UInt32)
              (chunks : List (List UInt8)) (rounds : Nat) (result : Int) (transaction'' : Txn)
              (receiver' : MbRtu Line),
              chunks.flatten = slave' :: rest' →
              receiver.line.Awaits chunks →
              mbRtuRx rtuLine rounds transaction' tmo receiver
                  = some (result, transaction'', receiver') →
                result < 0 := by
  have hmax : maxPduSize = 253 := rfl
  obtain ⟨rounds, sender', htx, hwritten⟩ := mbRtuTx_line transaction hsize sender
  have hlength := length_rtuTail transaction.unit (transaction.data.load 0 size)
  have hcrc := crcOf_rtuFrame transaction.unit (transaction.data.load 0 size)
  rw [Mem.length_load] at hlength
  generalize hrest : rtuTail transaction.unit (transaction.data.load 0 size) = rest at *
  refine ⟨rounds, sender', rest, htx, rfl, hwritten, ?_, ?_⟩
  . rw [rxCheck_eq _ (by omega)]
    exact hcrc
  . intro slave' rest' hlen hdetectable
    have hcrc' : crcOf (slave' :: rest') 0xFFFF ≠ 0 := by
      apply crcOf_ne_zero_of_detectable _ _ hcrc hdetectable
      . rw [List.length_cons, List.length_cons, hlen]
      . rw [List.length_cons]
        omega
    refine ⟨?_, ?_⟩
    . rw [rxCheck_eq _ (by omega)]
      exact hcrc'
    . intro receiver transaction' tmo chunks rounds result transaction'' receiver' hchunks hawaits
        hrx
      have huntouched := hawaits.untouched
      rw [hchunks] at huntouched
      exact mbRtuRx_neg (by omega) hcrc' huntouched hrx

theorem mbRtu_detects_one_bit
    : rxCheck 1 [0x07, 0x41, 0xE2] = 0 ∧ rxCheck 1 [0x06, 0x41, 0xE2] ≠ 0 := by
  obtain ⟨rounds, sender', rest, -, hrest, -, hcheck, hdetects⟩ :=
    mbRtu_detects (.awaiting []) ⟨1, 0, 1, fun _ => 7⟩ 1 (by decide)
  have hframe : rest = [0x07, 0x41, 0xE2] := by
    rw [hrest]
    decide
  subst hframe
  refine ⟨hcheck, (hdetects 1 [0x06, 0x41, 0xE2] rfl ?_).1⟩
  left
  decide

end Modbus

import Modbus.Master.Impl

/-!
This module contains the parts of the requests that the master builds: the address on the wire, the
registers in network byte order and the bytes that are transmitted.
-/

namespace Modbus

theorem toNat_mbAddress (table address : Nat) (ht : table < 65536)
    : (mbAddress (UInt32.ofNat table) (UInt32.ofNat address)).toNat
        =
      65536 * table + address % 65536 := by
  unfold mbAddress
  rw [UInt32.toNat_or, UInt32.toNat_shiftLeft, UInt32.toNat_and]
  simp only [UInt32.toNat_ofNat', UInt32.reduceToNat]
  rw [show 65535 = 2 ^ 16 - 1 from rfl, Nat.and_two_pow_sub_one_eq_mod]
  have hlow : address % 2 ^ 32 % 2 ^ 16 < 2 ^ 16 := Nat.mod_lt _ (by decide)
  have hhigh : (table % 2 ^ 32) <<< (16 % 32) % 2 ^ 32 = 2 ^ 16 * table := by
    rw [Nat.shiftLeft_eq]
    simp only [Nat.reduceMod, Nat.reducePow]
    omega
  rw [hhigh]
  rw [← Nat.two_pow_add_eq_or_of_lt hlow]
  omega

theorem table_mbAddress (table address : Nat) (ht : table < 65536)
    : (mbAddress (UInt32.ofNat table) (UInt32.ofNat address) >>> 16).toNat = table := by
  rw [UInt32.toNat_shiftRight, toNat_mbAddress _ _ ht]
  simp only [UInt32.reduceToNat, Nat.shiftRight_eq_div_pow, Nat.reduceMod, Nat.reducePow]
  omega

/-- The address on the wire is the address less one, also at 65536 where `MB_ADDRESS` wraps. -/
theorem wire_mbAddress (table address : Nat) (ht : table < 65536) (h1 : 1 ≤ address)
    (h2 : address ≤ 65536)
    : ((mbAddress (UInt32.ofNat table) (UInt32.ofNat address) - 1) &&& 0xFFFF).toUInt16.toNat
        =
      address - 1 := by
  rw [UInt32.toNat_toUInt16, UInt32.toNat_and, UInt32.toNat_sub, toNat_mbAddress _ _ ht]
  simp only [UInt32.reduceToNat]
  rw [show 65535 = 2 ^ 16 - 1 from rfl, Nat.and_two_pow_sub_one_eq_mod]
  omega

theorem swapRegisters_lt (dst src : Mem) {n i : Nat} (h : i < n)
    : swapRegisters dst src n (2 * i) = src (2 * i + 1) ∧
      swapRegisters dst src n (2 * i + 1) = src (2 * i) := by
  induction n with
  | zero => omega
  | succ n ih =>
    simp only [swapRegisters, Mem.store_apply]
    by_cases hi : i = n
    . simp [hi]
    . rw [if_neg (by omega), if_neg (by omega), if_neg (by omega), if_neg (by omega)]
      exact ih (by omega)

theorem swapRegisters_ge (dst src : Mem) {n i : Nat} (h : 2 * n ≤ i)
    : swapRegisters dst src n i = dst i := by
  induction n with
  | zero => rfl
  | succ n ih =>
    simp only [swapRegisters, Mem.store_apply]
    rw [if_neg (by omega), if_neg (by omega)]
    exact ih (by omega)

theorem toNat_coilCount {quantity : Nat} (h : quantity ≤ 1968)
    : (if quantity % 8 ≠ 0 then UInt8.ofNat (quantity / 8) + 1
        else UInt8.ofNat (quantity / 8)).toNat
        =
      (quantity + 7) / 8 := by
  have hdiv : (UInt8.ofNat (quantity / 8)).toNat = quantity / 8 := by
    simp only [UInt8.toNat_ofNat']
    omega
  split
  . rw [UInt8.toNat_add]
    rw [hdiv]
    simp only [UInt8.reduceToNat]
    omega
  . rw [hdiv]
    omega

theorem load_five (m : Mem) : m.load 0 5 = [m 0, m 1, m 2, m 3, m 4] := by
  simp [Mem.load, List.range_succ]

theorem load_six_add (m : Mem) (n : Nat)
    : m.load 0 (6 + n) = m 0 :: m 1 :: m 2 :: m 3 :: m 4 :: m 5 :: m.load 6 n := by
  rw [Mem.load_add]
  simp [Mem.load, List.range_succ]

section Requests

variable (host : Endian) (m : Mem) (f : Function) (address value : UInt16)

theorem load_request
    : (((m.store 0 f.code).store16 host 1 (ccToBe16 host address)).store16 host 3
          (ccToBe16 host value)).load 0 5
        =
      [f.code, hiByte address, loByte address, hiByte value, loByte value] := by
  simp only [ccToBe16, Mem.store16_swapBe]
  simp [load_five]

theorem load_write_request (hf : m 0 = f.code) (count : UInt8)
    : (((m.store16 host 1 (ccToBe16 host address)).store16 host 3 (ccToBe16 host value)).store 5
          count).load 0 (6 + count.toNat)
        =
      f.code :: hiByte address :: loByte address :: hiByte value :: loByte value :: count ::
        m.load 6 count.toNat := by
  simp only [ccToBe16, Mem.store16_swapBe]
  rw [load_six_add]
  rw [Mem.load_store_lt _ _ _ (by omega), Mem.load_store_lt _ _ _ (by omega)]
  rw [Mem.load_store_lt _ _ _ (by omega), Mem.load_store_lt _ _ _ (by omega)]
  rw [Mem.load_store_lt _ _ _ (by omega)]
  simp [hf]

end Requests

section Exchange

variable {τ : Type} {transport : Transport τ} {mbus : Mbus} {slave : Int} {size : Nat} {w w' : τ}

theorem mbusExchange_of_rx (hslave : slave ≠ 0)
    (htx : mbPduTx transport (mbus.request slave) size w = some w') {rxCount : Int}
    {transaction : Txn} {w'' : τ}
    (hrx : mbPduRx transport (mbus.request slave) mbus.timeout w'
      = some (rxCount, transaction, w''))
    : mbusExchange transport mbus slave size w
        =
      some (rxCount, { mbus with transaction, scratch := transaction.data }, w'') := by
  unfold mbusExchange
  dsimp only
  rw [htx]
  dsimp only
  rw [if_pos hslave, hrx]

theorem mbusExchange_of_broadcast (hslave : slave = 0)
    (htx : mbPduTx transport (mbus.request slave) size w = some w')
    : mbusExchange transport mbus slave size w
        =
      some (0, { mbus with transaction := mbus.request slave }, w') := by
  unfold mbusExchange
  dsimp only
  rw [htx]
  dsimp only
  rw [if_neg (not_not.mpr hslave)]

end Exchange

end Modbus

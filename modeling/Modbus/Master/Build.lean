import Modbus.Master.Op
import Modbus.Tcp.Impl

/-!
This module contains the bounds of the requests that the master builds: what is stored into the
scratch buffer and what the TCP transport then copies behind its header. The operations that build a
request check their arguments, a raw message is handed on with the size that the caller gives.
-/

namespace Modbus

def writeByteCount (address : UInt32) (quantity : UInt16) : Nat :=
  match (address >>> 16).toNat with
  | 0 => (quantity.toNat + 7) / 8
  | _ => 2 * quantity.toNat

theorem mbusWriteData_bounds {scratch request buffer : Mem} {address : UInt32} {quantity : UInt16}
    {count : UInt8} (h : mbusWriteData scratch address quantity buffer = some (count, request))
    : count.toNat = writeByteCount address quantity
        ∧
      PduWrite.size + count.toNat ≤ maxPduSize
        ∧
      ∀ (i : Nat), PduWrite.size + count.toNat ≤ i → request i = scratch i := by
  unfold mbusWriteData at h
  split at h
  . next htable =>
    split at h
    . contradiction
    . next hq =>
      simp only [Option.some.injEq, Prod.mk.injEq] at h
      obtain ⟨hcount, hrequest⟩ := h
      have htoNat : count.toNat = (quantity.toNat + 7) / 8 := by
        rw [← hcount]
        exact toNat_coilCount (by omega)
      refine ⟨?_, ?_, ?_⟩
      . simp only [writeByteCount, htable]
        exact htoNat
      . simp only [PduWrite.size, maxPduSize]
        omega
      . intro i hi
        simp only [PduWrite.size] at hi
        rw [← hrequest, hcount]
        rw [Mem.copy_ge _ _ _ _ (by simp only [Mem.length_load, PduWrite.data]; omega)]
        rw [Mem.store_apply, if_neg (by omega)]
  . next htable =>
    split at h
    . contradiction
    . next hq =>
      simp only [Option.some.injEq, Prod.mk.injEq] at h
      obtain ⟨hcount, hrequest⟩ := h
      have htoNat : count.toNat = 2 * quantity.toNat := by
        rw [← hcount]
        simp only [UInt8.toNat_ofNat']
        omega
      refine ⟨?_, ?_, ?_⟩
      . simp only [writeByteCount, htable]
        exact htoNat
      . simp only [PduWrite.size, maxPduSize]
        omega
      . intro i hi
        simp only [PduWrite.size] at hi
        obtain ⟨k, rfl⟩ : ∃ k, i = PduWrite.data + k := ⟨i - 6, by simp only [PduWrite.data]; omega⟩
        simp only [PduWrite.data] at hi
        rw [← hrequest, hcount, Mem.splice_add]
        rw [swapRegisters_ge _ _ (by omega)]
        rw [Mem.offset_apply, Mem.store_apply, if_neg (by simp only [PduWrite.data]; omega)]
  . contradiction

theorem store16_ge (host : Endian) (m : Mem) (off : Nat) (v : UInt16) {i : Nat} (h : off + 2 ≤ i)
    : m.store16 host off v i = m i := by
  simp only [Mem.store16, Mem.store_apply]
  rw [if_neg (by omega), if_neg (by omega)]

structure RequestBounds (scratch request : Mem) (size : Nat) : Prop where
  pos : 1 ≤ size
  le : size ≤ maxPduSize
  scratch_eq : ∀ (i : Nat), maxPduSize ≤ i → request i = scratch i

def MbusOp.byteCount : MbusOp → Option Nat
  | table (.write address quantity _) => some (writeByteCount address quantity)
  | _ => none

section Requests

variable (host : Endian) (slave : Int) {scratch request : Mem} {size : Nat}

theorem fixed_bounds (f : Function) (address value : UInt16)
    : RequestBounds scratch
        (((scratch.store 0 f.code).store16 host 1 address).store16 host 3 value) 5 := by
  refine ⟨by decide, by decide, ?_⟩
  intro i hi
  simp only [maxPduSize] at hi
  rw [store16_ge _ _ _ _ (by omega), store16_ge _ _ _ _ (by omega)]
  rw [Mem.store_apply, if_neg (by omega)]

theorem MasterOp.request_bounds (op : MasterOp)
    (h : op.request host slave scratch = some (request, size))
    : RequestBounds scratch request size := by
  cases op with
  | read address quantity buffer =>
    simp only [MasterOp.request] at h
    split at h
    . contradiction
    . split at h
      . contradiction
      . split at h
        . contradiction
        . simp only [Option.some.injEq, Prod.mk.injEq] at h
          rw [← h.1, ← h.2]
          apply fixed_bounds
  | write address quantity buffer =>
    simp only [MasterOp.request] at h
    split at h
    . contradiction
    . next count data hdata =>
      simp only [Option.some.injEq, Prod.mk.injEq] at h
      obtain ⟨-, hle, hge⟩ := mbusWriteData_bounds hdata
      rw [← h.1, ← h.2]
      refine ⟨by simp only [PduWrite.size]; omega, hle, ?_⟩
      intro i hi
      simp only [maxPduSize, PduWrite.size] at hi hle hge
      rw [Mem.store_apply, if_neg (by omega)]
      rw [store16_ge _ _ _ _ (by omega), store16_ge _ _ _ _ (by omega)]
      apply hge
      omega
  | writeSingle address value =>
    simp only [MasterOp.request] at h
    split at h
    . contradiction
    . simp only [Option.some.injEq, Prod.mk.injEq] at h
      rw [← h.1, ← h.2]
      apply fixed_bounds

theorem MbusOp.request_bounds (op : MbusOp)
    (h : op.request host slave scratch = some (request, size))
    : RequestBounds scratch request size := by
  cases op with
  | table op => exact op.request_bounds host slave h
  | loopback n buffer =>
    simp only [MbusOp.request] at h
    split at h
    . contradiction
    . next hn =>
      simp only [Option.some.injEq, Prod.mk.injEq] at h
      rw [← h.1, ← h.2]
      refine ⟨?_, ?_, ?_⟩
      . simp only [PduDiag.size]
        omega
      . simp only [PduDiag.size, maxPduSize]
        omega
      . intro i hi
        simp only [maxPduSize] at hi
        rw [Mem.copy_ge _ _ _ _ (by simp only [Mem.length_load, PduDiag.data]; omega)]
        rw [store16_ge _ _ _ _ (by omega), Mem.store_apply, if_neg (by omega)]
  | sendMsg msg n => simp [MbusOp.request] at h
  | getMsg msg => simp [MbusOp.request] at h

theorem MbusOp.request_byteCount (op : MbusOp)
    (h : op.request host slave scratch = some (request, size)) {n : Nat}
    (hn : op.byteCount = some n)
    : (PduWrite.count request).toNat = n := by
  cases op with
  | table op =>
    cases op with
    | write address quantity buffer =>
      simp only [MbusOp.request, MasterOp.request] at h
      simp only [MbusOp.byteCount, Option.some.injEq] at hn
      split at h
      . contradiction
      . next count data hdata =>
        simp only [Option.some.injEq, Prod.mk.injEq] at h
        obtain ⟨hcount, -⟩ := mbusWriteData_bounds hdata
        rw [← h.1, ← hn, ← hcount]
        simp [PduWrite.count]
    | read => simp [MbusOp.byteCount] at hn
    | writeSingle => simp [MbusOp.byteCount] at hn
  | loopback => simp [MbusOp.byteCount] at hn
  | sendMsg => simp [MbusOp.byteCount] at hn
  | getMsg => simp [MbusOp.byteCount] at hn

end Requests

theorem mbTcpTx_mbap_ge {ω : Type} (os : TcpOs ω) (host : Endian) (transaction : Txn) {size : Nat}
    (hsize : size ≤ maxPduSize) {t t' : MbTcp ω}
    (h : mbTcpTx os host transaction size t = some t') {i : Nat}
    (hi : mbapHeaderSize + maxPduSize ≤ i)
    : t'.mbap i = t.mbap i := by
  have hmbap : t'.mbap
      =
      ((((t.mbap.store16 host 0 (ccToBe16 host transaction.id)).store16 host 4
        (ccToBe16 host (UInt16.ofNat size + 1))).store16 host 2 0).store 6 transaction.unit).copy
        mbapHeaderSize (transaction.data.load 0 size) := by
    unfold mbTcpTx at h
    dsimp only at h
    split at h
    . contradiction
    . split at h
      . injection h with h
        rw [← h]
      . injection h with h
        rw [← h]
  rw [hmbap]
  simp only [mbapHeaderSize, maxPduSize] at hi hsize ⊢
  rw [Mem.copy_ge _ _ _ _ (by simp only [Mem.length_load]; omega)]
  rw [Mem.store_apply, if_neg (by omega)]
  rw [store16_ge _ _ _ _ (by omega), store16_ge _ _ _ _ (by omega)]
  rw [store16_ge _ _ _ _ (by omega)]

structure Transmit where
  transaction : Txn
  size : Nat

/-- A transport that keeps what it is asked to transmit and receives whatever `rx` says. -/
def recorder (rx : Txn → UInt32 → Int × Txn) : Transport (List Transmit) where
  bringup _ w := (0, w)
  shutdown _ w := (0, w)
  isDown _ := false
  tx transaction size w := some (w ++ [{ transaction, size }])
  rx transaction tmo w := some ((rx transaction tmo).1, (rx transaction tmo).2, w)
  rxIsBc _ := false
  rxAvail w := (false, w)

theorem mbusExchange_recorder (rx : Txn → UInt32 → Int × Txn) (mbus : Mbus) (slave : Int)
    (size : Nat)
    : ∃ (rxCount : Int) (mbus' : Mbus),
        mbusExchange (recorder rx) mbus slave size []
          =
        some (rxCount, mbus', [{ transaction := mbus.request slave, size }]) := by
  unfold mbusExchange
  simp only [mbPduTx, mbPduRx, recorder, List.nil_append]
  split
  . exact ⟨_, _, rfl⟩
  . exact ⟨_, _, rfl⟩

def MbusOp.isSendMsg : MbusOp → Bool
  | sendMsg _ _ => true
  | _ => false

theorem MbusOp.isSendMsg_of_request {host : Endian} {op : MbusOp} {slave : Int} {scratch : Mem}
    {r : Mem × Nat} (h : op.request host slave scratch = some r)
    : op.isSendMsg = false := by
  cases op with
  | table op => rfl
  | loopback size buffer => rfl
  | sendMsg msg size => contradiction
  | getMsg msg => rfl

/-- What an operation may transmit and what it may have stored into the scratch buffer by then. -/
structure TransmitBounds (host : Endian) (op : MbusOp) (scratch : Mem) (sent : Transmit)
    : Prop where
  size_le : sent.size ≤ maxPduSize
  size_pos : op.isSendMsg = false → 1 ≤ sent.size
  scratch_eq : op.isSendMsg = false →
    ∀ (i : Nat), maxPduSize ≤ i → sent.transaction.data i = scratch i
  byteCount : ∀ n ∈ op.byteCount, (PduWrite.count sent.transaction.data).toNat = n
  mbap : ∀ (ω : Type) (os : TcpOs ω) (t t' : MbTcp ω),
    mbTcpTx os host sent.transaction sent.size t = some t' →
      ∀ (i : Nat), mbapHeaderSize + maxPduSize ≤ i → t'.mbap i = t.mbap i

def TransmitsWithin (host : Endian) (op : MbusOp) (slave : Int) (mbus : Mbus)
    (rx : Txn → UInt32 → Int × Txn)
    : Prop :=
  ∃ (result : Int) (mbus' : Mbus) (sent : List Transmit),
    op.run (recorder rx) host slave mbus [] = some (result, mbus', sent)
      ∧
    (sent = [] ∨ op.isSendMsg = true → mbus'.scratch = mbus.scratch)
      ∧
    ∀ t ∈ sent, TransmitBounds host op mbus.scratch t

theorem transmitBounds_of_request {host : Endian} {op : MbusOp} {slave : Int} {mbus : Mbus}
    {scratch : Mem} {size : Nat} (h : op.request host slave mbus.scratch = some (scratch, size))
    : TransmitBounds host op mbus.scratch
        { transaction := { mbus with scratch }.request slave, size } := by
  have hbounds := op.request_bounds host slave h
  refine ⟨hbounds.le, fun _ => hbounds.pos, fun _ => hbounds.scratch_eq, ?_, ?_⟩
  . intro n hn
    exact op.request_byteCount host slave h hn
  . intro ω os t t' htx i hi
    exact mbTcpTx_mbap_ge os host _ hbounds.le htx hi

/--
All operations stay within the bounds, except for a raw message that is larger than a PDU: that one
is handed to the transport as it is.
-/
theorem mbus_transmitsWithin_iff (host : Endian) (op : MbusOp) (slave : Int) (mbus : Mbus)
    (rx : Txn → UInt32 → Int × Txn)
    : TransmitsWithin host op slave mbus rx
        ↔
      ∀ (msg : Mem) (size : UInt8), op = .sendMsg msg size → size.toNat ≤ maxPduSize := by
  constructor
  . rintro ⟨_, _, sent, hrun, _, hbounds⟩ msg size hop
    rw [hop] at hrun
    simp only [MbusOp.run, mbusSendMsg, mbPduTx, recorder, List.nil_append, Option.some.injEq,
      Prod.mk.injEq] at hrun
    obtain ⟨-, -, rfl⟩ := hrun
    exact (hbounds _ (List.mem_singleton_self _)).size_le
  . intro hsize
    obtain heffect | ⟨scratch, size, hrequest, heffect⟩ | ⟨msg, size, rfl⟩ | ⟨msg, rfl⟩ :=
      op.effect_cases (recorder rx) host slave mbus []
    . rw [← MbusOp.run_effect, Option.map_eq_some_iff] at heffect
      obtain ⟨⟨result, r⟩, hrun, rfl⟩ := heffect
      exact ⟨result, mbus, [], hrun, fun _ => rfl, by simp⟩
    . obtain ⟨rxCount, mbus', hexchange⟩ :=
        mbusExchange_recorder rx { mbus with scratch } slave size
      rw [← MbusOp.run_effect, hexchange, Option.map_some, Option.map_eq_some_iff] at heffect
      obtain ⟨⟨result, r⟩, hrun, rfl⟩ := heffect
      have hop := MbusOp.isSendMsg_of_request hrequest
      refine ⟨result, mbus', _, hrun, ?_, ?_⟩
      . simp [hop]
      . intro t ht
        rw [List.mem_singleton.mp ht]
        exact transmitBounds_of_request hrequest
    . specialize hsize msg size rfl
      refine ⟨_, _, _, rfl, fun _ => rfl, ?_⟩
      intro t ht
      rw [List.mem_singleton.mp ht]
      refine ⟨hsize, by simp [MbusOp.isSendMsg], by simp [MbusOp.isSendMsg],
        by simp [MbusOp.byteCount], ?_⟩
      intro ω os t t' htx i hi
      exact mbTcpTx_mbap_ge os host _ hsize htx hi
    . exact ⟨_, _, _, rfl, fun _ => rfl, by simp⟩

theorem not_transmitsWithin_sendMsg
    : ¬TransmitsWithin .little (.sendMsg (fun _ => 0x55) 255) 1
        ⟨1000, ⟨0, 0, 0, fun _ => 0⟩, fun _ => 0x55⟩
        (fun transaction _ => (eTimeout, transaction)) := by
  intro ⟨_, _, sent, hrun, _, hbounds⟩
  simp only [MbusOp.run, mbusSendMsg, mbPduTx, recorder, List.nil_append, Option.some.injEq,
    Prod.mk.injEq] at hrun
  obtain ⟨-, -, rfl⟩ := hrun
  have hsize := (hbounds _ (List.mem_singleton_self _)).size_le
  exact absurd hsize (by decide)

end Modbus

import Modbus.Slave.Reject
import Modbus.Slave.Sample

/-!
This module contains the question whether the slave acts only on the bytes it received. The PDU
buffer is reused, so behind the received bytes it holds what earlier messages left there. Two runs
on the same received bytes and different left over bytes are compared.
-/

namespace Modbus

variable {σ : Type} {area : Nat → Nat}

structure CallInput where
  table : Table
  op : Op
  address : UInt16
  quantity : Nat
  data : List UInt8
  deriving DecidableEq, Repr

def Call.input (c : Call) : CallInput :=
  {
    table := c.table
    op := c.op
    address := c.address
    quantity := c.quantity
    data := if c.op = .set then c.data else []
  }

def Callback.Returns (cb : Callback σ area) : Prop :=
  ∀ (address : UInt16) (data : Mem) (quantity : Nat) (app : σ),
    (cb.run address data quantity app).result ≤ 0

def Callback.FillsBits (get : Callback σ bitBytes) : Prop :=
  ∀ (address : UInt16) (data data' : Mem) (quantity : Nat) (app : σ),
    (get.run address data quantity app).result = (get.run address data' quantity app).result
      ∧
    (get.run address data quantity app).app = (get.run address data' quantity app).app
      ∧
    ∀ (i : Nat), i < quantity →
      (get.run address data quantity app).data.bit i
        =
      (get.run address data' quantity app).data.bit i

def Callback.FillsRegs (get : Callback σ regBytes) : Prop :=
  ∀ (address : UInt16) (data data' : Mem) (quantity : Nat) (app : σ),
    (get.run address data quantity app).result = (get.run address data' quantity app).result
      ∧
    (get.run address data quantity app).app = (get.run address data' quantity app).app
      ∧
    Mem.Agree (regBytes quantity) (get.run address data quantity app).data
      (get.run address data' quantity app).data

def VendorFunc.Local (func : VendorFunc σ) : Prop :=
  ∀ (data data' : Mem) (size : Nat) (app : σ), Mem.Agree size data data' →
    (func.callback data size app).result = (func.callback data' size app).result
      ∧
    (func.callback data size app).app = (func.callback data' size app).app
      ∧
    Mem.Agree (max 1 (func.callback data size app).result.toNat) (func.callback data size app).data
      (func.callback data' size app).data

structure Iotable.BitsDocumented (iotable : Iotable σ bitBytes) : Prop where
  get_fills : ∀ get ∈ iotable.get, get.FillsBits
  get_returns : ∀ get ∈ iotable.get, get.Returns
  set_returns : ∀ set ∈ iotable.set, set.Returns

structure Iotable.RegsDocumented (iotable : Iotable σ regBytes) : Prop where
  get_fills : ∀ get ∈ iotable.get, get.FillsRegs
  get_returns : ∀ get ∈ iotable.get, get.Returns
  set_returns : ∀ set ∈ iotable.set, set.Returns

structure Iomap.Documented (iomap : Iomap σ) : Prop where
  coils : iomap.coils.BitsDocumented
  inputs : iomap.inputs.BitsDocumented
  holdingRegisters : iomap.holdingRegisters.RegsDocumented
  inputRegisters : iomap.inputRegisters.RegsDocumented
  vendorFuncs : ∀ funcs ∈ iomap.vendorFuncs, ∀ func ∈ funcs, func.Local

/-- Two states that cannot be told apart by the first `n` bytes of the PDU buffer. -/
structure Twin (n : Nat) (s s' : SlaveState σ) : Prop where
  pdu : Mem.Agree n s.pdu s'.pdu
  app : s.app = s'.app
  calls : s.calls.map Call.input = s'.calls.map Call.input

structure Same (res res' : Int × SlaveState σ) : Prop where
  count : res.1 = res'.1
  twin : Twin (max 1 res.1.toNat) res.2 res'.2

namespace Twin

variable {n : Nat} {s s' : SlaveState σ}

theorem mono {k : Nat} (h : Twin n s s') (hk : k ≤ n) : Twin k s s' := by
  exact ⟨h.pdu.mono hk, h.app, h.calls⟩

theorem field_eq (h : Twin n s s') (off : Nat) (hoff : off + 2 ≤ n)
    : field s'.pdu off = field s.pdu off := by
  unfold field
  rw [h.pdu off (by omega)]
  rw [h.pdu (off + 1) (by omega)]

theorem same (h : Twin n s s') (count : Int) (hcount : count ≤ n) (hn : 1 ≤ n)
    : Same (count, s) (count, s') := by
  refine ⟨rfl, h.mono ?_⟩
  dsimp only
  omega

theorem reject (h : Twin n s s') (hn : 1 ≤ n) (error : Int) (herror : error ≤ 0)
    : Same (error, s) (error, s') := by
  exact h.same error (by omega) hn

theorem call (h : Twin n s s') (table : Table) (op : Op) (cb : Callback σ area) (address : UInt16)
    (off quantity : Nat) (hoff : off + area quantity ≤ n)
    : (s.call table op cb address off quantity).1 = (s'.call table op cb address off quantity).1
        ∧
      Twin n (s.call table op cb address off quantity).2
        (s'.call table op cb address off quantity).2 := by
  have hwindow : Mem.Agree (area quantity) (s.pdu.offset off) (s'.pdu.offset off) := by
    intro i hi
    exact h.pdu _ (by omega)
  have hload := h.pdu.load_eq hoff
  obtain ⟨hresult, happ, hdata⟩ := cb.congr address _ _ quantity s'.app hwindow
  refine ⟨?_, ?_, ?_, ?_⟩
  . simp [h.app, hresult]
  . intro i hi
    by_cases hlt : i < off
    . rw [SlaveState.call_pdu_lt _ _ _ _ _ _ _ _ hlt]
      rw [SlaveState.call_pdu_lt _ _ _ _ _ _ _ _ hlt]
      exact h.pdu i hi
    . by_cases hge : off + area quantity ≤ i
      . rw [SlaveState.call_pdu_ge _ _ _ _ _ _ _ _ hge]
        rw [SlaveState.call_pdu_ge _ _ _ _ _ _ _ _ hge]
        exact h.pdu i hi
      . obtain ⟨k, rfl⟩ : ∃ k, i = off + k := ⟨i - off, by omega⟩
        simp only [SlaveState.call_pdu, Mem.splice_add]
        rw [h.app, hdata k (by omega)]
  . simp [h.app, happ]
  . simp [SlaveState.callEntry, Call.input, h.calls, hload]

end Twin

namespace Same

theorem ite {c : Prop} [Decidable c] {a b a' b' : Int × SlaveState σ} (ht : c → Same a a')
    (hf : ¬c → Same b b')
    : Same (if c then a else b) (if c then a' else b') := by
  by_cases h : c
  . rw [if_pos h, if_pos h]
    exact ht h
  . rw [if_neg h, if_neg h]
    exact hf h

theorem check {n : Nat} {s s' : SlaveState σ} (h : Twin n s s') (hn : 1 ≤ n) {error : Int}
    (herror : error ≤ 0) {c : Prop} [Decidable c] {b b' : Int × SlaveState σ}
    (hpass : ¬c → Same b b')
    : Same (if c then (error, s) else b) (if c then (error, s') else b') := by
  apply Same.ite
  . intro _
    exact h.reject hn error herror
  . exact hpass

theorem exception {res res' : Int × SlaveState σ} (h : Same res res')
    : Same (mbSlaveException res) (mbSlaveException res') := by
  unfold mbSlaveException
  dsimp only
  rw [← h.count]
  apply Same.ite
  . intro hneg
    have hfunction := h.twin.pdu 0 (by omega)
    refine ⟨rfl, ?_, ?_, ?_⟩
    . intro i hi
      have hi : i = 0 ∨ i = 1 := by
        simp only [PduException.size] at hi
        omega
      obtain rfl | rfl := hi <;> simp [Pdu.function, hfunction]
    . simp [h.twin.app]
    . simp [h.twin.calls]
  . intro _
    exact ⟨rfl, h.twin⟩

end Same

section Responses

variable {n : Nat} {s s' : SlaveState σ} (h : Twin n s s') (table : Table)

include h

theorem Twin.writeResponse (set : Callback σ area) (hset : set.Returns) (address : UInt16)
    (off quantity : Nat) (hoff : off + area quantity ≤ n) (hn : 5 ≤ n)
    : Same (writeResponse table set address off quantity s)
        (writeResponse table set address off quantity s') := by
  obtain ⟨hcount, htwin⟩ := h.call table .set set address off quantity hoff
  unfold Modbus.writeResponse
  dsimp only
  rw [← hcount]
  apply Same.ite
  . intro _
    refine ⟨hcount, htwin.mono ?_⟩
    have hneg := hset address (s.pdu.offset off) quantity s.app
    rw [SlaveState.call_fst]
    omega
  . intro _
    exact htwin.same 5 (by omega) (by omega)

theorem Twin.writeBitResponse (set : Callback σ bitBytes) (hset : set.Returns)
    (address value : UInt16) (hn : 5 ≤ n)
    : Same (writeBitResponse table set address value s)
        (writeBitResponse table set address value s') := by
  unfold Modbus.writeBitResponse
  dsimp only
  generalize (if value = 0xFF00 then (1 : UInt8) else 0) = bit
  have hcount : (s.callBit table set address bit).1 = (s'.callBit table set address bit).1 := by
    simp [h.app]
  have htwin : Twin n (s.callBit table set address bit).2 (s'.callBit table set address bit).2 :=
    ⟨h.pdu, by simp [h.app], by simp [SlaveState.callBitEntry, Call.input, h.calls]⟩
  rw [← hcount]
  apply Same.ite
  . intro _
    refine ⟨hcount, htwin.mono ?_⟩
    have hneg := hset address (fun _ => bit) 1 s.app
    rw [SlaveState.callBit_fst]
    omega
  . intro _
    exact htwin.same 5 (by omega) (by omega)

theorem Twin.getCall (get : Callback σ area) (address : UInt16) (quantity : Nat) (count : UInt8)
    (hn : 1 ≤ n)
    (hget : ∀ (data data' : Mem) (app : σ),
      (get.run address data quantity app).result = (get.run address data' quantity app).result
        ∧
      (get.run address data quantity app).app = (get.run address data' quantity app).app)
    : ((s.store 1 count).call table .get get address 2 quantity).1
        =
      ((s'.store 1 count).call table .get get address 2 quantity).1
        ∧
      Twin 2 ((s.store 1 count).call table .get get address 2 quantity).2
        ((s'.store 1 count).call table .get get address 2 quantity).2 := by
  obtain ⟨hresult, happ⟩ := hget ((s.store 1 count).pdu.offset 2)
    ((s'.store 1 count).pdu.offset 2) s'.app
  refine ⟨?_, ?_, ?_, ?_⟩
  . simp only [SlaveState.call_fst, SlaveState.store_app, h.app]
    exact hresult
  . intro i hi
    rw [SlaveState.call_pdu_lt _ _ _ _ _ _ _ _ hi]
    rw [SlaveState.call_pdu_lt _ _ _ _ _ _ _ _ hi]
    obtain rfl | rfl : i = 0 ∨ i = 1 := by omega
    . simp [h.pdu 0 (by omega)]
    . simp
  . simp only [SlaveState.call_app, SlaveState.store_app, h.app]
    exact happ
  . simp [SlaveState.callEntry, Call.input, h.calls]

theorem Twin.readRegistersResponse (get : Callback σ regBytes) (hfills : get.FillsRegs)
    (hget : get.Returns) (address quantity : UInt16) (hq : quantity.toNat ≤ 0x7D) (hn : 1 ≤ n)
    : Same (readRegistersResponse table get address quantity s)
        (readRegistersResponse table get address quantity s') := by
  have hcount := toNat_regCount hq
  unfold Modbus.readRegistersResponse
  dsimp only
  generalize UInt8.ofNat (2 * quantity.toNat) = count at hcount
  obtain ⟨hfst, hhead⟩ := h.getCall table get address quantity.toNat count hn
    (fun data data' app =>
      ⟨(hfills address data data' _ app).1, (hfills address data data' _ app).2.1⟩)
  have htwin : Twin (2 + regBytes quantity.toNat)
      ((s.store 1 count).call table .get get address 2 quantity.toNat).2
      ((s'.store 1 count).call table .get get address 2 quantity.toNat).2 := by
    refine ⟨?_, hhead.app, hhead.calls⟩
    intro i hi
    by_cases hlt : i < 2
    . exact hhead.pdu i hlt
    . obtain ⟨k, rfl⟩ : ∃ k, i = 2 + k := ⟨i - 2, by omega⟩
      simp only [SlaveState.call_pdu, Mem.splice_add, SlaveState.store_app, h.app]
      exact (hfills address _ _ _ s'.app).2.2 k (by omega)
  rw [← hfst]
  apply Same.ite
  . intro _
    refine ⟨hfst, htwin.mono ?_⟩
    have hneg := hget address ((s.store 1 count).pdu.offset 2) quantity.toNat s.app
    rw [SlaveState.call_fst, SlaveState.store_app]
    omega
  . intro _
    rw [SlaveState.call_pdu_lt _ _ _ _ _ _ _ _ (by omega)]
    rw [SlaveState.call_pdu_lt _ _ _ _ _ _ _ _ (by omega)]
    simp only [SlaveState.store_pdu, Mem.store_apply, ↓reduceIte, hcount]
    exact htwin.same _ (by omega) (by omega)

theorem Twin.readBitsResponse (get : Callback σ bitBytes) (hfills : get.FillsBits)
    (hget : get.Returns) (address quantity : UInt16) (hq : quantity.toNat ≤ 2000) (hn : 1 ≤ n)
    : Same (readBitsResponse table get address quantity s)
        (readBitsResponse table get address quantity s') := by
  have hcount := toNat_bitCount hq
  unfold Modbus.readBitsResponse
  dsimp only
  generalize bitCount quantity = count at hcount
  obtain ⟨hfst, hhead⟩ := h.getCall table get address quantity.toNat count hn
    (fun data data' app =>
      ⟨(hfills address data data' _ app).1, (hfills address data data' _ app).2.1⟩)
  rw [← hfst]
  apply Same.ite
  . intro _
    refine ⟨hfst, hhead.mono ?_⟩
    have hneg := hget address ((s.store 1 count).pdu.offset 2) quantity.toNat s.app
    rw [SlaveState.call_fst, SlaveState.store_app]
    omega
  . intro _
    rw [SlaveState.resetPadBits_pdu_lt _ _ _ _ _ (by omega)]
    rw [SlaveState.resetPadBits_pdu_lt _ _ _ _ _ (by omega)]
    rw [SlaveState.call_pdu_lt _ _ _ _ _ _ _ _ (by omega)]
    rw [SlaveState.call_pdu_lt _ _ _ _ _ _ _ _ (by omega)]
    simp only [SlaveState.store_pdu, Mem.store_apply, ↓reduceIte, hcount]
    refine ⟨rfl, ?_, by simpa using hhead.app, by simpa using hhead.calls⟩
    intro i hi
    dsimp only at hi ⊢
    by_cases hlt : i < 2
    . rw [SlaveState.resetPadBits_pdu_lt _ _ _ _ _ hlt]
      rw [SlaveState.resetPadBits_pdu_lt _ _ _ _ _ hlt]
      exact hhead.pdu i hlt
    . -- The bits that were asked for are the same and the loop resets the others.
      obtain ⟨k, rfl⟩ : ∃ k, i = 2 + k := ⟨i - 2, by omega⟩
      apply SlaveState.resetPadBits_ext
      . intro j hj
        have hbit := (hfills address ((s.store 1 count).pdu.offset 2)
          ((s'.store 1 count).pdu.offset 2) quantity.toNat s'.app).2.2 j hj
        simp only [Mem.bit, Mem.offset_apply, SlaveState.call_pdu, Mem.splice_add,
          SlaveState.store_app, h.app] at hbit ⊢
        exact hbit
      . omega

theorem Twin.readWriteResponse (get set : Callback σ regBytes) (hfills : get.FillsRegs)
    (hget : get.Returns) (hset : set.Returns) (hn : 10 + regBytes (field s.pdu 7).toNat ≤ n)
    (hq : (field s.pdu 3).toNat ≤ 0x7D)
    : Same (readWriteResponse table get set s.pdu s)
        (readWriteResponse table get set s.pdu s') := by
  unfold Modbus.readWriteResponse
  dsimp only
  obtain ⟨hcount, htwin⟩ :=
    h.call table .set set (field s.pdu 5) 10 (field s.pdu 7).toNat hn
  rw [← hcount]
  apply Same.ite
  . intro _
    refine ⟨hcount, htwin.mono ?_⟩
    have hneg := hset (field s.pdu 5) (s.pdu.offset 10) (field s.pdu 7).toNat s.app
    rw [SlaveState.call_fst]
    omega
  . intro _
    exact htwin.readRegistersResponse table get hfills hget _ _ hq (by omega)

end Responses

section Handlers

variable (host : Endian) {n : Nat} {s s' : SlaveState σ} (h : Twin n s s') (table : Table)

include h

theorem Twin.mbSlaveReadBits (iotable : Iotable σ bitBytes) (hdoc : iotable.BitsDocumented)
    (hn : 5 ≤ n)
    : Same (mbSlaveReadBits host table iotable s) (mbSlaveReadBits host table iotable s') := by
  unfold Modbus.mbSlaveReadBits
  simp only [ccFromBe16_readAddress, ccFromBe16_readQuantity]
  rw [h.field_eq 1 (by omega), h.field_eq 3 (by omega)]
  apply Same.check h (by omega) (by decide)
  intro hq
  apply Same.check h (by omega) (by decide)
  intro _
  cases hget : iotable.get with
  | none => exact h.reject (by omega) _ (by decide)
  | some get =>
    exact h.readBitsResponse table get (hdoc.get_fills get hget) (hdoc.get_returns get hget) _ _
      ((quantity_check_iff _ _).mp hq).2 (by omega)

theorem Twin.mbSlaveReadRegisters (iotable : Iotable σ regBytes) (hdoc : iotable.RegsDocumented)
    (hn : 5 ≤ n)
    : Same (mbSlaveReadRegisters host table iotable s)
        (mbSlaveReadRegisters host table iotable s') := by
  unfold Modbus.mbSlaveReadRegisters
  simp only [ccFromBe16_readAddress, ccFromBe16_readQuantity]
  rw [h.field_eq 1 (by omega), h.field_eq 3 (by omega)]
  apply Same.check h (by omega) (by decide)
  intro hq
  apply Same.check h (by omega) (by decide)
  intro _
  cases hget : iotable.get with
  | none => exact h.reject (by omega) _ (by decide)
  | some get =>
    exact h.readRegistersResponse table get (hdoc.get_fills get hget) (hdoc.get_returns get hget)
      _ _ ((quantity_check_iff _ _).mp hq).2 (by omega)

theorem Twin.mbSlaveWriteBit (iotable : Iotable σ bitBytes) (hdoc : iotable.BitsDocumented)
    (hn : 5 ≤ n)
    : Same (mbSlaveWriteBit host table iotable s) (mbSlaveWriteBit host table iotable s') := by
  unfold Modbus.mbSlaveWriteBit
  simp only [ccFromBe16_writeSingleAddress, ccFromBe16_writeSingleValue]
  rw [h.field_eq 1 (by omega), h.field_eq 3 (by omega)]
  apply Same.check h (by omega) (by decide)
  intro _
  apply Same.check h (by omega) (by decide)
  intro _
  cases hset : iotable.set with
  | none => exact h.reject (by omega) _ (by decide)
  | some set => exact h.writeBitResponse table set (hdoc.set_returns set hset) _ _ hn

theorem Twin.mbSlaveWriteRegister (iotable : Iotable σ regBytes) (hdoc : iotable.RegsDocumented)
    (hn : 5 ≤ n)
    : Same (mbSlaveWriteRegister host table iotable s)
        (mbSlaveWriteRegister host table iotable s') := by
  unfold Modbus.mbSlaveWriteRegister
  simp only [ccFromBe16_writeSingleAddress]
  rw [h.field_eq 1 (by omega)]
  apply Same.check h (by omega) (by decide)
  intro _
  cases hset : iotable.set with
  | none => exact h.reject (by omega) _ (by decide)
  | some set => exact h.writeResponse table set (hdoc.set_returns set hset) _ 3 1 hn hn

theorem Twin.mbSlaveWriteBits (iotable : Iotable σ bitBytes) (hdoc : iotable.BitsDocumented)
    (hn : 6 ≤ n)
    : Same (mbSlaveWriteBits host table iotable n s)
        (mbSlaveWriteBits host table iotable n s') := by
  unfold Modbus.mbSlaveWriteBits
  simp only [ccFromBe16_writeAddress, ccFromBe16_writeQuantity, PduWrite.count, PduWrite.size]
  rw [h.field_eq 1 (by omega), h.field_eq 3 (by omega), ← h.pdu 5 (by omega)]
  apply Same.check h (by omega) (by decide)
  intro hq
  apply Same.check h (by omega) (by decide)
  intro hcount
  apply Same.check h (by omega) (by decide)
  intro _
  apply Same.check h (by omega) (by decide)
  intro hlen
  cases hset : iotable.set with
  | none => exact h.reject (by omega) _ (by decide)
  | some set =>
    have hq := ((quantity_check_iff _ _).mp hq).2
    simp only [UInt16.reduceToNat] at hq
    have hbytes := @toNat_bitCount (field s.pdu 3) (by omega)
    rw [not_not.mp hcount] at hbytes
    exact h.writeResponse table set (hdoc.set_returns set hset) _ 6 _ (by omega) (by omega)

theorem Twin.mbSlaveWriteRegisters (iotable : Iotable σ regBytes) (hdoc : iotable.RegsDocumented)
    (hn : 6 ≤ n)
    : Same (mbSlaveWriteRegisters host table iotable n s)
        (mbSlaveWriteRegisters host table iotable n s') := by
  unfold Modbus.mbSlaveWriteRegisters
  simp only [ccFromBe16_writeAddress, ccFromBe16_writeQuantity, PduWrite.count, PduWrite.size]
  rw [h.field_eq 1 (by omega), h.field_eq 3 (by omega), ← h.pdu 5 (by omega)]
  apply Same.check h (by omega) (by decide)
  intro _
  apply Same.check h (by omega) (by decide)
  intro hcount
  apply Same.check h (by omega) (by decide)
  intro _
  apply Same.check h (by omega) (by decide)
  intro hlen
  cases hset : iotable.set with
  | none => exact h.reject (by omega) _ (by decide)
  | some set =>
    have harea : regBytes (field s.pdu 3).toNat = 2 * (field s.pdu 3).toNat := rfl
    exact h.writeResponse table set (hdoc.set_returns set hset) _ 6 _ (by omega) (by omega)

theorem Twin.mbSlaveReadWriteRegisters (iotable : Iotable σ regBytes)
    (hdoc : iotable.RegsDocumented) (hn : 10 ≤ n)
    : Same (mbSlaveReadWriteRegisters host table iotable n s)
        (mbSlaveReadWriteRegisters host table iotable n s') := by
  unfold Modbus.mbSlaveReadWriteRegisters
  simp only [ccFromBe16_readWriteReadAddress, ccFromBe16_readWriteReadQuantity,
    ccFromBe16_readWriteWriteAddress, ccFromBe16_readWriteWriteQuantity, PduReadWrite.count,
    PduReadWrite.size]
  rw [h.field_eq 1 (by omega), h.field_eq 3 (by omega), h.field_eq 5 (by omega),
    h.field_eq 7 (by omega), ← h.pdu 9 (by omega)]
  apply Same.check h (by omega) (by decide)
  intro _
  apply Same.check h (by omega) (by decide)
  intro hcount
  apply Same.check h (by omega) (by decide)
  intro _
  apply Same.check h (by omega) (by decide)
  intro hlen
  cases hset : iotable.set with
  | none => exact h.reject (by omega) _ (by decide)
  | some set =>
    apply Same.check h (by omega) (by decide)
    intro hr
    apply Same.check h (by omega) (by decide)
    intro _
    cases hget : iotable.get with
    | none => exact h.reject (by omega) _ (by decide)
    | some get =>
      have harea : regBytes (field s.pdu 7).toNat = 2 * (field s.pdu 7).toNat := rfl
      exact h.readWriteResponse table get set (hdoc.get_fills get hget)
        (hdoc.get_returns get hget) (hdoc.set_returns set hset) (by omega)
        ((quantity_check_iff _ _).mp hr).2

theorem Twin.mbSlaveDiagnostics (hn : 3 ≤ n)
    : Same (mbSlaveDiagnostics host n s) (mbSlaveDiagnostics host n s') := by
  unfold Modbus.mbSlaveDiagnostics
  simp only [ccFromBe16_subFunction]
  rw [h.field_eq 1 (by omega)]
  apply Same.ite
  . intro _
    exact h.same n (by omega) (by omega)
  . intro _
    exact h.reject (by omega) _ (by decide)

theorem Twin.mbSlaveVendor (iomap : Iomap σ) (hdoc : iomap.Documented) (hn : 1 ≤ n)
    : Same (mbSlaveVendor iomap n s) (mbSlaveVendor iomap n s') := by
  unfold Modbus.mbSlaveVendor
  cases hfuncs : iomap.vendorFuncs with
  | none => exact h.reject hn _ (by decide)
  | some funcs => exact go funcs (hdoc.vendorFuncs funcs hfuncs)
where
  go (funcs : List (VendorFunc σ)) (hlocal : ∀ func ∈ funcs, func.Local)
      : Same (Modbus.mbSlaveVendor.go n s funcs) (Modbus.mbSlaveVendor.go n s' funcs) := by
    induction funcs with
    | nil => exact h.reject hn _ (by decide)
    | cons func funcs ih =>
      have hfunction : Pdu.function s'.pdu = Pdu.function s.pdu := (h.pdu 0 hn).symm
      simp only [Modbus.mbSlaveVendor.go]
      rw [hfunction]
      apply Same.ite
      . intro _
        obtain ⟨hresult, happ, hdata⟩ := hlocal func (by simp) s.pdu s'.pdu n s'.app h.pdu
        rw [h.app]
        exact ⟨hresult, hdata, happ, h.calls⟩
      . intro _
        apply ih
        intro f hf
        exact hlocal f (by simp [hf])

end Handlers

def fixedPart (code : UInt8) : Nat :=
  match Function.ofCode code with
  | some f => f.fixedPart
  | none => 1

theorem Twin.mbSlaveSwitch (host : Endian) (iomap : Iomap σ) (hdoc : iomap.Documented) (bc : Bool)
    {n : Nat} {s s' : SlaveState σ} (h : Twin n s s') (hn : 1 ≤ n)
    (hfixed : fixedPart (s.pdu 0) ≤ n)
    : Same (mbSlaveSwitch host iomap n bc s) (mbSlaveSwitch host iomap n bc s') := by
  have hfunction : Pdu.function s'.pdu = s.pdu 0 := (h.pdu 0 hn).symm
  have hignored : Same (0, s) (0, s') := h.reject hn 0 (by decide)
  unfold Modbus.mbSlaveSwitch
  rw [hfunction]
  unfold fixedPart at hfixed
  simp only [Pdu.function]
  cases hf : Function.ofCode (s.pdu 0) with
  | none => exact h.mbSlaveVendor iomap hdoc hn
  | some f =>
    simp only [hf] at hfixed
    cases f with
    | readCoils =>
      apply Same.ite
      . exact fun _ => h.mbSlaveReadBits _ _ _ hdoc.coils hfixed
      . exact fun _ => hignored
    | readInputs =>
      apply Same.ite
      . exact fun _ => h.mbSlaveReadBits _ _ _ hdoc.inputs hfixed
      . exact fun _ => hignored
    | readHoldingRegisters =>
      apply Same.ite
      . exact fun _ => h.mbSlaveReadRegisters _ _ _ hdoc.holdingRegisters hfixed
      . exact fun _ => hignored
    | readInputRegisters =>
      apply Same.ite
      . exact fun _ => h.mbSlaveReadRegisters _ _ _ hdoc.inputRegisters hfixed
      . exact fun _ => hignored
    | writeCoil => exact h.mbSlaveWriteBit _ _ _ hdoc.coils hfixed
    | writeHoldingRegister => exact h.mbSlaveWriteRegister _ _ _ hdoc.holdingRegisters hfixed
    | diagnostics => exact h.mbSlaveDiagnostics _ hfixed
    | writeCoils => exact h.mbSlaveWriteBits _ _ _ hdoc.coils hfixed
    | writeHoldingRegisters => exact h.mbSlaveWriteRegisters _ _ _ hdoc.holdingRegisters hfixed
    | readWriteHoldingRegisters =>
      exact h.mbSlaveReadWriteRegisters _ _ _ hdoc.holdingRegisters hfixed

/--
Whatever is left in the buffer behind a PDU of `n` bytes with the given function code, the slave
tells its callbacks the same and transmits the same response.
-/
def ActsOnReceived (host : Endian) (code : UInt8) (n : Nat) : Prop :=
  ∀ (σ : Type) (iomap : Iomap σ), iomap.Documented →
    ∀ (app : σ) (pdu : List UInt8), pdu.length = n → pdu.head? = some code →
      ∀ (transaction : Txn) (stale stale' : Mem) (bc avail : Bool),
        ∃ served served',
          mbSlaveHandleRequest host mock iomap { transaction with data := stale } app
              (.deliver pdu bc avail) = some served
            ∧
          mbSlaveHandleRequest host mock iomap { transaction with data := stale' } app
              (.deliver pdu bc avail) = some served'
            ∧
          served.calls.map Call.input = served'.calls.map Call.input
            ∧
          served.transport.sent = served'.transport.sent

theorem actsOnReceived_of_fixedPart_le (host : Endian) (code : UInt8) (n : Nat) (hn : 1 ≤ n)
    (hfixed : fixedPart code ≤ n)
    : ActsOnReceived host code n := by
  intro σ iomap hdoc app pdu hlen hcode transaction stale stale' bc avail
  have hne : pdu ≠ [] := by
    intro h
    simp [h] at hlen
    omega
  obtain ⟨served, hserved, -, hcalls, -, hsent⟩ :=
    mbSlaveHandleRequest_mock host iomap { transaction with data := stale } app pdu hne bc avail
  obtain ⟨served', hserved', -, hcalls', -, hsent'⟩ :=
    mbSlaveHandleRequest_mock host iomap { transaction with data := stale' } app pdu hne bc avail
  have hbyte : ∀ (m : Mem) (i : Nat) (hi : i < pdu.length), m.copy 0 pdu i = pdu[i] := by
    intro m i hi
    have hcopy := Mem.copy_add m 0 i pdu hi
    rwa [Nat.zero_add] at hcopy
  have htwin : Twin pdu.length (.init (stale.copy 0 pdu) app) (.init (stale'.copy 0 pdu) app) := by
    refine ⟨?_, rfl, rfl⟩
    intro i hi
    exact (hbyte stale i hi).trans (hbyte stale' i hi).symm
  have hhead : stale.copy 0 pdu 0 = code := by
    cases pdu with
    | nil => exact absurd rfl hne
    | cons b bs =>
      rw [hbyte stale 0 (by simp)]
      simpa using hcode
  have hfixed : fixedPart ((SlaveState.init (stale.copy 0 pdu) app).pdu 0) ≤ pdu.length := by
    dsimp only [SlaveState.init]
    rw [hhead, hlen]
    exact hfixed
  have hsame := (htwin.mbSlaveSwitch host iomap hdoc bc (by omega) hfixed).exception
  refine ⟨served, served', hserved, hserved', ?_, ?_⟩
  . rw [hcalls, hcalls']
    exact hsame.twin.calls
  . rw [hsent, hsent']
    simp only [mbSlaveProcess, ← hsame.count]
    rw [hsame.twin.pdu.load_eq (by omega)]

def Function.probe (f : Function) (b : UInt8) : List UInt8 :=
  match f with
  | readCoils | readInputs | readHoldingRegisters | readInputRegisters => [f.code, 0, 0, 0, b]
  | writeCoil => [f.code, 0, 0, 0xFF, b]
  | writeHoldingRegister => [f.code, 0, 0, 0, b]
  | diagnostics => [f.code, 0, b]
  | writeCoils => [f.code, 0, 0, 0, 9, b]
  | writeHoldingRegisters => [f.code, 0, 1, 0, 1, b]
  | readWriteHoldingRegisters => [f.code, 0, 0, 0, 1, 0, 1, 0, 1, b]

theorem Function.length_probe (f : Function) (b : UInt8) : (f.probe b).length = f.fixedPart := by
  cases f <;> rfl

structure Observation where
  calls : List CallInput
  sent : List (List UInt8)
  deriving DecidableEq, Repr

def observed (host : Endian) (iomap : Iomap Store) (stale pdu : List UInt8)
    : Option Observation :=
  (mbSlaveHandleRequest host mock iomap ⟨0, 0, 0, Mem.copy (fun _ => 0) 0 stale⟩
    ⟨fun _ => 0, fun _ => 0, fun _ => 0, fun _ => 0⟩ (.deliver pdu false false)).map
      (fun served => { calls := served.calls.map Call.input, sent := served.transport.sent })

theorem observed_probe_ne (host : Endian) (f : Function)
    : ∀ n < f.fixedPart, 1 ≤ n →
        observed host (storageIomap 0 0 1 0 none) (f.probe 0) ((f.probe 0).take n)
          ≠
        observed host (storageIomap 0 0 1 0 none) (f.probe 2) ((f.probe 0).take n) := by
  cases host <;> cases f <;> decide +kernel

theorem bitsGet_fillsBits (bits : Store → Mem) : (bitsGet bits).FillsBits := by
  intro address data data' quantity app
  refine ⟨rfl, rfl, ?_⟩
  intro i hi
  simp only [bitsGet, bit_bitsGetLoop, hi, ↓reduceIte]

theorem regsGet_fillsRegs (regs : Store → Nat → UInt16) : (regsGet regs).FillsRegs := by
  intro address data data' quantity app
  refine ⟨rfl, rfl, ?_⟩
  intro i hi
  simp only [regsGet]
  rw [regsGetLoop_lt _ _ _ _ _ hi, regsGetLoop_lt _ _ _ _ _ hi]

theorem storageIomap_documented (coils inputs hold inputRegisters : Nat)
    : (storageIomap coils inputs hold inputRegisters none).Documented where
  coils := by
    refine ⟨?_, ?_, ?_⟩ <;> rintro cb ⟨⟩
    . apply bitsGet_fillsBits
    . exact fun _ _ _ _ => Int.le_refl 0
    . exact fun _ _ _ _ => Int.le_refl 0
  inputs := by
    refine ⟨?_, ?_, ?_⟩ <;> rintro cb ⟨⟩
    . apply bitsGet_fillsBits
    . exact fun _ _ _ _ => Int.le_refl 0
  holdingRegisters := by
    refine ⟨?_, ?_, ?_⟩ <;> rintro cb ⟨⟩
    . apply regsGet_fillsRegs
    . exact fun _ _ _ _ => Int.le_refl 0
    . exact fun _ _ _ _ => Int.le_refl 0
  inputRegisters := by
    refine ⟨?_, ?_, ?_⟩ <;> rintro cb ⟨⟩
    . apply regsGet_fillsRegs
    . exact fun _ _ _ _ => Int.le_refl 0
  vendorFuncs := by
    rintro funcs ⟨⟩

theorem not_actsOnReceived (host : Endian) (f : Function) (n : Nat) (hn : 1 ≤ n)
    (hlt : n < f.fixedPart)
    : ¬ActsOnReceived host f.code n := by
  intro h
  have hlen : ((f.probe 0).take n).length = n := by
    rw [List.length_take, Function.length_probe]
    omega
  have hhead : ((f.probe 0).take n).head? = some f.code := by
    obtain ⟨k, rfl⟩ : ∃ k, n = k + 1 := ⟨n - 1, by omega⟩
    cases f <;> rfl
  obtain ⟨served, served', hserved, hserved', hcalls, hsent⟩ :=
    h Store _ (storageIomap_documented 0 0 1 0) ⟨fun _ => 0, fun _ => 0, fun _ => 0, fun _ => 0⟩ _
      hlen hhead ⟨0, 0, 0, fun _ => 0⟩ (Mem.copy (fun _ => 0) 0 (f.probe 0))
      (Mem.copy (fun _ => 0) 0 (f.probe 2)) false false
  apply observed_probe_ne host f n hlt hn
  simp only [observed, hserved, hserved', Option.map_some, hcalls, hsent]

/--
The slave acts only on what it received if and only if it received the fixed part of the request.
Functions 15, 16 and 23 compare the number of bytes they received with the length they expect, but
not before the fixed part has been read, and the others do not compare it at all.
-/
theorem actsOnReceived_iff (host : Endian) (code : UInt8) (n : Nat) (hn : 1 ≤ n)
    : ActsOnReceived host code n ↔ fixedPart code ≤ n := by
  constructor
  . intro h
    unfold fixedPart
    split
    . next f hf =>
      rw [Function.eq_code_of_ofCode hf] at h
      by_contra hlt
      exact not_actsOnReceived host f n hn (by omega) h
    . exact hn
  . exact actsOnReceived_of_fixedPart_le host code n hn

theorem actsOnReceived_iff_readCoils
    : ActsOnReceived .little 0x01 5 ∧ ¬ActsOnReceived .little 0x01 4 := by
  refine ⟨?_, ?_⟩
  . exact (actsOnReceived_iff .little 0x01 5 (by decide)).mpr (by decide)
  . rw [actsOnReceived_iff .little 0x01 4 (by decide)]
    decide

theorem writeHoldingRegister_truncated
    : observed .little (storageIomap 16 2 4 5 none) [0x06, 0x00, 0x01, 0x12, 0x34]
          [0x06, 0x00, 0x01]
        =
      some ⟨[⟨.holdingRegisters, .set, 1, 1, [0x12, 0x34]⟩], [[0x06, 0x00, 0x01, 0x12, 0x34]]⟩
        ∧
      observed .little (storageIomap 16 2 4 5 none) [0x06, 0x00, 0x01, 0x56, 0x78]
          [0x06, 0x00, 0x01]
        =
      some ⟨[⟨.holdingRegisters, .set, 1, 1, [0x56, 0x78]⟩], [[0x06, 0x00, 0x01, 0x56, 0x78]]⟩
        ∧
      ¬ActsOnReceived .little 0x06 3 := by
  refine ⟨by decide +kernel, by decide +kernel, ?_⟩
  exact not_actsOnReceived .little .writeHoldingRegister 3 (by decide) (by decide)

end Modbus

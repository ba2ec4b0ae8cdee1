import Modbus.Master.Lemmas

/-!
This module contains the operations of the master as data. An operation that waits for a response is
a request that it builds in the scratch buffer, one exchange, and a look at what was received.
-/

namespace Modbus

inductive MasterOp where
  | read (address : UInt32) (quantity : UInt16) (buffer : Mem)
  | write (address : UInt32) (quantity : UInt16) (buffer : Mem)
  | writeSingle (address : UInt32) (value : UInt16)

def FromReply (result : Int) : Prop :=
  result ∈
    [0, eIllegalFunction, eIllegalDataAddress, eIllegalDataValue, eSlaveDeviceFailure,
      eUnknownException]

instance (result : Int) : Decidable (FromReply result) :=
  inferInstanceAs (Decidable (result ∈ _))

namespace MasterOp

def run {τ : Type} (transport : Transport τ) (host : Endian) (op : MasterOp) (slave : Int)
    (mbus : Mbus) (w : τ)
    : Option (Int × Mbus × τ) :=
  match op with
  | read address quantity buffer =>
    (mbusRead transport host mbus slave address quantity buffer w).map
      (fun r => (r.result, r.mbus, r.transport))
  | write address quantity buffer => mbusWrite transport host mbus slave address quantity buffer w
  | writeSingle address value => mbusWriteSingle transport host mbus slave address value w

def issues (op : MasterOp) : Bool :=
  match op with
  | read address quantity _ =>
    match readTable address with
    | none => false
    | some (_, limit) => decide (quantity.toNat ≤ limit)
  | write address quantity _ =>
    match (address >>> 16).toNat with
    | 0 => decide (quantity.toNat ≤ 1968)
    | 4 => decide (quantity.toNat ≤ 123)
    | _ => false
  | writeSingle address value => (writeSingleTable address value).isSome

end MasterOp

theorem fromReply_mbException (pdu : Mem) : FromReply (mbException pdu) := by
  unfold mbException
  split <;> decide

theorem fromReply_mbusReadResponse (response buffer : Mem)
    : FromReply (mbusReadResponse response buffer).1 := by
  unfold mbusReadResponse
  dsimp only
  split <;> simp [FromReply, eIllegalFunction]

section Run

variable {τ : Type} (transport : Transport τ) (host : Endian) (op : MasterOp) (slave : Int)
  (mbus : Mbus) (w : τ)

theorem MasterOp.run_of_not_issues (h : op.issues = false)
    : op.run transport host slave mbus w = some (-1, mbus, w) := by
  cases op with
  | read address quantity buffer =>
    simp only [MasterOp.issues] at h
    simp only [MasterOp.run, mbusRead]
    split
    . rfl
    . cases htable : readTable address with
      | none => rfl
      | some entry =>
        simp only [htable, decide_eq_false_iff_not, Nat.not_le] at h
        dsimp only
        rw [if_pos h]
        rfl
  | write address quantity buffer =>
    have hdata : mbusWriteData mbus.scratch address quantity buffer = none := by
      simp only [MasterOp.issues] at h
      split at h
      . next htable =>
        simp only [decide_eq_false_iff_not, Nat.not_le] at h
        simp [mbusWriteData, htable, h]
      . next htable =>
        simp only [decide_eq_false_iff_not, Nat.not_le] at h
        simp [mbusWriteData, htable, h]
      . next h0 h4 =>
        unfold mbusWriteData
        split
        . next h => exact absurd h h0
        . next h => exact absurd h h4
        . rfl
    simp only [MasterOp.run, mbusWrite, hdata]
  | writeSingle address value =>
    simp only [MasterOp.issues, Option.isSome_eq_false_iff, Option.isNone_iff_eq_none] at h
    simp only [MasterOp.run, mbusWriteSingle, h]

def MasterOp.Exchanges (scratch : Mem) (size : Nat) : Prop :=
  (1 ≤ size ∧ size ≤ maxPduSize)
    ∧
  ∀ (rxCount : Int) (mbus' : Mbus) (w' : τ),
    mbusExchange transport { mbus with scratch } slave size w = some (rxCount, mbus', w') →
      ∃ (result : Int),
        op.run transport host slave mbus w = some (result, mbus', w')
          ∧
        (rxCount < 0 → result = rxCount)
          ∧
        (0 ≤ rxCount → FromReply result)

theorem exchanges_read (hslave : slave ≠ 0) (address : UInt32) (quantity : UInt16) (buffer : Mem)
    (h : (MasterOp.read address quantity buffer).issues = true)
    : ∃ (scratch : Mem) (size : Nat),
        (MasterOp.read address quantity buffer).Exchanges transport host slave mbus w scratch
          size := by
  simp only [MasterOp.issues] at h
  cases htable : readTable address with
  | none => simp [htable] at h
  | some entry =>
    simp only [htable, decide_eq_true_eq] at h
    refine ⟨((mbus.scratch.store 0 entry.1.code).store16 host 1
      (ccToBe16 host ((address - 1) &&& 0xFFFF).toUInt16)).store16 host 3
      (ccToBe16 host quantity), PduRead.size, by decide, ?_⟩
    intro rxCount mbus' w' hexchange
    simp only [MasterOp.run, mbusRead, htable]
    rw [if_neg hslave]
    rw [if_neg (by omega)]
    rw [hexchange]
    dsimp only
    split
    . next hneg => exact ⟨_, rfl, fun _ => rfl, fun _ => by omega⟩
    . split
      . exact ⟨_, rfl, fun _ => by omega, fun _ => fromReply_mbException _⟩
      . exact ⟨_, rfl, fun _ => by omega, fun _ => fromReply_mbusReadResponse _ _⟩

theorem mbusWriteResult_cases (rxCount : Int) (response : Mem)
    : (rxCount < 0 → mbusWriteResult rxCount response = rxCount)
        ∧
      (0 ≤ rxCount → FromReply (mbusWriteResult rxCount response)) := by
  constructor
  . intro hneg
    exact if_pos hneg
  . intro hnonneg
    unfold mbusWriteResult
    rw [if_neg (by omega)]
    split
    . apply fromReply_mbException
    . simp [FromReply]

theorem mbusWriteData_of_issues (address : UInt32) (quantity : UInt16) (buffer : Mem)
    (h : (MasterOp.write address quantity buffer).issues = true)
    : ∃ (count : UInt8) (request : Mem),
        mbusWriteData mbus.scratch address quantity buffer = some (count, request)
          ∧
        PduWrite.size + count.toNat ≤ maxPduSize := by
  simp only [MasterOp.issues] at h
  split at h
  . next htable =>
    simp only [decide_eq_true_eq] at h
    simp only [mbusWriteData, htable]
    rw [if_neg (by omega)]
    refine ⟨_, _, rfl, ?_⟩
    rw [toNat_coilCount h]
    simp only [PduWrite.size, maxPduSize]
    omega
  . next htable =>
    simp only [decide_eq_true_eq] at h
    simp only [mbusWriteData, htable]
    rw [if_neg (by omega)]
    refine ⟨_, _, rfl, ?_⟩
    simp only [PduWrite.size, maxPduSize, UInt8.toNat_ofNat']
    omega
  . simp at h

theorem exchanges_write (address : UInt32) (quantity : UInt16) (buffer : Mem)
    (h : (MasterOp.write address quantity buffer).issues = true)
    : ∃ (scratch : Mem) (size : Nat),
        (MasterOp.write address quantity buffer).Exchanges transport host slave mbus w scratch
          size := by
  obtain ⟨count, request, hdata, hsize⟩ := mbusWriteData_of_issues mbus address quantity buffer h
  refine ⟨((request.store16 host 1 (ccToBe16 host ((address - 1) &&& 0xFFFF).toUInt16)).store16 host
    3 (ccToBe16 host quantity)).store 5 count, PduWrite.size + count.toNat, ⟨?_, hsize⟩, ?_⟩
  . simp only [PduWrite.size]
    omega
  . intro rxCount mbus' w' hexchange
    simp only [MasterOp.run, mbusWrite, hdata]
    rw [hexchange]
    exact ⟨_, rfl, mbusWriteResult_cases rxCount mbus'.scratch⟩

theorem exchanges_writeSingle (address : UInt32) (value : UInt16)
    (h : (MasterOp.writeSingle address value).issues = true)
    : ∃ (scratch : Mem) (size : Nat),
        (MasterOp.writeSingle address value).Exchanges transport host slave mbus w scratch
          size := by
  obtain ⟨⟨f, value'⟩, htable⟩ := Option.isSome_iff_exists.mp h
  refine ⟨((mbus.scratch.store 0 f.code).store16 host 1
    (ccToBe16 host ((address - 1) &&& 0xFFFF).toUInt16)).store16 host 3
    (ccToBe16 host value'), PduWriteSingle.size, by decide, ?_⟩
  intro rxCount mbus' w' hexchange
  simp only [MasterOp.run, mbusWriteSingle, htable]
  rw [hexchange]
  exact ⟨_, rfl, mbusWriteResult_cases rxCount mbus'.scratch⟩

theorem MasterOp.exchanges_of_issues (hslave : slave ≠ 0) (h : op.issues = true)
    : ∃ (scratch : Mem) (size : Nat),
        op.Exchanges transport host slave mbus w scratch size := by
  cases op with
  | read address quantity buffer =>
    exact exchanges_read transport host slave mbus w hslave address quantity buffer h
  | write address quantity buffer =>
    exact exchanges_write transport host slave mbus w address quantity buffer h
  | writeSingle address value =>
    exact exchanges_writeSingle transport host slave mbus w address value h

end Run

/-- The request that the operation builds in the scratch buffer and its size, unless it fails. -/
def MasterOp.request (host : Endian) (op : MasterOp) (slave : Int) (scratch : Mem)
    : Option (Mem × Nat) :=
  match op with
  | read address quantity _ =>
    if slave = 0 then
      none
    else
      match readTable address with
      | none => none
      | some (f, limit) =>
        if quantity.toNat > limit then
          none
        else
          let request := scratch.store 0 f.code
          let request := request.store16 host 1 (ccToBe16 host ((address - 1) &&& 0xFFFF).toUInt16)
          some (request.store16 host 3 (ccToBe16 host quantity), PduRead.size)
  | write address quantity buffer =>
    match mbusWriteData scratch address quantity buffer with
    | none => none
    | some (count, request) =>
      let request := request.store16 host 1 (ccToBe16 host ((address - 1) &&& 0xFFFF).toUInt16)
      let request := request.store16 host 3 (ccToBe16 host quantity)
      some (request.store 5 count, PduWrite.size + count.toNat)
  | writeSingle address value =>
    match writeSingleTable address value with
    | none => none
    | some (f, value) =>
      let request := scratch.store 0 f.code
      let request := request.store16 host 1 (ccToBe16 host ((address - 1) &&& 0xFFFF).toUInt16)
      some (request.store16 host 3 (ccToBe16 host value), PduWriteSingle.size)

inductive MbusOp where
  | table (op : MasterOp)
  | loopback (size : UInt16) (buffer : Mem)
  | sendMsg (msg : Mem) (size : UInt8)
  | getMsg (msg : Mem)

namespace MbusOp

def run {τ : Type} (transport : Transport τ) (host : Endian) (op : MbusOp) (slave : Int)
    (mbus : Mbus) (w : τ)
    : Option (Int × Mbus × τ) :=
  match op with
  | table op => op.run transport host slave mbus w
  | loopback size buffer =>
    (mbusLoopback transport host mbus slave size buffer w).map
      (fun r => (r.result, r.mbus, r.transport))
  | sendMsg msg size => mbusSendMsg transport mbus slave msg size w
  | getMsg msg =>
    (mbusGetMsg transport mbus slave msg w).map (fun r => (r.result, r.mbus, r.transport))

def request (host : Endian) (op : MbusOp) (slave : Int) (scratch : Mem) : Option (Mem × Nat) :=
  match op with
  | table op => op.request host slave scratch
  | loopback size buffer =>
    if size.toNat > 250 then
      none
    else
      let request := scratch.store 0 Function.diagnostics.code
      let request := request.store16 host 1 pduDiagLoopback
      some (request.copy PduDiag.data (buffer.load 0 size.toNat), size.toNat + PduDiag.size)
  | sendMsg _ _ | getMsg _ => none

/--
What the operation does to the master and its transport. The result is left out: it depends on the
response alone.
-/
def effect {τ : Type} (transport : Transport τ) (host : Endian) (op : MbusOp) (slave : Int)
    (mbus : Mbus) (w : τ)
    : Option (Mbus × τ) :=
  match op with
  | sendMsg msg size =>
    let transaction := { mbus.request slave with data := msg }
    (mbPduTx transport transaction size.toNat w).map (fun w => ({ mbus with transaction }, w))
  | getMsg msg =>
    let transaction :=
      { mbus.transaction with arg := slave, data := msg, unit := UInt8.ofInt slave }
    (mbPduRx transport transaction mbus.timeout w).map
      (fun r => ({ mbus with transaction := r.2.1 }, r.2.2))
  | _ =>
    match op.request host slave mbus.scratch with
    | none => some (mbus, w)
    | some (scratch, size) =>
      (mbusExchange transport { mbus with scratch } slave size w).map Prod.snd

end MbusOp

section Effect

variable {τ : Type} (transport : Transport τ) (host : Endian) (slave : Int) (mbus : Mbus) (w : τ)

theorem mbusRead_effect (address : UInt32) (quantity : UInt16) (buffer : Mem)
    : ((MasterOp.read address quantity buffer).run transport host slave mbus w).map Prod.snd
        =
      MbusOp.effect transport host (.table (.read address quantity buffer)) slave mbus w := by
  simp only [MasterOp.run, mbusRead, MbusOp.effect, MbusOp.request, MasterOp.request]
  split
  . rfl
  . cases readTable address with
    | none => rfl
    | some entry =>
      dsimp only
      split
      . rfl
      . dsimp only
        cases mbusExchange transport _ slave PduRead.size w with
        | none => rfl
        | some r =>
          dsimp only
          split
          . rfl
          . split
            . rfl
            . rfl

theorem mbusWrite_effect (address : UInt32) (quantity : UInt16) (buffer : Mem)
    : ((MasterOp.write address quantity buffer).run transport host slave mbus w).map Prod.snd
        =
      MbusOp.effect transport host (.table (.write address quantity buffer)) slave mbus w := by
  simp only [MasterOp.run, mbusWrite, MbusOp.effect, MbusOp.request, MasterOp.request]
  cases mbusWriteData mbus.scratch address quantity buffer with
  | none => rfl
  | some data =>
    dsimp only
    cases mbusExchange transport _ slave (PduWrite.size + data.1.toNat) w with
    | none => rfl
    | some r => rfl

theorem mbusWriteSingle_effect (address : UInt32) (value : UInt16)
    : ((MasterOp.writeSingle address value).run transport host slave mbus w).map Prod.snd
        =
      MbusOp.effect transport host (.table (.writeSingle address value)) slave mbus w := by
  simp only [MasterOp.run, mbusWriteSingle, MbusOp.effect, MbusOp.request, MasterOp.request]
  cases writeSingleTable address value with
  | none => rfl
  | some entry =>
    dsimp only
    cases mbusExchange transport _ slave PduWriteSingle.size w with
    | none => rfl
    | some r => rfl

theorem mbusLoopback_effect (size : UInt16) (buffer : Mem)
    : ((MbusOp.loopback size buffer).run transport host slave mbus w).map Prod.snd
        =
      MbusOp.effect transport host (.loopback size buffer) slave mbus w := by
  simp only [MbusOp.run, mbusLoopback, MbusOp.effect, MbusOp.request]
  split
  . rfl
  . dsimp only
    cases mbusExchange transport _ slave (size.toNat + PduDiag.size) w with
    | none => rfl
    | some r =>
      dsimp only
      split
      . rfl
      . split
        . rfl
        . rfl

theorem MbusOp.run_effect (op : MbusOp)
    : (op.run transport host slave mbus w).map Prod.snd
        =
      op.effect transport host slave mbus w := by
  cases op with
  | table op =>
    cases op with
    | read address quantity buffer => apply mbusRead_effect
    | write address quantity buffer => apply mbusWrite_effect
    | writeSingle address value => apply mbusWriteSingle_effect
  | loopback size buffer => apply mbusLoopback_effect
  | sendMsg msg size =>
    simp only [MbusOp.run, mbusSendMsg, MbusOp.effect]
    cases mbPduTx transport _ size.toNat w with
    | none => rfl
    | some w => rfl
  | getMsg msg =>
    simp only [MbusOp.run, mbusGetMsg, MbusOp.effect]
    cases mbPduRx transport _ mbus.timeout w with
    | none => rfl
    | some r => rfl

/-- An operation fails at once, is a request that waits for its response, or is a raw message. -/
theorem MbusOp.effect_cases (op : MbusOp)
    : (op.effect transport host slave mbus w = some (mbus, w))
        ∨
      (∃ (scratch : Mem) (size : Nat),
        op.request host slave mbus.scratch = some (scratch, size)
          ∧
        op.effect transport host slave mbus w
          =
        (mbusExchange transport { mbus with scratch } slave size w).map Prod.snd)
        ∨
      (∃ (msg : Mem) (size : UInt8), op = .sendMsg msg size)
        ∨
      (∃ (msg : Mem), op = .getMsg msg) := by
  have hrequest (op : MbusOp)
      (h : op.effect transport host slave mbus w
          =
        match op.request host slave mbus.scratch with
        | none => some (mbus, w)
        | some (scratch, size) =>
          (mbusExchange transport { mbus with scratch } slave size w).map Prod.snd)
      : (op.effect transport host slave mbus w = some (mbus, w))
          ∨
        (∃ (scratch : Mem) (size : Nat),
          op.request host slave mbus.scratch = some (scratch, size)
            ∧
          op.effect transport host slave mbus w
            =
          (mbusExchange transport { mbus with scratch } slave size w).map Prod.snd) := by
    cases hrequest : op.request host slave mbus.scratch with
    | none =>
      rw [hrequest] at h
      exact .inl h
    | some r =>
      rw [hrequest] at h
      exact .inr ⟨r.1, r.2, rfl, h⟩
  cases op with
  | table op =>
    obtain h | h := hrequest (.table op) rfl
    . exact .inl h
    . exact .inr (.inl h)
  | loopback size buffer =>
    obtain h | h := hrequest (.loopback size buffer) rfl
    . exact .inl h
    . exact .inr (.inl h)
  | sendMsg msg size => exact .inr (.inr (.inl ⟨msg, size, rfl⟩))
  | getMsg msg => exact .inr (.inr (.inr ⟨msg, rfl⟩))

end Effect

end Modbus

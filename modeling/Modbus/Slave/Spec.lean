import Modbus.Data.Packed
import Modbus.Pdu.Basic

/-!
This module contains the Modbus data model: what a slave is for, without buffers, callbacks and the
order in which an implementation looks at a request. There are four tables, a request reads or
writes ranges of them and is answered by the items it asked for, by an echo or by an exception.
-/

namespace Modbus

structure DataModel where
  coils : List Bool
  inputs : List Bool
  holdingRegisters : List UInt16
  inputRegisters : List UInt16

inductive Request where
  | readCoils (address quantity : UInt16)
  | readInputs (address quantity : UInt16)
  | readHoldingRegisters (address quantity : UInt16)
  | readInputRegisters (address quantity : UInt16)
  | writeCoil (address value : UInt16)
  | writeHoldingRegister (address value : UInt16)
  | writeCoils (address quantity : UInt16) (count : UInt8) (data : List UInt8)
  | writeHoldingRegisters (address quantity : UInt16) (count : UInt8) (data : List UInt8)
  | readWriteHoldingRegisters (readAddress readQuantity writeAddress writeQuantity : UInt16)
      (count : UInt8) (data : List UInt8)
  deriving DecidableEq, Repr

namespace Request

def function : Request → Function
  | readCoils .. => .readCoils
  | readInputs .. => .readInputs
  | readHoldingRegisters .. => .readHoldingRegisters
  | readInputRegisters .. => .readInputRegisters
  | writeCoil .. => .writeCoil
  | writeHoldingRegister .. => .writeHoldingRegister
  | writeCoils .. => .writeCoils
  | writeHoldingRegisters .. => .writeHoldingRegisters
  | readWriteHoldingRegisters .. => .readWriteHoldingRegisters

def decode : List UInt8 → Option Request
  | code :: a1 :: a0 :: v1 :: v0 :: rest =>
    let address := word a1 a0
    let value := word v1 v0
    match Function.ofCode code with
    | some .readCoils => some (readCoils address value)
    | some .readInputs => some (readInputs address value)
    | some .readHoldingRegisters => some (readHoldingRegisters address value)
    | some .readInputRegisters => some (readInputRegisters address value)
    | some .writeCoil => some (writeCoil address value)
    | some .writeHoldingRegister => some (writeHoldingRegister address value)
    | some .writeCoils =>
      match rest with
      | count :: data => some (writeCoils address value count data)
      | _ => none
    | some .writeHoldingRegisters =>
      match rest with
      | count :: data => some (writeHoldingRegisters address value count data)
      | _ => none
    | some .readWriteHoldingRegisters =>
      match rest with
      | w1 :: w0 :: q1 :: q0 :: count :: data =>
        some (readWriteHoldingRegisters address value (word w1 w0) (word q1 q0) count data)
      | _ => none
    | some .diagnostics => none
    | none => none
  | _ => none

/--
The quantities and the coil value are legal, and byte count and length are those of the data that
goes with the quantity.
-/
def ValuesOk : Request → Prop
  | readCoils _ quantity | readInputs _ quantity =>
    1 ≤ quantity.toNat ∧ quantity.toNat ≤ 2000
  | readHoldingRegisters _ quantity | readInputRegisters _ quantity =>
    1 ≤ quantity.toNat ∧ quantity.toNat ≤ 125
  | writeCoil _ value => value = 0x0000 ∨ value = 0xFF00
  | writeHoldingRegister _ _ => True
  | writeCoils _ quantity count data =>
    (1 ≤ quantity.toNat ∧ quantity.toNat ≤ 1968) ∧
      count.toNat = (quantity.toNat + 7) / 8 ∧ data.length = count.toNat
  | writeHoldingRegisters _ quantity count data =>
    (1 ≤ quantity.toNat ∧ quantity.toNat ≤ 123) ∧
      count.toNat = 2 * quantity.toNat ∧ data.length = count.toNat
  | readWriteHoldingRegisters _ readQuantity _ writeQuantity count data =>
    (1 ≤ readQuantity.toNat ∧ readQuantity.toNat ≤ 125) ∧
      (1 ≤ writeQuantity.toNat ∧ writeQuantity.toNat ≤ 121) ∧
      count.toNat = 2 * writeQuantity.toNat ∧ data.length = count.toNat

def RangesOk (d : DataModel) : Request → Prop
  | readCoils address quantity => address.toNat + quantity.toNat ≤ d.coils.length
  | readInputs address quantity => address.toNat + quantity.toNat ≤ d.inputs.length
  | readHoldingRegisters address quantity =>
    address.toNat + quantity.toNat ≤ d.holdingRegisters.length
  | readInputRegisters address quantity =>
    address.toNat + quantity.toNat ≤ d.inputRegisters.length
  | writeCoil address _ => address.toNat < d.coils.length
  | writeHoldingRegister address _ => address.toNat < d.holdingRegisters.length
  | writeCoils address quantity _ _ => address.toNat + quantity.toNat ≤ d.coils.length
  | writeHoldingRegisters address quantity _ _ =>
    address.toNat + quantity.toNat ≤ d.holdingRegisters.length
  | readWriteHoldingRegisters readAddress readQuantity writeAddress writeQuantity _ _ =>
    readAddress.toNat + readQuantity.toNat ≤ d.holdingRegisters.length ∧
      writeAddress.toNat + writeQuantity.toNat ≤ d.holdingRegisters.length

def exec (d : DataModel) : Request → DataModel
  | writeCoil address value => { d with coils := overwrite d.coils address.toNat [value = 0xFF00] }
  | writeHoldingRegister address value =>
    { d with holdingRegisters := overwrite d.holdingRegisters address.toNat [value] }
  | writeCoils address quantity _ data =>
    { d with coils := overwrite d.coils address.toNat (unpackBits data quantity.toNat) }
  | writeHoldingRegisters address quantity _ data
  | readWriteHoldingRegisters _ _ address quantity _ data =>
    { d with
      holdingRegisters :=
        overwrite d.holdingRegisters address.toNat (unpackWords data quantity.toNat) }
  | _ => d

def itemsResponse (f : Function) (data : List UInt8) : List UInt8 :=
  f.code :: UInt8.ofNat data.length :: data

def echoResponse (f : Function) (address value : UInt16) : List UInt8 :=
  [f.code, hiByte address, loByte address, hiByte value, loByte value]

def response (d : DataModel) (r : Request) : List UInt8 :=
  let d := r.exec d
  match r with
  | readCoils address quantity =>
    itemsResponse r.function (packBits (slice d.coils address.toNat quantity.toNat))
  | readInputs address quantity =>
    itemsResponse r.function (packBits (slice d.inputs address.toNat quantity.toNat))
  | readHoldingRegisters address quantity | readWriteHoldingRegisters address quantity .. =>
    itemsResponse r.function (packWords (slice d.holdingRegisters address.toNat quantity.toNat))
  | readInputRegisters address quantity =>
    itemsResponse r.function (packWords (slice d.inputRegisters address.toNat quantity.toNat))
  | writeCoil address value | writeHoldingRegister address value
  | writeCoils address value .. | writeHoldingRegisters address value .. =>
    echoResponse r.function address value

def exceptionResponse (r : Request) (code : UInt8) : List UInt8 :=
  [r.function.code ||| 0x80, code]

end Request

/--
The data model may go from `d` to `d'` and answer the request by the given PDU. A request with an
illegal value as well as a range outside of its table may be answered by either exception.
-/
inductive DataModel.Answers (d : DataModel) (r : Request) : DataModel → List UInt8 → Prop where
  | normal : r.ValuesOk → r.RangesOk d → Answers d r (r.exec d) (r.response d)
  | illegalDataAddress : ¬r.RangesOk d → Answers d r d (r.exceptionResponse 2)
  | illegalDataValue : ¬r.ValuesOk → Answers d r d (r.exceptionResponse 3)

inductive DataModel.Run : DataModel → List Request → List (List UInt8) → DataModel → Prop where
  | nil (d : DataModel) : Run d [] [] d
  | cons {d d' d'' : DataModel} {r : Request} {rs : List Request} {response : List UInt8}
      {responses : List (List UInt8)}
      (answers : Answers d r d' response) (rest : Run d' rs responses d'')
      : Run d (r :: rs) (response :: responses) d''

theorem Request.head_response (d : DataModel) (r : Request)
    : (r.response d).head? = some r.function.code := by
  cases r <;> rfl

theorem DataModel.Run.length_eq {d d' : DataModel} {rs : List Request}
    {responses : List (List UInt8)} (h : Run d rs responses d')
    : rs.length = responses.length := by
  induction h with
  | nil => rfl
  | cons _ _ ih => simp [ih]

end Modbus

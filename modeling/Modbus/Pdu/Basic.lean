import Modbus.Data.Mem

/-!
This module contains the protocol data units of `mb_pdu.h`, the error codes of `mb_error.h` and the
conversion macros of the operating system abstraction layer. The packed structs are overlays over
one buffer, so each field is given as an access to the buffer at the offset of the field.
-/

namespace Modbus

def maxPduSize : Nat := 253

inductive Function where
  | readCoils
  | readInputs
  | readHoldingRegisters
  | readInputRegisters
  | writeCoil
  | writeHoldingRegister
  | diagnostics
  | writeCoils
  | writeHoldingRegisters
  | readWriteHoldingRegisters
  deriving DecidableEq, Repr

namespace Function

def code : Function → UInt8
  | readCoils => 1
  | readInputs => 2
  | readHoldingRegisters => 3
  | readInputRegisters => 4
  | writeCoil => 5
  | writeHoldingRegister => 6
  | diagnostics => 8
  | writeCoils => 15
  | writeHoldingRegisters => 16
  | readWriteHoldingRegisters => 23

def all : List Function :=
  [readCoils, readInputs, readHoldingRegisters, readInputRegisters, writeCoil,
    writeHoldingRegister, diagnostics, writeCoils, writeHoldingRegisters,
    readWriteHoldingRegisters]

def ofCode (b : UInt8) : Option Function :=
  all.find? (fun f => f.code == b)

@[simp]
theorem ofCode_code (f : Function) : ofCode f.code = some f := by
  cases f <;> rfl

theorem eq_code_of_ofCode {b : UInt8} {f : Function} (h : ofCode b = some f) : b = f.code := by
  have hfind := List.find?_some h
  simp only [beq_iff_eq] at hfind
  rw [hfind]

end Function

def pduDiagLoopback : UInt16 := 0

/-!
The error codes. The first four are the Modbus exceptions, which a callback may return and which
travel in the response. The others are communication errors.
-/

def eIllegalFunction : Int := -1
def eIllegalDataAddress : Int := -2
def eIllegalDataValue : Int := -3
def eSlaveDeviceFailure : Int := -4
def eCrcFail : Int := -101
def eFrameNok : Int := -102
def eSlaveId : Int := -103
def eTimeout : Int := -104
def eUnknownException : Int := -105

def ccToBe16 (host : Endian) (v : UInt16) : UInt16 :=
  host.swapBe v

def ccFromBe16 (host : Endian) (v : UInt16) : UInt16 :=
  host.swapBe v

variable (host : Endian) (pdu : Mem)

def Pdu.function : UInt8 := pdu 0

def PduException.size : Nat := 2

namespace PduRead

/-! `pdu_read_t`. -/

def address : UInt16 := pdu.load16 host 1
def quantity : UInt16 := pdu.load16 host 3
def size : Nat := 5

end PduRead

namespace PduReadResponse

/-! `pdu_read_response_t`. -/

def count : UInt8 := pdu 1
def data : Nat := 2
def size : Nat := 2

end PduReadResponse

namespace PduWriteSingle

/-! `pdu_write_single_t`, which is also the response. -/

def address : UInt16 := pdu.load16 host 1
def value : UInt16 := pdu.load16 host 3
def valueOffset : Nat := 3
def size : Nat := 5

end PduWriteSingle

namespace PduWrite

/-! `pdu_write_t`. -/

def address : UInt16 := pdu.load16 host 1
def quantity : UInt16 := pdu.load16 host 3
def count : UInt8 := pdu 5
def data : Nat := 6
def size : Nat := 6

def responseSize : Nat := 5

end PduWrite

namespace PduReadWrite

/-! `pdu_read_write_t`. -/

def readAddress : UInt16 := pdu.load16 host 1
def readQuantity : UInt16 := pdu.load16 host 3
def writeAddress : UInt16 := pdu.load16 host 5
def writeQuantity : UInt16 := pdu.load16 host 7
def count : UInt8 := pdu 9
def data : Nat := 10
def size : Nat := 10

end PduReadWrite

namespace PduDiag

/-! `pdu_diag_t`. -/

def subFunction : UInt16 := pdu.load16 host 1
def data : Nat := 3
def size : Nat := 3

end PduDiag

end Modbus

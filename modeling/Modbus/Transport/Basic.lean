import Modbus.Pdu.Basic

/-!
This module contains `mb_transport.h`: the transaction record and the table of functions through
which master and slave reach a transport. A transport keeps its state in a type `τ` that is passed
through its functions, the operating system behind it included. What both transports convert
between the types of C comes first.
-/

namespace Modbus

/-! The conversions between `int`, `size_t` and pointers. -/

def sizeT (n : Int) : Nat :=
  (n % 2 ^ 64).toNat

def ptrAdd (p : Int) (n : Nat) : Int :=
  if n < 2 ^ 63 then p + n else p + n - 2 ^ 64

def toInt (n : Int) : Int :=
  (Int32.ofInt n).toInt

theorem sizeT_natCast {n : Nat} (h : n < 2 ^ 64) : sizeT (n : Int) = n := by
  unfold sizeT
  omega

theorem toInt_of_lt {n : Nat} (h : n < 2 ^ 31) : toInt n = n := by
  apply Int32.toInt_ofInt_of_le
  . omega
  . omega

/-- `pdu_txn_t`. The memory behind the `data` pointer is part of the record. -/
structure Txn where
  arg : Int
  id : UInt16
  unit : UInt8
  data : Mem

/--
`mb_transport_t`. Receiving and transmitting may block for ever, in which case there is no result.
-/
structure Transport (τ : Type) where
  bringup : Option String → τ → Int × τ
  shutdown : Int → τ → Int × τ
  isDown : τ → Bool
  tx : Txn → Nat → τ → Option τ
  rx : Txn → UInt32 → τ → Option (Int × Txn × τ)
  rxIsBc : τ → Bool
  rxAvail : τ → Bool × τ

variable {τ : Type} (transport : Transport τ)

def mbTransportBringup (name : Option String) (w : τ) : Int × τ :=
  transport.bringup name w

def mbTransportShutdown (arg : Int) (w : τ) : Int × τ :=
  transport.shutdown arg w

def mbTransportIsDown (w : τ) : Bool :=
  transport.isDown w

def mbPduTx (transaction : Txn) (size : Nat) (w : τ) : Option τ :=
  transport.tx transaction size w

def mbPduRx (transaction : Txn) (tmo : UInt32) (w : τ) : Option (Int × Txn × τ) :=
  transport.rx transaction tmo w

def mbPduRxBc (w : τ) : Bool :=
  transport.rxIsBc w

def mbPduRxAvail (w : τ) : Bool × τ :=
  transport.rxAvail w

end Modbus

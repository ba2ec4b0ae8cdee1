import Modbus.Master.Channel
import Modbus.Master.Success
import Modbus.Rtu.Detect

/-!
This module contains what registers and checksums look like on the wire for both byte orders of the
host. The master swaps the bytes of its registers on every host, and `mb_rtu_tx` those of the
checksum on none, which is right for a little endian host.
-/

namespace Modbus

def hostRegisters (host : Endian) (m : Mem) (n : Nat) : List UInt16 :=
  (List.range n).map (fun i => m.load16 host (2 * i))

def Sends (host : Endian) (mbus : Mbus) (slave : Int) (op : MasterOp) (pdu : List UInt8) : Prop :=
  ∀ (w : Mock), ∃ (result : Int) (mbus' : Mbus) (w' : Mock),
    op.run mock host slave mbus w = some (result, mbus', w') ∧ w'.sent = w.sent ++ [pdu]

/-- A register that is written on its own looks like one that is written with others. -/
def SameValue (host : Endian) (mbus : Mbus) (slave : Int) (address : UInt32) (buffer : Mem)
    (v : UInt16) : Prop :=
  ∃ header header' value, header.length = PduWrite.data ∧
    header'.length = PduWriteSingle.valueOffset ∧
    Sends host mbus slave (.write address 1 buffer) (header ++ value) ∧
    Sends host mbus slave (.writeSingle address v) (header' ++ value)

/-- The frame ends with its checksum, low-order byte first, and passes the check of a receiver. -/
def TxLowFirst (host : Endian) (transaction : Txn) (size : Nat) (rtu : MbRtu Line) : Prop :=
  let crc := mbCrc transaction.data (UInt8.ofNat size) (mbCrc (fun _ => transaction.unit) 1 0xFFFF)
  ∃ (n : Nat), ∀ (rounds : Nat), n ≤ rounds → ∃ (rtu' : MbRtu Line) (rest : List UInt8),
    mbRtuTx rtuLine host rounds transaction size rtu = some rtu'
      ∧
    rtu'.line.written = rtu.line.written ++ transaction.unit :: rest
      ∧
    rest = transaction.data.load 0 size ++ [loByte crc, hiByte crc]
      ∧
    rxCheck transaction.unit rest = 0

/--
The registers and the frame look the same on the wire, and are understood, whatever the byte order
of the host is.
-/
structure HostIndependent (host : Endian) (vs : List UInt16) (transaction : Txn) (size : Nat)
    (rtu : MbRtu Line) : Prop where
  write : ∀ (mbus : Mbus) (slave : Int) (address : UInt32) (buffer : Mem),
    (address >>> 16).toNat = 4 → vs.length ≤ 123 → hostRegisters host buffer vs.length = vs →
      ∃ header, header.length = PduWrite.data ∧
        Sends host mbus slave (.write address (UInt16.ofNat vs.length) buffer)
          (header ++ packWords vs)
  single : ∀ (mbus : Mbus) (slave : Int) (address : UInt32) (buffer : Mem), ∀ v ∈ vs,
    (address >>> 16).toNat = 4 → hostRegisters host buffer 1 = [v] →
      SameValue host mbus slave address buffer v
  read : ∀ (mbus : Mbus) (slave : Int) (address : UInt32) (f : Function) (buffer : Mem),
    slave ≠ 0 → readTable address = some (f, 125) → vs.length ≤ 125 →
      ∃ res,
        mbusRead mock host mbus slave address (UInt16.ofNat vs.length) buffer
            (.deliver (Request.itemsResponse f (packWords vs)) false false) = some res
          ∧
        res.result = 0
          ∧
        hostRegisters host res.buffer vs.length = vs
  tx : TxLowFirst host transaction size rtu

theorem Sends.unique {host : Endian} {mbus : Mbus} {slave : Int} {op : MasterOp}
    {pdu pdu' : List UInt8} (h : Sends host mbus slave op pdu) (h' : Sends host mbus slave op pdu')
    : pdu = pdu' := by
  obtain ⟨result, mbus₁, w₁, hrun, hsent⟩ := h (.deliver [] false false)
  obtain ⟨result', mbus₂, w₂, hrun', hsent'⟩ := h' (.deliver [] false false)
  rw [hrun] at hrun'
  cases hrun'
  rw [hsent] at hsent'
  simpa using hsent'

section Order

theorem load16_eq_of_straight {host host' : Endian} {m : Mem} {off : Nat}
    (h : host = host' ∨ hiByte (m.load16 host off) = loByte (m.load16 host off))
    : m.load16 host' off = m.load16 host off := by
  obtain rfl | h := h
  . rfl
  . cases host <;> cases host' <;> simp_all [Mem.load16, Endian.ofBytes]

theorem hostRegisters_eq {host host' : Endian} {m : Mem} {n : Nat}
    (h : host = host' ∨ ∀ v ∈ hostRegisters host m n, hiByte v = loByte v)
    : hostRegisters host' m n = hostRegisters host m n := by
  apply List.map_congr_left
  intro i hi
  apply load16_eq_of_straight
  obtain h | h := h
  . exact .inl h
  . exact .inr (h _ (List.mem_map_of_mem hi))

theorem fstByte_eq_loByte_iff (host : Endian) (v : UInt16)
    : host.fstByte v = loByte v ↔ host = .little ∨ hiByte v = loByte v := by
  cases host <;> simp [Endian.fstByte]

theorem sndByte_eq_hiByte_iff (host : Endian) (v : UInt16)
    : host.sndByte v = hiByte v ↔ host = .little ∨ hiByte v = loByte v := by
  cases host <;> simp [Endian.sndByte, eq_comm]

theorem load16_store16 (host : Endian) (m : Mem) (off : Nat) (v : UInt16)
    : (m.store16 host off v).load16 host off = v := by
  simp [Mem.load16, Mem.store16]

end Order

section Sent

variable (host : Endian) (mbus : Mbus) (slave : Int) {address : UInt32}

theorem mbusExchange_sent (size : Nat) (w : Mock)
    : ∃ (rxCount : Int) (mbus' : Mbus) (w' : Mock),
        mbusExchange mock mbus slave size w = some (rxCount, mbus', w')
          ∧
        w'.sent = w.sent ++ [mbus.scratch.load 0 size] := by
  unfold mbusExchange
  simp only [mbPduTx, mbPduRx, mock, mockMbPduTx, mockMbPduRx]
  split
  . exact ⟨_, _, _, rfl, rfl⟩
  . exact ⟨_, _, _, rfl, rfl⟩

theorem sends_of_request {op : MasterOp} {request : Mem} {size : Nat}
    (h : op.request host slave mbus.scratch = some (request, size))
    : Sends host mbus slave op (request.load 0 size) := by
  intro w
  obtain ⟨rxCount, mbus', w', hexchange, hsent⟩ :=
    mbusExchange_sent { mbus with scratch := request } slave size w
  rw [op.run_of_request mock host mbus w h, hexchange]
  exact ⟨_, _, _, rfl, hsent⟩

theorem load_splice_swapRegisters (m dst buffer : Mem) (off n : Nat)
    : (m.splice off (swapRegisters dst buffer n)).load off (2 * n)
        =
      packWords (hostRegisters .little buffer n) := by
  have hlen : (hostRegisters .little buffer n).length = n := by
    simp [hostRegisters]
  apply Mem.load_eq_packWords hlen
  intro i hi
  obtain ⟨hfst, hsnd⟩ := swapRegisters_lt dst buffer (hlen ▸ hi)
  rw [Nat.add_assoc, Mem.splice_add, Mem.splice_add, hfst, hsnd]
  simp [hostRegisters, Mem.load16, Endian.ofBytes]

theorem mbusWriteData_registers (haddress : (address >>> 16).toNat = 4) {n : Nat} (hn : n ≤ 123)
    (scratch buffer : Mem)
    : ∃ (count : UInt8) (request : Mem),
        mbusWriteData scratch address (UInt16.ofNat n) buffer = some (count, request)
          ∧
        count.toNat = 2 * n
          ∧
        request 0 = Function.writeHoldingRegisters.code
          ∧
        request.load PduWrite.data (2 * n) = packWords (hostRegisters .little buffer n) := by
  have hq : (UInt16.ofNat n).toNat = n := by
    rw [UInt16.toNat_ofNat']
    omega
  have hcount : (UInt8.ofNat (2 * n)).toNat = 2 * n := by
    rw [UInt8.toNat_ofNat']
    omega
  simp only [mbusWriteData, haddress, hq]
  rw [if_neg (by omega)]
  refine ⟨_, _, rfl, hcount, ?_, ?_⟩
  . simp [Mem.splice_lt, PduWrite.data]
  . rw [hcount, show (2 * n + 1) / 2 = n by omega]
    apply load_splice_swapRegisters

/-- The buffer is taken for that of a little endian host. -/
theorem sends_write (haddress : (address >>> 16).toNat = 4) {n : Nat} (hn : n ≤ 123) (buffer : Mem)
    : ∃ header, header.length = PduWrite.data ∧
        Sends host mbus slave (.write address (UInt16.ofNat n) buffer)
          (header ++ packWords (hostRegisters .little buffer n)) := by
  obtain ⟨count, request, hdata, hcount, hf, hload⟩ :=
    mbusWriteData_registers haddress hn mbus.scratch buffer
  have hsends := @sends_of_request host mbus slave (.write address (UInt16.ofNat n) buffer) _ _ (by
    simp only [MasterOp.request, hdata]
    rfl)
  rw [show PduWrite.size = 6 from rfl, load_write_request _ _ _ _ _ hf, hcount] at hsends
  rw [← hload]
  exact ⟨[_, _, _, _, _, _], rfl, hsends⟩

theorem sends_writeSingle (haddress : (address >>> 16).toNat = 4) (v : UInt16)
    : ∃ header, header.length = PduWriteSingle.valueOffset ∧
        Sends host mbus slave (.writeSingle address v) (header ++ [hiByte v, loByte v]) := by
  have hsends := @sends_of_request host mbus slave (.writeSingle address v) _ _ (by
    simp only [MasterOp.request, writeSingleTable, haddress]
    rfl)
  rw [show PduWriteSingle.size = 5 from rfl, load_request] at hsends
  exact ⟨[_, _, _], rfl, hsends⟩

theorem load16_little_eq_iff {host : Endian} {m : Mem} {off : Nat} {v : UInt16}
    (hv : m.load16 host off = v)
    : m.load16 .little off = v ↔ host = .little ∨ hiByte v = loByte v := by
  subst hv
  cases host with
  | little => simp
  | big =>
    constructor
    . intro h
      right
      have hhi := congrArg hiByte h
      simp only [Mem.load16, Endian.ofBytes, hiByte_word, loByte_word] at hhi ⊢
      exact hhi.symm
    . rintro (h | h)
      . contradiction
      . exact load16_eq_of_straight (.inr h)

theorem sameValue_iff (haddress : (address >>> 16).toNat = 4) {buffer : Mem} {v : UInt16}
    (hv : hostRegisters host buffer 1 = [v])
    : SameValue host mbus slave address buffer v ↔ host = .little ∨ hiByte v = loByte v := by
  have hv' : buffer.load16 host 0 = v := by
    injection hv
  obtain ⟨header, hheader, hwrite⟩ :=
    @sends_write host mbus slave _ haddress 1 (by omega) buffer
  obtain ⟨header', hheader', hsingle⟩ := sends_writeSingle host mbus slave haddress v
  have hpack : packWords (hostRegisters .little buffer 1)
      = [hiByte (buffer.load16 .little 0), loByte (buffer.load16 .little 0)] := by
    rfl
  rw [hpack] at hwrite
  rw [← load16_little_eq_iff hv']
  constructor
  . rintro ⟨header₁, header₂, value, hlen₁, hlen₂, hwrite', hsingle'⟩
    obtain ⟨-, hvalue⟩ := List.append_inj (hwrite'.unique hwrite) (hlen₁.trans hheader.symm)
    obtain ⟨-, hvalue'⟩ := List.append_inj (hsingle'.unique hsingle) (hlen₂.trans hheader'.symm)
    rw [hvalue] at hvalue'
    injection hvalue' with hhi hvalue'
    injection hvalue' with hlo
    rw [← word_hiByte_loByte (buffer.load16 .little 0), hhi, hlo, word_hiByte_loByte]
  . intro heq
    rw [heq] at hwrite
    exact ⟨header, header', _, hheader, hheader', hwrite, hsingle⟩

end Sent

theorem readTable_registers {address : UInt32} {f : Function}
    (h : readTable address = some (f, 125))
    : f = .readInputRegisters ∨ f = .readHoldingRegisters := by
  unfold readTable at h
  split at h
  . simp at h
  . simp at h
  . cases h
    exact .inl rfl
  . cases h
    exact .inr rfl
  . contradiction

/-- The registers are left in the buffer as a little endian host would keep them. -/
theorem mbusRead_registers (host : Endian) (mbus : Mbus) {slave : Int} (hslave : slave ≠ 0)
    {address : UInt32} {f : Function} (htable : readTable address = some (f, 125))
    {vs : List UInt16} (hlen : vs.length ≤ 125) (buffer : Mem)
    : ∃ res,
        mbusRead mock host mbus slave address (UInt16.ofNat vs.length) buffer
            (.deliver (Request.itemsResponse f (packWords vs)) false false) = some res
          ∧
        res.result = 0
          ∧
        hostRegisters .little res.buffer vs.length = vs := by
  have hq : (UInt16.ofNat vs.length).toNat ≤ 125 := by
    rw [UInt16.toNat_ofNat']
    omega
  have hf := readTable_registers htable
  obtain ⟨res, hres, houtcome⟩ := mbusRead_mock host mbus buffer
    (Request.itemsResponse f (packWords vs)) hslave htable hq
  have hnormal (m : Mem)
      : mbIsException (m.copy 0 (Request.itemsResponse f (packWords vs))) = false := by
    rw [mbIsException_eq_false_iff]
    exact f.byteBit_code
  rw [Mbus.received, mbusReadOutcome, hnormal] at houtcome
  generalize Mem.store16 host _ 3 _ = request at houtcome
  obtain ⟨buffer', hresponse, hregisters, -⟩ :=
    mbusReadResponse_registers hf request buffer vs hlen
  rw [hresponse] at houtcome
  injection houtcome with hresult hbuffer
  refine ⟨res, hres, hresult, ?_⟩
  rw [hbuffer]
  exact hregisters

section Tx

variable {transaction : Txn} {size : Nat} (hsize : size ≤ maxPduSize)

include hsize

theorem mbCrc_transaction
    : mbCrc transaction.data (UInt8.ofNat size) (mbCrc (fun _ => transaction.unit) 1 0xFFFF)
        =
      crcOf (transaction.data.load 0 size) (crcOf [transaction.unit] 0xFFFF) := by
  have hmax : maxPduSize = 253 := rfl
  rw [mbCrc_one, mbCrc]
  rw [show (UInt8.ofNat size).toNat = size by rw [UInt8.toNat_ofNat']; omega]

theorem txLowFirst_iff (host : Endian) (rtu : MbRtu Line)
    : TxLowFirst host transaction size rtu
        ↔
      let crc := mbCrc transaction.data (UInt8.ofNat size)
        (mbCrc (fun _ => transaction.unit) 1 0xFFFF)
      host = .little ∨ hiByte crc = loByte crc := by
  have hmax : maxPduSize = 253 := rfl
  unfold TxLowFirst
  rw [mbCrc_transaction hsize]
  dsimp only
  generalize hcrc : crcOf (transaction.data.load 0 size) (crcOf [transaction.unit] 0xFFFF) = crc
  have htx {rounds : Nat} (hrounds : size + 2 < rounds) :=
    mbRtuTx_host host transaction (by omega) hrounds rtu
  rw [hcrc] at htx
  constructor
  . rintro ⟨n, h⟩
    obtain ⟨rtu', rest, hrun, hwritten, hrest, -⟩ := h (max n (size + 3)) (by omega)
    obtain ⟨rtu'', hrun', hwritten'⟩ := @htx (max n (size + 3)) (by omega)
    rw [hrun] at hrun'
    cases hrun'
    rw [hwritten, hrest] at hwritten'
    simp only [List.append_cancel_left_eq, List.cons.injEq, true_and] at hwritten'
    exact (fstByte_eq_loByte_iff host crc).mp hwritten'.1.symm
  . intro hstraight
    refine ⟨size + 3, ?_⟩
    intro rounds hrounds
    obtain ⟨rtu', hrun, hwritten⟩ := @htx rounds (by omega)
    dsimp only at hwritten
    rw [(fstByte_eq_loByte_iff host crc).mpr hstraight] at hwritten
    rw [(sndByte_eq_hiByte_iff host crc).mpr hstraight] at hwritten
    refine ⟨rtu', _, hrun, hwritten, rfl, ?_⟩
    have htail : transaction.data.load 0 size ++ [loByte crc, hiByte crc]
        = rtuTail transaction.unit (transaction.data.load 0 size) := by
      rw [rtuTail, hcrc]
    rw [htail, rxCheck_eq]
    . exact crcOf_rtuFrame _ _
    . rw [length_rtuTail, Mem.length_load]
      omega

end Tx

/--
Registers and frames look the same on every host if and only if the host is little endian, or there
is no difference between the two bytes of any of the registers and of the checksum.
-/
theorem mbus_hostIndependent_iff (host : Endian) (vs : List UInt16) (transaction : Txn) {size : Nat}
    (hsize : size ≤ maxPduSize) (rtu : MbRtu Line)
    : HostIndependent host vs transaction size rtu
        ↔
      let crc := mbCrc transaction.data (UInt8.ofNat size)
        (mbCrc (fun _ => transaction.unit) 1 0xFFFF)
      host = .little ∨ (∀ v ∈ vs, hiByte v = loByte v) ∧ hiByte crc = loByte crc := by
  dsimp only
  constructor
  . intro h
    cases host with
    | little => exact .inl rfl
    | big =>
      right
      constructor
      . intro v hv
        have hregister : hostRegisters .big (Mem.store16 .big (fun _ => 0) 0 v) 1 = [v] := by
          simp [hostRegisters, load16_store16]
        have hsame := h.single ⟨0, ⟨0, 0, 0, fun _ => 0⟩, fun _ => 0⟩ 1 (mbAddress 4 1) _ v hv rfl
          hregister
        rw [sameValue_iff _ _ _ rfl hregister] at hsame
        exact hsame.resolve_left (by decide)
      . exact ((txLowFirst_iff hsize .big rtu).mp h.tx).resolve_left (by decide)
  . intro h
    have hregisters : host = .little ∨ ∀ v ∈ vs, hiByte v = loByte v := h.imp_right And.left
    refine ⟨?_, ?_, ?_, ?_⟩
    . intro mbus slave address buffer haddress hlen hbuffer
      have hsends := sends_write host mbus slave haddress hlen buffer
      rw [hostRegisters_eq (by rw [hbuffer]; exact hregisters), hbuffer] at hsends
      exact hsends
    . intro mbus slave address buffer v hv haddress hbuffer
      rw [sameValue_iff _ _ _ haddress hbuffer]
      exact hregisters.imp_right (fun hall => hall v hv)
    . intro mbus slave address f buffer hslave htable hlen
      obtain ⟨res, hres, hresult, hlittle⟩ :=
        mbusRead_registers host mbus hslave htable hlen buffer
      refine ⟨res, hres, hresult, ?_⟩
      rw [@hostRegisters_eq .little, hlittle]
      rw [hlittle]
      exact hregisters.imp_left Eq.symm
    . rw [txLowFirst_iff hsize]
      exact h.imp_right And.right

theorem mbus_hostIndependent_little
    : HostIndependent .little [0x55AA, 0x1122]
        ⟨1, 0, 1, Mem.copy (fun _ => 0) 0 [0x01, 0, 0x0A, 0, 6]⟩ 5
        (MbRtu.awaiting []) := by
  rw [mbus_hostIndependent_iff _ _ _ (by decide)]
  exact .inl rfl

theorem not_hostIndependent_big
    : ¬HostIndependent .big [0x55AA]
        ⟨1, 0, 1, Mem.copy (fun _ => 0) 0 [0x01, 0, 0x0A, 0, 6]⟩ 5
        (MbRtu.awaiting []) := by
  intro h
  have hregister : hostRegisters .big (Mem.store16 .big (fun _ => 0) 0 0x55AA) 1 = [0x55AA] := by
    decide
  have hsame := h.single ⟨0, ⟨0, 0, 0, fun _ => 0⟩, fun _ => 0⟩ 1 (mbAddress 4 1) _ 0x55AA
    (List.mem_singleton_self _) rfl hregister
  rw [sameValue_iff _ _ _ rfl hregister] at hsame
  exact absurd hsame (by decide)

end Modbus

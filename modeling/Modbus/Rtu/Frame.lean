import Modbus.Rtu.Receive

/-!
This module contains a frame on its way from `mb_rtu_tx` to `mb_rtu_rx`. The frame has two bytes
more for the checksum than the PDU, and both end up in the buffer for the PDU.
-/

namespace Modbus

def rtuTail (slave : UInt8) (pdu : List UInt8) : List UInt8 :=
  let crc := crcOf pdu (crcOf [slave] 0xFFFF)
  pdu ++ [loByte crc, hiByte crc]

theorem length_rtuTail (slave : UInt8) (pdu : List UInt8)
    : (rtuTail slave pdu).length = pdu.length + 2 := by
  simp [rtuTail]

theorem crcOf_rtuFrame (slave : UInt8) (pdu : List UInt8)
    : crcOf (slave :: rtuTail slave pdu) 0xFFFF = 0 := by
  unfold rtuTail
  dsimp only
  rw [← List.singleton_append, crcOf_append, crcOf_append, crcOf_bytes]

section Transmit

theorem Line.written_next (l : Line) : l.next.written = l.written := by
  unfold Line.next
  cases l.script with
  | nil => rfl
  | cons e script => cases e <;> rfl

@[simp]
theorem Line.written_tick (l : Line) : l.tick.written = l.written := by
  apply Line.tick_preserves (P := fun l' => l'.written = l.written)
  . intro l' h
    rw [l'.written_next, h]
  . intro l' calls h
    exact h
  . rfl

theorem mbRtuWrite.go_line (buffer : Mem) {size : Nat} (hsize : size < 2 ^ 63) (p : Nat)
    {rounds : Nat} (hrounds : size < rounds) (l : Line)
    : ∃ (l' : Line),
        mbRtuWrite.go rtuLine buffer rounds p size l = some l'
          ∧
        l'.written = l.written ++ buffer.load p size := by
  induction rounds generalizing p size l with
  | zero => omega
  | succ rounds ih =>
    rw [mbRtuWrite.go]
    by_cases hpos : size > 0
    . rw [if_pos hpos]
      dsimp only [rtuLine, Line.write]
      generalize hn : min size (max 1 (l.writePiece l.calls)) = n
      rw [sizeT_natCast (by omega)]
      rw [if_neg (by omega)]
      rw [ptrAdd, if_pos (by omega)]
      rw [← Int.natCast_sub (by omega), sizeT_natCast (by omega), ← Int.natCast_add]
      obtain ⟨l', hgo, hwritten⟩ := @ih (size - n) (by omega) (p + n) (by omega)
        { l.tick with written := l.tick.written ++ buffer.load (p : Int).toNat n }
      refine ⟨l', hgo, ?_⟩
      rw [hwritten]
      simp only [Line.written_tick, Int.toNat_natCast, List.append_assoc]
      rw [← Mem.load_add, show n + (size - n) = size by omega]
    . rw [if_neg hpos]
      refine ⟨l, rfl, ?_⟩
      rw [show size = 0 by omega, Mem.load_zero, List.append_nil]

theorem mbRtuWrite_line (buffer : Mem) {size : Nat} (hsize : size < 2 ^ 63) {rounds : Nat}
    (hrounds : size < rounds) (l : Line)
    : ∃ (l' : Line),
        mbRtuWrite rtuLine rounds buffer size l = some l'
          ∧
        l'.written = l.written ++ buffer.load 0 size := by
  apply mbRtuWrite.go_line
  . exact hsize
  . exact hrounds

def Line.Timed (l : Line) : Prop :=
  (∃ (script : List LineEvent), l.script = script ++ [.t3p5]) ∨ l.script = [] ∧ l.flags.t3p5 = true

theorem Line.Timed.next {l : Line} (h : l.Timed) : l.next.Timed := by
  obtain ⟨script, hl⟩ | ⟨hl, ht3p5⟩ := h
  . cases script with
    | nil =>
      right
      simp [Line.next, hl, Line.occur, Flags.set]
    | cons e script =>
      left
      refine ⟨script, ?_⟩
      cases e <;> simp [Line.next, hl, Line.occur]
  . right
    simp [Line.next, hl, ht3p5]

theorem Line.Timed.tick {l : Line} (h : l.Timed) : l.tick.Timed := by
  apply Line.tick_preserves
  . exact fun l' h' => h'.next
  . exact fun l' calls h' => h'
  . exact h

theorem Line.written_await (mask : Flags) (n : Nat) (l : Line)
    : (l.await mask n).written = l.written := by
  apply Line.await_preserves (P := fun l' => l'.written = l.written)
  . intro l' h
    rw [l'.written_next, h]
  . rfl

theorem Line.Timed.eventWait {l : Line} (h : l.Timed)
    : ∃ (flags : Flags) (l' : Line),
        rtuLine.eventWait { t3p5 := true } none l = some (some flags, l')
          ∧
        l'.written = l.written := by
  have htimed : (l.tick.await { t3p5 := true } l.tick.script.length).Timed := by
    apply Line.await_preserves
    . exact fun l' h' => h'.next
    . exact h.tick
  have hany : ((l.tick.await { t3p5 := true } l.tick.script.length).flags.and
      { t3p5 := true }).any = true := by
    obtain hany | hlen := Line.await_cases { t3p5 := true } l.tick.script.length l.tick
    . exact hany
    . rw [Nat.sub_self] at hlen
      obtain ⟨script, hl⟩ | ⟨-, ht3p5⟩ := htimed
      . simp [hl] at hlen
      . simp [Flags.any, Flags.and, ht3p5]
  refine ⟨_, _, eventWait_of_any none hany, ?_⟩
  rw [Line.written_await, Line.written_tick]

/-- The checksum is sent as the host keeps it in memory. -/
theorem mbRtuTx_host (host : Endian) (transaction : Txn) {size : Nat} (hsize : size < 256)
    {rounds : Nat} (hrounds : size + 2 < rounds) (rtu : MbRtu Line)
    : ∃ (rtu' : MbRtu Line),
        mbRtuTx rtuLine host rounds transaction size rtu = some rtu'
          ∧
        let crc := crcOf (transaction.data.load 0 size) (crcOf [transaction.unit] 0xFFFF)
        rtu'.line.written
          =
        rtu.line.written ++ transaction.unit ::
          (transaction.data.load 0 size ++ [host.fstByte crc, host.sndByte crc]) := by
  have hcrc : mbCrc transaction.data (UInt8.ofNat size) (mbCrc (fun _ => transaction.unit) 1 0xFFFF)
      = crcOf (transaction.data.load 0 size) (crcOf [transaction.unit] 0xFFFF) := by
    rw [mbCrc_one, mbCrc]
    rw [show (UInt8.ofNat size).toNat = size by rw [UInt8.toNat_ofNat']; omega]
  unfold mbRtuTx
  dsimp only
  rw [hcrc]
  generalize hcrc' : crcOf (transaction.data.load 0 size) (crcOf [transaction.unit] 0xFFFF) = crc
  obtain ⟨l₁, hwrite₁, hwritten₁⟩ := @mbRtuWrite_line (fun _ => transaction.unit) 1 (by omega)
    rounds (by omega) (mbRtuTxEnable rtuLine 1 rtu.line)
  rw [hwrite₁]
  dsimp only
  obtain ⟨l₂, hwrite₂, hwritten₂⟩ := @mbRtuWrite_line transaction.data size (by omega) rounds
    (by omega) (rtuLine.eventClr { txEmpty := true } l₁)
  rw [hwrite₂]
  dsimp only
  obtain ⟨l₃, hwrite₃, hwritten₃⟩ := @mbRtuWrite_line (Mem.store16 host (fun _ => 0) 0 crc) 2
    (by omega) rounds (by omega) l₂
  rw [hwrite₃]
  dsimp only
  generalize hl₄ : rtuLine.tmrStart false _ = l₄
  have htimed : l₄.Timed := by
    left
    rw [← hl₄]
    simp [rtuLine]
  obtain ⟨flags, l₅, hwait, hwritten₅⟩ := htimed.eventWait
  rw [hwait]
  refine ⟨_, rfl, ?_⟩
  have hbytes : (Mem.store16 host (fun _ => 0) 0 crc).load 0 2
      = [host.fstByte crc, host.sndByte crc] := by
    rfl
  change l₅.written = _
  rw [hwritten₅, ← hl₄]
  simp only [rtuLine, mbRtuTxEnable, Line.written_tick] at hwritten₁ hwritten₂ ⊢
  rw [hwritten₃, hwritten₂, hwritten₁, hbytes]
  simp [Mem.load_succ]

theorem mbRtuTx_line (transaction : Txn) {size : Nat} (hsize : size ≤ maxPduSize)
    (rtu : MbRtu Line)
    : ∃ (rounds : Nat) (rtu' : MbRtu Line),
        mbRtuTx rtuLine .little rounds transaction size rtu = some rtu'
          ∧
        rtu'.line.written
          =
        rtu.line.written ++ transaction.unit :: rtuTail transaction.unit
          (transaction.data.load 0 size) := by
  have hmax : maxPduSize = 253 := rfl
  have hlt : size < 256 := by omega
  exact ⟨size + 3, mbRtuTx_host .little transaction hlt (Nat.lt_succ_self _) rtu⟩

end Transmit

section Receive

/-- Nothing has arrived, and the chunks of a frame are to arrive. T3P5 may be left over. -/
structure Line.Awaits (chunks : List (List UInt8)) (l : Line) : Prop where
  fifo : l.fifo = []
  rxAvail : l.flags.rxAvail = false
  t1p5 : l.flags.t1p5 = false
  script : l.script = frameScript chunks
  chunks : ∀ chunk ∈ chunks, chunk ≠ []

theorem Line.Awaits.receiving {chunks : List (List UInt8)} {l : Line} (h : l.Awaits chunks)
    : l.Receiving chunks.flatten [] 0 := by
  have hexpired := not_expired_frameScript chunks
  refine ⟨?_, ?_, ?_, ?_, ?_⟩
  . rw [h.fifo, h.script, arrivals_frameScript]
    rfl
  . rw [h.script]
    exact .coming chunks
  . simp [h.fifo]
  . simp [h.t1p5, h.script, hexpired]
  . intro hnil
    rw [h.script] at hnil
    exact absurd (.inr hnil) hexpired

structure Line.Untouched (frame : List UInt8) (l : Line) : Prop where
  receiving : l.Receiving frame [] 0
  arrive : ∀ (bs : List UInt8), LineEvent.arrive bs ∈ l.script → bs ≠ []
  fifo : l.flags.rxAvail = true ∨ Hooking l.script → l.fifo ≠ []

theorem arrive_mem_frameScript {chunks : List (List UInt8)} {bs : List UInt8}
    (h : LineEvent.arrive bs ∈ frameScript chunks)
    : bs ∈ chunks := by
  induction chunks with
  | nil => simp [frameScript] at h
  | cons chunk chunks ih =>
    simp only [frameScript, List.mem_cons, LineEvent.arrive.injEq, reduceCtorEq, false_or] at h
    obtain rfl | h := h
    . simp
    . simp [ih h]

theorem Line.Awaits.untouched {chunks : List (List UInt8)} {l : Line} (h : l.Awaits chunks)
    : l.Untouched chunks.flatten := by
  refine ⟨h.receiving, ?_, ?_⟩
  . intro bs hbs
    rw [h.script] at hbs
    exact h.chunks bs (arrive_mem_frameScript hbs)
  . rintro (hrx | hhooking)
    . simp [h.rxAvail] at hrx
    . rw [h.script] at hhooking
      cases chunks <;> simp [frameScript, Hooking] at hhooking

theorem Line.Untouched.next {frame : List UInt8} {l : Line} (h : l.Untouched frame)
    : l.next.Untouched frame := by
  have hreceiving := h.receiving.next
  have harrive := h.arrive
  have hfifo := h.fifo
  obtain ⟨hl, hnext⟩ | ⟨chunk, chunks, hl, hnext⟩ | ⟨chunks, hl, hnext⟩ | ⟨chunks, hl, hnext⟩ |
    ⟨hl, hnext⟩ | ⟨hl, hnext⟩ := Line.next_cases h.receiving.script
  all_goals
    rw [hnext] at hreceiving ⊢
    rw [hl] at harrive hfifo
  . refine ⟨hreceiving, by simp, ?_⟩
    simpa [Flags.set, Hooking, frameScript] using hfifo
  . have hchunk := harrive chunk (by simp [frameScript])
    refine ⟨hreceiving, ?_, by simp [hchunk]⟩
    intro bs hbs
    apply harrive
    simp only [List.mem_cons, reduceCtorEq, false_or] at hbs
    simp [frameScript, hbs]
  . refine ⟨hreceiving, ?_, fun _ => hfifo (by simp [Hooking])⟩
    intro bs hbs
    apply harrive
    simpa using hbs
  . refine ⟨hreceiving, ?_, fun _ => hfifo (by simp [Hooking])⟩
    intro bs hbs
    apply harrive
    simpa using hbs
  . refine ⟨hreceiving, by simp, ?_⟩
    simpa [Flags.set, Hooking] using hfifo
  . exact h

theorem Line.Untouched.tick {frame : List UInt8} {l : Line} (h : l.Untouched frame)
    : l.tick.Untouched frame := by
  apply Line.tick_preserves
  . exact fun l' h' => h'.next
  . intro l' calls h'
    have hr := h'.receiving
    exact ⟨⟨hr.bytes, hr.script, hr.notified, hr.t1p5, hr.t3p5⟩, h'.arrive, h'.fifo⟩
  . exact h

theorem Line.Untouched.eventWait {frame : List UInt8} (hframe : frame ≠ []) {l : Line}
    (h : l.Untouched frame) (tmo : Option UInt32)
    : ∃ (flags : Flags) (l' : Line),
        rtuLine.eventWait { t1p5 := true, rxAvail := true } tmo l = some (some flags, l')
          ∧
        l'.Receiving frame [] 0
          ∧
        l'.fifo ≠ [] := by
  have hany := (Line.Receiving.invariant frame).any_await h.receiving
    { t1p5 := true, rxAvail := true } (.inl rfl)
  have h' : (l.tick.await { t1p5 := true, rxAvail := true } l.tick.script.length).Untouched
      frame := by
    apply Line.await_preserves
    . exact fun l' h' => h'.next
    . exact h.tick
  refine ⟨_, _, eventWait_of_any tmo hany, h'.receiving, ?_⟩
  generalize l.tick.await { t1p5 := true, rxAvail := true } l.tick.script.length = l' at hany h'
  simp only [Flags.any, Flags.and, Bool.and_true, Bool.and_false, Bool.false_or, Bool.or_false,
    Bool.or_eq_true] at hany
  obtain hrx | ht1p5 := hany
  . exact h'.fifo (.inl hrx)
  . have hbytes := h'.receiving.bytes_of_expired (h'.receiving.t1p5.mp ht1p5)
    rw [List.nil_append] at hbytes
    rw [hbytes]
    exact hframe

theorem mbRtuRead_slave {slave : UInt8} {rest : List UInt8} (hrest : rest.length < 2 ^ 63)
    {l : Line} (h : l.Receiving (slave :: rest) [] 0) (hfifo : l.fifo ≠ []) (m : Mem)
    : ∃ (l' : Line),
        mbRtuRead rtuLine m 0 1 l = (1, m.copy 0 [slave], l')
          ∧
        l'.Receiving (slave :: rest) [slave] 0 := by
  obtain ⟨bs, l', hread, hreads⟩ := mbRtuRead_line (by simp; omega) h m 0 1
  have hne := hreads.nonempty hfifo (Nat.le_refl 1)
  have hlen := hreads.length_le
  have hreceiving := hreads.receiving
  obtain ⟨b, rfl⟩ : ∃ b, bs = [b] := by
    apply List.length_eq_one_iff.mp
    have hpos := List.length_pos_iff.mpr hne
    omega
  have hbytes := hreceiving.bytes
  simp only [List.nil_append, List.cons_append, List.cons.injEq] at hbytes
  obtain ⟨rfl, -⟩ := hbytes
  exact ⟨l', hread, hreceiving⟩

theorem mbCrc_frame {slave : UInt8} {rest : List UInt8} (hrest : rest.length ≤ maxPduSize)
    {data : Mem} {rx : RxBuffer} (hrx : rx.Holds data rest)
    : mbCrc rx.data (UInt8.ofNat rx.count) (mbCrc (fun _ => slave) 1 0xFFFF)
        =
      crcOf (slave :: rest) 0xFFFF := by
  have hmax : maxPduSize = 253 := rfl
  have hcount : (UInt8.ofNat rx.count).toNat = rest.length := by
    rw [hrx.count, UInt8.toNat_ofNat']
    omega
  rw [mbCrc_one, mbCrc, hcount, hrx.data, Mem.load_copy]
  rw [← crcOf_append, List.singleton_append]

theorem toInt_sub_two_le {count : Nat} (h : count ≤ maxPduSize)
    : toInt (sizeT ((count : Int) - 2)) ≤ (maxPduSize : Int) - 2 := by
  have hmax : maxPduSize = 253 := rfl
  by_cases htwo : 2 ≤ count
  . rw [← Nat.cast_ofNat, ← Int.natCast_sub htwo]
    rw [sizeT_natCast (by omega)]
    rw [toInt_of_lt (by omega)]
    omega
  . obtain rfl | rfl : count = 0 ∨ count = 1 := by omega
    . decide
    . decide

section Rx

variable {slave : UInt8} {rest : List UInt8} {rtu : MbRtu Line}
  (h : rtu.line.Untouched (slave :: rest)) (transaction : Txn) (tmo : UInt32)

include h

theorem mbRtuRx_start (hrest : rest.length < 2 ^ 63)
    : ∃ (l : Line),
        l.Receiving (slave :: rest) [slave] 0
          ∧
        rtu.line.Elapses l
          ∧
        ∀ (rounds : Nat),
          mbRtuRx rtuLine rounds transaction tmo rtu
            =
          mbRtuRxFrame rtuLine rounds transaction slave rtu l := by
  obtain ⟨flags, l₁, hwait, h₁, hfifo⟩ :=
    h.eventWait (by simp) (if tmo ≠ 0 then some tmo else none)
  obtain ⟨l₂, hread, h₂⟩ := mbRtuRead_slave hrest h₁ hfifo (fun _ => rtu.slaveRx)
  have helapses := mbRtuRead_elapses (fun _ => rtu.slaveRx) 0 1 l₁
  rw [hread] at helapses
  refine ⟨l₂, h₂, (Line.elapses_eventWait hwait).trans helapses, ?_⟩
  intro rounds
  unfold mbRtuRx
  rw [hwait]
  simp only [reduceCtorEq, and_false, ↓reduceIte, hread]
  rfl

theorem mbRtuRx_fits {pdu : List UInt8} (hrest : rest = rtuTail slave pdu)
    (hfits : rest.length ≤ maxPduSize) (hunit : transaction.unit = slave)
    : ∃ (rounds : Nat) (rtu' : MbRtu Line),
        mbRtuRx rtuLine rounds transaction tmo rtu
          =
        some ((pdu.length : Int), { transaction with data := transaction.data.copy 0 rest },
          rtu') := by
  have hmax : maxPduSize = 253 := rfl
  have hlength := length_rtuTail slave pdu
  rw [← hrest] at hlength
  obtain ⟨l, hl, -, hstart⟩ := mbRtuRx_start h transaction tmo (by omega)
  obtain ⟨rx, l', hmessage, hrx, hl', hexpired, hclear⟩ :=
    mbRtuRxMessage_fits hfits hl (RxBuffer.holds_nil transaction.data) (Nat.zero_le _)
      (Nat.lt_succ_self l.remaining)
  obtain ⟨l'', hend⟩ := mbRtuRxEnd_expired hl' hexpired hclear l.remaining none rx
  have hcrc : mbCrc rx.data (UInt8.ofNat rx.count) (mbCrc (fun _ => slave) 1 0xFFFF) = 0 := by
    rw [mbCrc_frame hfits hrx, hrest, crcOf_rtuFrame]
  have hresult : toInt (sizeT ((rx.count : Int) - 2)) = pdu.length := by
    rw [hrx.count, hlength]
    rw [show ((pdu.length + 2 : Nat) : Int) - 2 = (pdu.length : Nat) by omega]
    rw [sizeT_natCast (by omega)]
    rw [toInt_of_lt (by omega)]
  refine ⟨l.remaining + 1, ?_⟩
  rw [hstart]
  rw [mbRtuRxFrame_eq, hmessage]
  have herror : messageError transaction.unit slave rx = none := by
    simp [messageError, hcrc, hunit]
  simp only [herror, hend, rxEnded, hresult, hrx.data]
  exact ⟨_, rfl⟩

theorem mbRtuRx_le (hrest : rest.length < 2 ^ 63) {rounds : Nat} {result : Int}
    {transaction' : Txn} {rtu' : MbRtu Line}
    (hrx : mbRtuRx rtuLine rounds transaction tmo rtu = some (result, transaction', rtu'))
    : result ≤ (maxPduSize : Int) - 2 := by
  have hmax : maxPduSize = 253 := rfl
  obtain ⟨l, hl, -, hstart⟩ := mbRtuRx_start h transaction tmo hrest
  rw [hstart] at hrx
  obtain ⟨rx, rx', error, l₁, l₂, hmessage, hend, hresult⟩ := mbRtuRxFrame_cases hrx
  obtain ⟨taken, hholds, hle, -⟩ :=
    mbRtuRxMessage_keeps (Line.Receiving.invariant (slave :: rest)) hrest hl
      (RxBuffer.holds_nil transaction.data) (Nat.zero_le _) hmessage
  obtain ⟨hcount, herror⟩ := mbRtuRxEnd_cases rtuLine hend
  cases error with
  | none =>
    simp only [rxEnded, Prod.mk.injEq] at hresult
    rw [hresult.1]
    apply toInt_sub_two_le
    rw [hcount, hholds.count]
    exact hle
  | some error =>
    simp only [rxEnded, Prod.mk.injEq] at hresult
    rw [hresult.1]
    obtain herror | herror := herror
    . obtain rfl | rfl := messageError_of_some herror.symm <;> decide
    . cases herror
      decide

end Rx

end Receive

def Delivers (pdu : List UInt8) (transaction : Txn) (tmo : UInt32) (rtu : MbRtu Line) : Prop :=
  ∃ (rounds : Nat) (transaction' : Txn) (rtu' : MbRtu Line),
    mbRtuRx rtuLine rounds transaction tmo rtu
      =
    some ((pdu.length : Int), transaction', rtu')
      ∧
    transaction'.data.load 0 pdu.length = pdu

/--
A frame that `mb_rtu_tx` sends on a little-endian host, with a PDU of any legal size, is received by
`mb_rtu_rx` if and only if the PDU and the checksum fit into the buffer for a PDU, whatever the
chunks in which it arrives and however the arrival interleaves with the task that receives it.
-/
theorem mbRtu_delivers_iff (sender : MbRtu Line) (hsender : sender.line.written = [])
    (transaction : Txn) (size : Nat) (hsize : size ≤ maxPduSize)
    : ∃ (rounds : Nat) (sender' : MbRtu Line),
        mbRtuTx rtuLine .little rounds transaction size sender = some sender'
          ∧
        ∀ (receiver : MbRtu Line) (transaction' : Txn) (tmo : UInt32) (chunks : List (List UInt8)),
          chunks.flatten = sender'.line.written →
          receiver.line.Awaits chunks →
          transaction'.unit = transaction.unit →
            (Delivers (transaction.data.load 0 size) transaction' tmo receiver
              ↔
            size ≤ maxPduSize - 2) := by
  have hmax : maxPduSize = 253 := rfl
  obtain ⟨rounds, sender', htx, hwritten⟩ := mbRtuTx_line transaction hsize sender
  refine ⟨rounds, sender', htx, ?_⟩
  intro receiver transaction' tmo chunks hchunks hawaits hunit
  rw [hsender, List.nil_append] at hwritten
  have huntouched := hawaits.untouched
  rw [hchunks, hwritten] at huntouched
  have hlength := length_rtuTail transaction.unit (transaction.data.load 0 size)
  rw [Mem.length_load] at hlength
  constructor
  . rintro ⟨rounds, transaction'', receiver', hrx, -⟩
    have hle := mbRtuRx_le huntouched transaction' tmo (by omega) hrx
    rw [Mem.length_load] at hle
    omega
  . intro hle
    obtain ⟨rounds, receiver', hrx⟩ :=
      mbRtuRx_fits huntouched transaction' tmo rfl (by omega) hunit
    refine ⟨rounds, _, receiver', hrx, ?_⟩
    apply Mem.load_copy_left

def MbRtu.awaiting (chunks : List (List UInt8)) : MbRtu Line :=
  {
    broadcast := false
    slaveRx := 0
    line :=
      {
        fifo := []
        written := []
        flags := {}
        script := frameScript chunks
        schedule := fun _ => (frameScript chunks).length
        writePiece := fun _ => 16
        calls := 0
      }
  }

theorem mbRtu_delivers_iff_readCoils
    : ∃ (rounds : Nat) (sender' : MbRtu Line),
        mbRtuTx rtuLine .little rounds ⟨1, 0, 1, Mem.copy (fun _ => 0) 0 [0x01, 0, 0x0A, 0, 6]⟩ 5
            (.awaiting [])
          =
        some sender'
          ∧
        Delivers [0x01, 0, 0x0A, 0, 6] ⟨1, 0, 1, fun _ => 0x55⟩ 1000
          (.awaiting (sender'.line.written.map (fun b => [b]))) := by
  obtain ⟨rounds, sender', htx, hdelivers⟩ :=
    mbRtu_delivers_iff (.awaiting []) rfl
      ⟨1, 0, 1, Mem.copy (fun _ => 0) 0 [0x01, 0, 0x0A, 0, 6]⟩ 5 (by decide)
  refine ⟨rounds, sender', htx, ?_⟩
  have hiff := hdelivers (.awaiting (sender'.line.written.map (fun b => [b])))
    ⟨1, 0, 1, fun _ => 0x55⟩ 1000 (sender'.line.written.map (fun b => [b]))
    (List.flatMap_singleton' sender'.line.written) ⟨rfl, rfl, rfl, rfl, by simp⟩ rfl
  exact hiff.mpr (by decide)

theorem not_delivers_readHoldingRegisters
    : ∃ (rounds : Nat) (sender' : MbRtu Line),
        mbRtuTx rtuLine .little rounds ⟨1, 0, 1, Mem.copy (fun _ => 0) 0 [0x03, 250]⟩ 252
            (.awaiting [])
          =
        some sender'
          ∧
        ¬Delivers (Mem.load (Mem.copy (fun _ => 0) 0 [0x03, 250]) 0 252) ⟨1, 0, 1, fun _ => 0x55⟩
          1000 (.awaiting [sender'.line.written]) := by
  obtain ⟨rounds, sender', htx, hwritten⟩ :=
    @mbRtuTx_line ⟨1, 0, 1, Mem.copy (fun _ => 0) 0 [0x03, 250]⟩ 252 (by decide)
      (.awaiting [])
  refine ⟨rounds, sender', htx, ?_⟩
  rintro ⟨rounds', transaction', receiver', hrx, -⟩
  have hawaits : (MbRtu.awaiting [sender'.line.written]).line.Awaits [sender'.line.written] := by
    refine ⟨rfl, rfl, rfl, rfl, ?_⟩
    rw [hwritten]
    simp
  have huntouched := hawaits.untouched
  have hframe : [sender'.line.written].flatten = 1 :: rtuTail 1
      (Mem.load (Mem.copy (fun _ => 0) 0 [0x03, 250]) 0 252) := by
    rw [List.flatten_singleton]
    exact hwritten
  rw [hframe] at huntouched
  have hle := mbRtuRx_le huntouched _ _ (by rw [length_rtuTail, Mem.length_load]; decide) hrx
  rw [Mem.length_load] at hle
  exact absurd hle (by decide)

end Modbus

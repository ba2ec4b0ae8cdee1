import Modbus.Data.Access
import Modbus.Tcp.Transfer

/-!
This module contains an operating system that answers the calls of the TCP transport in any way it
likes and keeps a trace of them. The answers are functions of the trace, which is never the same
twice, so that these stand for every sequence of answers.
-/

namespace Modbus

inductive TcpEvent where
  | accept (peer : Int)
  | connect (peer : Int)
  | wait (peer : Int)
  | recv (peer : Int) (bytes : List UInt8)
  | send (peer : Int) (bytes : List UInt8)
  | close (peer : Int)
  deriving DecidableEq, Repr

namespace TcpEvent

/-- What the event does to a socket. A connection that is not established has none. -/
def access : TcpEvent → Option (Access Int)
  | accept peer | connect peer => if peer > 0 then some (.acquire peer) else none
  | wait peer | recv peer _ | send peer _ => some (.use peer)
  | close peer => some (.release peer)

def bytes : TcpEvent → List UInt8
  | recv _ bytes => bytes
  | _ => []

def accepted : TcpEvent → List UInt8
  | send _ bytes => bytes
  | _ => []

end TcpEvent

def accesses (trace : List TcpEvent) : List (Access Int) :=
  trace.filterMap TcpEvent.access

def consumed (trace : List TcpEvent) : List UInt8 :=
  trace.flatMap TcpEvent.bytes

def accepted (trace : List TcpEvent) : List UInt8 :=
  trace.flatMap TcpEvent.accepted

structure TcpEnv where
  port : MbalPort := .linux
  accept : List TcpEvent → Int
  connect : List TcpEvent → Int
  send : List TcpEvent → Int → List UInt8 → Int
  recv : List TcpEvent → Int → Nat → Option (List UInt8)
  select : List TcpEvent → Int → UInt32 → Int

/--
A call fails with -1, and no more is received or sent than was asked for. The trace has the bytes
that were received or accepted.
-/
def TcpEnv.os (env : TcpEnv) : TcpOs (List TcpEvent) where
  port := env.port
  acceptConnection _ trace := (env.accept trace, trace ++ [.accept (env.accept trace)])
  connect _ _ trace := (env.connect trace, trace ++ [.connect (env.connect trace)])
  close peer trace := trace ++ [.close peer]
  send peer buffer p remain trace :=
    let data := buffer.load p.toNat remain.toNat
    let n := max (-1) (min (env.send trace peer data) remain)
    (n, trace ++ [.send peer (data.take n.toNat)])
  recv peer _ remain trace :=
    let r := (env.recv trace peer remain.toNat).map (List.take remain.toNat)
    (r, trace ++ [.recv peer (r.getD [])])
  select peer tmo trace := (env.select trace peer tmo, trace ++ [.wait peer])

def sentEnv (stream : List UInt8) : TcpEnv where
  accept _ := 1
  connect _ := 1
  send _ _ p := p.length
  recv trace _ n := some ((stream.drop (consumed trace).length).take n)
  select trace _ _ := if (consumed trace).length < stream.length then 1 else 0

def Uses (peer : Int) (events : List TcpEvent) : Prop :=
  ∀ e ∈ events, e.access = some (.use peer)

theorem accesses_append (trace trace' : List TcpEvent)
    : accesses (trace ++ trace') = accesses trace ++ accesses trace' := by
  simp [accesses]

theorem Uses.append {peer : Int} {events events' : List TcpEvent} (h : Uses peer events)
    (h' : Uses peer events')
    : Uses peer (events ++ events') := by
  intro e he
  obtain he | he := List.mem_append.mp he
  . exact h e he
  . exact h' e he

theorem Uses.accesses {peer : Int} {events : List TcpEvent} (h : Uses peer events)
    : ∀ e ∈ accesses events, e = .use peer := by
  intro e he
  obtain ⟨event, hevent, haccess⟩ := List.mem_filterMap.mp he
  rw [h event hevent] at haccess
  injection haccess with haccess
  exact haccess.symm

section Transfer

variable (env : TcpEnv) (peer : Int)

theorem allowed_env_send (buffer : Mem) : AllowedResults (env.os.send peer buffer) := by
  intro p remain trace
  simp only [TcpEnv.os]
  omega

theorem allowed_env_recv : AllowedResults (osTcpRecv.recv env.os peer) := by
  apply allowed_recv
  intro p remain trace bs hbs
  obtain ⟨bs', -, rfl⟩ := Option.mem_map.mp hbs
  apply List.length_take_le

def UsedSince (trace trace' : List TcpEvent) : Prop :=
  ∃ (events : List TcpEvent), Uses peer events ∧ trace' = trace ++ events

variable {peer}

theorem UsedSince.concat {trace trace' : List TcpEvent} (h : UsedSince peer trace trace')
    {e : TcpEvent} (he : e.access = some (.use peer))
    : UsedSince peer trace (trace' ++ [e]) := by
  obtain ⟨events, huses, rfl⟩ := h
  refine ⟨events ++ [e], huses.append ?_, by rw [List.append_assoc]⟩
  simpa [Uses] using he

variable (peer)

theorem osTcpSend_env (buffer : Mem) (size : Nat) (trace : List TcpEvent)
    : ∃ (n : Int) (events : List TcpEvent),
        osTcpSend env.os peer buffer size trace = some (n, trace ++ events)
          ∧
        Uses peer events := by
  have hused {p remain n : Int} {trace' trace'' : List TcpEvent} (h : UsedSince peer trace trace')
      (hsend : env.os.send peer buffer p remain trace' = (n, trace''))
      : UsedSince peer trace trace'' := by
    cases hsend
    exact h.concat rfl
  obtain ⟨p, remain, trace', n, trace'', h, hsend, -, hgo⟩ :=
    @osTcpTransfer.go_rule _ env.port _ (allowed_env_send env peer buffer) size
      (fun _ _ trace' => UsedSince peer trace trace')
      (fun _ _ _ _ _ h hsend _ _ => hused h hsend)
      (size + 1) 0 (env.port.remain size) trace ⟨[], by simp [Uses], by simp⟩
      (by have hle := env.port.remain_le size; omega)
      (fun n h1 h2 => env.port.remain_of_le h1 h2)
  obtain ⟨events, huses, rfl⟩ := hused h hsend
  exact ⟨_, events, hgo, huses⟩

theorem osTcpRecv_env (buffer : Mem) {size : Nat} (hsize : size < 2 ^ 31) (trace : List TcpEvent)
    : ∃ (n : Int) (buffer' : Mem) (events : List TcpEvent),
        osTcpRecv env.os peer buffer size trace = some (n, buffer', trace ++ events)
          ∧
        Uses peer events
          ∧
        (n = size ∨ n ≤ 0) := by
  have hused {p remain n : Int} {r r' : Mem × List TcpEvent} (h : UsedSince peer trace r.2)
      (hrecv : osTcpRecv.recv env.os peer p remain r = (n, r'))
      : UsedSince peer trace r'.2 := by
    cases hrecv
    exact h.concat rfl
  obtain ⟨n, ⟨buffer', trace'⟩, hgo, hends⟩ :=
    @osTcpTransfer_rule _ env.port _ (allowed_env_recv env peer) _ hsize
      (fun _ r => UsedSince peer trace r.2)
      (fun _ _ _ _ _ h hrecv _ => hused h hrecv)
      (buffer, trace) ⟨[], by simp [Uses], by simp⟩
  have hend : UsedSince peer trace trace' ∧ (n = size ∨ n ≤ 0) := by
    cases hends with
    | whole _ h => exact ⟨h, .inl rfl⟩
    | failed _ h hrecv hn => exact ⟨hused h hrecv, .inr hn⟩
  obtain ⟨⟨events, huses, rfl⟩, hn⟩ := hend
  exact ⟨n, buffer', events, hgo, huses, hn⟩

end Transfer

/--
What transmitting and receiving do to the transport: they use the socket of the transaction, and may
end with closing it, after which the transport is down.
-/
structure Touches (peer : Int) (closes : Prop) (t t' : MbTcp (List TcpEvent)) : Prop where
  isServer : t'.isServer = t.isServer
  port : t'.port = t.port
  kept : ¬closes → t'.isDown = t.isDown ∧ ∃ events, Uses peer events ∧ t'.net = t.net ++ events
  closed : closes → t'.isDown = true ∧
    ∃ events, Uses peer events ∧ t'.net = t.net ++ events ++ [.close peer]

theorem Touches.holds {peer : Int} {closes : Prop} {t t' : MbTcp (List TcpEvent)}
    (h : Touches peer closes t t') (hup : t.isDown = false)
    (hholds : Access.Holds (accesses t.net) (some peer))
    : Access.Holds (accesses t'.net) (if t'.isDown then none else some peer) := by
  by_cases hcloses : closes
  . obtain ⟨hdown, events, huses, hnet⟩ := h.closed hcloses
    rw [hdown, hnet, accesses_append, accesses_append]
    exact (hholds.uses huses.accesses).release
  . obtain ⟨hdown, events, huses, hnet⟩ := h.kept hcloses
    rw [hdown, hup, hnet, accesses_append]
    exact hholds.uses huses.accesses

section Tcp

variable (host : Endian) (transaction : Txn)

def mbTcpMessage (size : Nat) (mbap : Mem) : Mem :=
  let mbap := mbap.store16 host 0 (ccToBe16 host transaction.id)
  let mbap := mbap.store16 host 4 (ccToBe16 host (UInt16.ofNat size + 1))
  let mbap := mbap.store16 host 2 0
  let mbap := mbap.store 6 transaction.unit
  mbap.copy mbapHeaderSize (transaction.data.load 0 size)

theorem mbTcpTx_eq {ω : Type} (os : TcpOs ω) (size : Nat) (t : MbTcp ω)
    : mbTcpTx os host transaction size t
        =
      match osTcpSend os transaction.arg (mbTcpMessage host transaction size t.mbap)
          (mbapHeaderSize + size) t.net with
      | none => none
      | some (result, net) =>
        if result ≤ 0 then
          some
            { t with
              mbap := mbTcpMessage host transaction size t.mbap
              net := os.close transaction.arg net
              isDown := true }
        else
          some { t with mbap := mbTcpMessage host transaction size t.mbap, net } := by
  rfl

variable (env : TcpEnv) (t : MbTcp (List TcpEvent))

def SendFails (size : Nat) : Prop :=
  ∃ (n : Int) (trace : List TcpEvent),
    osTcpSend env.os transaction.arg (mbTcpMessage host transaction size t.mbap)
        (mbapHeaderSize + size) t.net
      =
    some (n, trace)
      ∧
    n ≤ 0

theorem mbTcpTx_env (size : Nat)
    : ∃ (t' : MbTcp (List TcpEvent)),
        mbTcpTx env.os host transaction size t = some t'
          ∧
        t'.mbap = mbTcpMessage host transaction size t.mbap
          ∧
        Touches transaction.arg (SendFails host transaction env t size) t t' := by
  obtain ⟨n, events, hsend, huses⟩ := osTcpSend_env env transaction.arg
    (mbTcpMessage host transaction size t.mbap) (mbapHeaderSize + size) t.net
  have hfails : SendFails host transaction env t size ↔ n ≤ 0 := by
    unfold SendFails
    rw [hsend]
    simp
  rw [mbTcpTx_eq, hsend]
  dsimp only
  split
  . next hle =>
    refine ⟨_, rfl, rfl, rfl, rfl, ?_, ?_⟩
    . intro hnot
      exact absurd (hfails.mpr hle) hnot
    . intro _
      exact ⟨rfl, events, huses, rfl⟩
  . next hgt =>
    refine ⟨_, rfl, rfl, rfl, rfl, ?_, ?_⟩
    . intro _
      exact ⟨rfl, events, huses, rfl⟩
    . intro hclosed
      exact absurd (hfails.mp hclosed) hgt

/--
Receiving fails with a communication error, after which nothing but the data may have changed, or
returns the size of a message and takes over its id and its unit. The socket is closed only if it
fails.
-/
structure Receives (tmo : UInt32) (result : Int) (transaction' : Txn)
    (t' : MbTcp (List TcpEvent)) : Prop where
  arg : transaction'.arg = transaction.arg
  touches : ∃ (closes : Prop), (closes → result = eFrameNok) ∧
    Touches transaction.arg closes t t'
  timeout : result = eTimeout ↔ env.select t.net transaction.arg (tmo * 1000) = 0
  timeout_eq : result = eTimeout → transaction' = transaction ∧
    t'.net = t.net ++ [.wait transaction.arg]
  failed : result < 0 → (result = eFrameNok ∨ result = eTimeout) ∧
    transaction'.id = transaction.id
  received : 0 ≤ result → 1 ≤ result ∧ result ≤ maxPduSize ∧
    transaction'.id = ccFromBe16 host (t'.mbap.load16 host 0)

theorem receives_frameNok (closes : Prop) {tmo : UInt32} {transaction' : Txn}
    {t' : MbTcp (List TcpEvent)} (harg : transaction'.arg = transaction.arg)
    (hid : transaction'.id = transaction.id)
    (hselect : env.select t.net transaction.arg (tmo * 1000) ≠ 0)
    (htouches : Touches transaction.arg closes t t')
    : Receives host transaction env t tmo eFrameNok transaction' t' := by
  refine ⟨harg, ⟨closes, fun _ => rfl, htouches⟩, ?_, ?_, ?_, ?_⟩
  . exact iff_of_false (by decide) hselect
  . intro h
    exact absurd h (by decide)
  . intro _
    exact ⟨.inl rfl, hid⟩
  . intro h
    exact absurd h (by decide)

theorem mbTcpPduSize_le (mbap : Mem) : mbTcpPduSize host mbap ≤ maxPduSize := by
  unfold mbTcpPduSize
  dsimp only
  split
  . exact Nat.le_refl _
  . omega

theorem mbTcpPduSize_lt (mbap : Mem) : mbTcpPduSize host mbap < 2 ^ 31 := by
  apply Nat.lt_of_le_of_lt (mbTcpPduSize_le host mbap)
  decide

theorem mbTcpRx_env (tmo : UInt32)
    : ∃ (result : Int) (transaction' : Txn) (t' : MbTcp (List TcpEvent)),
        mbTcpRx env.os host transaction tmo t = some (result, transaction', t')
          ∧
        Receives host transaction env t tmo result transaction' t' := by
  have hwait : osTcpRecvWait env.os transaction.arg tmo t.net
      =
      (env.select t.net transaction.arg (tmo * 1000), t.net ++ [.wait transaction.arg]) := rfl
  have huse : Uses transaction.arg [.wait transaction.arg] := by
    simp [Uses, TcpEvent.access]
  unfold mbTcpRx
  dsimp only
  rw [hwait]
  dsimp only
  split
  . next hfail =>
    refine ⟨_, _, _, rfl, ?_⟩
    apply receives_frameNok host transaction env t True
    . rfl
    . rfl
    . omega
    . exact ⟨rfl, rfl, nofun, fun _ => ⟨rfl, _, huse, rfl⟩⟩
  . split
    . next hfail htimeout =>
      refine ⟨_, _, _, rfl, rfl, ⟨False, nofun, ⟨rfl, rfl, ?_, nofun⟩⟩, ?_, ?_, ?_, ?_⟩
      . intro _
        exact ⟨rfl, _, huse, rfl⟩
      . exact iff_of_true rfl htimeout
      . intro _
        exact ⟨rfl, rfl⟩
      . intro _
        exact ⟨.inr rfl, rfl⟩
      . intro h
        exact absurd h (by decide)
    . next hfail hready =>
      obtain ⟨n, mbap, events, hheader, huses, hn⟩ := @osTcpRecv_env env transaction.arg t.mbap
        mbapHeaderSize (by decide) (t.net ++ [.wait transaction.arg])
      rw [hheader]
      dsimp only
      by_cases hfull : n = mbapHeaderSize
      . rw [if_pos hfull, if_pos hfull]
        obtain ⟨m, data, events', hmessage, huses', hm⟩ := osTcpRecv_env env transaction.arg
          transaction.data (mbTcpPduSize_lt host mbap) (t.net ++ [.wait transaction.arg] ++ events)
        have hall := (huse.append huses).append huses'
        rw [hmessage]
        dsimp only
        split
        . refine ⟨_, _, _, rfl, ?_⟩
          apply receives_frameNok host transaction env t True
          . rfl
          . rfl
          . exact hready
          . exact ⟨rfl, rfl, nofun, fun _ => ⟨rfl, _, hall, by simp [TcpEnv.os]⟩⟩
        . split
          . refine ⟨_, _, _, rfl, ?_⟩
            apply receives_frameNok host transaction env t False
            . rfl
            . rfl
            . exact hready
            . exact ⟨rfl, rfl, fun _ => ⟨rfl, _, hall, by simp⟩, nofun⟩
          . have hle := mbTcpPduSize_le host mbap
            refine ⟨_, _, _, rfl, rfl, ⟨False, nofun, ⟨rfl, rfl, ?_, nofun⟩⟩, ?_, ?_, ?_, ?_⟩
            . intro _
              exact ⟨rfl, _, hall, by simp⟩
            . exact iff_of_false (by simp only [eTimeout]; omega) hready
            . intro h
              simp only [eTimeout] at h
              omega
            . intro h
              omega
            . intro _
              exact ⟨by omega, by omega, rfl⟩
      . rw [if_neg hfull, if_neg hfull]
        dsimp only
        rw [if_pos (by omega)]
        refine ⟨_, _, _, rfl, ?_⟩
        apply receives_frameNok host transaction env t True
        . rfl
        . rfl
        . exact hready
        . exact ⟨rfl, rfl, nofun, fun _ => ⟨rfl, _, huse.append huses, by simp [TcpEnv.os]⟩⟩

end Tcp

end Modbus

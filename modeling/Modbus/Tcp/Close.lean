import Modbus.Tcp.Handles

/-!
This module contains what becomes of the socket of a handle that is used once and disconnected. The
transport closes it when a request cannot be sent, which the master is not told.
-/

namespace Modbus

section Close

variable (env : TcpEnv) (host : Endian)

/--
The operation returns, and once the handle is disconnected its socket has been closed exactly once
and was not used afterwards.
-/
def ClosesOnce (op : MbusOp) (slave : Int) (mbus : Mbus) (t : MbTcp (List TcpEvent)) : Prop :=
  ∃ (result : Int) (mbus' : Mbus) (t' : MbTcp (List TcpEvent)) (events : List TcpEvent),
    op.run (mbTcp env.os host) host slave mbus t = some (result, mbus', t')
      ∧
    (mbusDisconnect (mbTcp env.os host) slave t').2.net = t.net ++ events
      ∧
    Access.ReleasedLast (accesses events) slave

theorem mbTcpRx_waits {transaction : Txn} {tmo : UInt32} {t : MbTcp (List TcpEvent)}
    {result : Int × Txn × MbTcp (List TcpEvent)}
    (h : mbTcpRx env.os host transaction tmo t = some result)
    : ∃ events, result.2.2.net = t.net ++ .wait transaction.arg :: events := by
  have hwait : osTcpRecvWait env.os transaction.arg tmo t.net
      =
      (env.select t.net transaction.arg (tmo * 1000), t.net ++ [.wait transaction.arg]) := rfl
  unfold mbTcpRx at h
  dsimp only at h
  rw [hwait] at h
  dsimp only at h
  split at h
  . cases h
    exact ⟨[.close transaction.arg], by simp [TcpEnv.os]⟩
  . split at h
    . cases h
      exact ⟨[], rfl⟩
    . obtain ⟨n, mbap, events, hheader, -, -⟩ := @osTcpRecv_env env transaction.arg t.mbap
        mbapHeaderSize (by decide) (t.net ++ [.wait transaction.arg])
      -- Whatever is received, the message or nothing, the trace is only added to.
      have hmessage : ∃ (m : Int) (data : Mem) (events' : List TcpEvent),
          (if n = mbapHeaderSize then
            osTcpRecv env.os transaction.arg transaction.data
              (if n = mbapHeaderSize then mbTcpPduSize host mbap else 0)
              (t.net ++ [.wait transaction.arg] ++ events)
          else
            some (n, transaction.data, t.net ++ [.wait transaction.arg] ++ events))
            =
          some (m, data, t.net ++ [.wait transaction.arg] ++ events ++ events') := by
        split
        . obtain ⟨m, data, events', hrecv, -, -⟩ := osTcpRecv_env env transaction.arg
            transaction.data (mbTcpPduSize_lt host mbap)
            (t.net ++ [.wait transaction.arg] ++ events)
          exact ⟨m, data, events', hrecv⟩
        . exact ⟨n, transaction.data, [], by rw [List.append_nil]⟩
      obtain ⟨m, data, events', hmessage⟩ := hmessage
      rw [hheader] at h
      dsimp only at h
      rw [hmessage] at h
      dsimp only at h
      split at h
      . cases h
        exact ⟨events ++ events' ++ [.close transaction.arg], by simp [TcpEnv.os]⟩
      . split at h
        . cases h
          exact ⟨events ++ events', by simp⟩
        . cases h
          exact ⟨events ++ events', by simp⟩

theorem mbusDisconnect_up (slave : Int) {t : MbTcp (List TcpEvent)} (hup : t.isDown = false)
    : (mbusDisconnect (mbTcp env.os host) slave t).2.net = t.net ++ [.close slave] := by
  simp only [mbusDisconnect, mbTransportShutdown, mbTcp, mbTcpShutdown, hup]
  rfl

theorem mbusDisconnect_down (slave : Int) {t : MbTcp (List TcpEvent)} (hdown : t.isDown = true)
    : (mbusDisconnect (mbTcp env.os host) slave t).2.net = t.net := by
  simp only [mbusDisconnect, mbTransportShutdown, mbTcp, mbTcpShutdown, hdown]
  rfl

theorem mbusDisconnect_net (slave : Int) (t : MbTcp (List TcpEvent))
    : ∃ events, (mbusDisconnect (mbTcp env.os host) slave t).2.net = t.net ++ events := by
  cases hdown : t.isDown with
  | true => exact ⟨[], by rw [mbusDisconnect_down env host slave hdown, List.append_nil]⟩
  | false => exact ⟨[.close slave], mbusDisconnect_up env host slave hdown⟩

/-- An operation that closes the socket last, or not at all, leaves the rest to the disconnect. -/
theorem Touches.closesOnce {slave : Int} {closes : Prop} {t t' : MbTcp (List TcpEvent)}
    (h : Touches slave closes t t') (hup : t.isDown = false)
    : ∃ events, (mbusDisconnect (mbTcp env.os host) slave t').2.net = t.net ++ events ∧
        Access.ReleasedLast (accesses events) slave := by
  by_cases hcloses : closes
  . obtain ⟨hdown, events, huses, hnet⟩ := h.closed hcloses
    refine ⟨events ++ [.close slave], ?_, ?_⟩
    . rw [mbusDisconnect_down env host slave hdown, hnet, List.append_assoc]
    . rw [accesses_append]
      exact Access.releasedLast_of_uses huses.accesses
  . obtain ⟨hdown, events, huses, hnet⟩ := h.kept hcloses
    refine ⟨events ++ [.close slave], ?_, ?_⟩
    . rw [mbusDisconnect_up env host slave (hdown.trans hup), hnet, List.append_assoc]
    . rw [accesses_append]
      exact Access.releasedLast_of_uses huses.accesses

theorem mbusExchange_of_sendFails {slave : Int} (hslave : slave ≠ 0) {mbus mbus' : Mbus}
    {size : Nat} {rxCount : Int} {t t' : MbTcp (List TcpEvent)}
    (h : mbusExchange (mbTcp env.os host) mbus slave size t = some (rxCount, mbus', t'))
    (hfails : SendFails host (mbus.request slave) env t size)
    : ∃ before after, t'.net = t.net ++ before ++ .close slave :: .wait slave :: after := by
  obtain ⟨t₁, htx, -, htouches⟩ := mbTcpTx_env host (mbus.request slave) env t size
  obtain ⟨-, events, -, hnet⟩ := htouches.closed hfails
  unfold mbusExchange at h
  dsimp only at h
  rw [mbPduTx_mbTcp, htx] at h
  dsimp only at h
  rw [if_pos hslave, mbPduRx_mbTcp] at h
  cases hrx : mbTcpRx env.os host (mbus.request slave) mbus.timeout t₁ with
  | none =>
    rw [hrx] at h
    contradiction
  | some r =>
    rw [hrx] at h
    cases h
    obtain ⟨after, hafter⟩ := mbTcpRx_waits env host hrx
    refine ⟨events, after, ?_⟩
    rw [hafter, hnet]
    simp [Mbus.request]

theorem MbusOp.effect_of_request {op : MbusOp} {slave : Int} {mbus : Mbus} {scratch : Mem}
    {size : Nat} (h : op.request host slave mbus.scratch = some (scratch, size))
    (t : MbTcp (List TcpEvent))
    : op.effect (mbTcp env.os host) host slave mbus t
        =
      (mbusExchange (mbTcp env.os host) { mbus with scratch } slave size t).map Prod.snd := by
  cases op with
  | table op => simp only [MbusOp.effect, h]
  | loopback n buffer => simp only [MbusOp.effect, h]
  | sendMsg msg n => contradiction
  | getMsg msg => contradiction

theorem Touches.refl (slave : Int) (t : MbTcp (List TcpEvent)) : Touches slave False t t := by
  refine ⟨rfl, rfl, ?_, nofun⟩
  intro _
  exact ⟨rfl, [], by simp [Uses], by simp⟩

theorem MbusOp.safe_of_sends {op : MbusOp} {slave : Int} {mbus : Mbus}
    {t : MbTcp (List TcpEvent)} (hup : t.isDown = false)
    (hsends : ∀ (scratch : Mem) (size : Nat),
      op.request host slave mbus.scratch = some (scratch, size) →
        ¬SendFails host ({ mbus with scratch }.request slave) env t size)
    : op.Safe env host slave mbus t := by
  cases op with
  | table op => exact fun scratch size hrequest => ⟨hup, hsends scratch size hrequest⟩
  | loopback n buffer => exact fun scratch size hrequest => ⟨hup, hsends scratch size hrequest⟩
  | sendMsg msg n => exact hup
  | getMsg msg => exact hup

end Close

/--
The socket of a handle whose connection is up is closed once and left alone afterwards if and only
if the request of the operation, if there is one, can be sent.
-/
theorem mbus_closesOnce_iff (env : TcpEnv) (host : Endian) (op : MbusOp) {slave : Int}
    (hslave : 0 < slave) (mbus : Mbus) {t : MbTcp (List TcpEvent)} (hup : t.isDown = false)
    : ClosesOnce env host op slave mbus t
        ↔
      ∀ (scratch : Mem) (size : Nat),
        op.request host slave mbus.scratch = some (scratch, size) →
          ¬SendFails host ({ mbus with scratch }.request slave) env t size := by
  constructor
  . rintro ⟨result, mbus', t', events, hrun, hnet, hlast⟩ scratch size hrequest hfails
    have heffect := op.run_effect (mbTcp env.os host) host slave mbus t
    rw [hrun, MbusOp.effect_of_request env host hrequest] at heffect
    obtain ⟨⟨rxCount, w⟩, hexchange, rfl⟩ := Option.map_eq_some_iff.mp heffect.symm
    obtain ⟨before, after, hafter⟩ :=
      mbusExchange_of_sendFails env host (by omega) hexchange hfails
    obtain ⟨rest, hrest⟩ := mbusDisconnect_net env host slave t'
    have hevents : events = before ++ .close slave :: .wait slave :: (after ++ rest) := by
      rw [hrest, hafter] at hnet
      simpa using hnet.symm
    have haccesses : accesses events
        = accesses before ++ .release slave :: .use slave :: accesses (after ++ rest) := by
      rw [hevents, accesses_append]
      rfl
    exact absurd (hlast.last _ _ haccesses).1 (by simp)
  . intro hsends
    obtain ⟨mbus', t', heffect, -, htouches⟩ := op.effect_env env host slave mbus t
    rw [← MbusOp.run_effect, Option.map_eq_some_iff] at heffect
    obtain ⟨⟨result, w⟩, hrun, rfl⟩ := heffect
    have hclosed : ∃ events,
        (mbusDisconnect (mbTcp env.os host) slave t').2.net = t.net ++ events ∧
          Access.ReleasedLast (accesses events) slave := by
      obtain rfl | ⟨-, closes, htouches⟩ := htouches (MbusOp.safe_of_sends env host hup hsends)
      . exact (Touches.refl slave t').closesOnce env host hup
      . exact htouches.closesOnce env host hup
    obtain ⟨events, hnet, hlast⟩ := hclosed
    exact ⟨result, mbus', t', events, hrun, hnet, hlast⟩

def silentEnv (sends : Bool) : TcpEnv where
  accept _ := 3
  connect _ := 3
  send _ _ p := if sends then p.length else -1
  recv _ _ _ := none
  select _ _ _ := 0

def connectedTcp (sends : Bool) : MbTcp (List TcpEvent) :=
  (mbusConnect (mbTcp (silentEnv sends).os .little) "192.168.10.101"
    (mbTcpInit 502 false (fun _ => 0) [])).2

theorem mbus_closesOnce_timeout
    : ClosesOnce (silentEnv true) .little (.table (.writeSingle (mbAddress 4 1) 7)) 3
        ⟨1000, ⟨0, 0, 0, fun _ => 0⟩, fun _ => 0x55⟩ (connectedTcp true) := by
  rw [mbus_closesOnce_iff _ _ _ (by decide) _ rfl]
  rintro scratch size hrequest ⟨n, trace, hsend, hle⟩
  have hsize : size = 5 := by
    injection hrequest with hrequest
    exact (congrArg Prod.snd hrequest).symm
  subst hsize
  cases hsend
  exact absurd hle (by decide)

theorem not_closesOnce_sendFails
    : ¬ClosesOnce (silentEnv false) .little (.table (.writeSingle (mbAddress 4 1) 7)) 3
        ⟨1000, ⟨0, 0, 0, fun _ => 0⟩, fun _ => 0x55⟩ (connectedTcp false) := by
  rintro ⟨result, mbus', t', events, hrun, hnet, hlast⟩
  have hclosed : ((MbusOp.table (.writeSingle (mbAddress 4 1) 7)).run
        (mbTcp (silentEnv false).os .little) .little 3
        ⟨1000, ⟨0, 0, 0, fun _ => 0⟩, fun _ => 0x55⟩ (connectedTcp false)).map
          (fun r => (mbusDisconnect (mbTcp (silentEnv false).os .little) 3 r.2.2).2.net)
        =
      some [.connect 3, .send 3 [], .close 3, .wait 3] := by
    rfl
  rw [hrun, Option.map_some, hnet] at hclosed
  have hevents : events = [.send 3 [], .close 3, .wait 3] := by
    injection hclosed with hclosed
    exact List.append_cancel_left hclosed
  have hsplit : accesses events = [Access.use 3] ++ .release 3 :: [.use 3] := by
    rw [hevents]
    rfl
  exact absurd (hlast.last _ _ hsplit).1 (by decide)

end Modbus

import Modbus.Master.Op
import Modbus.Tcp.Trace

/-!
This module contains a master with several handles on one TCP transport. A handle is the socket of
its connection, while there is one `is_down` flag for all of them. Where one handle is used after
the other the flag goes with the socket, otherwise it does not.
-/

namespace Modbus

inductive HandleStep where
  | connect (name : String)
  | operate (op : MbusOp) (slave : Int)
  | disconnect (slave : Int)

structure Session where
  mbus : Mbus
  tcp : MbTcp (List TcpEvent)
  -- The handles that are connected and have not been disconnected, oldest first
  handles : List Int

def HandleStep.run (env : TcpEnv) (host : Endian) (step : HandleStep) (s : Session)
    : Option Session :=
  match step with
  | connect name =>
    let r := mbusConnect (mbTcp env.os host) name s.tcp
    some { s with tcp := r.2, handles := if r.1 > 0 then s.handles ++ [r.1] else s.handles }
  | operate op slave =>
    match op.run (mbTcp env.os host) host slave s.mbus s.tcp with
    | none => none
    | some (_, mbus, tcp) => some { s with mbus, tcp }
  | disconnect slave =>
    let r := mbusDisconnect (mbTcp env.os host) slave s.tcp
    some { s with tcp := r.2, handles := s.handles.erase slave }

def EveryHandleStep (env : TcpEnv) (host : Endian) (P : HandleStep → Session → Session → Prop)
    : List HandleStep → Session → Prop
  | [], _ => True
  | step :: steps, s =>
    ∃ (s' : Session), step.run env host s = some s' ∧ P step s s' ∧
      EveryHandleStep env host P steps s'

def OwnEvents (slave : Int) (t t' : MbTcp (List TcpEvent)) : Prop :=
  ∃ events, t'.net = t.net ++ events ∧
    ∀ e ∈ events, e.access = some (.use slave) ∨ e = .close slave

theorem OwnEvents.refl (slave : Int) (t : MbTcp (List TcpEvent)) : OwnEvents slave t t := by
  exact ⟨[], by simp, by simp⟩

theorem OwnEvents.trans {slave : Int} {t t' t'' : MbTcp (List TcpEvent)} (h : OwnEvents slave t t')
    (h' : OwnEvents slave t' t'')
    : OwnEvents slave t t'' := by
  obtain ⟨events, hnet, hown⟩ := h
  obtain ⟨events', hnet', hown'⟩ := h'
  refine ⟨events ++ events', by rw [hnet', hnet, List.append_assoc], ?_⟩
  intro e he
  obtain he | he := List.mem_append.mp he
  . exact hown e he
  . exact hown' e he

namespace Touches

variable {slave : Int} {closes : Prop} {t t' : MbTcp (List TcpEvent)}

theorem ownEvents (h : Touches slave closes t t') : OwnEvents slave t t' := by
  by_cases hcloses : closes
  . obtain ⟨-, events, huses, hnet⟩ := h.closed hcloses
    refine ⟨events ++ [.close slave], by rw [hnet, List.append_assoc], ?_⟩
    intro e he
    obtain he | he := List.mem_append.mp he
    . exact .inl (huses e he)
    . exact .inr (List.mem_singleton.mp he)
  . obtain ⟨-, events, huses, hnet⟩ := h.kept hcloses
    exact ⟨events, hnet, fun e he => .inl (huses e he)⟩

theorem after {closes' : Prop} {t'' : MbTcp (List TcpEvent)} (h : Touches slave closes t t')
    (hkept : ¬closes) (h' : Touches slave closes' t' t'')
    : Touches slave closes' t t'' := by
  obtain ⟨hdown, events, huses, hnet⟩ := h.kept hkept
  refine ⟨h'.isServer.trans h.isServer, h'.port.trans h.port, ?_, ?_⟩
  . intro hcloses
    obtain ⟨hdown', events', huses', hnet'⟩ := h'.kept hcloses
    refine ⟨hdown'.trans hdown, events ++ events', huses.append huses', ?_⟩
    rw [hnet', hnet, List.append_assoc]
  . intro hcloses
    obtain ⟨hdown', events', huses', hnet'⟩ := h'.closed hcloses
    refine ⟨hdown', events ++ events', huses.append huses', ?_⟩
    rw [hnet', hnet]
    simp

end Touches

section Operate

variable (env : TcpEnv) (host : Endian)

/--
The operation may be done on a handle of which the connection is up, and if it waits for a response
then its request can be sent. An operation that fails before it uses the transport may always be
done.
-/
def MbusOp.Safe (op : MbusOp) (slave : Int) (mbus : Mbus) (t : MbTcp (List TcpEvent)) : Prop :=
  match op with
  | sendMsg _ _ | getMsg _ => t.isDown = false
  | _ =>
    ∀ (scratch : Mem) (size : Nat),
      op.request host slave mbus.scratch = some (scratch, size) →
        t.isDown = false ∧ ¬SendFails host ({ mbus with scratch }.request slave) env t size

def TouchesUp (slave : Int) (t t' : MbTcp (List TcpEvent)) : Prop :=
  t' = t ∨ (t.isDown = false ∧ ∃ closes, Touches slave closes t t')

variable {env host} in
theorem MbusOp.Safe.of_request {op : MbusOp} {slave : Int} {mbus : Mbus}
    {t : MbTcp (List TcpEvent)} (h : op.Safe env host slave mbus t) {scratch : Mem} {size : Nat}
    (hrequest : op.request host slave mbus.scratch = some (scratch, size))
    : t.isDown = false ∧ ¬SendFails host ({ mbus with scratch }.request slave) env t size := by
  cases op with
  | table op => exact h scratch size hrequest
  | loopback n buffer => exact h scratch size hrequest
  | sendMsg msg n => contradiction
  | getMsg msg => contradiction

theorem mbusExchange_env (mbus : Mbus) (slave : Int) (size : Nat) (t : MbTcp (List TcpEvent))
    : ∃ (rxCount : Int) (mbus' : Mbus) (t' : MbTcp (List TcpEvent)),
        mbusExchange (mbTcp env.os host) mbus slave size t = some (rxCount, mbus', t')
          ∧
        OwnEvents slave t t'
          ∧
        (¬SendFails host (mbus.request slave) env t size →
          ∃ closes, Touches slave closes t t') := by
  obtain ⟨t₁, htx, -, htouches₁⟩ := mbTcpTx_env host (mbus.request slave) env t size
  obtain ⟨rxCount, transaction, t₂, hrx, hreceives⟩ :=
    mbTcpRx_env host (mbus.request slave) env t₁ mbus.timeout
  obtain ⟨closes, -, htouches₂⟩ := hreceives.touches
  rw [← mbPduTx_mbTcp] at htx
  rw [← mbPduRx_mbTcp] at hrx
  by_cases hslave : slave = 0
  . refine ⟨_, _, _, mbusExchange_of_broadcast hslave htx, htouches₁.ownEvents, ?_⟩
    intro _
    exact ⟨_, htouches₁⟩
  . refine ⟨_, _, _, mbusExchange_of_rx hslave htx hrx, ?_, ?_⟩
    . exact htouches₁.ownEvents.trans htouches₂.ownEvents
    . intro hsends
      exact ⟨closes, htouches₁.after hsends htouches₂⟩

theorem MbusOp.effect_env (op : MbusOp) (slave : Int) (mbus : Mbus) (t : MbTcp (List TcpEvent))
    : ∃ (mbus' : Mbus) (t' : MbTcp (List TcpEvent)),
        op.effect (mbTcp env.os host) host slave mbus t = some (mbus', t')
          ∧
        OwnEvents slave t t'
          ∧
        (op.Safe env host slave mbus t → TouchesUp slave t t') := by
  obtain heffect | ⟨scratch, size, hrequest, heffect⟩ | ⟨msg, size, rfl⟩ | ⟨msg, rfl⟩ :=
    op.effect_cases (mbTcp env.os host) host slave mbus t
  . exact ⟨mbus, t, heffect, .refl slave t, fun _ => .inl rfl⟩
  . obtain ⟨rxCount, mbus', t', hexchange, hown, htouches⟩ :=
      mbusExchange_env env host { mbus with scratch } slave size t
    refine ⟨mbus', t', ?_, hown, ?_⟩
    . rw [heffect, hexchange]
      rfl
    . intro hsafe
      obtain ⟨hup, hsends⟩ := hsafe.of_request hrequest
      exact .inr ⟨hup, htouches hsends⟩
  . obtain ⟨t', htx, -, htouches⟩ :=
      mbTcpTx_env host { mbus.request slave with data := msg } env t size.toNat
    simp only [MbusOp.effect, mbPduTx_mbTcp, htx]
    exact ⟨_, t', rfl, htouches.ownEvents, fun hup => .inr ⟨hup, _, htouches⟩⟩
  . obtain ⟨result, transaction', t', hrx, hreceives⟩ := mbTcpRx_env host
      { mbus.transaction with arg := slave, data := msg, unit := UInt8.ofInt slave } env t
      mbus.timeout
    obtain ⟨closes, -, htouches⟩ := hreceives.touches
    simp only [MbusOp.effect, mbPduRx_mbTcp, hrx]
    exact ⟨_, t', rfl, htouches.ownEvents, fun hup => .inr ⟨hup, closes, htouches⟩⟩

end Operate

/--
A master that uses one handle after the other: the transport is up exactly as long as the socket of
the handle is open.
-/
structure Session.Single (live : Option Int) (s : Session) : Prop where
  handles : s.handles = live.toList
  isServer : s.tcp.isServer = false
  holds : Access.Holds (accesses s.tcp.net) (if s.tcp.isDown then none else live)
  latest : ∀ h ∈ live, Access.Latest (accesses s.tcp.net) h
  down : live = none → s.tcp.isDown = true

def OnHandle (step : HandleStep) (s : Session) : Prop :=
  match step with
  | .connect _ => True
  | .operate _ slave | .disconnect slave => slave ∈ s.handles

/--
A handle is connected after all others have been disconnected, or the connection is refused, and it
is used with care.
-/
def OneByOne (env : TcpEnv) (host : Endian) (step : HandleStep) (s : Session) : Prop :=
  match step with
  | .connect _ => s.handles = [] ∨ env.connect s.tcp.net ≤ 0
  | .operate op slave => op.Safe env host slave s.mbus s.tcp
  | .disconnect _ => True

/--
A step on a handle closes no other socket, and once a handle is disconnected its socket has been
closed exactly once.
-/
structure Independent (step : HandleStep) (s s' : Session) : Prop where
  own : ∀ (slave : Int), ((∃ op, step = .operate op slave) ∨ step = .disconnect slave) →
    ∃ events, s'.tcp.net = s.tcp.net ++ events ∧
      ∀ (peer : Int), .close peer ∈ events → peer = slave
  closed : ∀ (slave : Int), step = .disconnect slave →
    Access.ReleasedOnce (accesses s'.tcp.net) slave

theorem OwnEvents.own {slave : Int} {t t' : MbTcp (List TcpEvent)} (h : OwnEvents slave t t')
    : ∃ events, t'.net = t.net ++ events ∧ ∀ (peer : Int), .close peer ∈ events → peer = slave := by
  obtain ⟨events, hnet, hown⟩ := h
  refine ⟨events, hnet, ?_⟩
  intro peer hclose
  obtain haccess | heq := hown _ hclose
  . simp [TcpEvent.access] at haccess
  . injection heq

theorem HandleStep.run_connect (env : TcpEnv) (host : Endian) {s : Session}
    (hclient : s.tcp.isServer = false) (name : String)
    : (HandleStep.connect name).run env host s
        =
      let peer := env.connect s.tcp.net
      some
        {
          s with
          tcp :=
            {
              s.tcp with
              isDown := if 0 < peer then false else s.tcp.isDown
              net := s.tcp.net ++ [.connect peer]
            }
          handles := if 0 < peer then s.handles ++ [peer] else s.handles
        } := by
  simp only [HandleStep.run, mbusConnect, mbTransportBringup, mbTcp, mbTcpBringup, hclient,
    Bool.false_eq_true, ↓reduceIte, TcpEnv.os]
  by_cases hpos : 0 < env.connect s.tcp.net
  . simp only [hpos, ↓reduceIte]
  . simp only [hpos, ↓reduceIte]

section Steps

variable (env : TcpEnv) (host : Endian) {live : Option Int} {s : Session} (h : s.Single live)

include h

theorem Session.Single.connect_refused (name : String) (hrefused : env.connect s.tcp.net ≤ 0)
    : ∃ (s' : Session), (HandleStep.connect name).run env host s = some s' ∧ s'.Single live := by
  have haccesses : accesses (s.tcp.net ++ [.connect (env.connect s.tcp.net)])
      =
      accesses s.tcp.net := by
    simp only [accesses_append]
    simp [accesses, TcpEvent.access, Int.not_lt.mpr hrefused]
  have hnot := Int.not_lt.mpr hrefused
  rw [HandleStep.run_connect env host h.isServer]
  dsimp only
  rw [if_neg hnot, if_neg hnot]
  refine ⟨_, rfl, h.handles, h.isServer, ?_, ?_, h.down⟩
  . rw [haccesses]
    exact h.holds
  . rw [haccesses]
    exact h.latest

theorem Session.Single.connect_first (name : String) (hnone : s.handles = [])
    (hpos : 0 < env.connect s.tcp.net)
    : ∃ (s' : Session),
        (HandleStep.connect name).run env host s = some s' ∧
          s'.Single (some (env.connect s.tcp.net)) := by
  have hlive : live = none := by
    rw [h.handles] at hnone
    cases live with
    | none => rfl
    | some slave => simp at hnone
  have hholds := h.holds
  rw [h.down hlive] at hholds
  have hacquire := hholds.acquire (env.connect s.tcp.net)
  have haccesses : accesses (s.tcp.net ++ [.connect (env.connect s.tcp.net)])
      =
      accesses s.tcp.net ++ [.acquire (env.connect s.tcp.net)] := by
    simp only [accesses_append]
    simp [accesses, TcpEvent.access, hpos]
  rw [HandleStep.run_connect env host h.isServer]
  dsimp only
  rw [if_pos hpos, if_pos hpos]
  refine ⟨_, rfl, ?_, h.isServer, ?_, ?_, by simp⟩
  . simp [hnone]
  . rw [haccesses]
    exact hacquire
  . intro slave hslave
    rw [haccesses]
    exact hacquire.latest slave hslave

theorem Session.Single.connect (name : String)
    (hone : s.handles = [] ∨ env.connect s.tcp.net ≤ 0)
    : ∃ (live' : Option Int) (s' : Session),
        (HandleStep.connect name).run env host s = some s' ∧ s'.Single live' := by
  by_cases hpos : 0 < env.connect s.tcp.net
  . obtain ⟨s', hrun, hsingle⟩ :=
      h.connect_first env host name (hone.resolve_right (Int.not_le.mpr hpos)) hpos
    exact ⟨_, s', hrun, hsingle⟩
  . obtain ⟨s', hrun, hsingle⟩ := h.connect_refused env host name (by omega)
    exact ⟨live, s', hrun, hsingle⟩

theorem Session.Single.live_eq {slave : Int} (hslave : slave ∈ s.handles) : live = some slave := by
  rw [h.handles] at hslave
  cases live with
  | none => simp at hslave
  | some slave' =>
    rw [Option.toList_some, List.mem_singleton] at hslave
    rw [hslave]

theorem Session.Single.touches {slave : Int} (hslave : live = some slave) {mbus : Mbus}
    {t : MbTcp (List TcpEvent)} (htouches : TouchesUp slave s.tcp t)
    : ({ s with mbus, tcp := t } : Session).Single live := by
  subst hslave
  obtain rfl | ⟨hup, closes, htouches⟩ := htouches
  . exact ⟨h.handles, h.isServer, h.holds, h.latest, nofun⟩
  . have hholds := h.holds
    have hlatest := h.latest slave rfl
    rw [hup] at hholds
    refine ⟨h.handles, htouches.isServer.trans h.isServer, ?_, ?_, nofun⟩
    . exact htouches.holds hup hholds
    . intro slave' hslave'
      cases hslave'
      obtain ⟨events, hnet, hown⟩ := htouches.ownEvents
      dsimp only
      rw [hnet, accesses_append]
      apply hlatest.append
      intro peer hmem
      obtain ⟨e, he, haccess⟩ := List.mem_filterMap.mp hmem
      obtain huse | hclose := hown e he
      . rw [huse] at haccess
        simp at haccess
      . rw [hclose] at haccess
        simp [TcpEvent.access] at haccess

theorem Session.Single.operate (op : MbusOp) {slave : Int} (hslave : slave ∈ s.handles)
    (hsafe : op.Safe env host slave s.mbus s.tcp)
    : ∃ (s' : Session),
        (HandleStep.operate op slave).run env host s = some s' ∧ s'.Single live ∧
          OwnEvents slave s.tcp s'.tcp := by
  obtain ⟨mbus', t', heffect, hown, htouches⟩ := op.effect_env env host slave s.mbus s.tcp
  rw [← MbusOp.run_effect, Option.map_eq_some_iff] at heffect
  obtain ⟨⟨result, w⟩, hrun, rfl⟩ := heffect
  simp only [HandleStep.run, hrun]
  exact ⟨_, rfl, h.touches (h.live_eq hslave) (htouches hsafe), hown⟩

theorem Session.Single.disconnect {slave : Int} (hslave : slave ∈ s.handles)
    : ∃ (s' : Session),
        (HandleStep.disconnect slave).run env host s = some s' ∧ s'.Single none ∧
          OwnEvents slave s.tcp s'.tcp ∧ Access.ReleasedOnce (accesses s'.tcp.net) slave := by
  have hlive := h.live_eq hslave
  subst hlive
  have hholds := h.holds
  have hlatest := h.latest slave rfl
  have herase : s.handles.erase slave = [] := by
    rw [h.handles]
    simp
  simp only [HandleStep.run, mbusDisconnect, mbTransportShutdown, mbTcp, mbTcpShutdown]
  cases hdown : s.tcp.isDown with
  | true =>
    rw [hdown] at hholds
    simp only [Bool.true_eq_false, ↓reduceIte]
    refine ⟨_, rfl, ⟨herase, h.isServer, ?_, nofun, fun _ => hdown⟩, .refl slave _, ?_⟩
    . dsimp only
      rw [hdown]
      exact hholds
    . apply hholds.proper.releasedOnce hlatest
      rw [hholds.leaves slave]
      simp
  | false =>
    rw [hdown] at hholds
    have hreleased := hholds.release
    have haccesses : accesses (s.tcp.net ++ [.close slave])
        =
        accesses s.tcp.net ++ [.release slave] := by
      simp [accesses, TcpEvent.access]
    rw [← haccesses] at hreleased
    simp only [↓reduceIte, TcpEnv.os]
    refine ⟨_, rfl, ⟨herase, h.isServer, hreleased, nofun, fun _ => rfl⟩, ?_, ?_⟩
    . exact ⟨[.close slave], rfl, by simp⟩
    . apply hreleased.proper.releasedOnce
      . rw [haccesses]
        exact hlatest.append (by simp)
      . rw [hreleased.leaves slave]
        simp

end Steps

theorem Session.Single.independent (env : TcpEnv) (host : Endian) {live : Option Int} {s : Session}
    (h : s.Single live) {step : HandleStep} (hon : OnHandle step s)
    (hone : OneByOne env host step s)
    : ∃ (live' : Option Int) (s' : Session),
        step.run env host s = some s' ∧ s'.Single live' ∧ Independent step s s' := by
  cases step with
  | connect name =>
    obtain ⟨live', s', hrun, hsingle⟩ := h.connect env host name hone
    refine ⟨live', s', hrun, hsingle, ?_, nofun⟩
    intro slave hstep
    obtain ⟨op, hstep⟩ | hstep := hstep
    . contradiction
    . contradiction
  | operate op slave =>
    obtain ⟨s', hrun, hsingle, hown⟩ := h.operate env host op hon hone
    refine ⟨live, s', hrun, hsingle, ?_, nofun⟩
    intro slave' hstep
    obtain ⟨op', hstep⟩ | hstep := hstep
    . injection hstep with _ hslave
      rw [← hslave]
      exact hown.own
    . contradiction
  | disconnect slave =>
    obtain ⟨s', hrun, hsingle, hown, hreleased⟩ := h.disconnect env host hon
    refine ⟨none, s', hrun, hsingle, ?_, ?_⟩
    . intro slave' hstep
      obtain ⟨op', hstep⟩ | hstep := hstep
      . contradiction
      . injection hstep with hslave
        rw [← hslave]
        exact hown.own
    . intro slave' hstep
      injection hstep with hslave
      rw [← hslave]
      exact hreleased

theorem Session.Single.everyHandleStep (env : TcpEnv) (host : Endian) {live : Option Int}
    {s : Session} (h : s.Single live) {steps : List HandleStep}
    (hsteps : EveryHandleStep env host
      (fun step s _ => OnHandle step s ∧ OneByOne env host step s) steps s)
    : EveryHandleStep env host Independent steps s := by
  induction steps generalizing live s with
  | nil => trivial
  | cons step steps ih =>
    obtain ⟨s', hrun, ⟨hon, hone⟩, hrest⟩ := hsteps
    obtain ⟨live', s'', hrun', hsingle, hindependent⟩ := h.independent env host hon hone
    rw [hrun] at hrun'
    injection hrun' with heq
    rw [← heq] at hsingle hindependent
    exact ⟨s', hrun, hindependent, ih hsingle hrest⟩

/--
In a run in which no handle is connected before all others have been disconnected, and none is used
any more once its connection has failed, every handle that is disconnected has been closed exactly
once, and no step on a handle closes another one.
-/
theorem mbus_handles_independent (env : TcpEnv) (host : Endian) (steps : List HandleStep)
    (mbus : Mbus) (port : UInt16) (mbap : Mem)
    (hsteps : EveryHandleStep env host
      (fun step s _ => OnHandle step s ∧ OneByOne env host step s) steps
      { mbus, tcp := mbTcpInit port false mbap [], handles := [] })
    : EveryHandleStep env host Independent steps
        { mbus, tcp := mbTcpInit port false mbap [], handles := [] } := by
  have hsingle : ({ mbus, tcp := mbTcpInit port false mbap [], handles := [] } : Session).Single
      none := by
    exact ⟨rfl, rfl, Access.Holds.nil, nofun, fun _ => rfl⟩
  exact hsingle.everyHandleStep env host hsteps

def socketsEnv : TcpEnv :=
  { sentEnv [0, 1, 0, 0, 0, 2, 1, 7] with connect := fun trace => 3 + trace.length }

def freshSession : Session :=
  {
    mbus := ⟨1000, ⟨0, 0, 0, fun _ => 0⟩, fun _ => 0x55⟩
    tcp := mbTcpInit 502 false (fun _ => 0) []
    handles := []
  }

def refusingEnv : TcpEnv :=
  { socketsEnv with
    connect := fun trace => if trace.length = 1 then -1 else socketsEnv.connect trace }

theorem mbus_handles_independent_message
    : EveryHandleStep refusingEnv .little Independent
        [.connect "a", .connect "b", .operate (.sendMsg (fun _ => 0) 2) 3,
          .operate (.getMsg (fun _ => 0)) 3, .disconnect 3, .connect "b",
          .operate (.sendMsg (fun _ => 0) 2) 10, .disconnect 10]
        freshSession := by
  apply mbus_handles_independent
  refine ⟨_, rfl, ⟨trivial, .inl rfl⟩, ?_⟩
  refine ⟨_, rfl, ⟨trivial, .inr (by decide)⟩, ?_⟩
  refine ⟨_, rfl, ⟨List.mem_singleton_self 3, rfl⟩, ?_⟩
  refine ⟨_, rfl, ⟨List.mem_singleton_self 3, rfl⟩, ?_⟩
  refine ⟨_, rfl, ⟨List.mem_singleton_self 3, trivial⟩, ?_⟩
  refine ⟨_, rfl, ⟨trivial, .inl rfl⟩, ?_⟩
  refine ⟨_, rfl, ⟨List.mem_singleton_self 10, rfl⟩, ?_⟩
  refine ⟨_, rfl, ⟨List.mem_singleton_self 10, trivial⟩, ?_⟩
  trivial

theorem not_independent_two_handles
    : EveryHandleStep socketsEnv .little (fun step s _ => OnHandle step s)
          [.connect "a", .connect "b", .disconnect 3, .disconnect 4] freshSession
        ∧
      ¬EveryHandleStep socketsEnv .little Independent
          [.connect "a", .connect "b", .disconnect 3, .disconnect 4] freshSession := by
  constructor
  . refine ⟨_, rfl, trivial, ?_⟩
    refine ⟨_, rfl, trivial, ?_⟩
    refine ⟨_, rfl, List.mem_cons_self, ?_⟩
    refine ⟨_, rfl, List.mem_singleton_self 4, ?_⟩
    trivial
  . intro ⟨s₁, hrun₁, _, s₂, hrun₂, _, s₃, hrun₃, _, s₄, hrun₄, hindependent, _⟩
    injection hrun₁ with hrun₁
    rw [← hrun₁] at hrun₂
    injection hrun₂ with hrun₂
    rw [← hrun₂] at hrun₃
    injection hrun₃ with hrun₃
    rw [← hrun₃] at hrun₄
    injection hrun₄ with hrun₄
    obtain ⟨before, after, hlog, -, hcount⟩ := hindependent.closed 4 rfl
    rw [← hrun₄] at hlog
    have hmem : Access.release 4 ∈
        [Access.acquire 3, Access.acquire 4, Access.release (3 : Int)] := by
      change [Access.acquire 3, Access.acquire 4, Access.release (3 : Int)] = _ at hlog
      rw [hlog]
      have hpos : 0 < after.count (Access.release 4) := by omega
      simp [List.count_pos_iff.mp hpos]
    exact absurd hmem (by decide)

end Modbus

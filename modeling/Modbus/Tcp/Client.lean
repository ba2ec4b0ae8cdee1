import Modbus.Master.Op
import Modbus.Tcp.Responder
import Modbus.Tcp.Sync

/-!
This module contains a master that uses a TCP connection to a server, over runs in which replies may
come too late for the operation that waits for them. Such a reply stays in the stream and is what
the next receive takes.
-/

namespace Modbus

def Sock.Idle (s : Sock) : Prop :=
  s.arrive.inbox = []

/--
The other end is a server, to which the given requests were sent and from which the given number of
replies was taken.
-/
structure Sock.Connected (server : Responder) (requests : List Mbap) (taken : Nat) (s : Sock)
    : Prop where
  peer : s.peer = server.respond
  outbox : s.outbox = requests.flatMap Mbap.encode
  emitted : s.emitted ≤ ((server.replies requests).flatMap Mbap.encode).length
  inbox : s.arrive.inbox = ((server.replies requests).drop taken).flatMap Mbap.encode
  taken_le : taken ≤ requests.length

namespace Sock.Connected

variable {server : Responder} {requests : List Mbap} {taken : Nat} {s : Sock}
  (h : s.Connected server requests taken)

include h

theorem idle_iff : s.Idle ↔ taken = requests.length := by
  have hle := h.taken_le
  have hlen := server.length_replies requests
  rw [Sock.Idle, h.inbox, List.flatMap_eq_nil_iff]
  constructor
  . intro hnil
    have hdrop : (server.replies requests).drop taken = [] := by
      apply List.eq_nil_iff_forall_not_mem.mpr
      intro m hm
      exact m.encode_ne_nil (hnil m hm)
    rw [List.drop_eq_nil_iff] at hdrop
    omega
  . intro heq m hm
    rw [List.drop_eq_nil_of_le (by omega)] at hm
    simp at hm

theorem arrive_inbox_eq
    : s.arrive.inbox
        =
      s.inbox ++ ((server.replies requests).flatMap Mbap.encode).drop s.emitted := by
  simp only [Sock.arrive, h.peer, h.outbox, Responder.respond_encode]

theorem send (request : Mbap) (sends : Nat)
    : ({ s with outbox := s.outbox ++ request.encode, sends } : Sock).Connected server
        (requests ++ [request]) taken := by
  have houtbox : s.outbox ++ request.encode = (requests ++ [request]).flatMap Mbap.encode := by
    rw [h.outbox]
    simp
  have hemitted := h.emitted
  have hle := h.taken_le
  refine ⟨h.peer, houtbox, ?_, ?_, ?_⟩
  . rw [server.replies_concat, List.flatMap_append, List.length_append]
    dsimp only
    omega
  . -- The reply to the request is added to the replies that have yet to be taken.
    have hinbox := h.inbox
    rw [h.arrive_inbox_eq] at hinbox
    simp only [Sock.arrive, h.peer, houtbox, Responder.respond_encode]
    rw [server.replies_concat, List.flatMap_append]
    rw [List.drop_append_of_le_length hemitted]
    rw [List.drop_append_of_le_length (by rw [server.length_replies]; exact hle)]
    rw [List.flatMap_append, ← hinbox, List.append_assoc]
  . rw [List.length_append]
    omega

theorem wait : ({ s with waits := s.waits + 1 } : Sock).Connected server requests taken := by
  exact ⟨h.peer, h.outbox, h.emitted, h.inbox, h.taken_le⟩

theorem take {reply : Mbap} (hreply : (server.replies requests)[taken]? = some reply) (recvs : Nat)
    : s.arrive.inbox
        =
      reply.encode ++ ((server.replies requests).drop (taken + 1)).flatMap Mbap.encode
        ∧
      ({ s.arrive with
        inbox := ((server.replies requests).drop (taken + 1)).flatMap Mbap.encode
        recvs } : Sock).Connected server requests (taken + 1) := by
  obtain ⟨hlt, hget⟩ := List.getElem?_eq_some_iff.mp hreply
  have hdrop := List.drop_eq_getElem_cons hlt
  rw [hget] at hdrop
  have hlen := server.length_replies requests
  have hemitted : s.arrive.emitted = ((server.replies requests).flatMap Mbap.encode).length := by
    simp only [Sock.arrive, h.peer, h.outbox, Responder.respond_encode]
    have := h.emitted
    omega
  constructor
  . rw [h.inbox, hdrop, List.flatMap_cons]
  . refine ⟨h.peer, h.outbox, ?_, ?_, by omega⟩
    . exact Nat.le_of_eq hemitted
    . change _ ++ (s.peer s.outbox).drop s.arrive.emitted = _
      rw [hemitted, h.peer, h.outbox, Responder.respond_encode]
      rw [List.drop_length, List.append_nil]

end Sock.Connected

section Exchange

variable (host : Endian) {server : Responder} {requests : List Mbap} {taken : Nat}
  {t : MbTcp Sock} (h : t.net.Connected server requests taken) {slave : Int} (hslave : slave ≠ 0)
  (mbus : Mbus) {size : Nat} (h1 : 1 ≤ size) (h2 : size ≤ maxPduSize)

include h hslave

theorem mbusExchange_late (hready : t.net.ready t.net.waits = false)
    : ∃ (mbus' : Mbus) (t' : MbTcp Sock),
        mbusExchange (mbTcp sock host) mbus slave size t = some (eTimeout, mbus', t')
          ∧
        t'.net.Connected server (requests ++ [(mbus.request slave).message size h1 h2]) taken := by
  obtain ⟨mbap, k, htx⟩ := mbTcpTx_sock host (mbus.request slave) h1 h2 t
  have hsent := h.send ((mbus.request slave).message size h1 h2) (t.net.sends + k)
  generalize hnet : ({ t.net with outbox := _, sends := _ } : Sock) = net at htx hsent
  have hselect : net.select = (0, { net with waits := net.waits + 1 }) := by
    rw [Sock.select, if_neg (by rw [← hnet]; simpa using hready)]
  have hrx := mbTcpRx_timeout host (mbus.request slave) mbus.timeout { t with mbap, net } hselect
  rw [← mbPduTx_mbTcp] at htx
  rw [← mbPduRx_mbTcp] at hrx
  exact ⟨_, _, mbusExchange_of_rx hslave htx hrx, hsent.wait⟩

theorem mbusExchange_reply (hready : t.net.ready t.net.waits = true)
    : ∃ (reply : Mbap) (mbus' : Mbus) (t' : MbTcp Sock),
        mbusExchange (mbTcp sock host) mbus slave size t
          =
        some ((reply.pdu.length : Int), mbus', t')
          ∧
        (server.replies (requests ++ [(mbus.request slave).message size h1 h2]))[taken]?
          =
        some reply
          ∧
        mbus'.transaction.id = reply.id
          ∧
        t'.net.Connected server (requests ++ [(mbus.request slave).message size h1 h2])
          (taken + 1) := by
  obtain ⟨mbap, k, htx⟩ := mbTcpTx_sock host (mbus.request slave) h1 h2 t
  have hsent := h.send ((mbus.request slave).message size h1 h2) (t.net.sends + k)
  generalize hnet : ({ t.net with outbox := _, sends := _ } : Sock) = net at htx hsent
  -- The request that was just sent has a reply, so that there is one to be taken.
  obtain ⟨reply, hreply⟩ : ∃ reply, (server.replies (requests ++
      [(mbus.request slave).message size h1 h2]))[taken]? = some reply := by
    have hle := h.taken_le
    refine ⟨_, List.getElem?_eq_getElem ?_⟩
    rw [server.length_replies, List.length_append, List.length_singleton]
    omega
  obtain ⟨hinbox, -⟩ := hsent.take hreply net.recvs
  have hselect : net.select = (1, net.arrive) := by
    apply Sock.select_ready
    . rw [← hnet]
      exact hready
    . rw [hinbox]
      simp [Mbap.encode_ne_nil]
  obtain ⟨l, hrx⟩ := mbTcpRx_encode host (mbus.request slave) mbus.timeout { t with mbap, net }
    hselect reply _ hinbox
  have hprotocol := server.protocol_of_mem_replies (List.mem_of_getElem? hreply)
  simp only [hprotocol, ↓reduceIte] at hrx
  rw [← mbPduTx_mbTcp] at htx
  rw [← mbPduRx_mbTcp] at hrx
  exact ⟨reply, _, _, mbusExchange_of_rx hslave htx hrx, hreply, rfl, (hsent.take hreply _).2⟩

end Exchange

/--
If the operation sends a request and returns a result that is taken from a reply, then this reply
has the id of the request, and it is the reply to this very request: that one is the last of all the
replies, so that none remains once it is taken.
-/
def TakesOwnReply (host : Endian) (slave : Int) (op : MasterOp) (mbus : Mbus) (t : MbTcp Sock)
    : Prop :=
  op.issues = true →
    ∀ (result : Int) (mbus' : Mbus) (t' : MbTcp Sock),
      op.run (mbTcp sock host) host slave mbus t = some (result, mbus', t') →
      FromReply result →
        mbus'.transaction.id = mbus.transaction.id + 1 ∧ t'.net.Idle

/-- If the operation sends a request and does not time out then no reply is outstanding before. -/
def StartsIdle (op : MasterOp) (t : MbTcp Sock) : Prop :=
  op.issues = true → t.net.ready t.net.waits = true → t.net.Idle

section Step

variable (host : Endian) {server : Responder} {requests : List Mbap} {taken : Nat}
  {t : MbTcp Sock} (h : t.net.Connected server requests taken) {slave : Int} (hslave : slave ≠ 0)
  (mbus : Mbus) (op : MasterOp)

include h hslave

theorem MasterOp.run_connected
    : ∃ (result : Int) (mbus' : Mbus) (t' : MbTcp Sock) (requests' : List Mbap) (taken' : Nat),
        op.run (mbTcp sock host) host slave mbus t = some (result, mbus', t')
          ∧
        t'.net.Connected server requests' taken'
          ∧
        (op.issues = true →
          ∃ (request : Mbap), request.id = mbus.transaction.id + 1 ∧
            requests' = requests ++ [request] ∧
            if t.net.ready t.net.waits then
              FromReply result ∧ taken' = taken + 1 ∧
                (server.replies requests')[taken]?.map Mbap.id = some mbus'.transaction.id
            else
              result = eTimeout) := by
  cases hissues : op.issues with
  | false =>
    refine ⟨-1, mbus, t, requests, taken, ?_, h, by simp⟩
    exact MasterOp.run_of_not_issues _ host op slave mbus t hissues
  | true =>
    obtain ⟨scratch, size, ⟨h1, h2⟩, hexchanges⟩ :=
      MasterOp.exchanges_of_issues (mbTcp sock host) host op slave mbus t hslave hissues
    cases hready : t.net.ready t.net.waits with
    | false =>
      obtain ⟨mbus', t', hexchange, hconnected⟩ :=
        mbusExchange_late host h hslave { mbus with scratch } h1 h2 hready
      obtain ⟨result, hrun, hneg, -⟩ := hexchanges _ _ _ hexchange
      refine ⟨result, mbus', t', _, _, hrun, hconnected, fun _ => ?_⟩
      exact ⟨_, rfl, rfl, hneg (by decide)⟩
    | true =>
      obtain ⟨reply, mbus', t', hexchange, hreply, hid, hconnected⟩ :=
        mbusExchange_reply host h hslave { mbus with scratch } h1 h2 hready
      obtain ⟨result, hrun, -, hfrom⟩ := hexchanges _ _ _ hexchange
      refine ⟨result, mbus', t', _, _, hrun, hconnected, fun _ => ?_⟩
      refine ⟨_, rfl, rfl, hfrom (by omega), rfl, ?_⟩
      rw [hreply, hid]
      rfl

theorem takesOwnReply_iff : TakesOwnReply host slave op mbus t ↔ StartsIdle op t := by
  obtain ⟨result, mbus', t', requests', taken', hrun, hconnected, hissues⟩ :=
    MasterOp.run_connected host h hslave mbus op
  unfold TakesOwnReply StartsIdle
  rw [hrun, h.idle_iff]
  constructor
  . intro hown hissue hready
    obtain ⟨request, -, rfl, houtcome⟩ := hissues hissue
    rw [if_pos hready] at houtcome
    obtain ⟨hfrom, rfl, -⟩ := houtcome
    obtain ⟨-, hidle⟩ := hown hissue _ _ _ rfl hfrom
    rw [hconnected.idle_iff, List.length_append, List.length_singleton] at hidle
    omega
  . intro hidle hissue _ _ _ heq hfrom
    cases heq
    obtain ⟨request, hid, rfl, houtcome⟩ := hissues hissue
    split at houtcome
    . next hready =>
      obtain ⟨-, rfl, hreply⟩ := houtcome
      have htaken := hidle hissue hready
      constructor
      . -- All earlier replies were taken, so that the one that is taken now is the last.
        rw [server.replies_concat, htaken, ← server.length_replies requests] at hreply
        simp only [List.getElem?_concat_length, Option.map_some, Option.some.injEq] at hreply
        rw [← hreply, server.id_reply, hid]
      . rw [hconnected.idle_iff, List.length_append, List.length_singleton, htaken]
    . rw [houtcome] at hfrom
      exact absurd hfrom (by decide)

end Step

def EveryStep (host : Endian) (slave : Int) (P : MasterOp → Mbus → MbTcp Sock → Prop)
    : List MasterOp → Mbus → MbTcp Sock → Prop
  | [], _, _ => True
  | op :: ops, mbus, t =>
    P op mbus t ∧
      ∃ (result : Int) (mbus' : Mbus) (t' : MbTcp Sock),
        op.run (mbTcp sock host) host slave mbus t = some (result, mbus', t') ∧
          EveryStep host slave P ops mbus' t'

theorem everyStep_cons {host : Endian} {slave : Int} {P : MasterOp → Mbus → MbTcp Sock → Prop}
    {op : MasterOp} {ops : List MasterOp} {mbus mbus' : Mbus} {t t' : MbTcp Sock} {result : Int}
    (hrun : op.run (mbTcp sock host) host slave mbus t = some (result, mbus', t'))
    : EveryStep host slave P (op :: ops) mbus t
        ↔
      P op mbus t ∧ EveryStep host slave P ops mbus' t' := by
  rw [EveryStep, hrun]
  constructor
  . rintro ⟨hop, _, _, _, heq, hops⟩
    cases heq
    exact ⟨hop, hops⟩
  . rintro ⟨hop, hops⟩
    exact ⟨hop, result, mbus', t', rfl, hops⟩

theorem everyStep_iff (host : Endian) {server : Responder} {requests : List Mbap} {taken : Nat}
    {slave : Int} (hslave : slave ≠ 0) (ops : List MasterOp) (mbus : Mbus) {t : MbTcp Sock}
    (h : t.net.Connected server requests taken)
    : EveryStep host slave (TakesOwnReply host slave) ops mbus t
        ↔
      EveryStep host slave (fun op _ t => StartsIdle op t) ops mbus t := by
  induction ops generalizing mbus t requests taken with
  | nil => exact Iff.rfl
  | cons op ops ih =>
    obtain ⟨result, mbus', t', requests', taken', hrun, hconnected, -⟩ :=
      MasterOp.run_connected host h hslave mbus op
    rw [everyStep_cons hrun, everyStep_cons hrun]
    rw [takesOwnReply_iff host h hslave mbus op]
    rw [ih mbus' hconnected]

structure Sock.Fresh (server : Responder) (s : Sock) : Prop where
  peer : s.peer = server.respond
  inbox : s.inbox = []
  outbox : s.outbox = []
  emitted : s.emitted = 0

theorem Sock.Fresh.connected {server : Responder} {s : Sock} (h : s.Fresh server)
    : s.Connected server [] 0 := by
  refine ⟨h.peer, h.outbox, ?_, ?_, Nat.le_refl 0⟩
  . rw [h.emitted]
    apply Nat.zero_le
  . simp only [Sock.arrive, h.peer, h.inbox, h.outbox, h.emitted]
    rfl

/--
In a run of a master on a connection, whatever the sizes of the segments and whichever replies come
too late, every operation takes just the reply to its own request if and only if every operation
that takes a reply at all starts when no reply is outstanding.
-/
theorem mbus_takesOwnReply_iff (host : Endian) (server : Responder) (slave : Int)
    (hslave : slave ≠ 0) (ops : List MasterOp) (mbus : Mbus) (t : MbTcp Sock)
    (hfresh : t.net.Fresh server)
    : EveryStep host slave (TakesOwnReply host slave) ops mbus t
        ↔
      EveryStep host slave (fun op _ t => StartsIdle op t) ops mbus t := by
  apply everyStep_iff
  . exact hslave
  . exact hfresh.connected

def coilServer : Responder where
  reply _ request :=
    {
      request with
      protocol := 0
      pdu := [0x01, 0x01, 0x2A]
      pdu_pos := by decide
      pdu_le := by decide
    }
  id_reply _ _ := rfl
  protocol_reply _ _ := rfl

def coilConnection (ready : Nat → Bool) : MbTcp Sock :=
  let t := MbTcp.receiving []
  { t with isServer := false, net := { t.net with peer := coilServer.respond, ready } }

def coilRead : MasterOp :=
  .read (mbAddress 0 1) 6 (fun _ => 0)

def coilMaster : Mbus :=
  mbusInit 1000 ⟨0, 0, 0, fun _ => 0⟩ (fun _ => 0)

def firstRead (ready : Nat → Bool) : Option (Int × Mbus × MbTcp Sock) :=
  coilRead.run (mbTcp sock .little) .little 1 coilMaster (coilConnection ready)

def secondRead (ready : Nat → Bool) : Option (Int × Mbus × MbTcp Sock) :=
  match firstRead ready with
  | none => none
  | some (_, mbus, t) => coilRead.run (mbTcp sock .little) .little 1 mbus t

def firstLate (waits : Nat) : Bool :=
  waits != 0

theorem mbus_takesOwnReply_iff_inTime
    : EveryStep .little 1 (TakesOwnReply .little 1) [coilRead, coilRead] coilMaster
        (coilConnection (fun _ => true)) := by
  rw [mbus_takesOwnReply_iff .little coilServer 1 (by decide) _ _ _ ⟨rfl, rfl, rfl, rfl⟩]
  have hfirst : (firstRead (fun _ => true)).map (fun r => r.2.2.net.arrive.inbox) = some [] := by
    decide +kernel
  have hsecond : (secondRead (fun _ => true)).isSome = true := by
    decide +kernel
  unfold secondRead at hsecond
  cases hrun : firstRead (fun _ => true) with
  | none => simp [hrun] at hfirst
  | some r =>
    simp only [hrun, Option.map_some, Option.some.injEq] at hfirst hsecond
    obtain ⟨r', hrun'⟩ := Option.isSome_iff_exists.mp hsecond
    rw [everyStep_cons hrun, everyStep_cons hrun']
    exact ⟨fun _ _ => rfl, fun _ _ => hfirst, trivial⟩

theorem mbus_takes_late_reply
    : ∃ (mbus mbus' : Mbus) (t t' : MbTcp Sock),
        firstRead firstLate = some (eTimeout, mbus, t)
          ∧
        coilRead.run (mbTcp sock .little) .little 1 mbus t = some (0, mbus', t')
          ∧
        mbus.transaction.id + 1 = 2
          ∧
        mbus'.transaction.id = 1
          ∧
        ¬EveryStep .little 1 (TakesOwnReply .little 1) [coilRead, coilRead] coilMaster
          (coilConnection firstLate) := by
  have hfirst : (firstRead firstLate).map (fun r => (r.1, r.2.1.transaction.id))
      = some (eTimeout, 1) := by
    decide +kernel
  have hsecond : (secondRead firstLate).map (fun r => (r.1, r.2.1.transaction.id))
      = some (0, 1) := by
    decide +kernel
  unfold secondRead at hsecond
  cases hrun : firstRead firstLate with
  | none => simp [hrun] at hfirst
  | some r =>
    obtain ⟨result, mbus, t⟩ := r
    simp only [hrun, Option.map_some, Option.some.injEq, Prod.mk.injEq] at hfirst hsecond
    obtain ⟨rfl, hid⟩ := hfirst
    obtain ⟨⟨result, mbus', t'⟩, hrun', heq⟩ := Option.map_eq_some_iff.mp hsecond
    simp only [Prod.mk.injEq] at heq
    obtain ⟨rfl, hid'⟩ := heq
    refine ⟨mbus, mbus', t, t', rfl, hrun', ?_, hid', ?_⟩
    . rw [hid]
      rfl
    . rw [everyStep_cons hrun, everyStep_cons hrun']
      rintro ⟨-, hown, -⟩
      obtain ⟨hown, -⟩ := hown rfl _ _ _ hrun' (by decide)
      rw [hid, hid'] at hown
      exact absurd hown (by decide)

end Modbus

import Mathlib.Data.List.Forall2
import Modbus.Data.Runs
import Modbus.Master.Build
import Modbus.Master.Spec
import Modbus.Rtu.Station

/-!
This module contains a master and any number of slaves that share an RTU line. What each of them
hears of a frame is left open, and so is how long the response takes. A frame has been taken by all
that hear it before the next one begins, unless it is a response that comes after the master has
given up: that one is left on its line.
-/

namespace Modbus

/-- How the frames of an exchange are heard, by the slaves with the given ids and by the master. -/
structure Ears where
  request : UInt8 → (frame : List UInt8) → Option (Heard frame)
  response : UInt8 → (frame : List UInt8) → Option (Heard frame)
  master : (frame : List UInt8) → Option (Heard frame)
  -- The milliseconds that the master has waited when the response begins.
  delay : Nat

/-- Nothing is damaged of a frame of up to 254 bytes. -/
structure Ears.Clear (ears : Ears) : Prop where
  request : ∀ (id : UInt8) (frame : List UInt8), frame ≠ [] → frame.length ≤ maxPduSize + 1 →
    ∃ heard ∈ ears.request id frame, heard.Clear
  master : ∀ (frame : List UInt8), frame ≠ [] → frame.length ≤ maxPduSize + 1 →
    ∃ heard ∈ ears.master frame, heard.Clear

/-- The response begins before a receive with the given timeout gives up. -/
def Ears.InTime (ears : Ears) (tmo : UInt32) : Prop :=
  ears.delay < tmo.toNat

instance (ears : Ears) (tmo : UInt32) : Decidable (ears.InTime tmo) :=
  inferInstanceAs (Decidable (ears.delay < tmo.toNat))

theorem Ears.InTime.ne_zero {ears : Ears} {tmo : UInt32} (h : ears.InTime tmo) : tmo ≠ 0 := by
  rintro rfl
  exact Nat.not_lt_zero _ h

structure RtuNet where
  master : MbRtu Line
  stations : List Station
  -- What the slaves have put on the line since the frame of the master.
  reply : List UInt8
  ears : Ears

def MbRtu.silenced (rtu : MbRtu Line) : MbRtu Line :=
  { rtu with line := { rtu.line with written := [] } }

namespace Station

def silenced (st : Station) : Station :=
  { st with task := { st.task with transport := st.task.transport.silenced } }

/-- A response is heard by those that have not sent it. -/
def overhear (rounds : Nat) (ears : Ears) (reply : List UInt8) (st : Station) : Option Station :=
  if reply = [] ∨ st.written ≠ [] then some st else st.listen rounds (ears.response st.id reply)

end Station

namespace RtuNet

def request (rounds : Nat) (master : MbRtu Line) (net : RtuNet) : Option RtuNet :=
  let frame := master.line.written
  match net.stations.mapM (fun st => st.listen rounds (net.ears.request st.id frame)) with
  | none => none
  | some stations =>
    let reply := stations.flatMap Station.written
    match stations.mapM (Station.overhear rounds net.ears reply) with
    | none => none
    | some stations =>
      some
        { net with
          master := master.silenced
          stations := stations.map Station.silenced
          reply }

/-- The master once the response is on its line, behind what has been left there. -/
def heard (net : RtuNet) : MbRtu Line :=
  if net.reply = [] then
    net.master
  else
    match net.ears.master net.reply with
    | none => net.master
    | some heard =>
      let line := net.master.line
      { net.master with
        line :=
          { line with
            script := line.script ++ heard.burst.events
            schedule := heard.schedule
            calls := 0 } }

def late (tmo : UInt32) (net : RtuNet) : Bool :=
  tmo != 0 && decide (tmo.toNat ≤ net.ears.delay)

end RtuNet

/-- The RTU transport of the master, with the slaves on the line. -/
def rtuNet (rounds : Nat) : Transport RtuNet where
  bringup name net :=
    let r := mbRtuBringup (name.getD "").toUTF8.toList net.master
    (r.1, { net with master := r.2 })
  shutdown arg net :=
    let r := mbRtuShutdown arg net.master
    (r.1, { net with master := r.2 })
  isDown net := mbRtuIsDown net.master
  tx transaction size net :=
    match mbRtuTx rtuLine .little rounds transaction size net.master with
    | none => none
    | some master => net.request rounds master
  rx transaction tmo net :=
    if net.late tmo then
      match mbRtuRx rtuLine rounds transaction tmo net.master with
      | none => none
      | some (result, transaction, master) =>
        -- What comes now has missed this receive.
        let net := { net with master }
        some (result, transaction, { net with master := net.heard, reply := [] })
    else
      match mbRtuRx rtuLine rounds transaction tmo net.heard with
      | none => none
      | some (result, transaction, master) =>
        some (result, transaction, { net with master, reply := [] })
  rxIsBc net := mbRtuRxBc net.master
  rxAvail net :=
    let r := mbRtuRxAvail rtuLine net.master
    (r.1, { net with master := r.2 })

/-- An operation of the master, with the slave that it is for. -/
structure NetOp where
  slave : UInt8
  op : MasterOp
  ears : Ears

def MasterOp.requestSize : MasterOp → Nat
  | .read _ _ _ => PduRead.size
  | .write address quantity _ => PduWrite.size + writeByteCount address quantity
  | .writeSingle _ _ => PduWriteSingle.size

/-- With the checksum, the request and the response still fit into the buffer for a PDU. -/
def NetOp.Fits (input : NetOp) : Prop :=
  input.op.requestSize + 2 ≤ maxPduSize
    ∧
  ∀ r ∈ input.op.asks input.slave.toNat, r.responseSize + 2 ≤ maxPduSize

def rtuNetCall (rounds : Nat) (input : NetOp) (state : Mbus × RtuNet)
    : Option ((Int × Mem) × Mbus × RtuNet) :=
  (input.op.call (rtuNet rounds) .little input.slave.toNat state.1
    { state.2 with ears := input.ears }).map (fun r => ((r.result, r.buffer), r.mbus, r.transport))

/-- The tables of the slaves that there are. -/
abbrev Bus := UInt8 → Option DataModel

namespace Bus

/--
An operation, and what it returns, while frames may be damaged or lost. It may be that an operation
has been carried out and the master does not know.
-/
inductive Step (bus : Bus) : NetOp × (Int × Mem) → Bus → Prop where
  | refused {input : NetOp} (hasks : input.op.asks input.slave.toNat = none)
    : Step bus (input, (-1, input.op.buffer)) bus
  | broadcast {input : NetOp} {r : Request} (hslave : input.slave = 0)
      (hasks : input.op.asks input.slave.toNat = some r) (carried : UInt8 → Bool)
    : Step bus (input, (0, input.op.buffer))
        (fun id => (bus id).map (fun d => if carried id then d.after r else d))
  | lost {input : NetOp} {r : Request} {error : Int} (hslave : input.slave ≠ 0)
      (hasks : input.op.asks input.slave.toNat = some r)
      (herror : error ∈ [eTimeout, eSlaveId, eCrcFail, eFrameNok]) (carried : Bool)
    : Step bus (input, (error, input.op.buffer))
        (fun id => (bus id).map (fun d => if id = input.slave ∧ carried then d.after r else d))
  | replied {input : NetOp} {result : Int} {buffer : Mem} {d d' : DataModel}
      (hslave : input.slave ≠ 0) (hd : bus input.slave = some d)
      (houtcome : input.op.Outcome input.slave.toNat d result buffer d')
    : Step bus (input, (result, buffer)) (Function.update bus input.slave (some d'))

/-- An operation, and what it returns, if everyone hears everything. -/
inductive ClearStep (bus : Bus) : NetOp × (Int × Mem) → Bus → Prop where
  | refused {input : NetOp} (hasks : input.op.asks input.slave.toNat = none)
    : ClearStep bus (input, (-1, input.op.buffer)) bus
  | broadcast {input : NetOp} {r : Request} (hslave : input.slave = 0)
      (hasks : input.op.asks input.slave.toNat = some r)
    : ClearStep bus (input, (0, input.op.buffer)) (fun id => (bus id).map (fun d => d.after r))
  | absent {input : NetOp} {r : Request} (hslave : input.slave ≠ 0)
      (hasks : input.op.asks input.slave.toNat = some r) (habsent : bus input.slave = none)
    : ClearStep bus (input, (eTimeout, input.op.buffer)) bus
  | replied {input : NetOp} {result : Int} {buffer : Mem} {d d' : DataModel}
      (hslave : input.slave ≠ 0) (hd : bus input.slave = some d)
      (houtcome : input.op.Outcome input.slave.toNat d result buffer d')
    : ClearStep bus (input, (result, buffer)) (Function.update bus input.slave (some d'))

end Bus

section Stations

theorem exists_mapM {α β : Type} {f : α → Option β} {R : α → β → Prop} {as : List α}
    (h : ∀ a ∈ as, ∃ b, f a = some b ∧ R a b)
    : ∃ bs, as.mapM f = some bs ∧ List.Forall₂ R as bs := by
  induction as with
  | nil => exact ⟨[], rfl, .nil⟩
  | cons a as ih =>
    rw [List.forall_mem_cons] at h
    obtain ⟨b, hf, hR⟩ := h.1
    obtain ⟨bs, hmapM, hbs⟩ := ih h.2
    refine ⟨b :: bs, ?_, .cons hR hbs⟩
    rw [List.mapM_cons, hf, hmapM]
    rfl

theorem mapM_middle {α β : Type} {f : α → Option β} {pre post : List α} {pre' post' : List β}
    {a : α} {b : β} (hpre : pre.mapM f = some pre') (ha : f a = some b)
    (hpost : post.mapM f = some post')
    : (pre ++ a :: post).mapM f = some (pre' ++ b :: post') := by
  rw [List.mapM_append, List.mapM_cons, hpre, ha, hpost]
  rfl

/-- Of the stations with one id the first counts. -/
def busOf (stations : List Station) : Bus := fun id =>
  (stations.find? (fun st => st.id == id)).map Station.model

theorem busOf_cons (st : Station) (stations : List Station) (id : UInt8)
    : busOf (st :: stations) id = if st.id = id then some st.model else busOf stations id := by
  by_cases h : st.id = id
  . simp [busOf, h]
  . simp [busOf, h]

theorem busOf_eq_none {stations : List Station} {id : UInt8} (h : id ∉ stations.map Station.id)
    : busOf stations id = none := by
  simpa [busOf] using h

theorem busOf_append (stations stations' : List Station) (id : UInt8)
    : busOf (stations ++ stations') id = (busOf stations id).or (busOf stations' id) := by
  induction stations with
  | nil => rfl
  | cons st stations ih =>
    rw [List.cons_append, busOf_cons, busOf_cons, ih]
    split
    . rfl
    . rfl

/-- A station between two operations. -/
structure Station.Rest (st : Station) : Prop where
  ready : st.Ready
  written : st.written = []

theorem flatMap_written {stations : List Station} (h : ∀ st ∈ stations, st.Rest)
    : stations.flatMap Station.written = [] := by
  rw [List.flatMap_eq_nil_iff]
  exact fun st hst => (h st hst).written

structure Station.Keeps (st st' : Station) : Prop where
  rest : st'.Rest
  id : st'.id = st.id
  model : st'.model = st.model

theorem forall_rest {R : Station → Station → Prop}
    (hR : ∀ (st st' : Station), R st st' → st'.Rest ∧ st'.id = st.id)
    {stations stations' : List Station} (h : List.Forall₂ R stations stations')
    : (∀ st ∈ stations', st.Rest) ∧ stations'.map Station.id = stations.map Station.id := by
  induction h with
  | nil => exact ⟨by simp, rfl⟩
  | cons head _ ih =>
    obtain ⟨hrest, hid⟩ := hR _ _ head
    rw [List.forall_mem_cons, List.map_cons, List.map_cons, hid, ih.2]
    exact ⟨⟨hrest, ih.1⟩, rfl⟩

theorem busOf_keeps {stations stations' : List Station}
    (h : List.Forall₂ Station.Keeps stations stations')
    : busOf stations' = busOf stations := by
  funext id
  induction h with
  | nil => rfl
  | cons hkeeps _ ih => rw [busOf_cons, busOf_cons, ih, hkeeps.id, hkeeps.model]

/-- The other stations keep what they have. -/
theorem busOf_replace {pre pre' post post' : List Station} {st st' : Station}
    (hpre : busOf pre' = busOf pre) (hpost : busOf post' = busOf post)
    (hid : st'.id = st.id) (hne : st.id ∉ pre.map Station.id)
    : busOf (pre' ++ st' :: post')
        =
      Function.update (busOf (pre ++ st :: post)) st.id (some st'.model) := by
  funext id
  rw [busOf_append, busOf_cons, hpre, hpost, hid]
  by_cases h : st.id = id
  . subst h
    rw [if_pos rfl, busOf_eq_none hne, Function.update_self]
    rfl
  . rw [if_neg h, Function.update_of_ne (Ne.symm h), busOf_append, busOf_cons, if_neg h]

theorem busOf_silenced (stations : List Station)
    : busOf (stations.map Station.silenced) = busOf stations := by
  funext id
  induction stations with
  | nil => rfl
  | cons st stations ih =>
    rw [List.map_cons, busOf_cons, busOf_cons, ih]
    rfl

theorem Station.Ready.silenced {st : Station} (h : st.Ready) : st.silenced.Rest := by
  have hidle := h.idle
  exact ⟨⟨⟨hidle.fifo, hidle.rxAvail, hidle.t1p5, hidle.script⟩, h.arg⟩, rfl⟩

end Stations

/-- The line is quiet, apart from a response that the master has not heard yet. -/
structure RtuNet.Rest (net : RtuNet) : Prop where
  master : net.master.line.Idle
  written : net.master.line.written = []
  stations : ∀ st ∈ net.stations, st.Rest
  ids : (net.stations.map Station.id).Nodup

theorem RtuNet.Rest.silenced {net : RtuNet} (h : net.Rest) {master : MbRtu Line}
    (hidle : master.line.Idle) {stations : List Station} (hready : ∀ st ∈ stations, st.Ready)
    (hids : stations.map Station.id = net.stations.map Station.id) (reply : List UInt8)
    : RtuNet.Rest
        { net with
          master := master.silenced, stations := stations.map Station.silenced, reply } := by
  refine ⟨⟨hidle.fifo, hidle.rxAvail, hidle.t1p5, hidle.script⟩, rfl, ?_, ?_⟩
  . rw [List.forall_mem_map]
    exact fun st hst => (hready st hst).silenced
  . rw [List.map_map]
    exact hids ▸ h.ids

theorem RtuNet.request_eq {net : RtuNet} {rounds : Nat} {master : MbRtu Line} {frame : List UInt8}
    (hframe : master.line.written = frame) {stations stations' : List Station}
    (hlisten : net.stations.mapM (fun st => st.listen rounds (net.ears.request st.id frame))
      = some stations)
    {reply : List UInt8} (hreply : stations.flatMap Station.written = reply)
    (hoverhear : stations.mapM (Station.overhear rounds net.ears reply) = some stations')
    : net.request rounds master
        =
      some
        { net with
          master := master.silenced, stations := stations'.map Station.silenced, reply } := by
  subst hframe hreply
  unfold RtuNet.request
  dsimp only
  rw [hlisten]
  dsimp only
  rw [hoverhear]

def RtuNet.bus (net : RtuNet) : Bus :=
  busOf net.stations

/-- What a request makes of the tables, and what is responded. -/
inductive Bus.Replies (bus : Bus) (unit : UInt8) (r : Request) (clear : Prop)
    : List UInt8 → Bus → Prop where
  | broadcast (hunit : unit = 0) (carried : UInt8 → Bool) (hclear : clear → ∀ id, carried id = true)
    : Replies bus unit r clear []
        (fun id => (bus id).map (fun d => if carried id then d.after r else d))
  | silent (hunit : unit ≠ 0) (hclear : clear → bus unit = none) : Replies bus unit r clear [] bus
  | answered {d d' : DataModel} {response : List UInt8} (hunit : unit ≠ 0) (hd : bus unit = some d)
      (hanswers : d.Answers r d' response)
    : Replies bus unit r clear (rtuFrame unit response) (Function.update bus unit (some d'))

section Request

variable {rounds : Nat} (hrounds : 2048 ≤ rounds) {unit : UInt8} {pdu : List UInt8}
  (hpdu : pdu.length + 2 ≤ maxPduSize)

theorem overhear_nil (ears : Ears) (stations : List Station)
    : stations.mapM (Station.overhear rounds ears []) = some stations := by
  have hsome : Station.overhear rounds ears [] = fun st => some st := by
    funext st
    simp [Station.overhear]
  rw [hsome]
  induction stations with
  | nil => rfl
  | cons st stations ih =>
    rw [List.mapM_cons, ih]
    rfl

include hrounds hpdu

theorem Station.Rest.listen_other {st : Station} (h : st.Rest) (hunit : unit ≠ 0)
    (hother : st.id ≠ unit) (heard : Option (Heard (rtuFrame unit pdu)))
    : ∃ (st' : Station), st.listen rounds heard = some st' ∧ st.Keeps st' := by
  obtain ⟨task, hlisten, hready, hmodel, hwritten⟩ :=
    Station.listen_other hrounds hpdu h.ready heard ⟨Ne.symm hother, hunit⟩
  exact ⟨_, hlisten, ⟨hready, hwritten.trans h.written⟩, rfl, hmodel⟩

theorem exists_listen_others {stations : List Station} (hrest : ∀ st ∈ stations, st.Rest)
    (hunit : unit ≠ 0) (hothers : unit ∉ stations.map Station.id)
    (heard : UInt8 → Option (Heard (rtuFrame unit pdu)))
    : ∃ (stations' : List Station),
        stations.mapM (fun st => st.listen rounds (heard st.id)) = some stations'
          ∧
        List.Forall₂ Station.Keeps stations stations' := by
  apply exists_mapM
  intro st hst
  exact (hrest st hst).listen_other hrounds hpdu hunit
    (fun hid => hothers (hid ▸ List.mem_map_of_mem hst)) _

theorem exists_overhear_others {stations : List Station} (hrest : ∀ st ∈ stations, st.Rest)
    (hunit : unit ≠ 0) (hothers : unit ∉ stations.map Station.id) (ears : Ears)
    : ∃ (stations' : List Station),
        stations.mapM (Station.overhear rounds ears (rtuFrame unit pdu)) = some stations'
          ∧
        List.Forall₂ Station.Keeps stations stations' := by
  apply exists_mapM
  intro st hst
  have hwritten := (hrest st hst).written
  simp only [Station.overhear, hwritten, rtuFrame, reduceCtorEq, ne_eq, not_true_eq_false,
    or_self, ↓reduceIte]
  exact (hrest st hst).listen_other hrounds hpdu hunit
    (fun hid => hothers (hid ▸ List.mem_map_of_mem hst)) _

theorem Station.Rest.listen_broadcast {st : Station} (h : st.Rest)
    (heard : Option (Heard (rtuFrame 0 pdu))) {r : Request} (hdecode : Request.decode pdu = some r)
    : ∃ (st' : Station),
        st.listen rounds heard = some st'
          ∧
        st'.Rest
          ∧
        st'.id = st.id
          ∧
        (st'.model = st.model.after r
          ∨
        st'.model = st.model ∧ ¬∃ clear ∈ heard, clear.Clear) := by
  obtain ⟨task, hlisten, hready, hheeds⟩ :=
    Station.listen_request hrounds hpdu h.ready heard hdecode
  refine ⟨_, hlisten, ?_⟩
  cases hheeds with
  | ignored hmodel hwritten hother =>
    refine ⟨⟨hready, hwritten.trans h.written⟩, rfl, .inr ⟨hmodel, ?_⟩⟩
    intro hclear
    exact (hother hclear).2 rfl
  | broadcast hunit hmodel hwritten =>
    exact ⟨⟨hready, hwritten.trans h.written⟩, rfl, .inl hmodel⟩
  | answered hunit => exact absurd hunit.symm st.id_ne

theorem exists_listen_broadcast {stations : List Station} (hrest : ∀ st ∈ stations, st.Rest)
    {r : Request} (hdecode : Request.decode pdu = some r) {ears : Ears}
    : ∃ (stations' : List Station) (carried : UInt8 → Bool),
        stations.mapM (fun st => st.listen rounds (ears.request st.id (rtuFrame 0 pdu)))
          =
        some stations'
          ∧
        (∀ st ∈ stations', st.Rest)
          ∧
        stations'.map Station.id = stations.map Station.id
          ∧
        (ears.Clear → ∀ id, carried id = true)
          ∧
        busOf stations' =
          fun id => (busOf stations id).map (fun d => if carried id then d.after r else d) := by
  obtain ⟨stations', hmapM, hstations⟩ := exists_mapM (fun st hst =>
    (hrest st hst).listen_broadcast hrounds hpdu (ears.request st.id (rtuFrame 0 pdu)) hdecode)
  have hcarried (id : UInt8)
      : ∃ (c : Bool), (ears.Clear → c = true) ∧
          busOf stations' id = (busOf stations id).map (fun d => if c then d.after r else d) := by
    clear hmapM hrest
    induction hstations with
    | nil => exact ⟨true, fun _ => rfl, rfl⟩
    | @cons st st' sts sts' hst _ ih =>
      obtain ⟨-, hid, hmodel⟩ := hst
      obtain ⟨c, hc, hbus⟩ := ih
      by_cases h : st.id = id
      . simp only [busOf_cons, hid, h, ↓reduceIte, Option.map_some]
        obtain hmodel | ⟨hmodel, hmissed⟩ := hmodel
        . exact ⟨true, fun _ => rfl, by rw [hmodel]; rfl⟩
        . refine ⟨false, ?_, by rw [hmodel]; rfl⟩
          intro hclear
          have hheard := hclear.request st.id (rtuFrame 0 pdu) (by simp [rtuFrame])
            (by rw [length_rtuFrame]; omega)
          exact absurd hheard hmissed
      . simp only [busOf_cons, hid, h, ↓reduceIte]
        exact ⟨c, hc, hbus⟩
  choose carried hcarried using hcarried
  obtain ⟨hrest', hids⟩ := forall_rest (fun _ _ h => ⟨h.1, h.2.1⟩) hstations
  refine ⟨stations', carried, hmapM, hrest', hids, fun hclear id => (hcarried id).1 hclear, ?_⟩
  funext id
  exact (hcarried id).2

/-- A request has made the network go from one state to another. -/
structure RtuNet.Asked (net : RtuNet) (unit : UInt8) (r : Request) (net' : RtuNet) : Prop where
  ears : net'.ears = net.ears
  rest : net'.Rest
  replies : net.bus.Replies unit r net.ears.Clear net'.reply net'.bus

section Asked

variable {net : RtuNet} (h : net.Rest) {master : MbRtu Line} (hidle : master.line.Idle)
  (hwritten : master.line.written = rtuFrame unit pdu) {r : Request}
  (hdecode : Request.decode pdu = some r)

include h hidle hwritten

theorem RtuNet.request_absent (hunit : unit ≠ 0) (hothers : unit ∉ net.stations.map Station.id)
    : ∃ (net' : RtuNet), net.request rounds master = some net' ∧ net.Asked unit r net' := by
  obtain ⟨stations, hlisten, hkeeps⟩ := exists_listen_others hrounds hpdu h.stations hunit
    hothers (fun id => net.ears.request id (rtuFrame unit pdu))
  obtain ⟨hrest, hids⟩ := forall_rest (fun _ _ h => ⟨h.rest, h.id⟩) hkeeps
  refine ⟨_, RtuNet.request_eq hwritten hlisten (flatMap_written hrest) (overhear_nil _ _), rfl,
    h.silenced hidle (fun st hst => (hrest st hst).ready) hids _, ?_⟩
  change net.bus.Replies unit r net.ears.Clear [] (busOf (stations.map Station.silenced))
  rw [busOf_silenced, busOf_keeps hkeeps]
  exact .silent hunit (fun _ => busOf_eq_none hothers)

include hdecode

theorem RtuNet.request_present (hsize : r.responseSize + 2 ≤ maxPduSize) (hunit : unit ≠ 0)
    {pre post : List Station} {st : Station} (hstations : net.stations = pre ++ st :: post)
    (hid : st.id = unit)
    : ∃ (net' : RtuNet), net.request rounds master = some net' ∧ net.Asked unit r net' := by
  subst hid
  have hmax : maxPduSize = 253 := rfl
  have hids := h.ids
  have hrest := h.stations
  rw [hstations, List.map_append, List.map_cons, List.nodup_append] at hids
  rw [hstations, List.forall_mem_append, List.forall_mem_cons] at hrest
  obtain ⟨hrestPre, hrestSt, hrestPost⟩ := hrest
  obtain ⟨-, hnodup, hdisjoint⟩ := hids
  have hpre : st.id ∉ pre.map Station.id := by
    intro hmem
    exact hdisjoint _ hmem _ (by simp) rfl
  have hpost : st.id ∉ post.map Station.id := (List.nodup_cons.mp hnodup).1
  -- The others reject the request, whatever of it they have heard.
  obtain ⟨pre₁, hlisten₁, hkeeps₁⟩ := exists_listen_others hrounds hpdu hrestPre hunit hpre
    (fun id => net.ears.request id (rtuFrame st.id pdu))
  obtain ⟨post₁, hlisten₂, hkeeps₂⟩ := exists_listen_others hrounds hpdu hrestPost hunit hpost
    (fun id => net.ears.request id (rtuFrame st.id pdu))
  obtain ⟨hrest₁, hids₁⟩ := forall_rest (fun _ _ h => ⟨h.rest, h.id⟩) hkeeps₁
  obtain ⟨hrest₂, hids₂⟩ := forall_rest (fun _ _ h => ⟨h.rest, h.id⟩) hkeeps₂
  obtain ⟨task, hlisten, hready, hheeds⟩ := Station.listen_request hrounds hpdu hrestSt.ready
    (net.ears.request st.id (rtuFrame st.id pdu)) hdecode
  have hall := mapM_middle hlisten₁ hlisten hlisten₂
  rw [← hstations] at hall
  have hreply : (pre₁ ++ { st with task } :: post₁).flatMap Station.written
      = { st with task }.written := by
    rw [List.flatMap_append, List.flatMap_cons, flatMap_written hrest₁, flatMap_written hrest₂]
    simp
  cases hheeds with
  | ignored hmodel hwritten' hother =>
    have hkeeps : List.Forall₂ Station.Keeps net.stations
        (pre₁ ++ { st with task } :: post₁) := by
      rw [hstations]
      exact List.rel_append hkeeps₁
        (.cons ⟨⟨hready, hwritten'.trans hrestSt.written⟩, rfl, hmodel⟩ hkeeps₂)
    obtain ⟨hrest, hids⟩ := forall_rest (fun _ _ h => ⟨h.rest, h.id⟩) hkeeps
    rw [flatMap_written hrest] at hreply
    refine ⟨_, RtuNet.request_eq hwritten hall (flatMap_written hrest) (overhear_nil _ _), rfl,
      h.silenced hidle (fun st hst => (hrest st hst).ready) hids _, ?_⟩
    change net.bus.Replies st.id r net.ears.Clear [] (busOf (List.map Station.silenced _))
    rw [busOf_silenced, busOf_keeps hkeeps]
    refine .silent hunit (fun hclear => ?_)
    have hheard := hclear.request st.id (rtuFrame st.id pdu) (by simp [rtuFrame])
      (by rw [length_rtuFrame]; omega)
    exact absurd rfl (hother hheard).1
  | broadcast hzero => exact absurd hzero hunit
  | @answered response _ hanswers hwritten' =>
    rw [hrestSt.written, List.nil_append] at hwritten'
    rw [hwritten'] at hreply
    have hle := hanswers.length_le.1
    -- So do they with the response, which begins with the same id.
    obtain ⟨pre₂, hoverhear₁, hkeeps₁'⟩ := @exists_overhear_others _ hrounds st.id response
      (by omega) pre₁ hrest₁ hunit (hids₁ ▸ hpre) net.ears
    obtain ⟨post₂, hoverhear₂, hkeeps₂'⟩ := @exists_overhear_others _ hrounds st.id response
      (by omega) post₁ hrest₂ hunit (hids₂ ▸ hpost) net.ears
    have hown : Station.overhear rounds net.ears (rtuFrame st.id response) { st with task }
        = some { st with task } := by
      unfold Station.overhear
      rw [if_pos]
      right
      rw [hwritten']
      simp [rtuFrame]
    have hall' := mapM_middle hoverhear₁ hown hoverhear₂
    obtain ⟨hrest₁', hids₁'⟩ := forall_rest (fun _ _ h => ⟨h.rest, h.id⟩) hkeeps₁'
    obtain ⟨hrest₂', hids₂'⟩ := forall_rest (fun _ _ h => ⟨h.rest, h.id⟩) hkeeps₂'
    refine ⟨_, RtuNet.request_eq hwritten hall hreply hall', rfl, h.silenced hidle ?_ ?_ _, ?_⟩
    . rw [List.forall_mem_append, List.forall_mem_cons]
      exact ⟨fun st hst => (hrest₁' st hst).ready, hready, fun st hst => (hrest₂' st hst).ready⟩
    . rw [hstations]
      simp [hids₁', hids₂', hids₁, hids₂]
    . change net.bus.Replies st.id r net.ears.Clear (rtuFrame st.id response)
        (busOf (List.map Station.silenced _))
      rw [busOf_silenced, @busOf_replace pre _ post _ st { st with task }
        ((busOf_keeps hkeeps₁').trans (busOf_keeps hkeeps₁))
        ((busOf_keeps hkeeps₂').trans (busOf_keeps hkeeps₂)) rfl hpre, ← hstations]
      refine .answered hunit ?_ hanswers
      rw [RtuNet.bus, hstations, busOf_append, busOf_cons, busOf_eq_none hpre, if_pos rfl]
      rfl

/-- The slaves have heard a request, and one of them may have responded to it. -/
theorem RtuNet.request_step (hsize : r.responseSize + 2 ≤ maxPduSize)
    : ∃ (net' : RtuNet), net.request rounds master = some net' ∧ net.Asked unit r net' := by
  by_cases hzero : unit = 0
  . subst hzero
    obtain ⟨stations, carried, hlisten, hrest, hids, hclear, hbus⟩ :=
      exists_listen_broadcast hrounds hpdu h.stations hdecode
    refine ⟨_, RtuNet.request_eq hwritten hlisten (flatMap_written hrest) (overhear_nil _ _), rfl,
      h.silenced hidle (fun st hst => (hrest st hst).ready) hids _, ?_⟩
    change net.bus.Replies 0 r net.ears.Clear [] (busOf (stations.map Station.silenced))
    rw [busOf_silenced, hbus]
    exact .broadcast rfl carried hclear
  . by_cases hmem : unit ∈ net.stations.map Station.id
    . obtain ⟨st, hst, hid⟩ := List.mem_map.mp hmem
      obtain ⟨pre, post, hstations⟩ := List.append_of_mem hst
      exact request_present hrounds hpdu h hidle hwritten hdecode hsize hzero hstations hid
    . exact request_absent hrounds hpdu h hidle hwritten hzero hmem

end Asked

end Request

theorem RtuNet.not_late {net : RtuNet} {tmo : UInt32} (h : net.ears.InTime tmo)
    : net.late tmo = false := by
  unfold Ears.InTime at h
  simp [RtuNet.late, Nat.not_le.mpr h]

theorem RtuNet.heard_cases {net : RtuNet} {frame : List UInt8} (hframe : net.reply = frame)
    (hne : frame ≠ []) (hidle : net.master.line.Idle)
    : net.ears.master frame = none ∧ net.heard = net.master
        ∨
      ∃ (heard : Heard frame),
        net.ears.master frame = some heard ∧
          net.heard = net.master.hear heard.burst heard.schedule := by
  subst hframe
  unfold RtuNet.heard
  rw [if_neg hne]
  cases net.ears.master net.reply with
  | none => exact .inl ⟨rfl, rfl⟩
  | some heard =>
    refine .inr ⟨heard, rfl, ?_⟩
    dsimp only
    rw [hidle.script]
    rfl

section Call

variable {rounds : Nat} (hrounds : 2048 ≤ rounds) {net : RtuNet} (h : net.Rest)

include h

theorem RtuNet.Rest.heard_by {master : MbRtu Line} (hidle : master.line.Idle)
    (hwritten : master.line.written = net.master.line.written)
    : RtuNet.Rest { net with master, reply := [] } := by
  exact ⟨hidle, hwritten.trans h.written, h.stations, h.ids⟩

theorem rtuNet_rx_quiet (hquiet : net.heard = net.master) (transaction : Txn) {tmo : UInt32}
    (htmo : tmo ≠ 0) (hintime : net.ears.InTime tmo)
    : ∃ (net' : RtuNet),
        mbPduRx (rtuNet rounds) transaction tmo net = some (eTimeout, transaction, net')
          ∧
        net'.Rest
          ∧
        net'.reply = []
          ∧
        net'.bus = net.bus := by
  have hrx := @mbRtuRx_quiet net.master h.master rounds transaction tmo htmo
  refine ⟨{ net with master := { net.master with line := net.master.line.tick }, reply := [] }, ?_,
    h.heard_by h.master.tick net.master.line.written_tick, rfl, rfl⟩
  simp only [mbPduRx, rtuNet]
  rw [RtuNet.not_late hintime, if_neg Bool.false_ne_true, hquiet, hrx]

include hrounds

/-- The response that is heard by the master, or the error. -/
theorem rtuNet_rx (transaction : Txn) {tmo : UInt32} (htmo : tmo ≠ 0)
    (hintime : net.ears.InTime tmo) {response : List UInt8}
    (hresponse : response.length + 2 ≤ maxPduSize)
    (hreply : net.reply = rtuFrame transaction.unit response)
    : ∃ (result : Int) (data : Mem) (net' : RtuNet),
        mbPduRx (rtuNet rounds) transaction tmo net
          =
        some (result, { transaction with data }, net')
          ∧
        net'.Rest
          ∧
        net'.reply = []
          ∧
        net'.bus = net.bus
          ∧
        (result ∈ [eTimeout, eSlaveId, eCrcFail, eFrameNok] ∧ ¬net.ears.Clear
          ∨
        result = response.length ∧ data.load 0 response.length = response) := by
  have hne : rtuFrame transaction.unit response ≠ [] := by
    simp [rtuFrame]
  have hle : (rtuFrame transaction.unit response).length ≤ maxPduSize + 1 := by
    rw [length_rtuFrame]
    omega
  obtain ⟨hmaster, hheard⟩ | ⟨heard, hmaster, hheard⟩ := RtuNet.heard_cases hreply hne h.master
  . obtain ⟨net', hrx, hrest, hreply', hbus⟩ := rtuNet_rx_quiet h hheard transaction htmo hintime
    refine ⟨eTimeout, transaction.data, net', hrx, hrest, hreply', hbus, .inl ⟨by simp, ?_⟩⟩
    intro hclear
    have hheard := hclear.master _ hne hle
    simp [hmaster] at hheard
  . obtain ⟨result, data, master, hrx, hidle, hwritten, hresult⟩ :=
      mbRtuRx_heard h.master hrounds transaction tmo hresponse heard
    refine ⟨result, data, { net with master, reply := [] }, ?_, h.heard_by hidle hwritten, rfl, rfl,
      ?_⟩
    . simp only [mbPduRx, rtuNet]
      rw [RtuNet.not_late hintime, if_neg Bool.false_ne_true, hheard, hrx]
    . obtain ⟨herror, hother⟩ | ⟨-, -, hcount, hload⟩ := hresult
      . refine .inl ⟨List.mem_cons_of_mem _ herror, ?_⟩
        intro hclear
        obtain ⟨heard', hmem, hclear'⟩ := hclear.master _ hne hle
        rw [hmaster] at hmem
        cases hmem
        exact (hother hclear').1 rfl
      . exact .inr ⟨hcount, hload⟩

omit h in
theorem rtuNet_tx {transaction : Txn} {size : Nat} (hmaster : net.master.line.Idle)
    (hwritten : net.master.line.written = []) (hsize : size ≤ maxPduSize)
    : ∃ (master : MbRtu Line),
        mbPduTx (rtuNet rounds) transaction size net = net.request rounds master
          ∧
        master.line.Idle
          ∧
        master.line.written = rtuFrame transaction.unit (transaction.data.load 0 size) := by
  obtain ⟨master, htx, hidle, hmore⟩ := mbRtuTx_frame hmaster hrounds transaction hsize
  rw [hwritten, List.nil_append] at hmore
  refine ⟨master, ?_, hidle, hmore⟩
  change (match mbRtuTx rtuLine .little rounds transaction size net.master with
    | none => none
    | some master => net.request rounds master) = _
  rw [htx]

end Call

theorem MasterOp.request_size {host : Endian} {slave : Int} {op : MasterOp} {scratch request : Mem}
    {size : Nat} (h : op.request host slave scratch = some (request, size))
    : size = op.requestSize := by
  cases op with
  | read address quantity buffer =>
    simp only [MasterOp.request] at h
    split at h
    . contradiction
    . split at h
      . contradiction
      . split at h
        . contradiction
        . cases h
          rfl
  | write address quantity buffer =>
    simp only [MasterOp.request] at h
    split at h
    . contradiction
    . next count data hdata =>
      cases h
      rw [(mbusWriteData_bounds hdata).1]
      rfl
  | writeSingle address value =>
    simp only [MasterOp.request] at h
    split at h
    . contradiction
    . cases h
      rfl

theorem mbIsException_request {pdu : List UInt8} {r : Request}
    (hdecode : Request.decode pdu = some r) {m : Mem} (hload : m.load 0 pdu.length = pdu)
    : mbIsException m = false := by
  have hholds := Request.holds_of_decode m hdecode
  rw [Mem.copy_of_load hload] at hholds
  rw [mbIsException, Pdu.function, hholds.1]
  cases r.function <;> decide

/-- What a broadcast returns. The buffer still holds the request. -/
theorem MasterOp.finish_request {op : MasterOp} {r : Request} (hasks : op.asks 0 = some r) {m : Mem}
    (h : mbIsException m = false)
    : op.finish 0 m = (0, op.buffer) := by
  cases op with
  | read address quantity buffer => simp [asks] at hasks
  | write address quantity buffer => simp [finish, mbusWriteResult, h]
  | writeSingle address value => simp [finish, mbusWriteResult, h]

theorem Bus.Step.not_carried {bus : Bus} {input : NetOp} {r : Request} {error : Int}
    (hslave : input.slave ≠ 0) (hasks : input.op.asks input.slave.toNat = some r)
    (herror : error ∈ [eTimeout, eSlaveId, eCrcFail, eFrameNok])
    : Bus.Step bus (input, (error, input.op.buffer)) bus := by
  have hstep := @Bus.Step.lost bus input r error hslave hasks herror false
  simpa only [Bool.false_eq_true, and_false, ↓reduceIte, Option.map_id'] using hstep

theorem Bus.Step.carried {bus : Bus} {input : NetOp} {r : Request} {error : Int} {d : DataModel}
    (hslave : input.slave ≠ 0) (hasks : input.op.asks input.slave.toNat = some r)
    (herror : error ∈ [eTimeout, eSlaveId, eCrcFail, eFrameNok]) (hd : bus input.slave = some d)
    : Bus.Step bus (input, (error, input.op.buffer))
        (Function.update bus input.slave (some (d.after r))) := by
  have hstep := @Bus.Step.lost bus input r error hslave hasks herror true
  have hupdate : Function.update bus input.slave (some (d.after r))
      = fun id => (bus id).map (fun d => if id = input.slave ∧ true then d.after r else d) := by
    funext id
    by_cases hid : id = input.slave
    . subst hid
      simp [hd]
    . simp [hid]
  rw [hupdate]
  exact hstep

theorem UInt8.ofInt_toNat (unit : UInt8) : UInt8.ofInt unit.toNat = unit := by
  have hlt := unit.toNat_lt
  have hmod : ((unit.toNat : Int) % 2 ^ 8).toNat = unit.toNat := by omega
  rw [UInt8.ofInt, hmod, UInt8.ofNat_toNat]

theorem neg_of_mem_commErrors {result : Int}
    (h : result ∈ [eTimeout, eSlaveId, eCrcFail, eFrameNok])
    : result < 0 := by
  rw [List.mem_cons] at h
  obtain rfl | h := h
  . decide
  . exact neg_of_mem_errors h

/-- An operation of the master, whatever is heard of its frames. -/
theorem rtuNetCall_step {rounds : Nat} (hrounds : 2048 ≤ rounds) {mbus : Mbus} {net : RtuNet}
    (h : net.Rest) (input : NetOp) (hfits : input.Fits)
    (hintime : input.ears.InTime mbus.timeout)
    : ∃ (out : Int × Mem) (mbus' : Mbus) (net' : RtuNet),
        rtuNetCall rounds input (mbus, net) = some (out, mbus', net')
          ∧
        mbus'.timeout = mbus.timeout
          ∧
        net'.Rest
          ∧
        Bus.Step net.bus (input, out) net'.bus
          ∧
        (input.ears.Clear → Bus.ClearStep net.bus (input, out) net'.bus) := by
  have hmax : maxPduSize = 253 := rfl
  have htmo := hintime.ne_zero
  generalize hslave : (input.slave.toNat : Int) = slave
  have hunit : UInt8.ofInt slave = input.slave := by
    rw [← hslave, UInt8.ofInt_toNat]
  have hzero : slave = 0 ↔ input.slave = 0 := by
    rw [← hslave, Int.natCast_eq_zero, ← UInt8.toNat_inj, UInt8.toNat_zero]
  have hears : RtuNet.Rest { net with ears := input.ears } :=
    ⟨h.master, h.written, h.stations, h.ids⟩
  unfold rtuNetCall
  dsimp only
  rw [hslave]
  cases hasks : input.op.asks slave with
  | none =>
    rw [MasterOp.call_of_not_asks _ _ hasks]
    rw [← hslave] at hasks
    exact ⟨_, _, _, rfl, rfl, hears, .refused hasks, fun _ => .refused hasks⟩
  | some r =>
    obtain ⟨request, size, hrequest, hdecode⟩ :=
      MasterOp.request_of_asks .little hasks mbus.scratch
    have hsize : size + 2 ≤ maxPduSize := by
      rw [MasterOp.request_size hrequest]
      exact hfits.1
    have hload := Mem.length_load request 0 size
    obtain ⟨master, htx, hidle, hwritten⟩ := @rtuNet_tx rounds hrounds
      { net with ears := input.ears } (Mbus.request { mbus with scratch := request } slave) size
      h.master h.written (by omega)
    have hframe : master.line.written = rtuFrame input.slave (request.load 0 size) := by
      rw [hwritten, ← hunit]
      rfl
    obtain ⟨net₁, hnet₁, hasked⟩ := RtuNet.request_step hrounds (by omega) hears hidle hframe
      hdecode (hfits.2 r (hslave ▸ hasks))
    obtain ⟨hears₁, hrest₁, hreplies⟩ := hasked
    rw [hnet₁] at htx
    rw [MasterOp.call_eq, hrequest]
    dsimp only
    generalize hreply : net₁.reply = reply at hreplies
    generalize hbus : net₁.bus = bus₁ at hreplies
    cases hreplies with
    | broadcast hnull carried hclear =>
      have hexchange := mbusExchange_of_broadcast (hzero.mpr hnull) htx
      have hfinish : input.op.finish 0 request = (0, input.op.buffer) :=
        MasterOp.finish_request (hzero.mpr hnull ▸ hasks)
          (mbIsException_request hdecode (by rw [hload]))
      rw [hexchange]
      refine ⟨_, _, _, rfl, rfl, hrest₁, ?_, fun hears => ?_⟩
      . change Bus.Step _ (input, input.op.finish 0 request) _
        rw [hfinish, hbus]
        exact .broadcast hnull (hslave ▸ hasks) carried
      . change Bus.ClearStep _ (input, input.op.finish 0 request) _
        rw [hfinish, hbus]
        simp only [hclear hears, ↓reduceIte]
        exact .broadcast hnull (hslave ▸ hasks)
    | silent hne hclear =>
      have hquiet : net₁.heard = net₁.master := by
        rw [RtuNet.heard, if_pos hreply]
      obtain ⟨net₂, hrx, hrest₂, -, hbus₂⟩ := @rtuNet_rx_quiet rounds _ hrest₁ hquiet
        (Mbus.request { mbus with scratch := request } slave) mbus.timeout htmo
        (hears₁ ▸ hintime)
      have hexchange := mbusExchange_of_rx (fun h => hne (hzero.mp h)) htx hrx
      rw [hexchange]
      refine ⟨_, _, _, rfl, rfl, hrest₂, ?_, fun hears => ?_⟩
      . change Bus.Step _ (input, input.op.finish eTimeout _) _
        rw [input.op.finish_neg (by decide), hbus₂, hbus]
        exact .not_carried hne (hslave ▸ hasks) (by simp)
      . change Bus.ClearStep _ (input, input.op.finish eTimeout _) _
        rw [input.op.finish_neg (by decide), hbus₂, hbus]
        exact .absent hne (hslave ▸ hasks) (hclear hears)
    | @answered d d' response hne hd hanswers =>
      have hle := hanswers.length_le.1
      have hsize' := hfits.2 r (hslave ▸ hasks)
      obtain ⟨result, data, net₂, hrx, hrest₂, -, hbus₂, hresult⟩ := @rtuNet_rx rounds hrounds _
        hrest₁ (Mbus.request { mbus with scratch := request } slave) mbus.timeout htmo
        (hears₁ ▸ hintime) response (by omega) (by rw [hreply, ← hunit]; rfl)
      have hexchange := mbusExchange_of_rx (fun h => hne (hzero.mp h)) htx hrx
      rw [hexchange]
      refine ⟨_, _, _, rfl, rfl, hrest₂, ?_⟩
      change Bus.Step _ (input, input.op.finish result data) _ ∧ (_ →
        Bus.ClearStep _ (input, input.op.finish result data) _)
      rw [hbus₂, hbus]
      obtain ⟨herror, hdamaged⟩ | ⟨rfl, hload'⟩ := hresult
      . -- The slave has carried out the request, and the response was lost.
        rw [input.op.finish_neg (neg_of_mem_commErrors herror), hanswers.after_eq]
        refine ⟨.carried hne (hslave ▸ hasks) herror hd, fun hears => ?_⟩
        rw [hears₁] at hdamaged
        exact absurd hears hdamaged
      . have houtcome := MasterOp.outcome_of_answers (hslave ▸ hasks) hanswers
          (Int.natCast_nonneg response.length) hload'
        exact ⟨.replied hne hd houtcome, fun _ => .replied hne hd houtcome⟩

/-- The requests that the slave with the given id is to carry out. -/
def addressed (id : UInt8) (inputs : List NetOp) : List Request :=
  inputs.filterMap (fun input =>
    if input.slave = id ∨ input.slave = 0 then input.op.asks input.slave.toNat else none)

theorem addressed_cons (id : UInt8) (input : NetOp) (inputs : List NetOp)
    : addressed id (input :: inputs) = addressed id [input] ++ addressed id inputs := by
  rw [addressed, ← List.singleton_append, List.filterMap_append]
  rfl

theorem addressed_of_asks {input : NetOp} {r : Request} {id : UInt8}
    (hid : input.slave = id ∨ input.slave = 0) (hasks : input.op.asks input.slave.toNat = some r)
    : addressed id [input] = [r] := by
  simp [addressed, hid, hasks]

theorem MasterOp.Outcome.after_eq {slave : Int} {op : MasterOp} {d d' : DataModel} {result : Int}
    {buffer : Mem} (h : op.Outcome slave d result buffer d')
    : d' = d ∨ ∃ (r : Request), op.asks slave = some r ∧ d' = d.after r := by
  cases h with
  | refused hasks => exact .inl rfl
  | @done r hasks hv hr =>
    right
    refine ⟨r, hasks, ?_⟩
    rw [DataModel.after, if_pos ⟨hv, hr⟩]
  | illegalDataAddress hasks hr => exact .inl rfl
  | illegalDataValue hasks hv => exact .inl rfl

/-- At most the request that is addressed to a slave is carried out by it. -/
theorem Bus.Step.carries {bus bus' : Bus} {e : NetOp × (Int × Mem)} (h : bus.Step e bus')
    (id : UInt8)
    : ∃ (carried : List Request),
        carried.Sublist (addressed id [e.1])
          ∧
        bus' id = (bus id).map (fun d => carried.foldl DataModel.after d) := by
  cases h with
  | refused hasks => exact ⟨[], List.nil_sublist _, by simp⟩
  | @broadcast input r hslave hasks carried =>
    cases hid : carried id with
    | true =>
      refine ⟨[r], ?_, by simp [hid]⟩
      rw [addressed_of_asks (.inr hslave) hasks]
    | false => exact ⟨[], List.nil_sublist _, by simp [hid]⟩
  | @lost input r error hslave hasks herror carried =>
    by_cases hid : id = input.slave ∧ carried
    . refine ⟨[r], ?_, by simp [hid]⟩
      rw [addressed_of_asks (.inl hid.1.symm) hasks]
    . exact ⟨[], List.nil_sublist _, by simp [hid]⟩
  | @replied input result buffer d d' hslave hd houtcome =>
    by_cases hid : id = input.slave
    . subst hid
      rw [Function.update_self, hd]
      obtain rfl | ⟨r, hasks, rfl⟩ := houtcome.after_eq
      . exact ⟨[], List.nil_sublist _, rfl⟩
      . refine ⟨[r], ?_, rfl⟩
        rw [addressed_of_asks (.inl rfl) hasks]
    . rw [Function.update_of_ne hid]
      exact ⟨[], List.nil_sublist _, by simp⟩

theorem Bus.runs_carry {bus bus' : Bus} {es : List (NetOp × (Int × Mem))}
    (h : Runs Bus.Step bus es bus') (id : UInt8)
    : ∃ (carried : List Request),
        carried.Sublist (addressed id (es.map Prod.fst))
          ∧
        bus' id = (bus id).map (fun d => carried.foldl DataModel.after d) := by
  induction h with
  | nil bus => exact ⟨[], List.nil_sublist _, by simp⟩
  | @cons bus bus' bus'' e es head _ ih =>
    obtain ⟨first, hfirst, hbus⟩ := head.carries id
    obtain ⟨carried, hcarried, hbus'⟩ := ih
    refine ⟨first ++ carried, ?_, ?_⟩
    . rw [List.map_cons, addressed_cons]
      exact hfirst.append hcarried
    . rw [hbus', hbus, Option.map_map]
      simp [Function.comp_def]

section Runs

variable {rounds : Nat} (hrounds : 2048 ≤ rounds) {mbus : Mbus} {net : RtuNet} (hrest : net.Rest)
  {inputs : List NetOp} (hfits : ∀ input ∈ inputs, input.Fits)
  (hintime : ∀ input ∈ inputs, input.ears.InTime mbus.timeout)

/-- The states of the network and of the tables, at a master with the given timeout. -/
def RtuNet.Holds (tmo : UInt32) (state : Mbus × RtuNet) (bus : Bus) : Prop :=
  state.1.timeout = tmo ∧ state.2.Rest ∧ state.2.bus = bus

include hrounds hrest hfits hintime

/--
A master and slaves on a line where nothing is damaged and every response begins before the master
gives up are tables that do what they are asked, one request after the other: the slave that a
request is for carries it out and the master gets the response, all of them carry out a broadcast,
and the master gets a timeout if there is no such slave.
-/
theorem mbus_rtuNet (hclear : ∀ input ∈ inputs, input.ears.Clear)
    : ∃ (outs : List (Int × Mem)) (mbus' : Mbus) (net' : RtuNet),
        runAll (rtuNetCall rounds) inputs (mbus, net) = some (outs, mbus', net')
          ∧
        outs.length = inputs.length
          ∧
        net'.Rest
          ∧
        Runs Bus.ClearStep net.bus (inputs.zip outs) net'.bus := by
  have hcall (input : NetOp) (state : Mbus × RtuNet) (bus : Bus)
      (hinput : input.Fits ∧ input.ears.InTime mbus.timeout ∧ input.ears.Clear)
      (h : RtuNet.Holds mbus.timeout state bus)
      : ∃ (out : Int × Mem) (state' : Mbus × RtuNet) (bus' : Bus),
          rtuNetCall rounds input state = some (out, state') ∧
            Bus.ClearStep bus (input, out) bus' ∧ RtuNet.Holds mbus.timeout state' bus' := by
    obtain ⟨htmo, hrest, rfl⟩ := h
    obtain ⟨out, mbus', net', hcall, htmo', hrest', -, hstep⟩ :=
      rtuNetCall_step hrounds hrest input hinput.1 (htmo ▸ hinput.2.1)
    exact ⟨out, (mbus', net'), _, hcall, hstep hinput.2.2, htmo'.trans htmo, hrest', rfl⟩
  obtain ⟨outs, ⟨mbus', net'⟩, bus', hrun, hlen, hruns, -, hrest', rfl⟩ :=
    runAll_simulates (R := RtuNet.Holds mbus.timeout) hcall
      (fun input hinput => ⟨hfits input hinput, hintime input hinput, hclear input hinput⟩)
      (s := (mbus, net)) ⟨rfl, hrest, rfl⟩
  exact ⟨outs, mbus', net', hrun, hlen, hrest', hruns⟩

/--
Whatever is damaged or lost on the line, as long as no response is late, every slave has carried out
some of the requests that were addressed to it, each at most once and in the order in which they
were issued, and nothing else. What the master is told is what the slave has done, or it is told of
an error.
-/
theorem mbus_rtuNet_lossy
    : ∃ (outs : List (Int × Mem)) (mbus' : Mbus) (net' : RtuNet),
        runAll (rtuNetCall rounds) inputs (mbus, net) = some (outs, mbus', net')
          ∧
        outs.length = inputs.length
          ∧
        net'.Rest
          ∧
        Runs Bus.Step net.bus (inputs.zip outs) net'.bus
          ∧
        ∀ (id : UInt8), ∃ (carried : List Request),
          carried.Sublist (addressed id inputs)
            ∧
          net'.bus id = (net.bus id).map (fun d => carried.foldl DataModel.after d) := by
  have hcall (input : NetOp) (state : Mbus × RtuNet) (bus : Bus)
      (hinput : input.Fits ∧ input.ears.InTime mbus.timeout)
      (h : RtuNet.Holds mbus.timeout state bus)
      : ∃ (out : Int × Mem) (state' : Mbus × RtuNet) (bus' : Bus),
          rtuNetCall rounds input state = some (out, state') ∧ Bus.Step bus (input, out) bus' ∧
            RtuNet.Holds mbus.timeout state' bus' := by
    obtain ⟨htmo, hrest, rfl⟩ := h
    obtain ⟨out, mbus', net', hcall, htmo', hrest', hstep, -⟩ :=
      rtuNetCall_step hrounds hrest input hinput.1 (htmo ▸ hinput.2)
    exact ⟨out, (mbus', net'), _, hcall, hstep, htmo'.trans htmo, hrest', rfl⟩
  obtain ⟨outs, ⟨mbus', net'⟩, bus', hrun, hlen, hruns, -, hrest', rfl⟩ :=
    runAll_simulates (R := RtuNet.Holds mbus.timeout) hcall
      (fun input hinput => ⟨hfits input hinput, hintime input hinput⟩) (s := (mbus, net))
      ⟨rfl, hrest, rfl⟩
  refine ⟨outs, mbus', net', hrun, hlen, hrest', hruns, ?_⟩
  intro id
  obtain ⟨carried, hcarried, hbus⟩ := Bus.runs_carry hruns id
  rw [List.map_fst_zip hlen.ge] at hcarried
  exact ⟨carried, hcarried, hbus⟩

end Runs

section Sample

def clearEar (frame : List UInt8) : Option (Heard frame) :=
  if h : frame ≠ [] ∧ frame.length < 2 ^ 63 then
    some
      {
        burst := .single frame h.1 h.2
        schedule := fun _ => 5
        intact := .inl (by simp [Burst.bytes, Burst.single, arrivals])
      }
  else
    none

def clearEars : Ears where
  request _ := clearEar
  response _ := clearEar
  master := clearEar
  delay := 20

theorem clearEar_clear (frame : List UInt8) (hne : frame ≠ [])
    (hle : frame.length ≤ maxPduSize + 1)
    : ∃ heard ∈ clearEar frame, heard.Clear := by
  have hmax : maxPduSize = 253 := rfl
  rw [clearEar, dif_pos ⟨hne, by omega⟩]
  refine ⟨_, rfl, ?_, [], rfl⟩
  simp [Burst.bytes, Burst.single, arrivals]

theorem clearEars_clear : clearEars.Clear := by
  exact ⟨fun _ => clearEar_clear, clearEar_clear⟩

def sampleStation (id : UInt8) (hid : id ≠ 0) : Station where
  id := id
  id_ne := hid
  coils := 16
  inputs := 16
  hold := 16
  inputRegisters := 16
  vendorFuncs := none
  task := sampleTask

def sampleNet : RtuNet where
  master := .idle
  stations := [sampleStation 1 (by decide), sampleStation 2 (by decide)]
  reply := []
  ears := clearEars

theorem sampleNet_rest : sampleNet.Rest := by
  refine ⟨⟨rfl, rfl, rfl, rfl⟩, rfl, ?_, by decide⟩
  have hrest (id : UInt8) (hid : id ≠ 0) : (sampleStation id hid).Rest :=
    ⟨⟨⟨rfl, rfl, rfl, rfl⟩, rfl⟩, rfl⟩
  simp [sampleNet, hrest]

/-- A register is written in one of the slaves and then in all of them, and read from the other. -/
def sampleInputs (ears : Ears) : List NetOp :=
  [⟨1, .writeSingle 0x40001 0x5678, ears⟩, ⟨0, .writeSingle 0x40002 0x9ABC, ears⟩,
    ⟨2, .read 0x40001 2 (fun _ => 0), ears⟩]

theorem sampleInputs_fit (ears : Ears) : ∀ input ∈ sampleInputs ears, input.Fits := by
  have hsize : 5 + 2 ≤ maxPduSize := by decide
  simp only [sampleInputs, List.forall_mem_cons, List.not_mem_nil, false_implies, implies_true,
    and_true]
  refine ⟨⟨hsize, ?_⟩, ⟨hsize, ?_⟩, ⟨hsize, ?_⟩⟩
  . intro r hr
    cases hr
    decide
  . intro r hr
    cases hr
    decide
  . intro r hr
    cases hr
    decide

theorem sampleInputs_inTime {ears : Ears} {tmo : UInt32} (h : ears.InTime tmo)
    : ∀ input ∈ sampleInputs ears, input.ears.InTime tmo := by
  simp [sampleInputs, h]

theorem mbus_rtuNet_writeSingle
    : ∃ (outs : List (Int × Mem)) (mbus' : Mbus) (net' : RtuNet),
        runAll (rtuNetCall 2048) (sampleInputs clearEars)
            (mbusInit 1000 ⟨0, 0, 0, fun _ => 0⟩ (fun _ => 0), sampleNet)
          =
        some (outs, mbus', net')
          ∧
        outs.map (fun out => (out.1, out.2.load 0 4))
          =
        [(0, [0x00, 0x00, 0x00, 0x00]), (0, [0x00, 0x00, 0x00, 0x00]),
          (0, [0x34, 0x12, 0xBC, 0x9A])]
          ∧
        Runs Bus.ClearStep sampleNet.bus ((sampleInputs clearEars).zip outs) net'.bus := by
  obtain ⟨outs, mbus', net', hrun, -, -, hruns⟩ := @mbus_rtuNet 2048 (Nat.le_refl 2048)
    (mbusInit 1000 ⟨0, 0, 0, fun _ => 0⟩ (fun _ => 0)) sampleNet sampleNet_rest
    (sampleInputs clearEars) (sampleInputs_fit clearEars) (sampleInputs_inTime (by decide))
    (by simp [sampleInputs, clearEars_clear])
  refine ⟨outs, mbus', net', hrun, ?_, hruns⟩
  have houts :
      (runAll (rtuNetCall 2048) (sampleInputs clearEars)
          (mbusInit 1000 ⟨0, 0, 0, fun _ => 0⟩ (fun _ => 0), sampleNet)).map
        (fun r => r.1.map (fun out => (out.1, out.2.load 0 4)))
        =
      some
        [(0, [0x00, 0x00, 0x00, 0x00]), (0, [0x00, 0x00, 0x00, 0x00]),
          (0, [0x34, 0x12, 0xBC, 0x9A])] := by
    decide +kernel
  rw [hrun] at houts
  exact Option.some.inj houts

/-- After a late response an operation on a slave that is absent waits for ever. -/
example
    : (runAll (rtuNetCall 2048)
          [⟨1, .writeSingle 0x40001 0x5678, { clearEars with delay := 1000 }⟩,
            ⟨7, .read 0x40001 2 (fun _ => 0), clearEars⟩]
          (mbusInit 1000 ⟨0, 0, 0, fun _ => 0⟩ (fun _ => 0), sampleNet)).isNone = true := by
  decide +kernel

/-- The master hears nothing. -/
theorem mbus_rtuNet_lossy_deaf
    : ∃ (outs : List (Int × Mem)) (mbus' : Mbus) (net' : RtuNet) (carried : List Request),
        runAll (rtuNetCall 2048) (sampleInputs { clearEars with master := fun _ => none })
            (mbusInit 1000 ⟨0, 0, 0, fun _ => 0⟩ (fun _ => 0), sampleNet)
          =
        some (outs, mbus', net')
          ∧
        carried.Sublist [.writeHoldingRegister 0 0x5678, .writeHoldingRegister 1 0x9ABC]
          ∧
        net'.bus 1 = (sampleNet.bus 1).map (fun d => carried.foldl DataModel.after d) := by
  obtain ⟨outs, mbus', net', hrun, -, -, -, hcarried⟩ := @mbus_rtuNet_lossy 2048
    (Nat.le_refl 2048) (mbusInit 1000 ⟨0, 0, 0, fun _ => 0⟩ (fun _ => 0)) sampleNet
    sampleNet_rest (sampleInputs { clearEars with master := fun _ => none }) (sampleInputs_fit _)
    (sampleInputs_inTime (by decide))
  obtain ⟨carried, hsublist, hbus⟩ := hcarried 1
  exact ⟨outs, mbus', net', carried, hrun, hsublist, hbus⟩

end Sample

end Modbus

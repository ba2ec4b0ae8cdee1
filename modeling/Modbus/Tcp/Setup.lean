import Mathlib.Logic.Function.Basic
import Modbus.Tcp.Owner

/-!
This module contains how the ports set up a connection, and a table of descriptors for the system
calls. A call may fail at any time, and a descriptor is any that is not in use.
-/

namespace Modbus

inductive SockOpt where
  | tcpNodelay
  | soReuseaddr
  | soRcvtimeo
  | soKeepalive
  | tcpKeepidle
  | tcpKeepintvl
  | tcpKeepcnt
  deriving DecidableEq, Repr

/-- The system calls that set up a connection. -/
structure SetupOs (ω : Type) where
  socket : ω → Int × ω
  setsockopt : Int → SockOpt → Int → ω → Int × ω
  bind : Int → UInt16 → ω → Int × ω
  listen : Int → Int → ω → Int × ω
  accept : Int → ω → Int × ω
  connect : Int → Option String → UInt16 → ω → Int × ω
  close : Int → ω → ω

def keepAliveIdle : Int := 10

def keepAliveIntvl : Int := 2

def keepAliveCnt : Int := 3

/-- On Linux it is the `tv_usec` of a `struct timeval`. -/
def MbalPort.rcvTimeout : MbalPort → Int
  | linux => 500 * 1000
  | rtKernel | windows => 500

def connectOptions : List (SockOpt × Int) :=
  [(.tcpNodelay, 1), (.soReuseaddr, 1)]

def MbalPort.listenOptions (mbal : MbalPort) : List (SockOpt × Int) :=
  [(.soReuseaddr, 1), (.soRcvtimeo, mbal.rcvTimeout)]

def MbalPort.peerOptions (mbal : MbalPort) : List (SockOpt × Int) :=
  let options :=
    [(.tcpNodelay, 1), (.soReuseaddr, 1), (.soRcvtimeo, mbal.rcvTimeout), (.soKeepalive, 1)]
  match mbal with
  | linux | rtKernel =>
    options ++
      [(.tcpKeepidle, keepAliveIdle), (.tcpKeepintvl, keepAliveIntvl), (.tcpKeepcnt, keepAliveCnt)]
  -- keepalive is not available on windows
  | windows => options

section Setup

variable {ω : Type} (os : SetupOs ω)

/-- One call of `setsockopt` after the other, up to the first that fails. -/
def osSetsockopts (sock : Int) : List (SockOpt × Int) → ω → Int × ω
  | [], w => (0, w)
  | (option, value) :: options, w =>
    let r := os.setsockopt sock option value w
    if r.1 = -1 then r else osSetsockopts sock options r.2

def osTcpConnect (name : Option String) (port : UInt16) (w : ω) : Int × ω :=
  -- Create socket
  let r := os.socket w
  let sock := r.1
  if sock = -1 then
    (-1, r.2)
  else
    -- Set socket options (nagle, reuseaddr)
    let r := osSetsockopts os sock connectOptions r.2
    if r.1 = -1 then
      (-1, os.close sock r.2)
    else
      -- Connect to peer
      let r := os.connect sock name port r.2
      if r.1 = -1 then
        (-1, os.close sock r.2)
      else
        (sock, r.2)

def osTcpAcceptConnection (mbal : MbalPort) (port : UInt16) (w : ω) : Int × ω :=
  -- Create listening socket
  let r := os.socket w
  let sock := r.1
  if sock = -1 then
    (-1, r.2)
  else
    let r := osSetsockopts os sock mbal.listenOptions r.2
    if r.1 = -1 then
      (-1, os.close sock r.2)
    else
      let r := os.bind sock port r.2
      if r.1 = -1 then
        (-1, os.close sock r.2)
      else
        let r := os.listen sock 1 r.2
        if r.1 = -1 then
          (-1, os.close sock r.2)
        else
          -- Accept one connection
          let r := os.accept sock r.2
          let peer := r.1
          if peer = -1 then
            -- Error or timeout
            (-1, os.close sock r.2)
          else
            -- Set peer socket options (nagle, reuseaddr, receive timeout, keepalive)
            let r := osSetsockopts os peer mbal.peerOptions r.2
            if r.1 = -1 then
              (-1, os.close sock (os.close peer r.2))
            else
              -- Close listening socket. No more connections accepted.
              (peer, os.close sock r.2)

end Setup

structure Socket where
  options : List (SockOpt × Int)

structure Fds where
  table : Int → Option Socket
  calls : Nat
  -- Some call was made on a descriptor that was not in use.
  misused : Bool

def Fds.use (fd : Int) (fds : Fds) : Fds :=
  { fds with calls := fds.calls + 1, misused := fds.misused || (fds.table fd).isNone }

def Fds.set (fd : Int) (socket : Option Socket) (fds : Fds) : Fds :=
  { fds with table := Function.update fds.table fd socket }

/-- What the system calls answer depends on how many there were before. -/
structure Kernel where
  mbal : MbalPort
  fails : Nat → Bool
  newFd : Nat → Int
  send : Nat → Int
  recv : Nat → Option (List UInt8)
  select : Nat → Int

namespace Kernel

variable (k : Kernel)

/-- The new socket of `socket` and `accept`. These fail too if there are no more descriptors. -/
def create (fds : Fds) : Int × Fds :=
  let fd := k.newFd fds.calls
  if k.fails fds.calls ∨ fd < 0 ∨ (fds.table fd).isSome then
    (-1, { fds with calls := fds.calls + 1 })
  else
    (fd, { fds with calls := fds.calls + 1 }.set fd (some ⟨[]⟩))

def result (fds : Fds) : Int :=
  if k.fails fds.calls then -1 else 0

def setupOs : SetupOs Fds where
  socket := k.create
  setsockopt sock option value fds :=
    (k.result fds,
      if k.fails fds.calls then
        fds.use sock
      else
        (fds.use sock).set sock
          ((fds.table sock).map (fun s => { s with options := s.options ++ [(option, value)] })))
  bind sock _ fds := (k.result fds, fds.use sock)
  listen sock _ fds := (k.result fds, fds.use sock)
  accept sock fds :=
    let r := k.create fds
    (r.1, { r.2 with misused := (fds.use sock).misused })
  connect sock _ _ fds := (k.result fds, fds.use sock)
  close sock fds := (fds.use sock).set sock none

def os : TcpOs Fds where
  port := k.mbal
  acceptConnection := osTcpAcceptConnection k.setupOs k.mbal
  connect := osTcpConnect k.setupOs
  close := k.setupOs.close
  send peer _ _ remain fds :=
    (if (fds.table peer).isNone then -1 else max (-1) (min (k.send fds.calls) remain),
      fds.use peer)
  recv peer _ remain fds :=
    (if (fds.table peer).isNone then none else (k.recv fds.calls).map (List.take remain.toNat),
      fds.use peer)
  select peer _ fds :=
    (if (fds.table peer).isNone then -1 else k.select fds.calls, fds.use peer)

end Kernel

/-- The descriptors are these, and all calls were made on descriptors that were in use. -/
structure Fds.Are (table : Int → Option Socket) (fds : Fds) : Prop where
  table : fds.table = table
  misused : fds.misused = false

namespace Fds.Are

variable {table : Int → Option Socket} {fds : Fds} (h : fds.Are table)

include h

theorem use {fd : Int} {s : Socket} (hfd : table fd = some s) : (fds.use fd).Are table := by
  refine ⟨h.table, ?_⟩
  simp [Fds.use, h.table, h.misused, hfd]

theorem set (fd : Int) (s : Option Socket) : (fds.set fd s).Are (Function.update table fd s) := by
  refine ⟨?_, h.misused⟩
  rw [Fds.set, h.table]

end Fds.Are

/-- There is one descriptor more, of that socket, or the call failed. -/
inductive Established (socket : Socket) (table : Int → Option Socket) : Int × Fds → Prop where
  | failed {fds : Fds} (h : fds.Are table) : Established socket table (-1, fds)
  | opened {fd : Int} {fds : Fds} (hpos : 0 ≤ fd) (hfree : table fd = none)
    (h : fds.Are (Function.update table fd (some socket))) : Established socket table (fd, fds)

inductive OptionsSet (fd : Int) (options : List (SockOpt × Int)) (table : Int → Option Socket)
    : Int × Fds → Prop where
  | failed {s : Socket} {fds : Fds} (h : fds.Are (Function.update table fd (some s)))
    : OptionsSet fd options table (-1, fds)
  | set {result : Int} {fds : Fds} (hne : result ≠ -1)
    (h : fds.Are (Function.update table fd (some ⟨options⟩)))
    : OptionsSet fd options table (result, fds)

section Kernel

variable (k : Kernel) {table : Int → Option Socket} {fds : Fds}

theorem Kernel.socket_established (h : fds.Are table)
    : Established ⟨[]⟩ table (k.setupOs.socket fds) := by
  have hcalls : { fds with calls := fds.calls + 1 }.Are table := ⟨h.table, h.misused⟩
  change Established _ _ (k.create fds)
  unfold create
  dsimp only
  split
  . exact .failed hcalls
  . next hfine =>
    rw [not_or, not_or, h.table] at hfine
    obtain ⟨-, hpos, hfree⟩ := hfine
    exact .opened (by omega) (by simpa using hfree) (hcalls.set _ _)

theorem Kernel.close_are {fd : Int} {s : Socket} (h : fds.Are (Function.update table fd (some s)))
    (hfree : table fd = none)
    : (k.setupOs.close fd fds).Are table := by
  have hclosed := (h.use (Function.update_self fd (some s) table)).set fd none
  have hback : Function.update table fd none = table := by
    rw [← hfree, Function.update_eq_self]
  rw [Function.update_idem, hback] at hclosed
  exact hclosed

theorem Kernel.osSetsockopts_set {fd : Int} (options options' : List (SockOpt × Int))
    (h : fds.Are (Function.update table fd (some ⟨options⟩)))
    : OptionsSet fd (options ++ options') table (osSetsockopts k.setupOs fd options' fds) := by
  induction options' generalizing options fds with
  | nil =>
    rw [List.append_nil]
    exact .set (by decide) h
  | cons option options' ih =>
    have huse := h.use (Function.update_self fd (some ⟨options⟩) table)
    rw [osSetsockopts]
    by_cases hfails : k.fails fds.calls = true
    . have hresult : k.setupOs.setsockopt fd option.1 option.2 fds = (-1, fds.use fd) := by
        simp [setupOs, Kernel.result, hfails]
      rw [hresult]
      exact .failed huse
    . have hset := huse.set fd (some ⟨options ++ [option]⟩)
      have hresult : k.setupOs.setsockopt fd option.1 option.2 fds
          = (0, (fds.use fd).set fd (some ⟨options ++ [option]⟩)) := by
        simp [setupOs, Kernel.result, hfails, h.table]
      rw [Function.update_idem] at hset
      rw [hresult, List.append_cons]
      exact ih _ hset

theorem Kernel.osSetsockopts_new {fd : Int} (options : List (SockOpt × Int))
    (h : fds.Are (Function.update table fd (some ⟨[]⟩)))
    : OptionsSet fd options table (osSetsockopts k.setupOs fd options fds) := by
  exact k.osSetsockopts_set [] options h

theorem osTcpConnect_established (h : fds.Are table) (name : Option String) (port : UInt16)
    : Established ⟨connectOptions⟩ table (osTcpConnect k.setupOs name port fds) := by
  have hsocket := k.socket_established h
  unfold osTcpConnect
  generalize k.setupOs.socket fds = r at hsocket
  cases hsocket with
  | failed h => exact .failed h
  | @opened sock fds₁ hpos hfree h =>
    have hoptions := k.osSetsockopts_new connectOptions h
    dsimp only
    rw [if_neg (by omega)]
    generalize osSetsockopts k.setupOs sock connectOptions fds₁ = r at hoptions
    cases hoptions with
    | failed h => exact .failed (k.close_are h hfree)
    | @set result fds₂ hne h =>
      have huse := h.use (Function.update_self sock (some ⟨connectOptions⟩) table)
      dsimp only
      rw [if_neg hne]
      split
      . exact .failed (k.close_are huse hfree)
      . exact .opened hpos hfree huse

end Kernel

/-- Besides these descriptors there is that of the connection, if there is one. -/
def Fds.Hold (table : Int → Option Socket) (socket : Socket) : Option Int → Fds → Prop
  | none, fds => fds.Are table
  | some fd, fds => table fd = none ∧ fds.Are (Function.update table fd (some socket))

theorem Kernel.keeps_hold (k : Kernel) (table : Int → Option Socket) (socket : Socket)
    : k.os.Keeps (Fds.Hold table socket) where
  close h := k.close_are h.2 h.1
  send h _ _ _ := ⟨h.1, h.2.use (Function.update_self _ _ _)⟩
  recv h _ _ := ⟨h.1, h.2.use (Function.update_self _ _ _)⟩
  select h _ := ⟨h.1, h.2.use (Function.update_self _ _ _)⟩
  allowed_send peer buffer := by
    intro p remain fds
    simp only [Kernel.os]
    split
    . omega
    . omega
  allowed_recv peer := by
    apply allowed_recv
    intro p remain fds bs hbs
    simp only [Kernel.os] at hbs
    split at hbs
    . cases hbs
    . obtain ⟨bs', -, rfl⟩ := Option.mem_map.mp hbs
      apply List.length_take_le

def sampleFds : Fds where
  table fd := if 0 ≤ fd ∧ fd < 3 then some ⟨[]⟩ else none
  calls := 0
  misused := false

end Modbus

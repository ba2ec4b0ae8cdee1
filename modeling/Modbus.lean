import Modbus.Data.Word
import Modbus.Data.Mem
import Modbus.Data.Packed
import Modbus.Data.Access
import Modbus.Data.Lfsr
import Modbus.Data.Runs
import Modbus.Data.Tasks
import Modbus.Pdu.Basic
import Modbus.Transport.Basic
import Modbus.Slave.Impl
import Modbus.Slave.Lemmas
import Modbus.Slave.Switch
import Modbus.Slave.Items
import Modbus.Slave.Sample
import Modbus.Slave.Bounds
import Modbus.Slave.Reject
import Modbus.Slave.Stale
import Modbus.Slave.Answer
import Modbus.Slave.Spec
import Modbus.Slave.Refine
import Modbus.Slave.Transmit
import Modbus.Slave.Serve
import Modbus.Master.Impl
import Modbus.Master.Lemmas
import Modbus.Master.Channel
import Modbus.Master.Op
import Modbus.Master.Build
import Modbus.Master.Reply
import Modbus.Master.Loopback
import Modbus.Master.Success
import Modbus.Tcp.Impl
import Modbus.Tcp.Transfer
import Modbus.Tcp.Sock
import Modbus.Tcp.Mbap
import Modbus.Tcp.Sync
import Modbus.Tcp.RoundTrip
import Modbus.Tcp.Server
import Modbus.Tcp.Responder
import Modbus.Tcp.Client
import Modbus.Tcp.Trace
import Modbus.Tcp.Ids
import Modbus.Tcp.Lifecycle
import Modbus.Tcp.Handles
import Modbus.Tcp.Close
import Modbus.Tcp.AllOrNothing
import Modbus.Rtu.Crc
import Modbus.Rtu.Impl
import Modbus.Rtu.Line
import Modbus.Rtu.Receive
import Modbus.Rtu.Frame
import Modbus.Rtu.Burst
import Modbus.Rtu.Bus
import Modbus.Rtu.Poly
import Modbus.Rtu.Accept
import Modbus.Rtu.Detect
import Modbus.Rtu.Write
import Modbus.Rtu.Overrun
import Modbus.Rtu.Bringup
import Modbus.Master.Host
import Modbus.Master.Spec
import Modbus.Master.Driver
import Modbus.Tcp.Link
import Modbus.Tcp.Owner
import Modbus.Tcp.Setup
import Modbus.Tcp.TcpRtuMaster
import Modbus.Rtu.Station
import Modbus.Rtu.Network
import Modbus.Rtu.Driver
import Modbus.Rtu.Timer
import Modbus.Rtu.InTime
import Modbus.Rtu.Serial
import Modbus.Rtu.Emit
import Modbus.Transport.Contract
import Modbus.Transport.GetMsg

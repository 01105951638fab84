import NovaOs.Core.Ipc
import NovaOs.Core.Lemmas.Ipc
import NovaOs.Core.Theorems.Ipc
import NovaOs.Core.IpcPair
import NovaOs.Core.Lemmas.IpcPair
import NovaOs.Core.Theorems.IpcPair
import NovaOs.Core.Scheduler
import NovaOs.Core.Lemmas.Scheduler
import NovaOs.Core.Lemmas.PickNext
import NovaOs.Core.Theorems.Scheduler
import NovaOs.Core.Theorems.Accounting
import NovaOs.Core.Theorems.PickNext
import NovaOs.Core.Theorems.Timetable
import NovaOs.Core.Lemmas.Vm
import NovaOs.Core.Theorems.Vm
import NovaOs.Lib.Admission
import NovaOs.Core.Theorems.Admission
import NovaOs.Lib.LeastFree
import NovaOs.Core.Theorems.Footprint
import NovaOs.Lib.Chain
import NovaOs.Lib.Heap
import NovaOs.Network.Basic
import NovaOs.Network.Stack
import NovaOs.Network.Api
import NovaOs.Network.Lemmas.Stack
import NovaOs.Network.Lemmas.Registry
import NovaOs.Network.Lemmas.Hooks
import NovaOs.Network.Lemmas.Sockets
import NovaOs.Network.Lemmas.Send
import NovaOs.Network.Theorems.Ownership
import NovaOs.Network.Lemmas.Loopback
import NovaOs.Network.Theorems.Loopback
import NovaOs.Network.Theorems.Registry
import NovaOs.Network.Theorems.Constructors
import NovaOs.Network.Theorems.Lifecycle
import NovaOs.Network.Theorems.Sockets
import NovaOs.Network.Theorems.Capacity
import NovaOs.Network.Theorems.LazyInit
import NovaOs.Network.Theorems.Devices
import NovaOs.Network.Theorems.Atomicity
import NovaOs.Lib.Places
import NovaOs.Network.ByteOrder
import NovaOs.Network.Lemmas.Payload
import NovaOs.Network.Theorems.Payload
import NovaOs.Lib.CString
import NovaOs.Novakit.Registry
import NovaOs.Novakit.Lemmas.Registry
import NovaOs.Novakit.Theorems.Registry
import NovaOs.Boot.Kernel
import NovaOs.Boot.Editor
import NovaOs.Boot.Lemmas.Kernel
import NovaOs.Boot.Theorems.Shell
import NovaOs.Lib.Decimal
import NovaOs.Lib.Terminal
import NovaOs.Boot.Theorems.Numerals
import NovaOs.Boot.Theorems.Screen
import NovaOs.Boot.Theorems.Session
import NovaOs.UiMode.BootPath
import NovaOs.UiMode.Theorems.BootPath
import NovaOs.UiMode.Theorems.Commands
import NovaOs.UiMode.Theorems.Reachable
import NovaOs.Io.Basic
import NovaOs.Io.Lemmas.Registry
import NovaOs.Io.Theorems.Registry
import NovaOs.Io.Theorems.Concurrent
import NovaOs.Io.Directory
import NovaOs.Io.Theorems.Directory
import NovaOs.Io.Theorems.BackLinks
import NovaOs.Io.Memory
import NovaOs.Io.Lemmas.Memory
import NovaOs.Io.Theorems.Memory
import NovaOs.Io.Request
import NovaOs.Io.Theorems.Request

import BaremetalCrt.Library.Runs
import BaremetalCrt.Library.Segments
import BaremetalCrt.Sys.Target
import BaremetalCrt.Sys.String
import BaremetalCrt.Memory.Node
import BaremetalCrt.Memory.Syscall
import BaremetalCrt.Memory.Mappings
import BaremetalCrt.Cpu.FutexRecord
import BaremetalCrt.Cpu.Registers
import BaremetalCrt.Library.Roster
import BaremetalCrt.Thread.Clone
import BaremetalCrt.Thread.Consistency
import BaremetalCrt.Thread.Schedule
import BaremetalCrt.Futex.LostWakeup
import BaremetalCrt.Futex.Ledger
import BaremetalCrt.Futex.Release
import BaremetalCrt.Library.Holding
import BaremetalCrt.Device.Links
import BaremetalCrt.Device.Find
import BaremetalCrt.Device.Probe
import BaremetalCrt.Device.Boot
import BaremetalCrt.Device.Progress
import BaremetalCrt.Device.Flat
import BaremetalCrt.Library.Sweeps
import BaremetalCrt.Device.Order
import BaremetalCrt.Library.Carry
import BaremetalCrt.Sys.Clock
import BaremetalCrt.Sys.Realtime
import BaremetalCrt.Cpu.Wakeup
import BaremetalCrt.Thread.Switch
import BaremetalCrt.Library.RegisterMachine
import BaremetalCrt.Library.Routines
import BaremetalCrt.Cpu.TrapCode
import BaremetalCrt.Cpu.Trap
import BaremetalCrt.Intc.Dispatch
import BaremetalCrt.Intc.Parents
import BaremetalCrt.Intc.Retry
import BaremetalCrt.Device.Starter
import BaremetalCrt.Device.Cores
import BaremetalCrt.Intc.Polling
import BaremetalCrt.Library.LittleEndian
import BaremetalCrt.Tool.Elf
import BaremetalCrt.Sys.Args
import BaremetalCrt.Tool.Auxv
import BaremetalCrt.Sys.CommArea
import BaremetalCrt.Sys.Startup
import BaremetalCrt.Library.Occupancy
import BaremetalCrt.Memory.Ranges
import BaremetalCrt.Memory.Usage
import BaremetalCrt.Memory.Requests
import BaremetalCrt.Library.Loops
import BaremetalCrt.Sys.MemRoutines
import BaremetalCrt.Library.Rescaling
import BaremetalCrt.Sys.Compare
import BaremetalCrt.Sys.Ticks
import BaremetalCrt.Memory.Break
import BaremetalCrt.Sys.Mtime
import BaremetalCrt.Clk.Prci
import BaremetalCrt.Clk.PrciPll
import BaremetalCrt.Cpu.Cache
import BaremetalCrt.Cpu.WakeScan
import BaremetalCrt.Sys.Writev
import BaremetalCrt.Futex.Requeue
import BaremetalCrt.Thread.CloneUnwind
import BaremetalCrt.Device.Mmio
import BaremetalCrt.Gpio.Lines
import BaremetalCrt.Library.HeadedList
import BaremetalCrt.Sys.Event
import BaremetalCrt.Uart.Config
import BaremetalCrt.Intc.Mask
import BaremetalCrt.Cpu.CoreIds
import BaremetalCrt.Device.Registry
import BaremetalCrt.Intc.Plic
import BaremetalCrt.Library.AccessLog
import BaremetalCrt.Tool.Accesses
import BaremetalCrt.Tool.Bounds
import BaremetalCrt.Tool.Rerun
import BaremetalCrt.Sys.Lock
import BaremetalCrt.Memory.Tags
import BaremetalCrt.Library.Emission
import BaremetalCrt.Library.FloatFormat
import BaremetalCrt.Print.Console
import BaremetalCrt.Print.ConsoleRuns
import BaremetalCrt.Print.Fixed
import BaremetalCrt.Print.FixedText
import BaremetalCrt.Library.RankedLocks
import BaremetalCrt.Sys.LockOrder
import BaremetalCrt.Thread.ExitOwn
import BaremetalCrt.Uart.Line

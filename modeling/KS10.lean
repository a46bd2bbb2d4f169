import KS10.Clocked.Run
import KS10.Clocked.Field
import KS10.Clocked.Enable
import KS10.Clocked.Strobe
import KS10.Clocked.Store
import KS10.Clocked.RingStack
import KS10.Cpu.Microword
import KS10.Cpu.Sequencer
import KS10.Cpu.Microstack
import KS10.Cpu.Mmu
import KS10.Cpu.Lockstep
import KS10.Cpu.Pager
import KS10.Cpu.PageCheck
import KS10.Cpu.RamFile
import KS10.Cpu.PcFlags
import KS10.Cpu.Timer
import KS10.Cpu.Apr
import KS10.Cpu.RunControl
import KS10.Cpu.Breakpoint
import KS10.Cpu.Switches
import KS10.Bus.Arbiter
import KS10.Bus.Memory
import KS10.Cpu.PageFault
import KS10.Bus.Timeout
import KS10.Bus.Link
import KS10.Bus.Handshake
import KS10.Uba.Interrupt
import KS10.Uba.Devices
import KS10.Uba.Delivery
import KS10.Clocked.Leads
import KS10.Disk.Spi
import KS10.Disk.Sd
import KS10.Disk.Waits
import KS10.Disk.InStep
import KS10.Disk.Card
import KS10.Disk.Transfer
import KS10.Disk.Rules
import KS10.Disk.Talk
import KS10.Disk.Words
import KS10.Disk.Sectors
import KS10.Disk.Read
import KS10.Disk.Write
import KS10.Disk.RoundTrip
import KS10.Disk.Overlap
import KS10.Disk.Check
import KS10.Disk.Phases
import KS10.Disk.Drive
import KS10.Disk.Disks
import KS10.Disk.Service
import KS10.Disk.Seek
import KS10.Disk.Locate
import KS10.Disk.Address
import KS10.Clocked.Program
import KS10.Bus.Console
import KS10.Bus.Capture
import KS10.Console.Registers
import KS10.Console.Restart
import KS10.Console.Exchange
import KS10.Console.Mailbox
import KS10.Console.Telnet
import KS10.Bus.Noninterference
import KS10.Uba.Bridge
import KS10.Uba.Acknowledge
import KS10.Uba.Sharing
import KS10.Clocked.Ring
import KS10.Dz.Silo
import KS10.Dz.Order
import KS10.Dz.DataValid
import KS10.Clocked.Stuffing
import KS10.Usrt.Transmitter
import KS10.Usrt.Receiver
import KS10.Usrt.RoundTrip
import KS10.Clocked.Remainder
import KS10.Dup.Crc
import KS10.Dup.Transmitter
import KS10.Dup.Receiver
import KS10.Dup.CheckBytes
import KS10.Dup.Interrupts
import KS10.Dup.Program
import KS10.Dup.Register
import KS10.Dup.Stages
import KS10.Dup.Message
import KS10.Dup.Sending
import KS10.Uba.Vector
import KS10.Cpu.Fifo
import KS10.Cpu.Trace
import KS10.Lp.Dma
import KS10.Lp.Transfer
import KS10.Lp.Printer
import KS10.Lp.Characters
import KS10.Lp.Handshake
import KS10.Lp.Feeds
import KS10.Lp.Vertical
import KS10.Uart.Frame
import KS10.Uart.Transmitter
import KS10.Uart.Receiver
import KS10.Uart.Heard
import KS10.Uart.Rate
import KS10.Uart.Link
import KS10.Uart.InStep
import KS10.Uart.Loopback
import KS10.Disk.Mapping
import KS10.Cpu.FastShift
import KS10.Clocked.Adder
import KS10.Clocked.NonRestoring
import KS10.Cpu.Alu
import KS10.Cpu.AluFlags
import KS10.Cpu.AluShift
import KS10.Cpu.AluDivide
import KS10.Cpu.Pi
import KS10.Clocked.Watchdog
import KS10.Bus.Monitors
import KS10.Uba.Paging
import KS10.Disk.Search
import KS10.Disk.Heads
import KS10.Lp.Columns
import KS10.Clocked.EdgeLatch
import KS10.Disk.Summary
import KS10.Dz.Overrun
import KS10.Uart.HandOff
import KS10.Dup.Ddcmp
import KS10.Usrt.Delimiters
import KS10.Dz.Scanner
import KS10.Lp.Ramd
import KS10.Lp.RamTable
import KS10.Lp.RamLoad
import KS10.Clocked.Cycle
import KS10.Disk.Rotation
import KS10.Disk.OneDrive
import KS10.Disk.Overflow
import KS10.Lp.Skip
import KS10.Lp.FormLoad
import KS10.Disk.Silo
import KS10.Clocked.SetLatch
import KS10.Disk.Completion
import KS10.Uba.Status
import KS10.Console.History
import KS10.Console.Recalls
import KS10.Console.LineEditor
import KS10.Console.Editing
import KS10.Console.Session
import KS10.Clocked.Numeral
import KS10.Console.Stdio
import KS10.Console.Printing
import KS10.Console.Bounds
import KS10.Console.Dasm
import KS10.Console.Disassembly
import KS10.Console.Reading
import KS10.Clocked.BoundedQueue
import KS10.Cpu.FifoQueue
import KS10.Cpu.TickRate
import KS10.Disk.SpiBits
import KS10.Console.OctalText
import KS10.Console.SaveFile
import KS10.Console.SdCard
import KS10.Console.SdPaths
import KS10.Console.Replies
import KS10.Clocked.Comes
import KS10.Clocked.Booth
import KS10.Clocked.Driver
import KS10.Micro.Engine
import KS10.Micro.Microprogram
import KS10.Micro.Operation
import KS10.Micro.Word
import KS10.Micro.Numbers
import KS10.Micro.Straight
import KS10.Micro.Lines
import KS10.Micro.Rom
import KS10.Micro.Multiply
import KS10.Micro.Product
import KS10.Micro.Imul
import KS10.Micro.Mul
import KS10.Micro.DivideSetup
import KS10.Micro.Divide
import KS10.Micro.Divsub
import KS10.Micro.Idiv
import KS10.Micro.Div
import KS10.Micro.ShiftLoop
import KS10.Micro.Lshc
import KS10.Micro.Ashc
import KS10.Micro.PowerUp
import KS10.Bus.Backplane
import KS10.Bus.Cycles
import KS10.Console.Accesses
import KS10.Console.Deposit
import KS10.Console.Load

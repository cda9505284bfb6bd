import LmaOS.Util.Run
import LmaOS.Util.Task
import LmaOS.Util.Stack
import LmaOS.Util.Stacks
import LmaOS.Util.PageWalk
import LmaOS.Util.Rotation
import LmaOS.KbIntr
import LmaOS.Session.Return
import LmaOS.Console.Input
import LmaOS.Console.Switching
import LmaOS.Console.KeyboardBuffer
import LmaOS.Console.LineDiscipline
import LmaOS.Console.Cursor
import LmaOS.Console.LineEditing
import LmaOS.Console.Scrollback
import LmaOS.Console.Numerals
import LmaOS.Console.Format
import LmaOS.Memory.Isolation
import LmaOS.Memory.Vidmap
import LmaOS.Memory.Routines
import LmaOS.Files.Content
import LmaOS.Files.ReadFault
import LmaOS.Files.Read
import LmaOS.Files.Open
import LmaOS.Files.Dispatch
import LmaOS.Files.ReadFrame
import LmaOS.Files.SequentialRead
import LmaOS.Files.Lookup
import LmaOS.Files.Directory
import LmaOS.Files.BlockTable
import LmaOS.Files.Stream
import LmaOS.Exec.Failure
import LmaOS.Exec.Load
import LmaOS.Exec.Executable
import LmaOS.Exec.ParseStores
import LmaOS.Exec.Argument
import LmaOS.Session.Descriptors
import LmaOS.Session.AddressSpace
import LmaOS.Session.Lookup
import LmaOS.Session.Arguments
import LmaOS.Session.TermProc
import LmaOS.Scheduling
import LmaOS.Session.Ticks
import LmaOS.User.Grep
import LmaOS.User.Shell
import LmaOS.Fish.Schedule
import LmaOS.Fish.Frames
import LmaOS.Interrupts.Idt
import LmaOS.Interrupts.IntrHandler
import LmaOS.Interrupts.Library

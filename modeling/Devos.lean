import Devos.Library.Loops
import Devos.Library.ExchangeSort
import Devos.Basic
import Devos.Strings
import Devos.Security.Cipher
import Devos.Security.Transposition
import Devos.Security.RoundTrip
import Devos.Library.LinearProbing
import Devos.Library.Rehash
import Devos.Library.Displacement
import Devos.Security.Table
import Devos.Security.TableProbes
import Devos.Fs.Allocation
import Devos.Fs.FileDev
import Devos.Fs.FileRead
import Devos.Fs.FileWrite
import Devos.Kernel.InodeLife
import Devos.Kernel.Interleaving
import Devos.Kernel.KeyRace
import Devos.Kernel.WalkRace
import Devos.Security.Directory
import Devos.Security.DirectoryFrame
import Devos.Security.DirectoryPlain
import Devos.Security.EncryptDirectory
import Devos.Security.DirectoryComplete
import Devos.Security.TableSet
import Devos.Security.SavedTable
import Devos.Kernel.Schedule
import Devos.Kernel.KeyCheck
import Devos.Kernel.Reload
import Devos.Kernel.Context
import Devos.Fs.Truncate
import Devos.Fs.Ownership
import Devos.Fs.PlainIO
import Devos.Fs.PlainFile
import Devos.Fs.Entries
import Devos.Fs.Mkdir
import Devos.Fs.Links
import Devos.Fs.LinkCounts
import Devos.Fs.LinkRuns
import Devos.Fs.FileBlock
import Devos.Library.Ring
import Devos.Fs.Pipe
import Devos.Fs.Bitmap
import Devos.Library.RefCount
import Devos.Fs.Descriptors
import Devos.Fs.DescriptorCounts
import Devos.Fs.InodeTable
import Devos.Fs.OwnWrites
import Devos.Fs.OpenNamei
import Devos.Fs.WriteAccess
import Devos.Library.SlotMap
import Devos.Fs.DirectorySlots
import Devos.Fs.DirectoryMap
import Devos.Library.LinkedList
import Devos.Fs.BufferQueues
import Devos.Fs.Getblk
import Devos.Fs.BufferCache
import Devos.Library.Pointers
import Devos.Kernel.WaitQueue
import Devos.Kernel.Reaping
import Devos.Kernel.DiskQueue
import Devos.Library.StringMoves
import Devos.Tty.Console
import Devos.Tty.ScreenBounds
import Devos.Tty.Scroll
import Devos.Tty.Queues
import Devos.Tty.Consumed
import Devos.Tty.LineCount
import Devos.Tty.Newlines
import Devos.Tty.Panel
import Devos.Tty.Clipboard
import Devos.Tty.Explorer
import Devos.Library.Longs
import Devos.Mm.Counts
import Devos.Mm.Forking
import Devos.Mm.Isolation
import Devos.Security.ColumnOrder
import Devos.Security.TableAdd
import Devos.Kernel.KeyBuffers
import Devos.Fs.ExecArgs
import Devos.Security.WalkBounds
import Devos.Security.TableRecords
import Devos.Kernel.KeySampling
import Devos.Fs.BlockPath
import Devos.Fs.TruncateExact
import Devos.Fs.NewBlock
import Devos.Fs.BlockDev
import Devos.Fs.Getdents
import Devos.Fs.Dup2
import Devos.Fs.Access
import Devos.Fs.WriteLimit
import Devos.Kernel.Scheduler
import Devos.Fs.ArgLimit
import Devos.Kernel.Elevator
import Devos.Fs.Mount
import Devos.Tty.OneLine
import Devos.Mm.Unsharing
import Devos.Tty.LineEditing
import Devos.Fs.Loader
import Devos.Fs.SectionTable
import Devos.Library.Patches
import Devos.Fs.LoadedImage
import Devos.Kernel.ProcessIds
import Devos.Kernel.Privileges
import Devos.Library.Gregorian
import Devos.Kernel.BootClock
import Devos.Kernel.NumberFormat
import Devos.Tty.CursorSave
import Devos.Tty.ReadAlarm
import Devos.Tty.ListRows
import Devos.Tty.Navigation
import Devos.Tty.Paste
import Devos.Kernel.Lookup
import Devos.Tty.Listing
import Devos.Mm.ExecArguments
import Devos.Mm.FailedExec
import Devos.Kernel.MathState
import Devos.Library.WriteBack
import Devos.Fs.CacheData
import Devos.Fs.InodeData
import Devos.Library.FlatMemory
import Devos.Kernel.Signals
import Devos.Tty.Keyboard
import Devos.Tty.Serial
import Devos.Boot.Loader
import Devos.Mm.Startup
import Devos.Kernel.DiskSectors

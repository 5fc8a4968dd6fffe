import Libdebug.Memory
import Libdebug.State
import Libdebug.Threads
import Libdebug.SoftwareBreakpoints
import Libdebug.Coordinator
import Libdebug.Detach
import Libdebug.DebugRegisters
import Libdebug.HardwareBreakpoints
import Libdebug.Session
import Libdebug.CodeImage
import Libdebug.StopImage
import Libdebug.RegisterCache
import Libdebug.DebugRegisterAgreement
import Libdebug.Tables
import Libdebug.ThreadTable
import Libdebug.StopTheWorld
import Libdebug.Aarch64
import Libdebug.Aarch64Session
import Libdebug.FreeSlots
import Libdebug.Stepping
import Libdebug.Signals
import Libdebug.Protocol
import Libdebug.Aarch64Regs
import Libdebug.StopRefinement

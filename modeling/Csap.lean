import Csap.SharedMemory
import Csap.RequestTable
import Csap.Network
import Csap.Interleaving
import Csap.System
import Csap.Protocol
import Csap.Paths
import Csap.Utils
import Csap.Fsops
import Csap.Session
import Csap.Transfer
import Csap.Server
import Csap.Footprints
import Csap.LocalCalls
import Csap.Sessions
import Csap.Discipline
import Csap.Announcements
import Csap.Resolution
import Csap.Teardown
import Csap.SessionTable
import Csap.Refusal
import Csap.Streams
import Csap.Decoding
import Csap.Headers
import Csap.Privileges
import Csap.Background
import Csap.CommandLines
import Csap.FirstLogin
import Csap.SelfTransfers
import Csap.FileTree
import Csap.PathNames
import Csap.ValidPaths
import Csap.Disk
import Csap.TransferCopy
import Csap.TemporaryFiles
import Csap.WriteEffects
import Csap.CheckedPaths
import Csap.Moves
import Csap.WriteFailures
import Csap.StringBuffer
import Csap.NoticeBuffers
import Csap.InputLines
import Csap.Payloads
import Csap.FailedLogins
import Csap.Descriptors
import Csap.Balance
import Csap.SessionLocks
import Csap.Pipe
import Csap.LoginNotices
import Csap.Confinement
import Csap.ConfinedCommands
import Csap.ConfinedUploads
import Csap.Sandbox
import Csap.RecordLocks
import Csap.Kernel
import Csap.History
import Csap.Uses
import Csap.Processes
import Csap.Reading
import Csap.Snapshots
import Csap.Dialogue
import Csap.Turns
import Csap.ServerTurns
import Csap.ClientTurns
import Csap.Lockstep
import Csap.Refinement
import Csap.SlotLoops
import Csap.Semaphore
import Csap.CriticalSections
import Csap.Atomicity
import Csap.Writing
import Csap.InPlace
import Csap.ForkedSessions
import Csap.WholeServer

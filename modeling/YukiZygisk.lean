import YukiZygisk.Lib.Lts
import YukiZygisk.Lib.Grants
import YukiZygisk.Lib.Tally
import YukiZygisk.Lib.Keyed
import YukiZygisk.Lib.Chains
import YukiZygisk.Lib.Bytes
import YukiZygisk.Lib.BinarySearch
import YukiZygisk.Basic
import YukiZygisk.Core.Bootstrap
import YukiZygisk.Core.BootstrapRuns
import YukiZygisk.Host.Avtab
import YukiZygisk.Host.Policy
import YukiZygisk.Host.PolicyRequests
import YukiZygisk.Host.PolicyTemp
import YukiZygisk.Host.PolicyTempParts
import YukiZygisk.Host.PolicyTempOps
import YukiZygisk.Host.TempRuns
import YukiZygisk.Host.TempGuarantees
import YukiZygisk.Lib.Lifetime
import YukiZygisk.Feature.ProbePolicy
import YukiZygisk.Feature.ProbeMoves
import YukiZygisk.Feature.ProbeLife
import YukiZygisk.Feature.ProbeRecords
import YukiZygisk.Feature.ProbeGuarantees
import YukiZygisk.Feature.ProbeTeardown
import YukiZygisk.Feature.ProbeGrants
import YukiZygisk.Host.PolicyCache
import YukiZygisk.Daemon.RootPolicy
import YukiZygisk.Daemon.Modules
import YukiZygisk.Feature.OrchChildren
import YukiZygisk.Feature.OrchEvents
import YukiZygisk.Feature.EarlyNative
import YukiZygisk.Feature.CtlHandoff
import YukiZygisk.Feature.CtlReferences
import YukiZygisk.Feature.CtlDelivery
import YukiZygisk.Daemon.NativeClients
import YukiZygisk.Feature.RuntimeTable
import YukiZygisk.Feature.RuntimeChanges
import YukiZygisk.Feature.RuntimeReport
import YukiZygisk.Feature.SafeMode
import YukiZygisk.Linker.Tls
import YukiZygisk.Lib.Ledger
import YukiZygisk.Linker.Load
import YukiZygisk.Lib.Passes
import YukiZygisk.Linker.Relocation
import YukiZygisk.Core.SelfDestruct
import YukiZygisk.Yzctl.Status
import YukiZygisk.Lib.Aarch64
import YukiZygisk.Linker.TlsDesc
import YukiZygisk.Host.PolicyFrame
import YukiZygisk.Lib.Fuel
import YukiZygisk.Lib.OrderedMap
import YukiZygisk.Common.Json
import YukiZygisk.Common.JsonReader
import YukiZygisk.Common.JsonText
import YukiZygisk.Yzctl.Config
import YukiZygisk.Host.Lsm
import YukiZygisk.Lib.Undo
import YukiZygisk.Core.InlineHook
import YukiZygisk.Linker.Mapping
import YukiZygisk.Linker.TlsIsolation
import YukiZygisk.Lib.Paint
import YukiZygisk.Linker.Protections
import YukiZygisk.Lib.Relr
import YukiZygisk.Linker.RelrDecoding
import YukiZygisk.Lib.GnuHash
import YukiZygisk.Linker.SymbolCount
import YukiZygisk.Lib.Probing
import YukiZygisk.Linker.SymbolIndex
import YukiZygisk.Lib.OctalEscape
import YukiZygisk.Host.Mount
import YukiZygisk.Lib.ArmJumps
import YukiZygisk.Core.BranchEmission
import YukiZygisk.Lib.DoublyLinked
import YukiZygisk.Linker.Registry
import YukiZygisk.Lib.KeyedStacks
import YukiZygisk.Linker.ExitCallbacks
import YukiZygisk.Lib.Encodings
import YukiZygisk.Lib.ArmPcReads
import YukiZygisk.Core.Prologues
import YukiZygisk.Lib.Csv
import YukiZygisk.Daemon.PolicyFiles
import YukiZygisk.Daemon.Numerals
import YukiZygisk.Lib.TokenBucket
import YukiZygisk.Daemon.RateLimit
import YukiZygisk.Daemon.LogRotation
import YukiZygisk.Lib.Arenas
import YukiZygisk.Linker.Metadata
import YukiZygisk.Lib.Crc
import YukiZygisk.Core.XzCrc
import YukiZygisk.Core.Solist
import YukiZygisk.Lib.Sweep
import YukiZygisk.Core.LoadedRanges
import YukiZygisk.Lib.CheckedReads
import YukiZygisk.Core.ElfSymbols
import YukiZygisk.Feature.InitialStack
import YukiZygisk.Feature.ZygoteArgs
import YukiZygisk.Lib.LoadedConstants
import YukiZygisk.Feature.InjectStubs
import YukiZygisk.Core.EarlyPacket
import YukiZygisk.Core.HookLayout
import YukiZygisk.Daemon.TargetPublication
import YukiZygisk.Yzctl.StatusText
import YukiZygisk.Core.ModuleLife
import YukiZygisk.Lib.Rendezvous
import YukiZygisk.Host.PatchText
import YukiZygisk.Core.ControlGate
import YukiZygisk.Core.ChildFds
import YukiZygisk.Host.RootDetect
import YukiZygisk.Daemon.EventChannel
import YukiZygisk.Daemon.Startup
import YukiZygisk.Daemon.ImageStaging
import YukiZygisk.Core.LoaderHandoff
import YukiZygisk.Core.MapsSpoof
import YukiZygisk.Lib.Words
import YukiZygisk.Daemon.Manifest
import YukiZygisk.Core.DriverLife
import YukiZygisk.Lib.Streams
import YukiZygisk.Daemon.ClientWire

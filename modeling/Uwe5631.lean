import Uwe5631.FallibleRuns
import Uwe5631.EndlessRuns
import Uwe5631.InterleavedCalls
import Uwe5631.RingWindow
import Uwe5631.OrderedDelivery
import Uwe5631.BucketTable
import Uwe5631.MachineIntegers
import Uwe5631.SequenceNumbers
import Uwe5631.ReorderBuffer
import Uwe5631.ReorderReleaseRelations
import Uwe5631.ReorderReleaseLoops
import Uwe5631.ReorderWindow
import Uwe5631.ReorderSessionRuns
import Uwe5631.ReorderWindowInvariant
import Uwe5631.ReorderOrderedDelivery
import Uwe5631.ReorderStaleFrames
import Uwe5631.ReorderConservation
import Uwe5631.ReorderReplayProtection
import Uwe5631.ReorderNodeFrames
import Uwe5631.BaNodeTable
import Uwe5631.BaNodeTableIntegrity
import Uwe5631.BaNodeTeardown
import Uwe5631.TcpAckFrames
import Uwe5631.TcpAckFilter
import Uwe5631.TcpAckConservation
import Uwe5631.TcpAckFlows
import Uwe5631.TcpAckSupersession
import Uwe5631.TcpAckHolding
import Uwe5631.TcpAckTable
import Uwe5631.TcpAckAgeing
import Uwe5631.Interfaces
import Uwe5631.RecencyList
import Uwe5631.Defrag
import Uwe5631.DefragSequences
import Uwe5631.DefragStore
import Uwe5631.DefragConservation
import Uwe5631.LinkedChains
import Uwe5631.SdioData
import Uwe5631.SdioDispatch
import Uwe5631.SdioParser
import Uwe5631.SdioParserRuns
import Uwe5631.SdioPacker
import Uwe5631.SdioTxQueue
import Uwe5631.SdioScatter
import Uwe5631.PageFragments
import Uwe5631.SdioRxPool
import Uwe5631.PrefixShares
import Uwe5631.CreditColours
import Uwe5631.CreditLedger
import Uwe5631.TxQueues
import Uwe5631.TxQueueCounters
import Uwe5631.TxPool
import Uwe5631.TxPoolCounters
import Uwe5631.IncrementalFraming
import Uwe5631.SitmFraming
import Uwe5631.RingBuffer
import Uwe5631.EdmaRing
import Uwe5631.EdmaPending
import Uwe5631.EdmaInterrupts
import Uwe5631.BusPools
import Uwe5631.BtSdio
import Uwe5631.MdbgRing
import Uwe5631.MdbgRingAccounting
import Uwe5631.CardCounter
import Uwe5631.CommandLock
import Uwe5631.UsbTransferPool
import Uwe5631.UsbRxRequests
import Uwe5631.SleepManager
import Uwe5631.CommandResponse
import Uwe5631.AdmittedTime
import Uwe5631.MemPowerDown
import Uwe5631.PcieRxPool
import Uwe5631.FirmwareImage
import Uwe5631.FirmwareLoad
import Uwe5631.FtmSession
import Uwe5631.HciCommands
import Uwe5631.DeferredWork
import Uwe5631.LoopCheck
import Uwe5631.UsbInterfaces
import Uwe5631.ChipPower
import Uwe5631.Histories
import Uwe5631.AmsduFilter
import Uwe5631.KeyStore
import Uwe5631.PeerTable
import Uwe5631.StartXmit
import Uwe5631.FwTable
import Uwe5631.ConnectionState
import Uwe5631.ReferenceCounts
import Uwe5631.VifReferences
import Uwe5631.ScanLifecycle
import Uwe5631.TxBatches
import Uwe5631.UsableCredits
import Uwe5631.TxStalls
import Uwe5631.Airtime
import Uwe5631.CompoundBuffers
import Uwe5631.DefragBytes
import Uwe5631.TcpOptions
import Uwe5631.InterfaceAddresses
import Uwe5631.MulticastFilter
import Uwe5631.MgmtRegistration
import Uwe5631.TxBlockAck
import Uwe5631.ReorderTimeouts
import Uwe5631.SavedConnect
import Uwe5631.SuspendResume
import Uwe5631.ElementLists
import Uwe5631.WmmElement
import Uwe5631.BeaconOverride
import Uwe5631.Ipv6Headers
import Uwe5631.AdmissionControl
import Uwe5631.EdmaPop
import Uwe5631.SendBuffer
import Uwe5631.AddressEvents
import Uwe5631.OnesComplement
import Uwe5631.DoCsum
import Uwe5631.IniParse
import Uwe5631.UsbOwnership
import Uwe5631.FstabLines
import Uwe5631.CyclicRedundancy
import Uwe5631.IniDownload
import Uwe5631.SitmBounds
import Uwe5631.RxSplitting
import Uwe5631.ConnectEvent
import Uwe5631.FwInfo
import Uwe5631.VendorSitm
import Uwe5631.GscanFrame
import Uwe5631.ScanCache
import Uwe5631.RfConfig
import Uwe5631.ReorderFilterEvents
import Uwe5631.TdlsFlow
import Uwe5631.SetIe
import Uwe5631.ConnectElements
import Uwe5631.ScanReport
import Uwe5631.ApStart
import Uwe5631.RegNotify
import Uwe5631.TxFilter
import Uwe5631.SendFrame
import Uwe5631.PrivCmd
import Uwe5631.Limbs
import Uwe5631.WhileLoops
import Uwe5631.Jacobian
import Uwe5631.MultiPrecision
import Uwe5631.FastReduction
import Uwe5631.CurvePrime
import Uwe5631.ModularInverse
import Uwe5631.CurvePoints
import Uwe5631.Recoding
import Uwe5631.PointMult
import Uwe5631.KeyExchange
import Uwe5631.SecurePairing

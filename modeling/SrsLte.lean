import SrsLte.PdcpBase
import SrsLte.PdcpLte
import SrsLte.PdcpLteAgreement
import SrsLte.BoundedBitset
import SrsLte.DisjointAssignment
import SrsLte.LengthIndicators
import SrsLte.MacPdu
import SrsLte.MacPduAgreement
import SrsLte.PdcchGrid
import SrsLte.PdcpNr
import SrsLte.PdcpNrReordering
import SrsLte.RlcUm
import SrsLte.RlcUmDelivery
import SrsLte.RlcUmRuns
import SrsLte.EventRun
import SrsLte.Harq
import SrsLte.HarqRetx
import SrsLte.PriorityQueue
import SrsLte.Timers
import SrsLte.TimerService
import SrsLte.TtiGrid
import SrsLte.BitField
import SrsLte.BitRef
import SrsLte.IntType
import SrsLte.KeyIndex
import SrsLte.MmeAuthentication
import SrsLte.MmeS1ap
import SrsLte.MmeS1apConsistent
import SrsLte.MmeS1apRuns
import SrsLte.PerTypes
import SrsLte.PerIntegerRoundTrip
import SrsLte.PerOpenTypeSkip
import SrsLte.OrderedMap
import SrsLte.RlcUmNr
import SrsLte.RlcUmNrDelivery
import SrsLte.RlcUmNrRuns
import SrsLte.CodeBlockSegmentation
import SrsLte.Crc
import SrsLte.Hss
import SrsLte.S11
import SrsLte.BitString
import SrsLte.S11Agreement
import SrsLte.Sch
import SrsLte.SchRecovery
import SrsLte.SpgwTunnels
import SrsLte.UeNas
import SrsLte.RandomAccess
import SrsLte.RandomAccessRuns
import SrsLte.UlMux
import SrsLte.UlMuxReports
import SrsLte.MeasCfg
import SrsLte.MeasCfgAgreement
import SrsLte.EnbRlc
import SrsLte.EnbS1ap
import SrsLte.EnbS1apMaps
import SrsLte.RlcAmGrant
import SrsLte.RlcAmMaxRetx
import SrsLte.RlcAmRetxQueue
import SrsLte.SplitBearer
import SrsLte.StackProcedure
import SrsLte.StackProcedureOnce
import SrsLte.EnbRrc
import SrsLte.EnbRrcChanges
import SrsLte.EnbRrcErabs
import SrsLte.EnbRrcSecurity
import SrsLte.ExtensionChain
import SrsLte.RlcAmReassembly
import SrsLte.RlcAmRobust
import SrsLte.RlcAmCodec
import SrsLte.RlcAmNr
import SrsLte.RlcAmRxWindow
import SrsLte.RlcAmTxWindow
import SrsLte.RlcUmRobust
import SrsLte.RlcUmNrSegmentation
import SrsLte.GrantLoop
import SrsLte.RlcAmBufferState
import SrsLte.RlcAmStatusReport
import SrsLte.RlcBufferState
import SrsLte.BitCursor
import SrsLte.BitsetAgreement
import SrsLte.BitsetObservations
import SrsLte.BitsetRefinement
import SrsLte.BsrLevels
import SrsLte.Gtpu
import SrsLte.MacNrPdu
import SrsLte.MacNrPduAgreement
import SrsLte.MacPduReceive
import SrsLte.PdcpBearerStatus
import SrsLte.PdcpNrTransfer
import SrsLte.PerBitStringNumbers
import SrsLte.PerBitStringCount
import SrsLte.PerBitStringRoundTrip
import SrsLte.UlSched
import SrsLte.UlSchedInvariant
import SrsLte.DlContent
import SrsLte.DlMetric
import SrsLte.EnbLcGroups
import SrsLte.RaSched
import SrsLte.RegularBsr
import SrsLte.SpgwPaging
import SrsLte.UeDlHarq
import SrsLte.UeUlHarq
import SrsLte.UlMetric
import SrsLte.UlMuxPriority
import SrsLte.BinaryPolynomial
import SrsLte.CircularWalk
import SrsLte.CodeBlockFiller
import SrsLte.CqiReport
import SrsLte.CrcRemainder
import SrsLte.ResourceIndication
import SrsLte.RmConv
import SrsLte.TftPacketFilter
import SrsLte.DlAllocation
import SrsLte.DlAllocationBlocks
import SrsLte.DlAllocationRuns
import SrsLte.FrequencyHopping
import SrsLte.FrequencyHoppingPlaces
import SrsLte.CqiPeriodic
import SrsLte.GtpuRouting
import SrsLte.PeriodicWindow
import SrsLte.PucchSlots
import SrsLte.PucchSlotsRuns
import SrsLte.SplitRatio
import SrsLte.UciAckRi
import SrsLte.UciAckRiDecode
import SrsLte.UeDrbTable
import SrsLte.NeighbourCells
import SrsLte.HandoverTarget
import SrsLte.ExtArray
import SrsLte.SchedTime
import SrsLte.TempCrnti
import SrsLte.TxQueueBytes
import SrsLte.RrcPaging
import SrsLte.UlSubframe

import EnbL1Ppc.Core.BlockQueueBreaks
import EnbL1Ppc.Core.BlockQueueClear
import EnbL1Ppc.Core.BlockQueueWakeups
import EnbL1Ppc.Core.Time
import EnbL1Ppc.CpriEth.IrBytes
import EnbL1Ppc.CpriEth.RruBoundaries
import EnbL1Ppc.CpriEth.RruCellConfig
import EnbL1Ppc.CpriEth.RruInactivity
import EnbL1Ppc.CpriEth.RruMacs
import EnbL1Ppc.CpriEth.RruPolling
import EnbL1Ppc.CpriEth.RruReads
import EnbL1Ppc.CpriEth.RruReady
import EnbL1Ppc.CpriEth.RruReuse
import EnbL1Ppc.DspBoot.ImageFormat
import EnbL1Ppc.Fapi.CpriEthSend
import EnbL1Ppc.Fapi.DispatchUnread
import EnbL1Ppc.Fapi.P5Matching
import EnbL1Ppc.Fapi.P8Limit
import EnbL1Ppc.Fapi.PipelineOrder
import EnbL1Ppc.Fapi.StaleMemory
import EnbL1Ppc.Generator.BufferBounds
import EnbL1Ppc.Generator.Histories
import EnbL1Ppc.Generator.Mib
import EnbL1Ppc.Generator.Playback
import EnbL1Ppc.Generator.Rach
import EnbL1Ppc.Generator.ResourceAllocation
import EnbL1Ppc.Generator.StimFile
import EnbL1Ppc.Generator.TbsCorrection
import EnbL1Ppc.Generator.UplinkSlots
import EnbL1Ppc.Gser.EmptyLists
import EnbL1Ppc.Gser.LexSafety
import EnbL1Ppc.Gser.Soundness
import EnbL1Ppc.Gser.StringBuffers
import EnbL1Ppc.Gser.Termination
import EnbL1Ppc.Gser.Uninitialised
import EnbL1Ppc.Ipc.ChannelHold
import EnbL1Ppc.Ipc.ControlArea
import EnbL1Ppc.Ipc.LostWakeup
import EnbL1Ppc.Ipc.Registration
import EnbL1Ppc.Ipc.TxReqRuns
import EnbL1Ppc.L1Defense.Watchdog
import EnbL1Ppc.Shm.Accounts
import EnbL1Ppc.Shm.Completeness
import EnbL1Ppc.Shm.LastEntries

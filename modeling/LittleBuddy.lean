import LittleBuddy.Lib.Arbiter
import LittleBuddy.Lib.Band
import LittleBuddy.Lib.Bytes
import LittleBuddy.Lib.Chain
import LittleBuddy.Lib.Chunks
import LittleBuddy.Lib.Cursor
import LittleBuddy.Lib.Framing
import LittleBuddy.Lib.Requests
import LittleBuddy.Lib.NorMem
import LittleBuddy.Lib.OpenClose
import LittleBuddy.Lib.Ledger
import LittleBuddy.Lib.NorQueue
import LittleBuddy.Lib.DeltaQueue
import LittleBuddy.Lib.Evict
import LittleBuddy.Lib.Lanes
import LittleBuddy.Lib.Mru
import LittleBuddy.Lib.Ring
import LittleBuddy.Lib.Runs
import LittleBuddy.Lib.SectorRing
import LittleBuddy.Lib.HeaderRing
import LittleBuddy.Lib.Sessions
import LittleBuddy.Lib.Slots
import LittleBuddy.Lib.Tiles
import LittleBuddy.Lib.Transducer
import LittleBuddy.Lib.TwoCopy
import LittleBuddy.Norflash.Model
import LittleBuddy.Norflash.Pool
import LittleBuddy.Norflash.Queue
import LittleBuddy.Norflash.Content
import LittleBuddy.Norflash.Lists
import LittleBuddy.Norflash.Flush
import LittleBuddy.Norflash.Api
import LittleBuddy.Norflash.Runs
import LittleBuddy.Norflash.Theorems
import LittleBuddy.Norflash.Ranges
import LittleBuddy.Norflash.Capacity
import LittleBuddy.Norflash.Exhaustion
import LittleBuddy.Norflash.Sync
import LittleBuddy.Norflash.Coverage
import LittleBuddy.Norflash.Pages
import LittleBuddy.NvRecord.Model
import LittleBuddy.NvRecord.Record
import LittleBuddy.NvRecord.Device
import LittleBuddy.NvRecord.Stages
import LittleBuddy.NvRecord.Flush
import LittleBuddy.NvRecord.Runs
import LittleBuddy.NvRecord.Theorems
import LittleBuddy.NvRecord.Upgrade
import LittleBuddy.NvRecord.PairedBt
import LittleBuddy.NvRecord.PairedBle
import LittleBuddy.NvRecord.OtaInfo
import LittleBuddy.NvRecord.Hotword
import LittleBuddy.Utils.CQueue
import LittleBuddy.Utils.HwTimer
import LittleBuddy.Utils.HwTimerLists
import LittleBuddy.Utils.HwTimerDeadlines
import LittleBuddy.Utils.HwTimerRuns
import LittleBuddy.Hal.Norflash
import LittleBuddy.Hal.Suspension
import LittleBuddy.Hal.PlainOps
import LittleBuddy.Hal.Key
import LittleBuddy.Hal.KeyEvents
import LittleBuddy.Hal.SysFreq
import LittleBuddy.Hal.Remap
import LittleBuddy.Hal.Trace
import LittleBuddy.Hal.TraceRing
import LittleBuddy.Hal.Transq
import LittleBuddy.Hal.Intersys
import LittleBuddy.Hal.IntersysRuns
import LittleBuddy.Ota.Relay
import LittleBuddy.Ota.RelayTheorems
import LittleBuddy.Ota.ImageCheck
import LittleBuddy.Ota.Transfer
import LittleBuddy.Ota.Breakpoint
import LittleBuddy.Tota.Supervision
import LittleBuddy.Tota.FlashProgram
import LittleBuddy.Tota.StreamBuffer
import LittleBuddy.Tota.StreamSend
import LittleBuddy.Tota.CmdReceive
import LittleBuddy.NvRecord.Env
import LittleBuddy.Lib.Blocks
import LittleBuddy.NvRecord.LegacyList
import LittleBuddy.NvRecord.LegacyListRuns
import LittleBuddy.NvRecord.LegacyListOps
import LittleBuddy.BleApp.Gfps
import LittleBuddy.BleApp.ModeSwitch
import LittleBuddy.BleApp.ModeSwitchRuns
import LittleBuddy.BtApp.Fade
import LittleBuddy.BtApp.LinkPolicy
import LittleBuddy.BtApp.RingMerge
import LittleBuddy.BtApp.StopSniff
import LittleBuddy.BtApp.TxChunks
import LittleBuddy.BtApp.MediaManager
import LittleBuddy.BtApp.MediaManagerRuns
import LittleBuddy.BtApp.MessageStream
import LittleBuddy.BtApp.Reconnect
import LittleBuddy.BtApp.Volume
import LittleBuddy.BtApp.IncomingNumber
import LittleBuddy.BtApp.KeyMailbox
import LittleBuddy.BtApp.Resample
import LittleBuddy.BtApp.PromptSync
import LittleBuddy.BtApp.PromptMix
import LittleBuddy.Ibrt.MobileAddr
import LittleBuddy.Ibrt.SectionUpdate
import LittleBuddy.Ibrt.SyncInfo
import LittleBuddy.CpAccel.EventSender
import LittleBuddy.A2dp.CpIn
import LittleBuddy.A2dp.CpOut
import LittleBuddy.A2dp.Sbc
import LittleBuddy.A2dp.Recover
import LittleBuddy.A2dp.Mono
import LittleBuddy.A2dp.Discard
import LittleBuddy.A2dp.Trim
import LittleBuddy.A2dp.CpDecode
import LittleBuddy.A2dp.CpResume
import LittleBuddy.A2dp.CpConceal
import LittleBuddy.A2dp.Aac
import LittleBuddy.LogSection.Model
import LittleBuddy.LogSection.Boot
import LittleBuddy.LogSection.Buffers
import LittleBuddy.LogSection.Flush
import LittleBuddy.LogSection.Output
import LittleBuddy.LogSection.Theorems
import LittleBuddy.LogSection.CrashDump
import LittleBuddy.LogSection.CrashDumpRing
import LittleBuddy.Apps.AudioQueue
import LittleBuddy.Apps.AudioQueueRuns
import LittleBuddy.Apps.Anc
import LittleBuddy.Apps.AncRuns
import LittleBuddy.Apps.Wnr
import LittleBuddy.Apps.WnrRuns
import LittleBuddy.Apps.PacketLoss
import LittleBuddy.Lib.BitFilter
import LittleBuddy.Lib.Interleave
import LittleBuddy.Lib.SaveRestore
import LittleBuddy.Lib.Window
import LittleBuddy.Hal.Overlay
import LittleBuddy.Hal.Cmd
import LittleBuddy.Hal.TraceFormat
import LittleBuddy.BleApp.AdvConfig
import LittleBuddy.BleApp.AccountKeyFilter
import LittleBuddy.BleApp.ConnectableMode
import LittleBuddy.Apps.Battery
import LittleBuddy.Apps.BatteryLevel
import LittleBuddy.Audio.DmaBuffer
import LittleBuddy.Audio.DoubleBuffer
import LittleBuddy.Utils.Kfifo
import LittleBuddy.Audio.Process
import LittleBuddy.Apps.FfGain
import LittleBuddy.Apps.AncFade
import LittleBuddy.Apps.AncFadeThread
import LittleBuddy.LogSection.CoreDump
import LittleBuddy.Apps.VoiceDetector
import LittleBuddy.Apps.RbCtl
import LittleBuddy.NvRecord.LegacyFlushRuns
import LittleBuddy.Apps.MsbcSync
import LittleBuddy.Apps.MsbcStream
import LittleBuddy.Lib.Approach
import LittleBuddy.Lib.DoWhile
import LittleBuddy.Lib.Devices
import LittleBuddy.Norflash.Owner
import LittleBuddy.Lib.BlockHeap
import LittleBuddy.Utils.MultiHeap
import LittleBuddy.Utils.MultiHeapBlocks
import LittleBuddy.Utils.MultiHeapOps
import LittleBuddy.Utils.MultiHeapAlloc
import LittleBuddy.Utils.MultiHeapChecks
import LittleBuddy.Utils.MultiHeapRuns

import D1Flash.Lib.Overlay
import D1Flash.Lib.Runs
import D1Flash.Lib.LinkedHeap
import D1Flash.FlashRoundTrip
import D1Flash.Spinor.CacheDurable
import D1Flash.Spinor.RangeSafety
import D1Flash.Spinor.InitCycle
import D1Flash.Spinor.WriteProtect
import D1Flash.Spinor.SectorContract
import D1Flash.Spinor.EraseExact
import D1Flash.Sys.IrqNesting
import D1Flash.Pwm.Channels
import D1Flash.Gpio.HalGpio
import D1Flash.Gpio.Edge
import D1Flash.Gpio.GpioPin
import D1Flash.Gpio.PinCallback
import D1Flash.Uart.DwUart
import D1Flash.Uart.AsyncFlags
import D1Flash.Lib.Bins
import D1Flash.Rtc.RoundTrip
import D1Flash.Dma.HalDma
import D1Flash.Dma.Descriptors
import D1Flash.Dma.Owners
import D1Flash.Dma.Handover
import D1Flash.Dma.Leftover
import D1Flash.Spinor.CacheCrash
import D1Flash.Spinor.CacheReadPages
import D1Flash.Spinor.CacheOrder
import D1Flash.Spinor.LockRange
import D1Flash.Spinor.PortFrame
import D1Flash.Spinor.Factories
import D1Flash.Spinor.LockVerify
import D1Flash.Spinor.CoreFrame
import D1Flash.Spinor.AddressMode
import D1Flash.FlashChecksum
import D1Flash.Lib.Loops
import D1Flash.FlashOverwrite
import D1Flash.Lib.Plans
import D1Flash.Spinor.ReturnCodes
import D1Flash.Timer.SunxiTimer
import D1Flash.Timer.Delay
import D1Flash.Spinor.WaitReady
import D1Flash.Spinor.MatchNor
import D1Flash.Lib.RegFile
import D1Flash.Gpio.PinConfig
import D1Flash.Dma.CyclicRing
import D1Flash.Dma.CyclicCover
import D1Flash.Dma.Frame
import D1Flash.Dma.Residue
import D1Flash.Dma.Periods
import D1Flash.Rtc.RtcLib
import D1Flash.Rtc.Alarm
import D1Flash.Pwm.Programming
import D1Flash.Spinor.Registration
import D1Flash.Lib.BitRuns
import D1Flash.Spinor.EraseRuns
import D1Flash.Uart.Transmit
import D1Flash.Uart.Receive
import D1Flash.Uart.BaudRate
import D1Flash.Lib.LittleEndian
import D1Flash.Osal.HalMem
import D1Flash.Lib.BlockHeap
import D1Flash.Libc.Malloc
import D1Flash.Misc.Script
import D1Flash.Misc.GpioQueries
import D1Flash.Lib.Polls
import D1Flash.Spi.HalSpi
import D1Flash.Spi.Handlers
import D1Flash.Spi.CpuLoops
import D1Flash.Dma.Client
import D1Flash.Spi.CpuTransfer
import D1Flash.Spi.DmaTransfer
import D1Flash.Spi.DmaComplete
import D1Flash.Spi.DmaCall
import D1Flash.Spi.Channels
import D1Flash.Spi.TxTokens
import D1Flash.Dma.Hooks
import D1Flash.Spi.RxTokens
import D1Flash.Spi.DmaMemory
import D1Flash.Lib.Links
import D1Flash.Mm.MmHeap
import D1Flash.Mm.Chunks
import D1Flash.Mm.FreeLists
import D1Flash.Mm.Relink
import D1Flash.Mm.Insert
import D1Flash.Mm.Headers
import D1Flash.Mm.Edits
import D1Flash.Mm.Take
import D1Flash.Mm.MallInfo
import D1Flash.Mm.Malloc
import D1Flash.Mm.Free
import D1Flash.Mm.Initialize
import D1Flash.Mm.Coalesce
import D1Flash.Mm.Users
import D1Flash.Mm.Refines

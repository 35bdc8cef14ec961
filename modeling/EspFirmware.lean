import EspFirmware.App.Alarm
import EspFirmware.Lib.Loop
import EspFirmware.Lib.Memory
import EspFirmware.Lib.Parser
import EspFirmware.App.Json
import EspFirmware.App.Device
import EspFirmware.App.Datetime
import EspFirmware.Lib.CString
import EspFirmware.App.System
import EspFirmware.App.Print
import EspFirmware.Spec.Time
import EspFirmware.App.Mqtt
import EspFirmware.App.Udp
import EspFirmware.Lib.Run
import EspFirmware.Spec.Message
import EspFirmware.Proof.App.Json
import EspFirmware.Proof.App.AlarmTable
import EspFirmware.Proof.App.AlarmPersistence
import EspFirmware.Proof.App.Message
import EspFirmware.Proof.App.Command
import EspFirmware.Proof.App.Clock
import EspFirmware.Lib.Prog
import EspFirmware.Nvs.Types
import EspFirmware.Nvs.Page
import EspFirmware.Nvs.PageManager
import EspFirmware.Nvs.Storage
import EspFirmware.Spec.Layout
import EspFirmware.Spec.PageScan
import EspFirmware.Proof.Nvs.Flash
import EspFirmware.Proof.Nvs.Layout
import EspFirmware.Proof.Nvs.Clean
import EspFirmware.App.Motor
import EspFirmware.Modbus.Master
import EspFirmware.App.Airsys
import EspFirmware.Spec.Airsys
import EspFirmware.Proof.App.Motor
import EspFirmware.Heap.Caps
import EspFirmware.Spec.Heap
import EspFirmware.Proof.Heap.Links
import EspFirmware.Proof.Heap.Edit
import EspFirmware.Proof.Heap.Alloc
import EspFirmware.Proof.Heap.Free
import EspFirmware.Proof.Heap.Live
import EspFirmware.Proof.Heap.Tidy
import EspFirmware.Proof.Heap.Run
import EspFirmware.Proof.Heap.Invariant
import EspFirmware.Proof.Heap.Init
import EspFirmware.Nvs.Api
import EspFirmware.Proof.Nvs.Item
import EspFirmware.Proof.Nvs.Find
import EspFirmware.Proof.Nvs.Write
import EspFirmware.Proof.Nvs.WriteItem
import EspFirmware.Proof.Nvs.PageOps
import EspFirmware.Proof.Nvs.Settle
import EspFirmware.Proof.Nvs.LoadFull
import EspFirmware.Proof.Nvs.LoadActive
import EspFirmware.Proof.Nvs.Load
import EspFirmware.Spec.Pages
import EspFirmware.Proof.Nvs.Slots
import EspFirmware.Proof.Nvs.Manager
import EspFirmware.Proof.Nvs.Pages
import EspFirmware.Proof.Nvs.PagesWrite
import EspFirmware.Proof.Nvs.StorageOps
import EspFirmware.Spec.StoreRun
import EspFirmware.Proof.Nvs.Restart
import EspFirmware.Proof.Nvs.Start
import EspFirmware.Proof.Nvs.Image
import EspFirmware.Proof.Nvs.Calls
import EspFirmware.Proof.Nvs.Run
import EspFirmware.Proof.Nvs.Api
import EspFirmware.Proof.Nvs.Contents
import EspFirmware.Boot.PartitionTable
import EspFirmware.Boot.Ota
import EspFirmware.Boot.Loader
import EspFirmware.Lib.Except
import EspFirmware.Spec.Boot
import EspFirmware.Proof.Boot.Loader
import EspFirmware.Proof.Boot.Table
import EspFirmware.Proof.Boot.Agree
import EspFirmware.Proof.Boot.OtaFlash
import EspFirmware.Boot.SpiFlash
import EspFirmware.Boot.OtaUpdate
import EspFirmware.Spec.SpiFlash
import EspFirmware.Spec.OtaUpdate
import EspFirmware.Proof.Boot.OtaSeq
import EspFirmware.Proof.Boot.OtaRun
import EspFirmware.Tool.GenPart
import EspFirmware.Spec.GenPart
import EspFirmware.Proof.Tool.Binary
import EspFirmware.Proof.Tool.Firmware
import EspFirmware.Proof.Tool.Text
import EspFirmware.Proof.Tool.Csv
import EspFirmware.Boot.Image
import EspFirmware.Lib.Gap
import EspFirmware.Net.Dhcps
import EspFirmware.Spec.Image
import EspFirmware.Proof.Boot.Image
import EspFirmware.Spec.Dhcps
import EspFirmware.Proof.Net.Address
import EspFirmware.Proof.Net.Leases
import EspFirmware.Proof.Net.Dhcps
import EspFirmware.Lib.Ring
import EspFirmware.Mdns.Responder
import EspFirmware.Mdns.Services
import EspFirmware.Mdns.Actions
import EspFirmware.Mdns.Timing
import EspFirmware.Spec.Mdns
import EspFirmware.Proof.Mdns.Probe
import EspFirmware.Proof.Mdns.Packets
import EspFirmware.Proof.Mdns.Searches
import EspFirmware.Proof.Mdns.Actions
import EspFirmware.Proof.Mdns.Services
import EspFirmware.Rtos.Ringbuf
import EspFirmware.Spec.Ringbuf
import EspFirmware.Proof.Rtos.Blocks
import EspFirmware.Proof.Rtos.ByteRing
import EspFirmware.Proof.Rtos.Send
import EspFirmware.Proof.Rtos.Receive
import EspFirmware.Proof.Rtos.Return
import EspFirmware.Proof.Rtos.Fifo
import EspFirmware.Proof.Rtos.Holding
import EspFirmware.Proof.Rtos.Sleep
import EspFirmware.Mdns.Name
import EspFirmware.Mdns.Dispatch
import EspFirmware.Spec.MdnsPacket
import EspFirmware.Proof.Mdns.Name
import EspFirmware.Proof.Mdns.Packet
import EspFirmware.Lib.Crc
import EspFirmware.Spec.Modbus
import EspFirmware.Proof.Modbus.Crc
import EspFirmware.Proof.Modbus.Request
import EspFirmware.Proof.Modbus.Response
import EspFirmware.Proof.Modbus.Values
import EspFirmware.Proof.App.Published
import EspFirmware.Proof.App.Announcement
import EspFirmware.Util.Base64
import EspFirmware.Lib.Base64
import EspFirmware.Proof.Util.Decode
import EspFirmware.Proof.Util.Base64
import EspFirmware.Util.Crc
import EspFirmware.Proof.Util.Crc
import EspFirmware.Proof.App.Airsys
import EspFirmware.Proof.Net.Configured
import EspFirmware.Proof.Net.Options
import EspFirmware.Proof.Heap.Oversized
import EspFirmware.Proof.Nvs.Counters
import EspFirmware.Proof.Boot.OtaCall
import EspFirmware.Proof.Boot.OtaUpdate
import EspFirmware.Proof.Net.Ticks
import EspFirmware.Proof.Boot.Checksum
import EspFirmware.Proof.Tool.Placed
import EspFirmware.Proof.Boot.SpiFlash
import EspFirmware.Proof.Boot.OtaStream
import EspFirmware.Proof.Boot.ReadErrors
import EspFirmware.Proof.Boot.EraseRange
import EspFirmware.Proof.Boot.PartitionAccess
import EspFirmware.Proof.Boot.SectorCopy
import EspFirmware.Proof.Rtos.Pointers
import EspFirmware.Proof.Rtos.FreeSpace
import EspFirmware.Proof.Rtos.FreeSemaphore
import EspFirmware.Mdns.Records
import EspFirmware.Mdns.Receive
import EspFirmware.Spec.MdnsRecords
import EspFirmware.Proof.Mdns.Txt
import EspFirmware.Proof.Mdns.TxtRecord
import EspFirmware.Proof.Mdns.TieBreak
import EspFirmware.Proof.Mdns.Receive
import EspFirmware.Proof.Mdns.Mangle
import EspFirmware.Proof.Mdns.Timing
import EspFirmware.Pthread.Thread
import EspFirmware.Pthread.CondVar
import EspFirmware.Pthread.LocalStorage
import EspFirmware.Spec.Pthread
import EspFirmware.Proof.Pthread.Thread
import EspFirmware.Proof.Pthread.Once
import EspFirmware.Proof.Pthread.CondVar
import EspFirmware.Proof.Pthread.LocalStorage
import EspFirmware.Util.Log
import EspFirmware.Util.Printf
import EspFirmware.Spec.Output
import EspFirmware.Proof.Util.Log
import EspFirmware.Driver.Pwm
import EspFirmware.Driver.Uart
import EspFirmware.Spec.Driver
import EspFirmware.Proof.Driver.PwmTable
import EspFirmware.Proof.Driver.PwmUpdate
import EspFirmware.Proof.Driver.PwmWave
import EspFirmware.Proof.Driver.UartRx
import EspFirmware.Proof.Driver.UartTx
import EspFirmware.Proof.Util.Printf
import EspFirmware.Proof.Driver.PwmChannels
import EspFirmware.Proof.Driver.UartHandler
import EspFirmware.Lib.Ordered
import EspFirmware.Rtos.Tick
import EspFirmware.Spec.Kernel
import EspFirmware.Proof.Rtos.Tick
import EspFirmware.Proof.App.Printed
import EspFirmware.Proof.App.Packets

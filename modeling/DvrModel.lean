import DvrModel.App.Can.Basic
import DvrModel.App.Can.Receive
import DvrModel.App.Can.Start
import DvrModel.App.Can.Theorems.Monitor
import DvrModel.App.Can.Theorems.Receive
import DvrModel.App.Can.Theorems.Start
import DvrModel.App.Config
import DvrModel.App.UartCmd.Access
import DvrModel.App.UartCmd.Mileage
import DvrModel.App.UartCmd.Parser
import DvrModel.App.UartCmd.Poll
import DvrModel.App.UartCmd.Receiver
import DvrModel.App.UartCmd.Sent
import DvrModel.App.UartCmd.Service
import DvrModel.App.UartCmd.SocStatus
import DvrModel.App.UartCmd.Status
import DvrModel.App.UartCmd.Text
import DvrModel.App.UartCmd.Theorems.Access
import DvrModel.App.UartCmd.Theorems.Bounds
import DvrModel.App.UartCmd.Theorems.Corruption
import DvrModel.App.UartCmd.Theorems.Crc
import DvrModel.App.UartCmd.Theorems.Frames
import DvrModel.App.UartCmd.Theorems.Held
import DvrModel.App.UartCmd.Theorems.Jobs
import DvrModel.App.UartCmd.Theorems.Loss
import DvrModel.App.UartCmd.Theorems.Mileage
import DvrModel.App.UartCmd.Theorems.Odometer
import DvrModel.App.UartCmd.Theorems.Parser
import DvrModel.App.UartCmd.Theorems.Poll
import DvrModel.App.UartCmd.Theorems.Publish
import DvrModel.App.UartCmd.Theorems.Receiver
import DvrModel.App.UartCmd.Theorems.Resync
import DvrModel.App.UartCmd.Theorems.Ring
import DvrModel.App.UartCmd.Theorems.Sent
import DvrModel.App.UartCmd.Theorems.Service
import DvrModel.App.UartCmd.Theorems.SocStatus
import DvrModel.App.UartCmd.Theorems.Status
import DvrModel.App.UartCmd.Theorems.Stream
import DvrModel.App.UartCmd.Theorems.Text
import DvrModel.App.UartCmd.Theorems.Types
import DvrModel.App.UartCmd.Theorems.Uart
import DvrModel.App.UartCmd.Uart
import DvrModel.Lcd.Drv
import DvrModel.Lcd.Graphics
import DvrModel.Lcd.St7567
import DvrModel.Lcd.Theorems.Draw
import DvrModel.Lcd.Theorems.Panel
import DvrModel.Lcd.Theorems.Wire
import DvrModel.Lib.Block
import DvrModel.Lib.Bytes
import DvrModel.Lib.Calendar
import DvrModel.Lib.Checked
import DvrModel.Lib.Circular
import DvrModel.Lib.Crash
import DvrModel.Lib.Crc
import DvrModel.Lib.Debounce
import DvrModel.Lib.Lines
import DvrModel.Lib.Mealy
import DvrModel.Lib.Overwrite
import DvrModel.Lib.Run
import DvrModel.Lib.Serial
import DvrModel.Lib.Store
import DvrModel.Rt.RingBuffer
import DvrModel.Rt.Theorems.RingBuffer
import DvrModel.Svc.Adc.Basic
import DvrModel.Svc.Adc.Theorems.Keys
import DvrModel.Svc.Lcd.Editor
import DvrModel.Svc.Lcd.Keys
import DvrModel.Svc.Lcd.Page
import DvrModel.Svc.Lcd.Paging
import DvrModel.Svc.Lcd.Text
import DvrModel.Svc.Lcd.Theorems.Choice
import DvrModel.Svc.Lcd.Theorems.Editor
import DvrModel.Svc.Lcd.Theorems.Home
import DvrModel.Svc.Lcd.Theorems.Keys
import DvrModel.Svc.Lcd.Theorems.Navigation
import DvrModel.Svc.Lcd.Theorems.Paging
import DvrModel.Svc.Lcd.Theorems.Redraw
import DvrModel.Svc.Lcd.Theorems.Report
import DvrModel.Svc.Lcd.Theorems.Safety
import DvrModel.Svc.Lcd.Theorems.Screen
import DvrModel.Svc.Lcd.Theorems.Step
import DvrModel.Svc.Lcd.Theorems.Time
import DvrModel.Svc.Lcd.Theorems.Utf8
import DvrModel.Svc.Lcd.Theorems.Visit
import DvrModel.Svc.Lcd.Thread
import DvrModel.Svc.Lcd.Time
import DvrModel.Svc.Lcd.Ui
import DvrModel.Svc.Lcd.Update
import DvrModel.Svc.Power.Basic
import DvrModel.Svc.Power.Clock
import DvrModel.Svc.Power.Theorems.Demand
import DvrModel.Svc.Power.Theorems.Shutdown
import DvrModel.Svc.Power.Theorems.Step
import DvrModel.Svc.Power.Theorems.Supply
import DvrModel.Svc.Power.Theorems.Timer
import DvrModel.Svc.Storage.Basic
import DvrModel.Svc.Storage.Eeprom
import DvrModel.Svc.Storage.Record
import DvrModel.Svc.Storage.Theorems.Cells
import DvrModel.Svc.Storage.Theorems.Checksum
import DvrModel.Svc.Storage.Theorems.Chunks
import DvrModel.Svc.Storage.Theorems.Config
import DvrModel.Svc.Storage.Theorems.Eeprom
import DvrModel.Svc.Storage.Theorems.FaultFree
import DvrModel.Svc.Storage.Theorems.Record
import DvrModel.Svc.Storage.Theorems.Save

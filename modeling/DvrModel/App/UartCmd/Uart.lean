import DvrModel.Rt.RingBuffer
import DvrModel.App.UartCmd.Service

-- The driver of the UART below the command service. It receives by DMA into a buffer of its own; when that is
-- full or the line falls idle, the bytes go through the ring buffer of the serial device to the callback.
namespace App.UartCmd

-- `BSP_UART3_RX_BUFSIZE` and `sizeof(uart->rx_idle_tmp_buffer)`.
def rxBufSz : Nat := 4096

def rxIdleTmpBufferSize : Nat := 1024

-- The bytes that a transfer has left in `rx_idle_tmp_buffer`.
structure Block where
  bytes     : List UInt8
  length_le : bytes.length ≤ rxIdleTmpBufferSize

-- The loop of `app_uart_cmd_rx_indicate`. The device has been opened without `RT_DEVICE_FLAG_RX_BLOCKING`, so
-- that `rt_device_read` is a `rt_ringbuffer_get`. Each iteration reads at least one byte, so that there are no
-- more of them than `size`.
def indicateLoop : Nat → Ring → Rt.RingBuffer → Nat → Ring × Rt.RingBuffer × Bool
  | 0,     r, rb, _    => (r, rb, false)
  | n + 1, r, rb, size =>
    if size = 0 then
      (r, rb, false)
    else
      let (rb', data) := rb.get (min size rxChunk)
      if data = [] then
        (r, rb', false)
      else
        let (r', rb'', _) := indicateLoop n (r.pushBytes data) rb' (size - data.length)
        (r', rb'', true)

-- `indicate` tells whether `rx_indicate` of the device has been set.
structure Uart where
  rb       : Rt.RingBuffer
  indicate : Bool
  service  : Service

namespace Uart

-- After `rt_device_open`.
def init (pool : Nat → UInt8) : Uart where
  rb       := .init pool rxBufSz
  indicate := false
  service  := .init

def setRxIndicate (u : Uart) : Uart :=
  { u with indicate := true }

def rxIndicate (u : Uart) (size : Nat) : Uart :=
  let (r, rb, hasData) := indicateLoop size u.service.ring u.rb size
  { u with
    rb
    service := { u.service with
      ring := r
      sem  := if hasData then min (u.service.sem + 1) semValueMax else u.service.sem } }

-- `rt_hw_serial_isr` with `RT_SERIAL_EVENT_RX_DMADONE` and no length.
def hwSerialIsr (u : Uart) : Uart :=
  if u.rb.dataLen = 0 then
    u
  else if u.indicate then
    u.rxIndicate u.rb.dataLen
  else
    u

def rxDone (u : Uart) (block : Block) : Uart :=
  { u with rb := (u.rb.put block.bytes).1 }.hwSerialIsr

inductive Action
  | rxDone (block : Block)
  | thread

def act (u : Uart) : Action → Uart × Option Event
  | .rxDone block => (u.rxDone block, none)
  | .thread       => ({ u with service := u.service.thread.1 }, u.service.thread.2)

-- `app_usart_cmd_init`: transfers may end between `rt_device_open` and `rt_device_set_rx_indicate`.
def opened (pool : Nat → UInt8) (before : List Block) : Uart :=
  before.foldl rxDone (init pool) |>.setRxIndicate

end Uart

end App.UartCmd

import DvrModel.App.UartCmd.Receiver

-- The receive interrupt and the command thread. The interrupt may come between any two accesses of the
-- thread to the ring, which nothing protects.
namespace App.UartCmd

def semValueMax : Nat := 65535

-- `rx_buf` of `app_uart_cmd_rx_indicate`.
def rxChunk : Nat := 128

-- `app_usart_cmd_push_bytes`.
def Ring.pushBytes (r : Ring) (data : List UInt8) : Ring :=
  data.foldl (fun r byte => (r.push byte).1) r

-- The loop of `app_uart_cmd_rx_indicate`, and whether it has read anything. The device holds the bytes of
-- `fifo` and returns as many of them as it is asked for, if it has them. Each iteration reads at least one
-- byte, so that there are no more of them than `size`.
def rxLoop : Nat → Ring → Nat → List UInt8 → Ring × Bool
  | 0,     r, _,    _    => (r, false)
  | n + 1, r, size, fifo =>
    let data := fifo.take (min size rxChunk)
    if size = 0 ∨ data = []
    then (r, false)
    else ((rxLoop n (r.pushBytes data) (size - data.length) (fifo.drop data.length)).1, true)

-- Where the thread is. `load` and `store` are the two halves of `ring->count--`, each with the byte that has
-- been taken out, `store` also with the value of the counter that has been read.
inductive Pc
  | take
  | check
  | read
  | load (byte : UInt8)
  | store (byte : UInt8) (count : Nat)

structure Service where
  ring   : Ring
  parser : Parser
  sem    : Nat
  pc     : Pc

namespace Service

-- The state after `app_usart_cmd_init`, and the thread before its first `rt_sem_take`.
def init : Service where
  ring   := .init
  parser := .init
  sem    := 0
  pc     := .take

-- The semaphore does not count any further than to its maximum.
def rxIndicate (s : Service) (size : Nat) (fifo : List UInt8) : Service :=
  if (rxLoop size s.ring size fifo).2
  then { s with ring := (rxLoop size s.ring size fifo).1, sem := min (s.sem + 1) semValueMax }
  else { s with ring := (rxLoop size s.ring size fifo).1 }

-- One access of `app_usart_cmd_thread_entry`. In `app_usart_cmd_poll`, which ends when the ring is found
-- empty, every byte that is taken out is given to the parser; what becomes of a frame does not concern the
-- ring.
def thread (s : Service) : Service × Option Event :=
  match s.pc with
  | .take             =>
    if s.sem = 0
    then (s, none)
    else ({ s with sem := s.sem - 1, pc := .check }, none)
  | .check            =>
    if s.ring.count = 0
    then ({ s with pc := .take }, none)
    else ({ s with pc := .read }, none)
  | .read             =>
    ({ s with
      ring := { s.ring with tail := (s.ring.tail + 1) % rxBufSize }
      pc   := .load (s.ring.buf s.ring.tail) }, none)
  | .load byte        => ({ s with pc := .store byte s.ring.count }, none)
  | .store byte count =>
    ({ s with
      ring   := { s.ring with count := count - 1 }
      parser := (s.parser.parseByte byte).1
      pc     := .check }, (s.parser.parseByte byte).2)

inductive Action
  | rx (size : Nat) (fifo : List UInt8)
  | thread

def act (s : Service) : Action → Service × Option Event
  | .rx size fifo => (s.rxIndicate size fifo, none)
  | .thread       => s.thread

-- Nothing is left to do until the next interrupt.
def AtRest (s : Service) : Prop :=
  s.pc = .take ∧ s.sem = 0

end Service

end App.UartCmd

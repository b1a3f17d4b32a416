import DvrModel.Lib.Circular
import DvrModel.App.UartCmd.Parser

namespace App.UartCmd

def rxBufSize : Nat := 4096

-- `app_uart_cmd_ring_t`.
structure Ring where
  buf   : Nat → UInt8
  head  : Nat
  tail  : Nat
  count : Nat

namespace Ring

def init : Ring where
  buf _ := 0
  head  := 0
  tail  := 0
  count := 0

def push (r : Ring) (byte : UInt8) : Ring × Bool :=
  if r.count ≥ rxBufSize then
    (r, false)
  else
    ({ r with
      buf   := Function.update r.buf r.head byte
      head  := (r.head + 1) % rxBufSize
      count := r.count + 1 }, true)

def pop (r : Ring) : Option (UInt8 × Ring) :=
  if r.count = 0 then
    none
  else
    some (r.buf r.tail, { r with tail := (r.tail + 1) % rxBufSize, count := r.count - 1 })

end Ring

-- The receiving side of the UART command service: the ring that the receive thread fills, the parser
-- and `g_uart_cmd_last_frame`.
structure Receiver where
  ring      : Ring
  parser    : Parser
  lastFrame : Frame

namespace Receiver

def init : Receiver where
  ring      := .init
  parser    := .init
  lastFrame := { length := 0, data := [] }

-- A byte that does not fit into the ring is dropped.
def pushByte (r : Receiver) (byte : UInt8) : Receiver :=
  { r with ring := (r.ring.push byte).1 }

-- The loop of `app_uart_cmd_try_parse_frame`. It pops one byte in each iteration, so that it ends after
-- as many iterations as there are bytes in the ring, unless it returns a frame before.
def parseLoop : Nat → Receiver → Receiver × List Event
  | 0,     r => (r, [])
  | n + 1, r =>
    match r.ring.pop with
    | none              => (r, [])
    | some (byte, ring) =>
      let r' := { r with ring, parser := (r.parser.parseByte byte).1 }
      match (r.parser.parseByte byte).2 with
      | some (.frame f)    => (r', [.frame f])
      | some .forceFinish  => ((parseLoop n r').1, .forceFinish :: (parseLoop n r').2)
      | none               => parseLoop n r'

def tryParseFrame (r : Receiver) : Receiver × List Event :=
  parseLoop r.ring.count r

-- The frame that `app_uart_cmd_try_parse_frame` returns, if it returns `RT_TRUE`.
def returned (es : List Event) : Option Frame :=
  es.getLast?.bind Event.frame?

-- The loop of `app_usart_cmd_poll`. What is done with the frames does not concern the receiver.
def pollLoop : Nat → Receiver → Receiver × List Event
  | 0,     r => (r, [])
  | n + 1, r =>
    match returned r.tryParseFrame.2 with
    | none   => r.tryParseFrame
    | some f =>
      let r' := { r.tryParseFrame.1 with lastFrame := f }
      ((pollLoop n r').1, r.tryParseFrame.2 ++ (pollLoop n r').2)

def poll (r : Receiver) : Receiver × List Event :=
  pollLoop (r.ring.count + 1) r

-- The receive thread pushes bytes, the command thread polls. Any interleaving of whole calls may occur.
inductive Action
  | push (byte : UInt8)
  | tryParse
  | poll

def act (r : Receiver) : Action → Receiver × List Event
  | .push byte => (r.pushByte byte, [])
  | .tryParse  => r.tryParseFrame
  | .poll      => r.poll

def run (r : Receiver) : List Action → Receiver × List Event
  | []      => (r, [])
  | a :: as => ((run (r.act a).1 as).1, (r.act a).2 ++ (run (r.act a).1 as).2)

end Receiver

-- The frames among the events.
def delivered (es : List Event) : List Frame :=
  es.filterMap Event.frame?

end App.UartCmd

import DvrModel.Lib.Run

namespace App.Can

def stdLifeId : UInt32 := 0x605
def extLifeId : UInt32 := 0x16FF0018
def lifeTimeoutMs : UInt32 := 5000

-- `CAN_NODE_ALL`
abbrev nodeAll : Nat := 3

-- The fields of `app_can_node_t` that tell whether the node is alive.
structure Node where
  lastRxMs : UInt32
  life     : UInt8
  online   : Bool
  deriving DecidableEq

-- `struct rt_can_msg`, as far as it is looked at.
structure Msg where
  id   : UInt32
  data : Fin 8 → UInt8

def Msg.isLife (msg : Msg) : Bool :=
  msg.id = stdLifeId || msg.id = extLifeId

-- Where `app_can_monitor_thread` is: waiting before it reads the clock, or about to look at node `i` with
-- the reading `now`.
inductive Monitor
  | delay
  | check (now : UInt32) (i : Fin nodeAll)
  deriving DecidableEq

-- The nodes, the thread that monitors them and the milliseconds that have passed since the system was
-- started.
structure State where
  time    : Nat
  nodes   : Fin nodeAll → Node
  monitor : Monitor

namespace State

-- After `app_can_init` and `app_can_start`, whenever these are called.
def init (time : Nat) : State where
  time    := time
  nodes _ := { lastRxMs := 0, life := 0, online := false }
  monitor := .delay

-- `rt_tick_get_millisecond`, with `RT_TICK_PER_SECOND` being 1000.
def clock (s : State) : UInt32 :=
  UInt32.ofNat s.time

def setNode (s : State) (i : Fin nodeAll) (node : Node) : State :=
  { s with nodes j := if j = i then node else s.nodes j }

def handleRx (s : State) (nodeIndex : UInt8) (msg : Msg) : State :=
  if h : nodeIndex.toNat < nodeAll then
    if msg.isLife then
      s.setNode ⟨nodeIndex.toNat, h⟩ { lastRxMs := s.clock, life := msg.data 0, online := true }
    else
      s
  else
    s

-- The body of the monitor's inner loop.
def checkNode (s : State) (now : UInt32) (i : Fin nodeAll) : State :=
  if (s.nodes i).online = true ∧ now - (s.nodes i).lastRxMs ≥ lifeTimeoutMs then
    s.setNode i { s.nodes i with online := false, life := 0 }
  else
    s

def monitorThread (s : State) : State :=
  match s.monitor with
  | .delay       => { s with monitor := .check s.clock 0 }
  | .check now i =>
    { s.checkNode now i with
      monitor := if h : i.val + 1 < nodeAll then .check now ⟨i.val + 1, h⟩ else .delay }

-- The atomic steps: the clock ticks, a receive thread handles a frame, the monitor thread goes on.
inductive Action
  | tick
  | rx (nodeIndex : UInt8) (msg : Msg)
  | monitor

def act (s : State) : Action → State
  | .tick             => { s with time := s.time + 1 }
  | .rx nodeIndex msg => s.handleRx nodeIndex msg
  | .monitor          => s.monitorThread

end State

end App.Can

import DvrModel.App.Can.Basic
import Mathlib.Data.List.FinRange
import Mathlib.Logic.Function.Basic

namespace App.Can

theorem nodeAll_pos : 0 < nodeAll :=
  Nat.zero_lt_succ 2

-- The node that is set up first.
abbrev node1 : Fin nodeAll :=
  ⟨0, nodeAll_pos⟩

def devName : Fin nodeAll → Option String
  | 0 => "can0"
  | 1 => "can2"
  | 2 => none

def semName : Fin nodeAll → Option String
  | 0 => "can0_sem"
  | 1 => "can2_sem"
  | 2 => none

-- The calls by which `app_can_start` sets up a node, all but the last one in `app_can_config_node`. Each
-- of them may fail. The filter is set, because `RT_CAN_USING_HDR` is defined.
inductive Call
  | deviceFind
  | semCreate
  | deviceOpen
  | setBaud
  | setMode
  | setFilter
  | setRxIndicate
  | threadCreate
  deriving DecidableEq, Repr

-- Where `app_can_start` is: not being executed, or waiting for the result of a call.
inductive Pc
  | idle
  | node (i : Fin nodeAll) (call : Call)
  | monitorCreate
  deriving DecidableEq, Repr

-- The handles in `app_can_node_t`, of which the semaphores are told apart.
structure Handles where
  dev      : Bool
  rxSem    : Option Nat
  rxThread : Bool

-- A receive thread that has been started, and the semaphore that it waits on.
structure RxThread where
  node  : Fin nodeAll
  waits : Option Nat
  deriving DecidableEq

-- The nodes, the monitor and the flag are static variables of `app_can.c`. The rest is what the
-- operating system knows: the threads that have been started and how many semaphores there were.
structure Startup where
  pc            : Pc
  nodes         : Fin nodeAll → Handles
  monitorThread : Bool
  started       : Bool
  sems          : Nat
  rxThreads     : List RxThread
  monitors      : Nat

namespace Startup

-- After `app_can_init`.
def init : Startup where
  pc            := .idle
  nodes _       := { dev := false, rxSem := none, rxThread := false }
  monitorThread := false
  started       := false
  sems          := 0
  rxThreads     := []
  monitors      := 0

-- The semaphore that the callback of a node releases.
def rxIndicate (s : Startup) (i : Fin nodeAll) : Option Nat :=
  (s.nodes i).rxSem

def setNode (s : Startup) (i : Fin nodeAll) (node : Handles) : Startup :=
  { s with nodes := Function.update s.nodes i node }

-- The loop of `app_can_start` goes on with the first node from `i` on that has names. The others are
-- not configured, so that they do not have a device.
def loop (i : Nat) : Pc :=
  match (List.finRange nodeAll).find? fun j => i ≤ j.val && (devName j).isSome && (semName j).isSome with
  | some j => .node j .deviceFind
  | none   => .monitorCreate

def next (i : Fin nodeAll) : Call → Pc
  | .deviceFind    => .node i .semCreate
  | .semCreate     => .node i .deviceOpen
  | .deviceOpen    => .node i .setBaud
  | .setBaud       => .node i .setMode
  | .setMode       => .node i .setFilter
  | .setFilter     => .node i .setRxIndicate
  | .setRxIndicate => .node i .threadCreate
  | .threadCreate  => loop (i + 1)

-- What the result of a call is used for.
def assign (s : Startup) (i : Fin nodeAll) (ok : Bool) : Call → Startup
  | .deviceFind   => s.setNode i { s.nodes i with dev := ok }
  | .semCreate    =>
    if ok then
      { s.setNode i { s.nodes i with rxSem := some s.sems } with sems := s.sems + 1 }
    else
      s.setNode i { s.nodes i with rxSem := none }
  | .threadCreate =>
    let s := s.setNode i { s.nodes i with rxThread := ok }
    if ok then { s with rxThreads := s.rxThreads ++ [⟨i, none⟩] } else s
  | _             => s

-- A call of `app_can_start`, or the return of a call that it makes.
inductive Step
  | call
  | ret (ok : Bool)
  deriving DecidableEq, Repr

def step (s : Startup) : Step → Startup
  | .call   => if s.pc = .idle ∧ s.started = false then { s with pc := loop 0 } else s
  | .ret ok =>
    match s.pc with
    | .idle          => s
    | .node i call   => { s.assign i ok call with pc := if ok then next i call else .idle }
    | .monitorCreate =>
      let s := { s with monitorThread := ok, pc := .idle }
      if ok then { s with monitors := s.monitors + 1, started := true } else s

-- The receive threads run at any time. A thread calls `rt_sem_take` with the semaphore of its node, and
-- at some time it is done with waiting.
inductive Action
  | start (a : Step)
  | take (n : Nat)
  | wake (n : Nat)
  deriving DecidableEq

def take (s : Startup) (t : RxThread) : RxThread :=
  if t.waits = none then { t with waits := s.rxIndicate t.node } else t

def act (s : Startup) : Action → Startup
  | .start a => s.step a
  | .take n  => { s with rxThreads := s.rxThreads.modify n s.take }
  | .wake n  => { s with rxThreads := s.rxThreads.modify n fun t => { t with waits := none } }

end Startup

end App.Can

import DvrModel.App.Can.Basic
import Mathlib.Logic.Function.Basic

-- The way of a frame from the interrupt of the controller through the message box of the device (`can.c`) to
-- the receive thread.
namespace App.Can

-- `RT_CANMSG_BOX_SZ`, `maxhdr` of `rt_hw_mcan_init` and `RT_SEM_VALUE_MAX`.
def msgBoxSz    : Nat := 16
def maxHdr      : Nat := 32
def semValueMax : Nat := 65535

structure RxMsg extends Msg where
  len : UInt8

-- `struct rt_can_msg_list`. The owner is one of the header lists.
structure Entry where
  data  : RxMsg
  owner : Option Nat

-- `struct rt_can_hdr`.
structure Hdr where
  connected : Bool
  list      : List Nat
  msgs      : Nat

-- `struct rt_can_rx_fifo` with the header lists of the device. The entries of the buffer are known by their
-- numbers.
structure RxFifo where
  buffer      : Nat → Entry
  freelist    : List Nat
  uselist     : List Nat
  freenumbers : Nat
  hdr         : Nat → Hdr

namespace RxFifo

-- After `rt_can_open`.
def init : RxFifo where
  buffer _    := { data := { id := 0, data := fun _ => 0, len := 0 }, owner := none }
  freelist    := List.range msgBoxSz
  uselist     := []
  freenumbers := msgBoxSz
  hdr _       := { connected := false, list := [], msgs := 0 }

-- Takes an entry out of the header list that owns it.
def unlink (f : RxFifo) (n : Nat) : RxFifo :=
  { f with
    buffer := Function.update f.buffer n { f.buffer n with owner := none }
    hdr h  :=
      { f.hdr h with
        list := (f.hdr h).list.erase n
        msgs := if (f.buffer n).owner = some h then (f.hdr h).msgs - 1 else (f.hdr h).msgs } }

-- An entry for a new frame: a free one, or else the oldest one in use. An assertion of the driver that does
-- not hold is `none`, as is the case that there is no entry at all, where the driver goes on with a variable
-- that has never been set.
def claim (f : RxFifo) : Option (Nat × RxFifo) :=
  match f.freelist, f.uselist with
  | n :: free, _        =>
    if f.freenumbers > 0
    then some (n, { f.unlink n with freelist := free, freenumbers := f.freenumbers - 1 })
    else none
  | [],        n :: use => some (n, { f.unlink n with uselist := use })
  | [],        []       => none

def connect (f : RxFifo) (h : Nat) : RxFifo :=
  { f with hdr := Function.update f.hdr h { f.hdr h with connected := true } }

-- Puts a frame into an entry, and this behind the others.
def link (f : RxFifo) (h n : Nat) (msg : RxMsg) : RxFifo :=
  if (f.hdr h).connected
  then { f with
    buffer  := Function.update f.buffer n { data := msg, owner := some h }
    uselist := f.uselist ++ [n]
    hdr     := Function.update f.hdr h
      { f.hdr h with list := (f.hdr h).list ++ [n], msgs := (f.hdr h).msgs + 1 } }
  else { f with
    buffer  := Function.update f.buffer n { f.buffer n with data := msg }
    uselist := f.uselist ++ [n] }

-- `rt_hw_can_isr` for a frame that `hpm_mcan_recvmsg` has read. The latter sets the header index.
def isr (f : RxFifo) (fifoIndex : Nat) (msg : RxMsg) : Option RxFifo := do
  let (n, f) ← (f.connect fifoIndex).claim
  if fifoIndex < maxHdr then some (f.link fifoIndex n msg) else none

-- The first critical section of `_can_int_rx`, which looks for the oldest frame of one header list.
def remove (f : RxFifo) (h : Nat) : Option (Nat × RxFifo) :=
  match (f.hdr h).list with
  | []     => none
  | n :: _ => some (n, { f.unlink n with
    uselist := f.uselist.erase n
    hdr     := Function.update (f.unlink n).hdr h
      { f.hdr h with list := (f.hdr h).list.erase n, msgs := (f.hdr h).msgs - 1 } })

-- The second one.
def release (f : RxFifo) (n : Nat) : Option RxFifo :=
  if f.freenumbers + 1 ≤ msgBoxSz
  then some { f with freelist := f.freelist ++ [n], freenumbers := f.freenumbers + 1 }
  else none

end RxFifo

-- Where `app_can_rx_thread` is: waiting for the semaphore, about to look for a frame, copying it, about to
-- give the entry back, or with the copy in its hands.
inductive RxPc
  | take
  | read
  | copy (n : Nat)
  | give (n : Nat) (msg : RxMsg)
  | handle (msg : RxMsg)

-- The device of a node and its thread.
structure Port where
  fifo : RxFifo
  sem  : Nat
  pc   : RxPc

namespace Port

def init : Port where
  fifo := .init
  sem  := 0
  pc   := .take

-- The interrupt and the callback of the node, which is only called if there is something in use.
def isr (p : Port) (fifoIndex : Nat) (msg : RxMsg) : Option Port := do
  let f ← p.fifo.isr fifoIndex msg
  return { p with fifo := f, sem := if f.uselist.length > 0 then min (p.sem + 1) semValueMax else p.sem }

-- The header list that the thread asks for, `msg.hdr_index`.
def rxHdrIndex : Nat := 0

-- One step of the thread, with the frame that it is done with.
def thread (p : Port) : Option (Port × Option RxMsg) :=
  match p.pc with
  | .take       =>
    if p.sem = 0
    then some (p, none)
    else some ({ p with sem := p.sem - 1, pc := .read }, none)
  | .read       =>
    match p.fifo.remove rxHdrIndex with
    | none        => some ({ p with pc := .take }, none)
    | some (n, f) => some ({ p with fifo := f, pc := .copy n }, none)
  | .copy n     => some ({ p with pc := .give n (p.fifo.buffer n).data }, none)
  | .give n msg =>
    match p.fifo.release n with
    | none   => none
    | some f => some ({ p with fifo := f, pc := .handle msg }, none)
  | .handle msg => some ({ p with pc := .read }, some msg)

end Port

-- The two nodes that have a device, which are "can0" and "can2".
abbrev portAll : Nat := 2

def can0 : Fin portAll := ⟨0, by decide⟩
def can2 : Fin portAll := ⟨1, by decide⟩

-- `fifo_index` of the two devices in `drv_mcan.c`. The frames of the interrupt go to this header list.
def fifoIndex (i : Fin portAll) : Nat :=
  if i.val = 0 then 0 else 2

-- What the thread does with a frame.
def State.handleMsg (s : State) (i : Fin portAll) (msg : RxMsg) : State :=
  if msg.len > 8 then s else s.handleRx (.ofNat i.val) msg.toMsg

structure Reception where
  app   : State
  ports : Fin portAll → Port

namespace Reception

def init (time : Nat) : Reception where
  app     := .init time
  ports _ := .init

inductive Action
  | tick
  | monitor
  | isr (i : Fin portAll) (msg : RxMsg)
  | thread (i : Fin portAll)

def act (s : Reception) : Action → Option Reception
  | .tick      => some { s with app := s.app.act .tick }
  | .monitor   => some { s with app := s.app.act .monitor }
  | .isr i msg =>
    match (s.ports i).isr (fifoIndex i) msg with
    | none   => none
    | some p => some { s with ports := Function.update s.ports i p }
  | .thread i  =>
    match (s.ports i).thread with
    | none          => none
    | some (p, msg) => some {
      app   := msg.elim s.app (s.app.handleMsg i)
      ports := Function.update s.ports i p }

end Reception

end App.Can

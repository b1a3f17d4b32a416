import DvrModel.Lib.Store
import DvrModel.Lib.Crash
import Mathlib.Logic.Function.Basic

namespace Svc.Eeprom

def pageSize : Nat := 32

-- How `rt_i2c_transfer` ends: with the expected count, with an error, or not at all.
inductive Reply
  | ack
  | nack
  | powerLoss
  deriving DecidableEq

def Reply.result : Reply → Option Bool
  | ack       => some true
  | nack      => some false
  | powerLoss => none

-- What becomes of a page write. Whether the page has been programmed is independent of the reply.
structure Fate where
  reply     : Reply
  effective : Bool
  deriving DecidableEq

-- The bus and the memory behind it. The fates of the coming transfers are part of the state: `writes`
-- for page writes and `reads` for the transfers that a read consists of.
structure Device where
  bus    : Bool
  mem    : Nat → UInt8
  ptr    : Nat
  writes : Nat → Fate
  reads  : Nat → Reply

abbrev Io := Crash Device

-- While a page is written the address counter stays inside of it.
def nextInPage (a : Nat) : Nat :=
  a / pageSize * pageSize + (a + 1) % pageSize

def programPage (m : Nat → UInt8) (a : Nat) : List UInt8 → Nat → UInt8
  | []      => m
  | b :: bs => programPage (Function.update m a b) (nextInPage a) bs

-- The address bytes that start every write message.
def addrBytes (a : Nat) : List UInt8 :=
  [.ofNat (a / 256), .ofNat a]

def ofAddrBytes (hi lo : UInt8) : Nat :=
  hi.toNat * 256 + lo.toNat

-- `rt_i2c_transfer` with one `RT_I2C_WR` message. A message of two bytes only sets the address counter
-- for the read that follows, one with more bytes writes a page.
def transferWr (buf : List UInt8) : Io Bool where
  run d :=
    match buf with
    | [hi, lo] =>
      ((d.reads 0).result, { d with ptr := ofAddrBytes hi lo, reads := (d.reads <| · + 1) })
    | hi :: lo :: data =>
      let mem := if (d.writes 0).effective then programPage d.mem (ofAddrBytes hi lo) data else d.mem
      ((d.writes 0).reply.result, { d with mem, writes := (d.writes <| · + 1) })
    | _ => (some false, d)

-- `rt_i2c_transfer` with one `RT_I2C_RD` message. A failed read delivers no data.
def transferRd (len : Nat) : Io (Option <| List UInt8) where
  run d :=
    let d' := { d with reads := (d.reads <| · + 1) }
    match d.reads 0 with
    | .ack       => (some <| some <| (List.range len).map fun i => d.mem <| (d.ptr + i) % 65536, d')
    | .nack      => (some none, d')
    | .powerLoss => (none, d')

def writePage (memAddr : Nat) (data : List UInt8) : Io Bool := do
  let d ← Crash.get
  if !d.bus || data.isEmpty || data.length > pageSize then
    return false
  transferWr (addrBytes memAddr ++ data)

-- The loop of `svc_eeprom_write`. Every iteration writes at least one byte, so that `data.length`
-- iterations are enough. The offset is of type `uint16_t`.
def writeFrom (memAddr : Nat) (data : List UInt8) : Nat → Nat → Io Bool
  | 0,     _      => return true
  | n + 1, offset => do
    if offset < data.length then
      let pageRemain := pageSize - (memAddr + offset) % pageSize
      let writeLen := min (data.length - offset) pageRemain
      if ← writePage ((memAddr + offset) % 65536) (data.drop offset |>.take writeLen) then
        writeFrom memAddr data n ((offset + writeLen) % 65536)
      else
        return false
    else
      return true

def write (memAddr : Nat) (data : List UInt8) : Io Bool := do
  if data.isEmpty then
    return false
  writeFrom memAddr data data.length 0

def read (memAddr len : Nat) : Io (Option <| List UInt8) := do
  let d ← Crash.get
  if !d.bus || len = 0 then
    return none
  if ← transferWr (addrBytes memAddr) then
    transferRd len
  else
    return none

end Svc.Eeprom

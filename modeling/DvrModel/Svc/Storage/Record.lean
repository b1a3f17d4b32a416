import DvrModel.Lib.Bytes
import DvrModel.Svc.Storage.Eeprom

namespace Svc.Storage

open Eeprom (Io)

-- `char` arrays, with their terminating zero.
abbrev Chars (n : Nat) := Fin n → UInt8

def checksum (bs : List UInt8) : UInt32 :=
  bs.foldl (fun sum b => (sum <<< 5) - sum + b.toUInt32) 0

-- The format of one kind of record. The source repeats the same code for every kind: a header with
-- magic number, version and length, then the fields, with reserved and padding bytes, and at last the
-- checksum. `encode` gives the bytes between the header and the checksum, `decode` finds the fields in
-- the bytes of a whole record. Every kind keeps all of its fields on the page on which it starts.
structure Layout (α : Type) where
  addr           : Nat
  size           : Nat
  magic          : UInt32
  version        : UInt16
  accepts        : α → Bool
  encode         : α → List UInt8
  decode         : List UInt8 → α
  fallback       : α
  fallbackResult : Bool
  size_lt        : size < 65536
  addr_lt        : addr + size ≤ 65536
  two_pages      : addr % Eeprom.pageSize + size ≤ 2 * Eeprom.pageSize
  length_encode  : ∀ v, (encode v).length + 12 = size
  decode_encode  : ∀ hd v tl, hd.length = 8 → decode (hd ++ encode v ++ tl) = v
  decode_take    : ∀ bs, decode (bs.take <| Eeprom.pageSize - addr % Eeprom.pageSize) = decode bs

namespace Layout

variable (L : Layout α)

def header : List UInt8 :=
  Bytes.ofUInt32 L.magic ++ Bytes.ofUInt16 L.version ++ Bytes.ofUInt16 (.ofNat L.size)

def body (v : α) : List UInt8 :=
  L.header ++ L.encode v

def record (v : α) : List UInt8 :=
  L.body v ++ Bytes.ofUInt32 (checksum <| L.body v)

def recordIsValid (bs : List UInt8) : Bool :=
  Bytes.toUInt32 (Bytes.slice bs 0 4) == L.magic &&
  Bytes.toUInt16 (Bytes.slice bs 4 2) == L.version &&
  (Bytes.toUInt16 (Bytes.slice bs 6 2)).toNat == L.size &&
  L.accepts (L.decode bs) &&
  checksum (bs.take <| L.size - 4) == Bytes.toUInt32 (Bytes.slice bs (L.size - 4) 4)

-- What a load makes of the bytes that it has read, if any: the result, and the value that it leaves in
-- its output parameter.
def ofRead : Option (List UInt8) → Bool × α
  | some bs =>
    if L.recordIsValid bs then
      (true, L.decode bs)
    else
      (L.fallbackResult, L.fallback)
  | none => (L.fallbackResult, L.fallback)

def load : Io (Bool × α) := do
  let d ← Crash.get
  if !d.bus then
    return L.ofRead none
  return L.ofRead (← Eeprom.read L.addr L.size)

def save (v : α) : Io Bool := do
  if !L.accepts v then
    return false
  let d ← Crash.get
  if !d.bus then
    return false
  if !(← Eeprom.write L.addr (L.record v)) then
    return false
  return (← Eeprom.read L.addr L.size).any L.recordIsValid

end Layout

end Svc.Storage

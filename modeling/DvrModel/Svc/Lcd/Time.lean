namespace Svc.Lcd

-- What `lcd_timestamp_to_local_ymdhm` delivers.
structure LocalTime where
  year   : UInt16
  month  : UInt8
  day    : UInt8
  hour   : UInt8
  minute : UInt8
  deriving DecidableEq

-- The local variables of `lcd_timestamp_to_local_ymdhm`, as functions of those that they depend on.
namespace LocalTime

def localSeconds (timestamp : UInt32) : UInt32 :=
  timestamp + 8 * 3600

def days (timestamp : UInt32) : UInt32 :=
  localSeconds timestamp / 86400

def secsOfDay (timestamp : UInt32) : UInt32 :=
  localSeconds timestamp % 86400

def z (days : UInt32) : Int32 :=
  days.toInt32 + 719468

def era (z : Int32) : Int32 :=
  (if z ≥ 0 then z else z - 146096) / 146097

def doe (z : Int32) : UInt32 :=
  (z - era z * 146097).toUInt32

def yoe (doe : UInt32) : UInt32 :=
  (doe - doe / 1460 + doe / 36524 - doe / 146096) / 365

def doy (doe : UInt32) : UInt32 :=
  doe - (365 * yoe doe + yoe doe / 4 - yoe doe / 100)

def mp (doy : UInt32) : UInt32 :=
  (5 * doy + 2) / 153

def d (doy : UInt32) : UInt32 :=
  doy - (153 * mp doy + 2) / 5 + 1

def m (mp : UInt32) : UInt32 :=
  if mp < 10 then mp + 3 else mp - 9

def y (z : Int32) (mp : UInt32) : UInt32 :=
  yoe (doe z) + (era z).toUInt32 * 400 + if mp < 10 then 0 else 1

end LocalTime

open LocalTime in
def timestampToLocalYmdhm (timestamp : UInt32) : LocalTime :=
  let z := z (days timestamp)
  let doy := doy (doe z)
  { year   := (y z (mp doy)).toUInt16
    month  := (m (mp doy)).toUInt8
    day    := (d doy).toUInt8
    hour   := (secsOfDay timestamp / 3600).toUInt8
    minute := (secsOfDay timestamp % 3600 / 60).toUInt8 }

end Svc.Lcd

import DvrModel.Svc.Storage.Basic

open Svc.Storage Svc.Eeprom

namespace App.UartCmd

-- The static variables of `app_uart_cmd_update_total_mileage`. The unit of `meterNumAcc` is 1/36 meter.
structure Odometer where
  hasLastSample  : Bool
  storageLoaded  : Bool
  lastTimestamp  : UInt32
  odoKm          : UInt32
  odoRemM        : UInt16
  meterNumAcc    : UInt32
  lastSavedOdoKm : UInt32

namespace Odometer

def init : Odometer where
  hasLastSample  := false
  storageLoaded  := false
  lastTimestamp  := 0
  odoKm          := 0
  odoRemM        := 0
  meterNumAcc    := 0
  lastSavedOdoKm := 0

def loadStorage (o : Odometer) : Io Odometer := do
  let (ok, m) ← loadMileage
  if ok then
    return { o with
      odoKm          := m.odoKm
      odoRemM        := m.odoRemM
      lastSavedOdoKm := m.odoKm
      storageLoaded  := true }
  else
    return { o with
      odoKm          := 0
      odoRemM        := 0
      lastSavedOdoKm := 0
      storageLoaded  := true }

-- `meter_num_acc` with a distance of `deltaSec` seconds added.
def meterNum (o : Odometer) (speedKmhX10 : UInt16) (deltaSec : UInt32) : UInt32 :=
  o.meterNumAcc + speedKmhX10.toUInt32 * deltaSec

def totalM (o : Odometer) (speedKmhX10 : UInt16) (deltaSec : UInt32) : UInt32 :=
  o.odoRemM.toUInt32 + o.meterNum speedKmhX10 deltaSec / 36

def travel (o : Odometer) (speedKmhX10 : UInt16) (deltaSec : UInt32) : Odometer :=
  { o with
    meterNumAcc := o.meterNum speedKmhX10 deltaSec % 36
    odoKm       := o.odoKm + o.totalM speedKmhX10 deltaSec / 1000
    odoRemM     := (o.totalM speedKmhX10 deltaSec % 1000).toUInt16 }

def saveStorage (o : Odometer) : Io Odometer := do
  if o.odoKm - o.lastSavedOdoKm ≥ 1 then
    if ← saveMileage { odoKm := o.odoKm, odoRemM := o.odoRemM, reserved := 0 } then
      return { o with lastSavedOdoKm := o.odoKm }
    else
      return o
  else
    return o

-- What is done with a sample once the storage has been loaded.
def sample (o : Odometer) (speedKmhX10 : UInt16) (timestamp : UInt32) : Io Odometer :=
  if !o.hasLastSample then
    return { o with hasLastSample := true, lastTimestamp := timestamp }
  else if timestamp ≤ o.lastTimestamp then
    return { o with lastTimestamp := timestamp }
  else if timestamp - o.lastTimestamp > 5 then
    return { o with lastTimestamp := timestamp }
  else
    let deltaSec := timestamp - o.lastTimestamp
    { o with lastTimestamp := timestamp }.travel speedKmhX10 deltaSec |>.saveStorage

end Odometer

def updateTotalMileage (o : Odometer) (speedKmhX10 : UInt16) (timestamp : UInt32) : Io Odometer := do
  if o.storageLoaded then
    o.sample speedKmhX10 timestamp
  else
    let o ← o.loadStorage
    o.sample speedKmhX10 timestamp

-- The recorder over many boots. It has no odometer while it is off.
structure Recorder where
  device   : Device
  odometer : Option Odometer

namespace Recorder

inductive Event
  | boot   (bus : Bool)
  | sample (speedKmhX10 : UInt16) (timestamp : UInt32)

-- A boot starts with fresh static variables and looks for the bus. When the power is lost during a
-- sample the recorder is off until the next boot.
def next (r : Recorder) : Event → Option Recorder
  | .boot bus => some { device := { r.device with bus }, odometer := some .init }
  | .sample speed timestamp =>
    r.odometer.map fun o =>
      let s := (updateTotalMileage o speed timestamp).run r.device
      { device := s.2, odometer := s.1 }

end Recorder

end App.UartCmd

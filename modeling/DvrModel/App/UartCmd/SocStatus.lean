import DvrModel.Lib.Bytes
import DvrModel.App.UartCmd.Parser
import Mathlib.Data.Fintype.Pi

namespace App.UartCmd

-- An array member of `n` bytes.
abbrev Octets (n : Nat) : Type := Fin n → UInt8

-- `app_soc_status_msg_t`. The members that are single bits come first.
structure SocStatusMsg where
  camera1Status      : Bool
  camera2Status      : Bool
  camera3Status      : Bool
  camera4Status      : Bool
  recordStatus       : Bool
  locationStatus     : Bool
  icCardStatus       : Bool
  udiskStatus        : Bool
  ip1Connected       : Bool
  ip2Connected       : Bool
  gsmConnected       : Bool
  protectStorage     : Bool
  sdcardStatus       : Bool
  simStatus          : Bool
  latitudeDirection  : Bool
  longitudeDirection : Bool
  driverNumber       : Octets 9
  totalCapacity      : UInt32
  freeCapacity       : UInt32
  driverTime         : UInt32
  simSignal          : UInt8
  phoneNumber        : Octets 10
  usedSatellite      : UInt8
  latitude           : UInt32
  longitude          : UInt32
  timestamp          : UInt32
  driverSpeed        : UInt16
  terminalId         : Octets 30
  ip1                : UInt32
  ip2                : UInt32
  deriving DecidableEq

def readLe16 (buf : List UInt8) (o : Nat) : UInt16 :=
  (Bytes.byteAt buf o).toUInt16 ||| ((Bytes.byteAt buf (o + 1)).toUInt16 <<< 8)

def readLe32 (buf : List UInt8) (o : Nat) : UInt32 :=
  (Bytes.byteAt buf o).toUInt32 ||| ((Bytes.byteAt buf (o + 1)).toUInt32 <<< 8) |||
  ((Bytes.byteAt buf (o + 2)).toUInt32 <<< 16) ||| ((Bytes.byteAt buf (o + 3)).toUInt32 <<< 24)

def statusBit (bits : UInt8) (n : UInt8) : Bool :=
  (bits >>> n) &&& 0x01 == 1

-- What `app_uart_cmd_parse_soc_status` takes from an accepted frame.
def SocStatusMsg.ofData (data : List UInt8) : SocStatusMsg :=
  let statusBits1 := Bytes.byteAt data 3
  let statusBits2 := Bytes.byteAt data 4
  { camera1Status      := statusBit statusBits1 0
    camera2Status      := statusBit statusBits1 1
    camera3Status      := statusBit statusBits1 2
    camera4Status      := statusBit statusBits1 3
    recordStatus       := statusBit statusBits1 4
    locationStatus     := statusBit statusBits1 5
    icCardStatus       := statusBit statusBits1 6
    udiskStatus        := statusBit statusBits1 7
    ip1Connected       := statusBit statusBits2 0
    ip2Connected       := statusBit statusBits2 1
    gsmConnected       := statusBit statusBits2 2
    protectStorage     := statusBit statusBits2 3
    sdcardStatus       := statusBit statusBits2 4
    simStatus          := statusBit statusBits2 5
    latitudeDirection  := statusBit statusBits2 6
    longitudeDirection := statusBit statusBits2 7
    driverNumber       := Bytes.arrayAt data 5 9
    totalCapacity      := readLe32 data 14
    freeCapacity       := readLe32 data 18
    driverTime         := readLe32 data 22
    simSignal          := Bytes.byteAt data 26
    phoneNumber        := Bytes.arrayAt data 27 10
    usedSatellite      := Bytes.byteAt data 37
    latitude           := readLe32 data 38
    longitude          := readLe32 data 42
    timestamp          := readLe32 data 46
    driverSpeed        := readLe16 data 50
    terminalId         := Bytes.arrayAt data 52 30
    ip1                := readLe32 data 82
    ip2                := readLe32 data 86 }

-- Returns the message if the frame is accepted.
def parseSocStatus (frame : Frame) : Option SocStatusMsg :=
  if frame.length < 93 then
    none
  else if Bytes.byteAt frame.data 0 ≠ frameHead ∨ Bytes.byteAt frame.data 2 ≠ typeSocStatus then
    none
  else
    some <| .ofData frame.data

-- Hour, minute and second of a timestamp in Beijing time.
def timeToHms (timestamp : UInt32) : UInt8 × UInt8 × UInt8 :=
  let localSeconds := timestamp + 8 * 3600
  let secondsOfDay := localSeconds % 86400
  ((secondsOfDay / 3600).toUInt8, (secondsOfDay % 3600 / 60).toUInt8, (secondsOfDay % 60).toUInt8)

end App.UartCmd

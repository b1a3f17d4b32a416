import DvrModel.App.Config
import DvrModel.App.UartCmd.Parser
import DvrModel.Svc.Storage.Basic

open Svc.Eeprom (Io)
open Svc.Storage

namespace App.UartCmd

def typeMcuVersion : UInt8 := 0x11

-- `g_mcu_plate_province_utf8`
def mcuPlateProvinceUtf8 : List (List UInt8) := [
  [0xE4, 0xBA, 0xAC], [0xE6, 0xB4, 0xA5], [0xE6, 0xB2, 0xAA], [0xE6, 0xB8, 0x9D], [0xE5, 0x86, 0x80],
  [0xE8, 0xB1, 0xAB], [0xE4, 0xBA, 0x91], [0xE8, 0xBE, 0xBD], [0xE9, 0xBB, 0x91], [0xE6, 0xB9, 0x98],
  [0xE7, 0x9A, 0x96], [0xE9, 0xB2, 0x81], [0xE6, 0x96, 0xB0], [0xE8, 0x8B, 0x8F], [0xE6, 0xB5, 0x99],
  [0xE8, 0xB5, 0xA3], [0xE9, 0x84, 0x82], [0xE6, 0xA1, 0x82], [0xE7, 0x94, 0x98], [0xE6, 0x99, 0x8B],
  [0xE8, 0x92, 0x99], [0xE9, 0x99, 0x95], [0xE5, 0x90, 0x89], [0xE9, 0x97, 0xBD], [0xE8, 0xB4, 0xB5],
  [0xE7, 0xB2, 0xA4], [0xE9, 0x9D, 0x92], [0xE8, 0x97, 0x8F], [0xE5, 0xB7, 0x9D], [0xE5, 0xAE, 0x81],
  [0xE7, 0x90, 0xBC]
]

-- `app_mcu_config_status_t`
structure ConfigStatus where
  validFlags        : UInt8
  localPhone        : Chars 11
  plateClass        : UInt8
  plateColor        : UInt8
  plateProvinceUtf8 : Chars 3
  plateLetter       : UInt8
  plateTail         : Chars 5
  vin               : Chars 17
  provinceId        : Chars 2
  cityId            : Chars 4
  deriving DecidableEq

namespace ConfigStatus

-- The bytes of the packed structure.
def encode (c : ConfigStatus) : List UInt8 :=
  c.validFlags :: (Bytes.ofArray c.localPhone ++ [c.plateClass, c.plateColor] ++
    Bytes.ofArray c.plateProvinceUtf8 ++ [c.plateLetter] ++ Bytes.ofArray c.plateTail ++
    Bytes.ofArray c.vin ++ Bytes.ofArray c.provinceId ++ Bytes.ofArray c.cityId)

def init : ConfigStatus where
  validFlags          := 0
  localPhone _        := 0
  plateClass          := 0
  plateColor          := 0
  plateProvinceUtf8 _ := 0
  plateLetter         := 0
  plateTail _         := 0
  vin _               := 0
  provinceId _        := 0
  cityId _            := 0

-- The first `n` characters, as `rt_memcpy` copies them.
def copy (n : Nat) (cs : Chars m) : Chars n :=
  Bytes.arrayAt (Bytes.ofArray cs) 0 n

-- `valid_flags`, one bit for each condition, the first one in bit 0.
def flags (conditions : List Bool) : UInt8 :=
  conditions.foldr (fun c flags => 2 * flags + if c then 1 else 0) 0

-- What `app_usart_cmd_refresh_status_config` makes of the values that it has loaded.
def ofStored (config : Config) (vin : Vin) (provinceId : ProvinceId) (cityId : CityId) :
    ConfigStatus where
  localPhone        := copy 11 config.localPhone
  plateClass        := config.plateClass
  plateColor        := config.plateColor
  plateProvinceUtf8 :=
    if config.plateNumber.provinceIndex < plateProvinceCount then
      Bytes.arrayAt (mcuPlateProvinceUtf8.getD config.plateNumber.provinceIndex.toNat []) 0 3
    else
      fun _ => 0
  plateLetter       := config.plateNumber.letter
  plateTail         := copy 5 config.plateNumber.digits
  vin               := copy 17 vin.vin
  provinceId        := copy 2 provinceId.id
  cityId            := copy 4 cityId.id
  validFlags        := flags [
    (Bytes.ofArray config.localPhone).take 11 != List.replicate 11 '0'.toUInt8,
    config.plateNumber.valid == 1, vin.valid == 1, provinceId.valid == 1, cityId.valid == 1]

end ConfigStatus

-- The results of the loads are not looked at.
def refreshStatusConfig : Io ConfigStatus := do
  let (_, config) ← loadConfig
  let (_, vin) ← loadVin
  let (_, provinceId) ← loadProvinceId
  let (_, cityId) ← loadCityId
  return .ofStored config vin provinceId cityId

-- The loop of `app_uart_cmd_parse_version`. It may stop with a number that has not been stored yet.
def parseVersionFrom (value : UInt16) (hasDigit : Bool) (values : List UInt8) : List UInt8 → List UInt8
  | []     => finish value hasDigit values
  | c :: p =>
    if values.length < 3 then
      if isDigit c then
        parseVersionFrom (value * 10 + (c - '0'.toUInt8).toUInt16) true values p
      else if c = '.'.toUInt8 then
        if hasDigit then
          parseVersionFrom 0 false (values ++ [clamp value]) p
        else
          parseVersionFrom value hasDigit values p
      else
        finish value hasDigit values
    else
      finish value hasDigit values
where
  clamp (value : UInt16) : UInt8 :=
    if value > 255 then 255 else value.toUInt8
  finish (value : UInt16) (hasDigit : Bool) (values : List UInt8) : List UInt8 :=
    if values.length < 3 ∧ hasDigit then values ++ [clamp value] else values

-- Major, minor and patch.
def parseVersion (p : List UInt8) : List UInt8 :=
  let p := if p.head? = some 'V'.toUInt8 ∨ p.head? = some 'v'.toUInt8 then p.tail else p
  let values := parseVersionFrom 0 false [] p
  values ++ List.replicate (3 - values.length) 0

-- `app_mcu_status_t`, byte by byte. The inputs and the key are in bit fields.
def mcuStatus (cache : ConfigStatus) (io : VehicleInputs) (anyKeyPressed : Bool) : List UInt8 :=
  parseVersion Config.softwareVersion ++
  [ConfigStatus.flags (io.bits.take 8), ConfigStatus.flags (io.bits.drop 8 ++ [anyKeyPressed])] ++
  Bytes.ofUInt32 Config.adminRegionCode ++
  cache.encode

-- `sizeof(app_mcu_status_frame_t)`
def mcuStatusFrameSize : Nat := 61

-- The bytes that `app_uart_cmd_build_mcu_version` writes into a buffer of the given size.
def buildMcuVersion (cache : ConfigStatus) (io : VehicleInputs) (anyKeyPressed : Bool)
    (bufSize : Nat) : List UInt8 :=
  if bufSize < mcuStatusFrameSize then
    []
  else
    let status := mcuStatus cache io anyKeyPressed
    let crc := crc16 status
    [frameHead, .ofNat mcuStatusFrameSize, typeMcuVersion] ++ status ++
      [crc.toUInt8, (crc >>> 8).toUInt8, frameTail]

end App.UartCmd

import DvrModel.Svc.Storage.Record
import Mathlib.Data.Fintype.Pi
import Mathlib.Data.Fin.VecNotation

namespace Svc.Storage

open Eeprom (Io)

def isDigit (c : UInt8) : Bool :=
  '0'.toUInt8 ≤ c && c ≤ '9'.toUInt8

def isUpper (c : UInt8) : Bool :=
  'A'.toUInt8 ≤ c && c ≤ 'Z'.toUInt8

structure Mileage where
  odoKm    : UInt32
  odoRemM  : UInt16
  reserved : UInt16
  deriving DecidableEq

structure PlateNumber where
  valid         : UInt8
  provinceIndex : UInt8
  letter        : UInt8
  digits        : Chars 6
  deriving DecidableEq

structure Config where
  localPhone  : Chars 12
  plateClass  : UInt8
  plateColor  : UInt8
  plateNumber : PlateNumber
  deriving DecidableEq

def vinLen : Nat := 17

structure Vin where
  valid : UInt8
  vin   : Chars (vinLen + 1)
  deriving DecidableEq

def provinceIdLen : Nat := 2

structure ProvinceId where
  valid : UInt8
  id    : Chars (provinceIdLen + 1)
  deriving DecidableEq

def cityIdLen : Nat := 4

structure CityId where
  valid : UInt8
  id    : Chars (cityIdLen + 1)
  deriving DecidableEq

def plateProvinceCount : UInt8 := 31

-- `g_default_config`.
def defaultConfig : Config where
  localPhone  := ![48, 48, 48, 48, 48, 48, 48, 48, 48, 48, 48, 0]
  plateClass  := 1
  plateColor  := 1
  plateNumber := {
    valid         := 0
    provinceIndex := 0
    letter        := 'A'.toUInt8
    digits        := ![48, 48, 48, 48, 48, 0]
  }

def phoneDigitsValid (digits : Chars 12) : Bool :=
  ((Bytes.ofArray digits).take 11).all isDigit && digits 11 == 0

def plateClassValid (plateClass : UInt8) : Bool :=
  1 ≤ plateClass && plateClass ≤ 5

def plateColorValid (plateColor : UInt8) : Bool :=
  1 ≤ plateColor && plateColor ≤ 5

def plateNumberValid (p : PlateNumber) : Bool :=
  p.valid ≤ 1 && p.provinceIndex < plateProvinceCount && isUpper p.letter &&
  ((Bytes.ofArray p.digits).take 5).all (fun c => isDigit c || isUpper c) && p.digits 5 == 0

-- The checks that `svc_storage_save_config` and `svc_storage_config_record_is_valid` share.
def configValid (c : Config) : Bool :=
  phoneDigitsValid c.localPhone && plateClassValid c.plateClass && plateColorValid c.plateColor &&
  plateNumberValid c.plateNumber

-- An identifier of `n` characters that may be unset, in which case only its terminator is checked.
def identValid (isChar : UInt8 → Bool) (valid : UInt8) (cs : Chars (n + 1)) : Bool :=
  valid ≤ 1 && cs (Fin.last n) == 0 && (valid == 0 || ((Bytes.ofArray cs).take n).all isChar)

def vinValid (v : Vin) : Bool :=
  identValid (fun c => isDigit c || isUpper c) v.valid v.vin

def provinceIdValid (p : ProvinceId) : Bool :=
  identValid isDigit p.valid p.id

def cityIdValid (c : CityId) : Bool :=
  identValid isDigit c.valid c.id

-- Mileage records are valid whatever their fields are, and a load that finds none counts as a success.
def mileage : Layout Mileage where
  addr           := 0x0000
  size           := 20
  magic          := 0x4D494C45
  version        := 1
  accepts _      := true
  encode v       := Bytes.ofUInt32 v.odoKm ++ Bytes.ofUInt16 v.odoRemM ++ Bytes.ofUInt16 v.reserved
  decode bs      := {
    odoKm    := Bytes.toUInt32 (Bytes.slice bs 8 4)
    odoRemM  := Bytes.toUInt16 (Bytes.slice bs 12 2)
    reserved := Bytes.toUInt16 (Bytes.slice bs 14 2)
  }
  fallback       := ⟨0, 0, 0⟩
  fallbackResult := true
  size_lt        := by decide
  addr_lt        := by decide
  two_pages      := by decide
  length_encode  := by simp
  decode_encode hd v tl h := by
    simp [Bytes.slice_append_right, Bytes.slice_zero, h]
  decode_take bs := by
    simp [Bytes.slice_take, Eeprom.pageSize]

-- `svc_storage_config_record_t` has two reserved bytes and three bytes of padding before the checksum.
def config : Layout Config where
  addr           := 0x0040
  size           := 40
  magic          := 0x434F4E46
  version        := 2
  accepts        := configValid
  encode v       :=
    Bytes.ofArray v.localPhone ++ v.plateClass :: v.plateColor ::
    v.plateNumber.valid :: v.plateNumber.provinceIndex :: v.plateNumber.letter ::
    (Bytes.ofArray v.plateNumber.digits ++ [0, 0, 0, 0, 0])
  decode bs      := {
    localPhone  := Bytes.arrayAt bs 8 12
    plateClass  := Bytes.byteAt bs 20
    plateColor  := Bytes.byteAt bs 21
    plateNumber := {
      valid         := Bytes.byteAt bs 22
      provinceIndex := Bytes.byteAt bs 23
      letter        := Bytes.byteAt bs 24
      digits        := Bytes.arrayAt bs 25 6
    }
  }
  fallback       := defaultConfig
  fallbackResult := false
  size_lt        := by decide
  addr_lt        := by decide
  two_pages      := by decide
  length_encode  := by simp
  decode_encode hd v tl h := by
    simp [Bytes.byteAt_append_right, Bytes.arrayAt_append_right, Bytes.arrayAt_zero, h]
  decode_take bs := by
    simp [Bytes.byteAt_take, Bytes.arrayAt_take, Eeprom.pageSize]

def vin : Layout Vin where
  addr           := 0x0100
  size           := 32
  magic          := 0x56494E31
  version        := 1
  accepts        := vinValid
  encode v       := v.valid :: (Bytes.ofArray v.vin ++ [0])
  decode bs      := ⟨Bytes.byteAt bs 8, Bytes.arrayAt bs 9 (vinLen + 1)⟩
  fallback       := ⟨0, fun _ => 0⟩
  fallbackResult := false
  size_lt        := by decide
  addr_lt        := by decide
  two_pages      := by decide
  length_encode  := by simp; exact fun _ => rfl
  decode_encode hd v tl h := by
    simp [Bytes.byteAt_append_right, Bytes.arrayAt_append_right, Bytes.arrayAt_zero, h]
  decode_take bs := by
    simp [Bytes.byteAt_take, Bytes.arrayAt_take, Eeprom.pageSize, vinLen]

def provinceId : Layout ProvinceId where
  addr           := 0x0140
  size           := 16
  magic          := 0x50524944
  version        := 1
  accepts        := provinceIdValid
  encode v       := v.valid :: Bytes.ofArray v.id
  decode bs      := ⟨Bytes.byteAt bs 8, Bytes.arrayAt bs 9 (provinceIdLen + 1)⟩
  fallback       := ⟨0, fun _ => 0⟩
  fallbackResult := false
  size_lt        := by decide
  addr_lt        := by decide
  two_pages      := by decide
  length_encode  := by simp; exact fun _ => rfl
  decode_encode hd v tl h := by
    simp [Bytes.byteAt_append_right, Bytes.arrayAt_append_right, Bytes.arrayAt_zero, h]
  decode_take bs := by
    simp [Bytes.byteAt_take, Bytes.arrayAt_take, Eeprom.pageSize, provinceIdLen]

-- `svc_storage_city_id_record_t` has two bytes of padding before the checksum.
def cityId : Layout CityId where
  addr           := 0x0180
  size           := 20
  magic          := 0x43495459
  version        := 1
  accepts        := cityIdValid
  encode v       := v.valid :: (Bytes.ofArray v.id ++ [0, 0])
  decode bs      := ⟨Bytes.byteAt bs 8, Bytes.arrayAt bs 9 (cityIdLen + 1)⟩
  fallback       := ⟨0, fun _ => 0⟩
  fallbackResult := false
  size_lt        := by decide
  addr_lt        := by decide
  two_pages      := by decide
  length_encode  := by simp; exact fun _ => rfl
  decode_encode hd v tl h := by
    simp [Bytes.byteAt_append_right, Bytes.arrayAt_append_right, Bytes.arrayAt_zero, h]
  decode_take bs := by
    simp [Bytes.byteAt_take, Bytes.arrayAt_take, Eeprom.pageSize, cityIdLen]

def loadMileage    : Io (Bool × Mileage)    := mileage.load
def loadConfig     : Io (Bool × Config)     := config.load
def loadVin        : Io (Bool × Vin)        := vin.load
def loadProvinceId : Io (Bool × ProvinceId) := provinceId.load
def loadCityId     : Io (Bool × CityId)     := cityId.load

def saveMileage    : Mileage → Io Bool    := mileage.save
def saveConfig     : Config → Io Bool     := config.save
def saveVin        : Vin → Io Bool        := vin.save
def saveProvinceId : ProvinceId → Io Bool := provinceId.save
def saveCityId     : CityId → Io Bool     := cityId.save

-- The single-field loads: load the configuration and hand out one field of it, valid or not.
def loadField (get : Config → φ) : Io (Bool × φ) := do
  let (result, c) ← loadConfig
  return (result, get c)

def loadLocalPhone  : Io (Bool × Chars 12)    := loadField Config.localPhone
def loadPlateClass  : Io (Bool × UInt8)       := loadField Config.plateClass
def loadPlateColor  : Io (Bool × UInt8)       := loadField Config.plateColor
def loadPlateNumber : Io (Bool × PlateNumber) := loadField Config.plateNumber

-- The single-field saves: load the configuration, change one field and save everything. The result of
-- the load is not looked at.
def saveField (valid : φ → Bool) (set : Config → φ → Config) (v : φ) : Io Bool := do
  if !valid v then
    return false
  let (_, c) ← loadConfig
  saveConfig (set c v)

def saveLocalPhone : Chars 12 → Io Bool :=
  saveField phoneDigitsValid ({ · with localPhone := · })

def savePlateClass : UInt8 → Io Bool :=
  saveField plateClassValid ({ · with plateClass := · })

def savePlateColor : UInt8 → Io Bool :=
  saveField plateColorValid ({ · with plateColor := · })

def savePlateNumber : PlateNumber → Io Bool :=
  saveField plateNumberValid ({ · with plateNumber := · })

-- The kinds of records that the storage service keeps.
inductive Kind
  | mileage
  | config
  | vin
  | provinceId
  | cityId
  deriving DecidableEq

namespace Kind

def Value : Kind → Type
  | mileage    => Mileage
  | config     => Config
  | vin        => Vin
  | provinceId => ProvinceId
  | cityId     => CityId

def layout : (k : Kind) → Layout k.Value
  | mileage    => Storage.mileage
  | config     => Storage.config
  | vin        => Storage.vin
  | provinceId => Storage.provinceId
  | cityId     => Storage.cityId

def load : (k : Kind) → Io (Bool × k.Value)
  | mileage    => loadMileage
  | config     => loadConfig
  | vin        => loadVin
  | provinceId => loadProvinceId
  | cityId     => loadCityId

def save : (k : Kind) → k.Value → Io Bool
  | mileage    => saveMileage
  | config     => saveConfig
  | vin        => saveVin
  | provinceId => saveProvinceId
  | cityId     => saveCityId

theorem load_eq (k : Kind) : k.load = k.layout.load := by
  cases k <;> rfl

theorem save_eq (k : Kind) : k.save = k.layout.save := by
  cases k <;> rfl

end Kind

end Svc.Storage

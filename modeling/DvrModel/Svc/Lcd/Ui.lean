import DvrModel.App.UartCmd.Status
import DvrModel.Svc.Lcd.Editor
import DvrModel.Svc.Lcd.Page
import DvrModel.Svc.Lcd.Paging

open Svc.Eeprom (Io)
open Svc.Storage
open App (VehicleInputs)
open App.UartCmd (ConfigStatus refreshStatusConfig)

namespace Svc.Lcd

structure Time where
  hour   : UInt8
  minute : UInt8
  second : UInt8
  deriving DecidableEq

structure Location where
  latitude           : UInt32
  longitude          : UInt32
  latitudeDirection  : UInt8
  longitudeDirection : UInt8
  timestamp          : UInt32
  deriving DecidableEq

-- `card_id`, as the characters before the terminator.
abbrev CardId := { s : List UInt8 // s.length ≤ 19 }

-- `rt_strncpy`
def CardId.ofString (s : List UInt8) : CardId :=
  ⟨s.take 19, List.length_take_le ..⟩

-- `lcd_home_ui_data_t`
structure HomeData where
  speedKmhX10    : UInt16
  time           : Time
  driveTime      : Time
  topStatusValue : UInt8
  location       : Location
  cardId         : CardId
  deriving DecidableEq

-- The variables of `lcd_ui.c` and `svc_lcd.c`, together with `g_mcu_config_cache`, which the LCD thread
-- has refreshed.
structure Ui where
  menuMode               : Bool
  pageSelected           : Page → UInt8
  currentPageId          : Page
  pageEnterTick          : UInt32
  needRedraw             : Bool
  commonOkReturnPage     : Page
  homeSubpage            : UInt8
  home                   : HomeData
  textMsg                : TextMsg
  overtimeDriveCount     : UInt16
  totalMileageKm         : UInt32
  totalMileageRemM       : UInt16
  vin                    : Picker .vin
  provinceId             : Picker .provinceId
  cityId                 : Picker .cityId
  plate                  : PlateEditor
  phone                  : PhoneEditor
  vehicleStatusLastBits  : UInt16
  vehicleStatusCheckTick : UInt32
  configCache            : ConfigStatus

namespace Ui

-- After `lcd_ui_data_reset` and `lcd_ui_core_reset`, with the cache that `app_usart_cmd_init` has filled.
def init (configCache : ConfigStatus) : Ui where
  menuMode               := false
  pageSelected _         := 0
  currentPageId          := .home
  pageEnterTick          := 0
  needRedraw             := true
  commonOkReturnPage     := .home
  homeSubpage            := 0
  home                   := {
    speedKmhX10    := 0
    time           := ⟨9, 16, 45⟩
    driveTime      := ⟨0, 0, 0⟩
    topStatusValue := 0
    location       := ⟨0, 0, 0, 0, 0⟩
    cardId         := .ofString (List.replicate 18 '0'.toUInt8)
  }
  textMsg                := Display.init.textMsg
  overtimeDriveCount     := 0
  totalMileageKm         := 0
  totalMileageRemM       := 0
  vin                    := .init
  provinceId             := .init
  cityId                 := .init
  plate                  := .init
  phone                  := .init
  vehicleStatusLastBits  := 0xFFFF
  vehicleStatusCheckTick := 0
  configCache            := configCache

def select (u : Ui) (page : Page) (selected : UInt8) : Ui :=
  { u with pageSelected := Function.update u.pageSelected page selected }

-- `lcd_prepare_vehicle_plate_class_page` and its counterpart for the color.
def selectStored (u : Ui) (page : Page) : Bool × UInt8 → Ui
  | (result, value) => u.select page (if result && 1 ≤ value && value ≤ 5 then value - 1 else 0)

-- The characters of an identifier that has been loaded, as indices.
def storedChars (index : UInt8 → UInt8) (result : Bool) (valid : UInt8) (cs : Chars n) :
    Option (Nat → UInt8) :=
  if result && valid == 1 then some fun i => index ((Bytes.ofArray cs).getD i 0) else none

def prepareVin (u : Ui) : Io Ui := do
  let (result, v) ← loadVin
  return { u with vin := .prepare (storedChars plateTailIndex result v.valid v.vin) }

def prepareProvinceId (u : Ui) : Io Ui := do
  let (result, v) ← loadProvinceId
  return { u with provinceId := .prepare (storedChars (· - '0'.toUInt8) result v.valid v.id) }

def prepareCityId (u : Ui) : Io Ui := do
  let (result, v) ← loadCityId
  return { u with cityId := .prepare (storedChars (· - '0'.toUInt8) result v.valid v.id) }

-- `lcd_page_on_enter_prepare`
def prepare (u : Ui) : Page → Io Ui
  | .systemSettingHostParamLocalPhone   => return { u with phone := .prepare (← loadLocalPhone) }
  | .systemSettingVehicleInfoPlateClass =>
    return u.selectStored .systemSettingVehicleInfoPlateClass (← loadPlateClass)
  | .systemSettingVehicleInfoPlateColor =>
    return u.selectStored .systemSettingVehicleInfoPlateColor (← loadPlateColor)
  | .driveRecordInfoCenterTextNormal    => return { u with textMsg := u.textMsg.prepare }
  | .systemSettingVehicleInfoPlateSet   => return { u with plate := .prepare (← loadPlateNumber) }
  | .systemSettingVehicleInfoVin        => u.prepareVin
  | .systemSettingVehicleInfoProvinceId => u.prepareProvinceId
  | .systemSettingVehicleInfoCityId     => u.prepareCityId
  | _                                   => return u

-- `lcd_page_enter` at tick `now`.
def pageEnter (u : Ui) (now : UInt32) (page : Page) : Io Ui := do
  if page = .max then
    return u
  let u ← { u with currentPageId := page }.prepare page
  return { u with menuMode := page ≠ .home, pageEnterTick := now, needRedraw := true }

def pageEnterCommonOk (u : Ui) (now : UInt32) (returnPage : Page) : Io Ui :=
  let commonOkReturnPage := if returnPage = .max then .home else returnPage
  { u with commonOkReturnPage }.pageEnter now .commonConfigOk

def handleBack (u : Ui) (now : UInt32) : Io Ui :=
  if u.currentPageId = .commonConfigOk then
    u.pageEnter now u.commonOkReturnPage
  else if u.currentPageId = .home then
    u.pageEnter now .mainMenu
  else
    match u.currentPageId.getPageNode with
    | none      => u.pageEnter now .home
    | some node => u.pageEnter now (if node.parentId ≠ .max then node.parentId else .home)

-- `lcd_page_handle_nav(-1)`
def handleNavUp (u : Ui) : Ui :=
  let selected := u.pageSelected u.currentPageId
  if u.currentPageId.selectCount ≠ 0 ∧ selected > 0 then
    { u.select u.currentPageId (selected - 1) with needRedraw := true }
  else
    u

-- `lcd_page_handle_nav(1)`
def handleNavDown (u : Ui) : Ui :=
  let selected := u.pageSelected u.currentPageId
  if u.currentPageId.selectCount ≠ 0 ∧ selected.toNat + 1 < u.currentPageId.selectCount.toNat then
    { u.select u.currentPageId (selected + 1) with needRedraw := true }
  else
    u

-- Only the page of the plate number keeps track of what has been saved.
def saved (u : Ui) : Page → Ui
  | .systemSettingVehicleInfoPlateSet => { u with plate := u.plate.saved }
  | _                                 => u

-- What every successful save is followed by.
def saveAndOk (u : Ui) (now : UInt32) (page : Page) (save : Io Bool) : Io Ui := do
  if ← save then
    let configCache ← refreshStatusConfig
    { u.saved page with configCache }.pageEnterCommonOk now page
  else
    return u

def confirm (u : Ui) (now : UInt32) : Confirm → Io Ui
  | .loadStatus        => u.pageEnter now .driveRecordLoadStatusOk
  | .keyVolume         => u.pageEnterCommonOk now .systemSettingKeyVolume
  | .backlightTime     => u.pageEnterCommonOk now .systemSettingBacklightTime
  | .brightnessLevel   => u.pageEnterCommonOk now .systemSettingBrightnessLevel
  | .vehiclePlateClass =>
    u.saveAndOk now .systemSettingVehicleInfoPlateClass
      (savePlateClass (u.pageSelected .systemSettingVehicleInfoPlateClass + 1))
  | .vehiclePlateColor =>
    u.saveAndOk now .systemSettingVehicleInfoPlateColor
      (savePlateColor (u.pageSelected .systemSettingVehicleInfoPlateColor + 1))

def handleConfirm (u : Ui) (now : UInt32) : Io Ui :=
  match u.currentPageId.getPageNode with
  | none      => return u
  | some node =>
    if node.kind = .actionResult then
      if u.currentPageId = .commonConfigOk then
        u.pageEnter now u.commonOkReturnPage
      else if node.autoReturnTarget ≠ .max then
        u.pageEnter now node.autoReturnTarget
      else
        return u
    else
      match node.onConfirm with
      | some c => u.confirm now c
      | none   =>
        let selected := u.pageSelected u.currentPageId
        if node.kind = .list ∧ node.childCount > 0 ∧ selected < node.childCount then
          u.pageEnter now (node.children.getD selected.toNat .max)
        else
          return u

-- With `RT_TICK_PER_SECOND` being 1000, `rt_tick_from_millisecond` does nothing.
def handleAutoReturn (u : Ui) (now : UInt32) : Io Ui :=
  match u.currentPageId.getPageNode with
  | none      => return u
  | some node =>
    if node.autoReturnMs = 0 ∨ node.autoReturnTarget = .max then
      return u
    else if now - u.pageEnterTick ≥ node.autoReturnMs then
      u.pageEnter now node.autoReturnTarget
    else
      return u

-- `lcd_vehicle_status_pack_bits`
def vehicleStatusPackBits (io : VehicleInputs) : UInt16 :=
  io.bits.foldr (fun b bits => 2 * bits + if b then 1 else 0) 0

def handleDynamicRefresh (u : Ui) (now : UInt32) (io : VehicleInputs) : Ui :=
  if u.currentPageId ≠ .deviceStatusVehicle then
    { u with vehicleStatusLastBits := 0xFFFF }
  else if now - u.vehicleStatusCheckTick < 100 then
    u
  else
    let bits := vehicleStatusPackBits io
    let u := { u with vehicleStatusCheckTick := now }
    if u.vehicleStatusLastBits = 0xFFFF then
      { u with vehicleStatusLastBits := bits }
    else if bits ≠ u.vehicleStatusLastBits then
      { u with vehicleStatusLastBits := bits, needRedraw := true }
    else
      u

end Ui

end Svc.Lcd

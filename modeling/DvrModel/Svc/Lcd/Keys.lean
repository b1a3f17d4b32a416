import DvrModel.Svc.Lcd.Ui

open Svc.Eeprom (Io)
open Svc.Storage

namespace Svc.Lcd

-- The places of `svc_lcd_thread_entry` that poll the keys: the branch for the home page, the handlers of
-- single pages and what comes after them.
inductive Handler
  | home
  | textNormal
  | vin
  | provinceId
  | cityId
  | plateSet
  | localPhone
  | generic
  deriving DecidableEq

-- The handler that polls the keys first while a page is the current one.
def Page.handler : Page → Handler
  | home                               => .home
  | driveRecordInfoCenterTextNormal    => .textNormal
  | systemSettingVehicleInfoVin        => .vin
  | systemSettingVehicleInfoProvinceId => .provinceId
  | systemSettingVehicleInfoCityId     => .cityId
  | systemSettingVehicleInfoPlateSet   => .plateSet
  | systemSettingHostParamLocalPhone   => .localPhone
  | _                                  => .generic

-- The key that a handler polls first.
def Handler.first : Handler → Key
  | localPhone => .s2
  | _          => .s1

-- The key that a handler polls after another one.
def Handler.next : Handler → Key → Option Key
  | localPhone, .s2 => some .s3
  | localPhone, .s3 => some .s1
  | localPhone, .s1 => some .s4
  | _,          .s1 => some .s2
  | _,          .s2 => some .s3
  | _,          .s3 => some .s4
  | _,          .s4 => none

namespace Ui

-- What the editor of a page makes of a key concerns the page in one of three ways.
def reply (u : Ui) (now : UInt32) (parent page : Page) (save : Io Bool) : Reply → Io Ui
  | .redraw => return { u with needRedraw := true }
  | .leave  => u.pageEnter now parent
  | .save   => u.saveAndOk now page save

-- `lcd_handle_vin_set_keys`, when the event of a key has been consumed.
def handleVinSetKey (u : Ui) (now : UInt32) (k : Key) : Io Ui :=
  let (vin, r) := u.vin.handle k
  { u with vin }.reply now .systemSettingVehicleInfo .systemSettingVehicleInfoVin
    (saveVin ⟨1, vin.text vinLen⟩) r

def handleProvinceIdSetKey (u : Ui) (now : UInt32) (k : Key) : Io Ui :=
  let (provinceId, r) := u.provinceId.handle k
  { u with provinceId }.reply now .systemSettingVehicleInfo .systemSettingVehicleInfoProvinceId
    (saveProvinceId ⟨1, provinceId.text provinceIdLen⟩) r

def handleCityIdSetKey (u : Ui) (now : UInt32) (k : Key) : Io Ui :=
  let (cityId, r) := u.cityId.handle k
  { u with cityId }.reply now .systemSettingVehicleInfo .systemSettingVehicleInfoCityId
    (saveCityId ⟨1, cityId.text cityIdLen⟩) r

def handlePlateSetKey (u : Ui) (now : UInt32) (k : Key) : Io Ui :=
  let (plate, r) := u.plate.handle k
  { u with plate }.reply now .systemSettingVehicleInfo .systemSettingVehicleInfoPlateSet
    (savePlateNumber plate.value) r

-- The phone's page is drawn again even if its number could not be saved.
def handleLocalPhoneKey (u : Ui) (now : UInt32) (k : Key) : Io Ui := do
  let (phone, r) := u.phone.handle k
  let u ← { u with phone }.reply now .systemSettingHostParam .systemSettingHostParamLocalPhone
    (saveLocalPhone phone.value) r
  return { u with needRedraw := true }

def handleTextNormalKey (u : Ui) (now : UInt32) : Key → Io Ui
  | .s1 => u.pageEnter now .driveRecordInfoCenterText
  | .s2 => return turn u.textMsg.handleS2
  | .s3 => return turn u.textMsg.handleS3
  | .s4 => return u
where
  turn : Option TextMsg → Ui
    | some textMsg => { u with textMsg, needRedraw := true }
    | none         => u

def handleHomeKey (u : Ui) (now : UInt32) : Key → Io Ui
  | .s1       => return u
  | .s2 | .s3 => return { u with homeSubpage := if u.homeSubpage = 0 then 1 else 0, needRedraw := true }
  | .s4       => u.pageEnter now .mainMenu

def handleGenericKey (u : Ui) (now : UInt32) : Key → Io Ui
  | .s1 => u.handleBack now
  | .s2 => return u.handleNavUp
  | .s3 => return u.handleNavDown
  | .s4 => u.handleConfirm now

def handleKey (u : Ui) (now : UInt32) : Handler → Key → Io Ui
  | .home       => u.handleHomeKey now
  | .textNormal => u.handleTextNormalKey now
  | .vin        => u.handleVinSetKey now
  | .provinceId => u.handleProvinceIdSetKey now
  | .cityId     => u.handleCityIdSetKey now
  | .plateSet   => u.handlePlateSetKey now
  | .localPhone => u.handleLocalPhoneKey now
  | .generic    => u.handleGenericKey now

end Ui

end Svc.Lcd

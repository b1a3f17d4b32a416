import DvrModel.Svc.Lcd.Ui

open App (VehicleInputs)

namespace Svc.Lcd

-- The calls of `svc_lcd_update_*`. A string is given by its characters before the terminator, and the
-- pointers to texts may be null.
inductive Update
  | homeTime           (time : Time)
  | topStatus          (value : UInt8)
  | homeSpeed          (speedKmhX10 : UInt16)
  | driveTime          (time : Time)
  | cardId             (cardId : Option (List UInt8))
  | homeLocation       (location : Location)
  | textMessage        (flag textType : UInt8) (utf8Text : Option (Nat → UInt8)) (textLen : UInt16)
  | overtimeDriveCount (count : UInt16)
  | totalMileage       (odoKm : UInt32) (odoRemM : UInt16)

-- The characters before the terminator.
def TextMsg.string (m : TextMsg) : List UInt8 :=
  (Store.read m.text 0 (textMsgMaxLen.toNat + 1)).takeWhile (· != 0)

-- The marks of `lcd_render_vehicle_status_ui`, in the order in which they are drawn. Among the bits, the
-- first two are the ignition and the one with the index `i + 1` is the switched input `i`.
def vehicleMarks (io : VehicleInputs) (page : UInt8) : List Bool :=
  if page = 0 then
    [0, 1, 3, 4, 5, 2].map mark
  else if page = 1 then
    true :: [6, 7, 8, 9].map mark ++ [!mark 11]
  else
    [!mark 10]
where
  mark (i : Nat) : Bool := io.bits.getD i false

-- The data that the render function of a page reads, apart from constants. Pages without an entry of
-- their own read no variables but their selection.
inductive Content
  | home       (topStatusValue : UInt8) (speedKmhX10 : UInt16) (time driveTime : Time) (cardId : CardId)
  | homeSub    (topStatusValue : UInt8) (location : Location)
  | fatigue    (overtimeDriveCount : UInt16)
  | location   (topStatusValue : UInt8) (speedKmhX10 : UInt16)
  | mileage    (totalMileageKm : UInt32) (totalMileageRemM : UInt16)
  | driverInfo (cardId : CardId)
  | vehicle    (marks : List Bool)
  | textNormal (shown : Option (List UInt8 × UInt16))
  | vin        (editor : Picker .vin)
  | provinceId (editor : Picker .provinceId)
  | cityId     (editor : Picker .cityId)
  | plateSet   (editor : PlateEditor)
  | localPhone (editor : PhoneEditor)
  | none

structure View where
  page     : Page
  selected : UInt8
  content  : Content

namespace Ui

-- What `lcd_render_current_page` shows, with the inputs that `svc_vehicle_io_get_state` returns.
def view (u : Ui) (io : VehicleInputs) : View where
  page     := u.currentPageId
  selected := u.pageSelected u.currentPageId
  content  :=
    match u.currentPageId with
    | .home                               =>
      if u.homeSubpage = 0 then
        .home u.home.topStatusValue u.home.speedKmhX10 u.home.time u.home.driveTime u.home.cardId
      else
        .homeSub u.home.topStatusValue u.home.location
    | .driveRecordFatigue                 => .fatigue u.overtimeDriveCount
    | .driveRecordLocation                => .location u.home.topStatusValue u.home.speedKmhX10
    | .driveRecordMileage                 => .mileage u.totalMileageKm u.totalMileageRemM
    | .driveRecordDriverInfo              => .driverInfo u.home.cardId
    | .deviceStatusVehicle                =>
      .vehicle (vehicleMarks io (u.pageSelected .deviceStatusVehicle))
    | .driveRecordInfoCenterTextNormal    =>
      .textNormal (if u.textMsg.isShown then some (u.textMsg.string, u.textMsg.pageIndex) else none)
    | .systemSettingVehicleInfoVin        => .vin u.vin
    | .systemSettingVehicleInfoProvinceId => .provinceId u.provinceId
    | .systemSettingVehicleInfoCityId     => .cityId u.cityId
    | .systemSettingVehicleInfoPlateSet   => .plateSet u.plate
    | .systemSettingHostParamLocalPhone   => .localPhone u.phone
    | _                                   => .none

-- What `lcd_render_current_page` leaves behind.
def render (u : Ui) : Ui :=
  if u.currentPageId = .driveRecordInfoCenterTextNormal then
    { u with textMsg := u.textMsg.render }
  else
    u

def homeUiSetData (u : Ui) (speedKmhX10 : UInt16) (time driveTime : Time) (cardId : List UInt8) : Ui :=
  let changed :=
    u.home.speedKmhX10 ≠ speedKmhX10 ∨ u.home.time ≠ time ∨ u.home.driveTime ≠ driveTime ∨
    u.home.cardId.val ≠ cardId.take 20
  let cardId := if u.home.cardId.val ≠ cardId.take 20 then .ofString cardId else u.home.cardId
  { u with
    home       := { u.home with speedKmhX10, time, driveTime, cardId }
    needRedraw := u.needRedraw || (changed && !u.menuMode) }

def updateHomeTime (u : Ui) (time : Time) : Ui :=
  u.homeUiSetData u.home.speedKmhX10 time u.home.driveTime u.home.cardId

def updateTopStatus (u : Ui) (value : UInt8) : Ui :=
  if u.home.topStatusValue ≠ value then
    { u with
      home       := { u.home with topStatusValue := value }
      needRedraw := u.needRedraw || !u.menuMode }
  else
    u

def updateHomeSpeed (u : Ui) (speedKmhX10 : UInt16) : Ui :=
  u.homeUiSetData speedKmhX10 u.home.time u.home.driveTime u.home.cardId

def updateDriveTime (u : Ui) (time : Time) : Ui :=
  u.homeUiSetData u.home.speedKmhX10 u.home.time time u.home.cardId

def updateCardId (u : Ui) : Option (List UInt8) → Ui
  | none        => u
  | some cardId => u.homeUiSetData u.home.speedKmhX10 u.home.time u.home.driveTime cardId

def updateHomeLocation (u : Ui) (location : Location) : Ui :=
  { u with
    home       := { u.home with location }
    needRedraw := u.needRedraw || (u.home.location ≠ location && u.currentPageId = .home) }

-- The part of the state that a text message concerns.
def display (u : Ui) : Display where
  textMsg      := u.textMsg
  onTextNormal := u.currentPageId = .driveRecordInfoCenterTextNormal
  needRedraw   := u.needRedraw

def updateTextMessage (u : Ui) (flag textType : UInt8) (utf8Text : Option (Nat → UInt8))
    (textLen : UInt16) : Ui :=
  match utf8Text with
  | none          => u
  | some utf8Text =>
    let d := u.display.updateTextMessage flag textType utf8Text textLen
    { u with textMsg := d.textMsg, needRedraw := d.needRedraw }

def updateOvertimeDriveCount (u : Ui) (count : UInt16) : Ui :=
  if u.overtimeDriveCount ≠ count then
    { u with
      overtimeDriveCount := count
      needRedraw         := u.needRedraw || u.currentPageId = .driveRecordFatigue }
  else
    u

def updateTotalMileage (u : Ui) (odoKm : UInt32) (odoRemM : UInt16) : Ui :=
  if u.totalMileageKm ≠ odoKm ∨ u.totalMileageRemM ≠ odoRemM then
    { u with
      totalMileageKm   := odoKm
      totalMileageRemM := odoRemM
      needRedraw       := u.needRedraw || u.currentPageId = .driveRecordMileage }
  else
    u

def update (u : Ui) : Update → Ui
  | .homeTime time                                  => u.updateHomeTime time
  | .topStatus value                                => u.updateTopStatus value
  | .homeSpeed speedKmhX10                          => u.updateHomeSpeed speedKmhX10
  | .driveTime time                                 => u.updateDriveTime time
  | .cardId cardId                                  => u.updateCardId cardId
  | .homeLocation location                          => u.updateHomeLocation location
  | .textMessage flag textType utf8Text textLen     =>
    u.updateTextMessage flag textType utf8Text textLen
  | .overtimeDriveCount count                       => u.updateOvertimeDriveCount count
  | .totalMileage odoKm odoRemM                     => u.updateTotalMileage odoKm odoRemM

end Ui

end Svc.Lcd

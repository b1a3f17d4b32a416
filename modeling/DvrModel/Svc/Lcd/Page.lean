namespace Svc.Lcd

-- `lcd_page_id_t`, with the number of pages as its last value.
inductive Page
  | home
  | mainMenu
  | driveRecordMenu
  | deviceStatusMenu
  | systemSettingMenu
  | driveRecordFatigue
  | driveRecordLocation
  | driveRecordMileage
  | driveRecordDriverInfo
  | driveRecordVehicleInfo
  | driveRecordLoadStatus
  | driveRecordLoadStatusOk
  | driveRecordExport
  | driveRecordInfoCenter
  | driveRecordInfoCenterText
  | driveRecordInfoCenterBroadcast
  | driveRecordInfoCenterEventReport
  | driveRecordInfoCenterEwaybill
  | driveRecordInfoCenterTextDispatch
  | driveRecordInfoCenterTextNormal
  | driveRecordInfoCenterTextFault
  | driveRecordInfoCenterTextEmergency
  | driveRecordVin
  | deviceStatusVersion
  | deviceStatusGfrs
  | deviceStatusSelfTest
  | deviceStatusLocationModule
  | deviceStatusVehicle
  | deviceStatusStorage
  | deviceStatusAv
  | deviceStatusSpeed
  | deviceStatusDriverMonitor
  | systemSettingKeyVolume
  | commonConfigOk
  | systemSettingBrightness
  | systemSettingBacklightTime
  | systemSettingBrightnessLevel
  | systemSettingVehicleInfo
  | systemSettingVehicleInfoVin
  | systemSettingVehicleInfoPlateSet
  | systemSettingVehicleInfoPlateColor
  | systemSettingVehicleInfoPlateClass
  | systemSettingVehicleInfoProvinceId
  | systemSettingVehicleInfoCityId
  | systemSettingHostParam
  | systemSettingHostParamLocalPhone
  | systemSettingHostParamSosPhone
  | systemSettingHostParamServer1
  | systemSettingHostParamServer2
  | systemSettingInitMileage
  | systemSettingRegister
  | systemSettingUnregister
  | systemSettingRecVer
  | systemSettingComponentVer
  | max
  deriving DecidableEq

inductive PageKind
  | view
  | list
  | actionResult
  deriving DecidableEq

-- The functions that a page may have for its confirmation.
inductive Confirm
  | loadStatus
  | keyVolume
  | backlightTime
  | brightnessLevel
  | vehiclePlateColor
  | vehiclePlateClass
  deriving DecidableEq

-- `lcd_page_node_t`, without its own identifier and without what only concerns the drawing.
structure PageNode where
  parentId         : Page
  kind             : PageKind := .view
  children         : List Page := []
  childCount       : UInt8 := 0
  selectCount      : UInt8 := 0
  onConfirm        : Option Confirm := none
  autoReturnMs     : UInt32 := 0
  autoReturnTarget : Page := .max

namespace Page

def mainMenuChildren : List Page :=
  [driveRecordMenu, deviceStatusMenu, systemSettingMenu]

def driveRecordChildren : List Page :=
  [driveRecordFatigue, driveRecordLocation, driveRecordMileage, driveRecordDriverInfo,
    driveRecordVehicleInfo, driveRecordLoadStatus, driveRecordExport, driveRecordInfoCenter,
    driveRecordVin]

def deviceStatusChildren : List Page :=
  [deviceStatusVersion, deviceStatusGfrs, deviceStatusSelfTest, deviceStatusLocationModule,
    deviceStatusVehicle, deviceStatusStorage, deviceStatusAv, deviceStatusSpeed,
    deviceStatusDriverMonitor]

def infoCenterChildren : List Page :=
  [driveRecordInfoCenterText, driveRecordInfoCenterBroadcast, driveRecordInfoCenterEventReport,
    driveRecordInfoCenterEwaybill]

def infoCenterTextChildren : List Page :=
  [driveRecordInfoCenterTextDispatch, driveRecordInfoCenterTextNormal,
    driveRecordInfoCenterTextFault, driveRecordInfoCenterTextEmergency]

def systemSettingChildren : List Page :=
  [systemSettingKeyVolume, systemSettingBrightness, systemSettingVehicleInfo, systemSettingHostParam,
    systemSettingInitMileage, systemSettingRegister, systemSettingUnregister, systemSettingRecVer,
    systemSettingComponentVer]

def brightnessSettingChildren : List Page :=
  [systemSettingBacklightTime, systemSettingBrightnessLevel]

def vehicleInfoChildren : List Page :=
  [systemSettingVehicleInfoVin, systemSettingVehicleInfoPlateSet, systemSettingVehicleInfoPlateColor,
    systemSettingVehicleInfoPlateClass, systemSettingVehicleInfoProvinceId,
    systemSettingVehicleInfoCityId]

def hostParamChildren : List Page :=
  [systemSettingHostParamLocalPhone, systemSettingHostParamSosPhone, systemSettingHostParamServer1,
    systemSettingHostParamServer2]

-- `g_lcd_pages`, as `lcd_get_page_node` looks it up.
def getPageNode : Page → Option PageNode
  | home                               => some { parentId := max }
  | mainMenu                           => some {
      parentId := home, kind := .list, children := mainMenuChildren, childCount := 3, selectCount := 3 }
  | driveRecordMenu                    => some {
      parentId := mainMenu, kind := .list, children := driveRecordChildren
      childCount := 9, selectCount := 9 }
  | deviceStatusMenu                   => some {
      parentId := mainMenu, kind := .list, children := deviceStatusChildren
      childCount := 9, selectCount := 9 }
  | systemSettingMenu                  => some {
      parentId := mainMenu, kind := .list, children := systemSettingChildren
      childCount := 9, selectCount := 9 }
  | driveRecordFatigue                 => some { parentId := driveRecordMenu }
  | driveRecordLocation                => some { parentId := driveRecordMenu }
  | driveRecordMileage                 => some { parentId := driveRecordMenu }
  | driveRecordDriverInfo              => some { parentId := driveRecordMenu }
  | driveRecordVehicleInfo             => some { parentId := driveRecordMenu }
  | driveRecordLoadStatus              => some {
      parentId := driveRecordMenu, kind := .list, selectCount := 3, onConfirm := some .loadStatus }
  | driveRecordLoadStatusOk            => some {
      parentId := driveRecordLoadStatus, kind := .actionResult, autoReturnMs := 3000
      autoReturnTarget := driveRecordLoadStatus }
  | driveRecordExport                  => some { parentId := driveRecordMenu }
  | driveRecordInfoCenter              => some {
      parentId := driveRecordMenu, kind := .list, children := infoCenterChildren
      childCount := 4, selectCount := 4 }
  | driveRecordInfoCenterText          => some {
      parentId := driveRecordInfoCenter, kind := .list, children := infoCenterTextChildren
      childCount := 4, selectCount := 4 }
  | driveRecordInfoCenterBroadcast     => some { parentId := driveRecordInfoCenter }
  | driveRecordInfoCenterEventReport   => some { parentId := driveRecordInfoCenter }
  | driveRecordInfoCenterEwaybill      => some { parentId := driveRecordInfoCenter }
  | driveRecordInfoCenterTextDispatch  => some { parentId := driveRecordInfoCenterText }
  | driveRecordInfoCenterTextNormal    => some { parentId := driveRecordInfoCenterText }
  | driveRecordInfoCenterTextFault     => some { parentId := driveRecordInfoCenterText }
  | driveRecordInfoCenterTextEmergency => some { parentId := driveRecordInfoCenterText }
  | driveRecordVin                     => some { parentId := driveRecordMenu }
  | deviceStatusVersion                => some { parentId := deviceStatusMenu }
  | deviceStatusGfrs                   => some { parentId := deviceStatusMenu }
  | deviceStatusSelfTest               => some { parentId := deviceStatusMenu }
  | deviceStatusLocationModule         => some { parentId := deviceStatusMenu }
  | deviceStatusVehicle                => some {
      parentId := deviceStatusMenu, kind := .list, selectCount := 3 }
  | deviceStatusStorage                => some { parentId := deviceStatusMenu }
  | deviceStatusAv                     => some { parentId := deviceStatusMenu }
  | deviceStatusSpeed                  => some { parentId := deviceStatusMenu }
  | deviceStatusDriverMonitor          => some { parentId := deviceStatusMenu }
  | systemSettingKeyVolume             => some {
      parentId := systemSettingMenu, kind := .list, selectCount := 2, onConfirm := some .keyVolume }
  | commonConfigOk                     => some { parentId := max, kind := .actionResult }
  | systemSettingBrightness            => some {
      parentId := systemSettingMenu, kind := .list, children := brightnessSettingChildren
      childCount := 2, selectCount := 2 }
  | systemSettingBacklightTime         => some {
      parentId := systemSettingBrightness, kind := .list, selectCount := 6
      onConfirm := some .backlightTime }
  | systemSettingBrightnessLevel       => some {
      parentId := systemSettingBrightness, kind := .list, selectCount := 5
      onConfirm := some .brightnessLevel }
  | systemSettingVehicleInfo           => some {
      parentId := systemSettingMenu, kind := .list, children := vehicleInfoChildren
      childCount := 6, selectCount := 6 }
  | systemSettingVehicleInfoVin        => some { parentId := systemSettingVehicleInfo }
  | systemSettingVehicleInfoPlateSet   => some { parentId := systemSettingVehicleInfo }
  | systemSettingVehicleInfoPlateColor => some {
      parentId := systemSettingVehicleInfo, kind := .list, selectCount := 5
      onConfirm := some .vehiclePlateColor }
  | systemSettingVehicleInfoPlateClass => some {
      parentId := systemSettingVehicleInfo, kind := .list, selectCount := 5
      onConfirm := some .vehiclePlateClass }
  | systemSettingVehicleInfoProvinceId => some { parentId := systemSettingVehicleInfo }
  | systemSettingVehicleInfoCityId     => some { parentId := systemSettingVehicleInfo }
  | systemSettingHostParam             => some {
      parentId := systemSettingMenu, kind := .list, children := hostParamChildren
      childCount := 4, selectCount := 4 }
  | systemSettingHostParamLocalPhone   => some { parentId := systemSettingHostParam }
  | systemSettingHostParamSosPhone     => some { parentId := systemSettingHostParam }
  | systemSettingHostParamServer1      => some { parentId := systemSettingHostParam }
  | systemSettingHostParamServer2      => some { parentId := systemSettingHostParam }
  | systemSettingInitMileage           => some { parentId := systemSettingMenu }
  | systemSettingRegister              => some { parentId := systemSettingMenu }
  | systemSettingUnregister            => some { parentId := systemSettingMenu }
  | systemSettingRecVer                => some { parentId := systemSettingMenu }
  | systemSettingComponentVer          => some { parentId := systemSettingMenu }
  | max                                => none

-- `lcd_page_get_select_count`
def selectCount (p : Page) : UInt8 :=
  match p.getPageNode with
  | none      => 0
  | some node => if node.selectCount ≠ 0 then node.selectCount else node.childCount

end Page

end Svc.Lcd

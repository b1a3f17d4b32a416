import Mathlib.Data.List.Basic

-- The constants of `app_config.h` that the modelled services read.
namespace App.Config

-- `RT_TICK_PER_SECOND` of `rtconfig.h`.
def tickPerSecond : UInt64 := 1000

def pwrMainPresentThresholdMv      : UInt32 := 18000
def pwrSupercapReadyThresholdMv    : UInt32 := 2100
def pwrSupercapHoldThresholdMv     : UInt32 := 2100
def pwrSupercapShutdownThresholdMv : UInt32 := 1800

def pwrMainPresentConfirmMs   : UInt32 := 1000
def pwrMainLossConfirmMs      : UInt32 := 1000
def pwrSupercapReadyConfirmMs : UInt32 := 3000
def pwrSupercapLowConfirmMs   : UInt32 := 2000

def pwrHoldPrepareTimeoutMs : UInt32 := 10000
def pwrShutdownInProgressMs : UInt32 := 3000

-- `APP_PWR_SUPERCAP_MGMT_ENABLE` selects code with `#if`. The model keeps both branches and lets this
-- constant decide between them.
def pwrSupercapMgmtEnable : Bool := false

def pwrFinalSocCutDelayMs  : UInt32 := 1000
def pwrFinalHoldCutDelayMs : UInt32 := 1500
def cam12vEnableDelayMs    : UInt32 := 5000

def powerTaskPeriodMs : UInt32 := 100

-- `APP_SOFTWARE_VERSION`, which is "1.0.0".
def softwareVersion : List UInt8 :=
  ['1', '.', '0', '.', '0'].map (·.toUInt8)

def adminRegionCode : UInt32 := 429006

end App.Config

namespace App

-- The part of `app_adc_snapshot_t` that the power service reads.
structure AdcSnapshot where
  estBat24Mv  : UInt32
  estSuperCMv : UInt32

-- The ignition inputs of `app_vehicle_io_state_t`.
structure VehicleIoState where
  wkAcc : UInt8
  wkOn  : UInt8

-- With the switched inputs KL1 to KL10.
structure VehicleInputs extends VehicleIoState where
  swKl : Fin 10 → UInt8

-- All of them as `0` or `1`, the ignition first.
def VehicleInputs.bits (io : VehicleInputs) : List Bool :=
  [io.wkAcc != 0, io.wkOn != 0] ++ List.ofFn (io.swKl · != 0)

end App

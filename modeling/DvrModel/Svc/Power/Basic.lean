import DvrModel.App.Config
import DvrModel.Lib.Run

open App App.Config

namespace Svc.Power

inductive Stage
  | unknown
  | mainOff
  | standby
  | accActive
  | onActive
  | supercapHold
  | shutdownPending
  | shutdownInProgress
deriving DecidableEq, Repr

-- The control outputs, named after what they switch.
inductive Pin
  | pwren24v
  | pwrenSoc
  | supercapChrg
  | pwrHold
  | cam12vEn
deriving DecidableEq, Repr

-- One call of `gpio_write_pin`.
structure GpioWrite where
  pin   : Pin
  level : Bool
deriving DecidableEq, Repr

def gpioWritePin (pins : Pin → Bool) (w : GpioWrite) : Pin → Bool :=
  fun p => if p = w.pin then w.level else pins p

-- The static variables of `svc_power.c`, the levels of the control pins and the LCD backlight.
structure State where
  stage                     : Stage
  supercapHoldEnterTick     : UInt32
  shutdownPendingEnterTick  : UInt32
  powerLossLatched          : Bool
  shutdownPrepareDone       : Bool
  supercapReady             : Bool
  prevMainPresent           : Bool
  mainPresentConfirmCount   : UInt8
  mainLossConfirmCount      : UInt8
  supercapReadyConfirmCount : UInt8
  supercapLowConfirmCount   : UInt8
  finalSocCutDone           : Bool
  finalHoldCutDone          : Bool
  cam12vEnableStartTick     : UInt32
  cam12vEnabled             : Bool
  pins                      : Pin → Bool
  backlight                 : Bool

-- `svc_power_init` at tick `now`. The backlight is not its business, so its level is a parameter.
def init (now : UInt32) (backlight : Bool) : State where
  stage                     := .unknown
  supercapHoldEnterTick     := 0
  shutdownPendingEnterTick  := 0
  powerLossLatched          := false
  shutdownPrepareDone       := false
  supercapReady             := false
  prevMainPresent           := false
  mainPresentConfirmCount   := 0
  mainLossConfirmCount      := 0
  supercapReadyConfirmCount := 0
  supercapLowConfirmCount   := 0
  finalSocCutDone           := false
  finalHoldCutDone          := false
  cam12vEnableStartTick     := now
  cam12vEnabled             := false
  pins                      := initCtrlPins
  backlight                 := backlight
where
  initCtrlPins : Pin → Bool
    | .pwren24v     => true
    | .pwrenSoc     => true
    | .supercapChrg => false
    | .pwrHold      => true
    | .cam12vEn     => false

def msToConfirmCount (timeMs : UInt32) : UInt8 :=
  let count := (timeMs + powerTaskPeriodMs - 1) / powerTaskPeriodMs
  let count := if count = 0 then 1 else count
  let count := if count > 255 then 255 else count
  count.toUInt8

def updateConfirmCounter (condition : Bool) (counter : UInt8) : UInt8 :=
  if condition then
    if counter < 255 then counter + 1 else counter
  else
    0

def isMainPresentRaw (adc : AdcSnapshot) : Bool :=
  adc.estBat24Mv ≥ pwrMainPresentThresholdMv

def isSupercapReadyRaw (adc : AdcSnapshot) : Bool :=
  adc.estSuperCMv ≥ pwrSupercapReadyThresholdMv

def isSupercapAvailableRaw (adc : AdcSnapshot) : Bool :=
  adc.estSuperCMv ≥ pwrSupercapHoldThresholdMv

def isSupercapLowRaw (adc : AdcSnapshot) : Bool :=
  adc.estSuperCMv < pwrSupercapShutdownThresholdMv

def isShutdownFlowStage : Stage → Bool
  | .supercapHold | .shutdownPending | .shutdownInProgress => true
  | _                                                      => false

-- The argument `now` is the value that `rt_tick_get` returns in the call.
def ticksToMs (startTick now : UInt32) : UInt32 :=
  if startTick = 0 then
    0
  else
    let deltaTick := now - startTick
    (deltaTick.toUInt64 * 1000 / tickPerSecond).toUInt32

def State.getHoldElapsedMs (s : State) (now : UInt32) : UInt32 :=
  ticksToMs s.supercapHoldEnterTick now

def State.getShutdownPendingElapsedMs (s : State) (now : UInt32) : UInt32 :=
  ticksToMs s.shutdownPendingEnterTick now

def evalNormalStage (vehicle : VehicleIoState) : Stage :=
  if vehicle.wkOn ≠ 0 then
    .onActive
  else if vehicle.wkAcc ≠ 0 then
    .accActive
  else
    .shutdownPending

-- The first part of `svc_power_eval_stage`, which updates all the debounce counters.
def State.sample (s : State) (adc : AdcSnapshot) : State :=
  let s := { s with
    mainPresentConfirmCount := updateConfirmCounter (isMainPresentRaw adc) s.mainPresentConfirmCount
    mainLossConfirmCount    := updateConfirmCounter (!isMainPresentRaw adc) s.mainLossConfirmCount }
  if pwrSupercapMgmtEnable then
    { s with
      supercapReadyConfirmCount :=
        updateConfirmCounter (isSupercapReadyRaw adc) s.supercapReadyConfirmCount
      supercapLowConfirmCount :=
        updateConfirmCounter (isSupercapLowRaw adc) s.supercapLowConfirmCount }
  else
    { s with supercapReadyConfirmCount := 0, supercapLowConfirmCount := 0, supercapReady := false }

-- The debounced conditions that `svc_power_eval_stage` derives from freshly sampled counters.
def State.mainPresent (s : State) : Bool :=
  s.mainPresentConfirmCount ≥ msToConfirmCount pwrMainPresentConfirmMs

def State.mainLoss (s : State) : Bool :=
  s.mainLossConfirmCount ≥ msToConfirmCount pwrMainLossConfirmMs

def State.mainFallingEdge (s : State) : Bool :=
  s.prevMainPresent && s.mainLoss

def State.mainRisingEdge (s : State) : Bool :=
  !s.prevMainPresent && s.mainPresent

def State.supercapReadyConfirmed (s : State) : Bool :=
  s.supercapReadyConfirmCount ≥ msToConfirmCount pwrSupercapReadyConfirmMs

def State.supercapLowConfirmed (s : State) : Bool :=
  s.supercapLowConfirmCount ≥ msToConfirmCount pwrSupercapLowConfirmMs

-- Branch 1 of `svc_power_eval_stage`. The outcome `none` is the call of `rt_hw_cpu_reset`, which never
-- returns.
def State.evalMainPresent (s : State) (vehicle : VehicleIoState) (now : UInt32) :
    Option (State × Stage) :=
  if s.mainRisingEdge && isShutdownFlowStage s.stage then
    none
  else
    let s := { s with
      powerLossLatched := false
      supercapReady    :=
        if pwrSupercapMgmtEnable then s.supercapReady || s.supercapReadyConfirmed else false
      prevMainPresent  := true }
    if evalNormalStage vehicle = .shutdownPending ∧ s.stage = .shutdownPending ∧
        s.getShutdownPendingElapsedMs now ≥ pwrShutdownInProgressMs then
      some (s, .shutdownInProgress)
    else
      some (s, evalNormalStage vehicle)

-- Branch 4 of `svc_power_eval_stage`: the loss of main power is latched.
def State.evalLatched (s : State) (now : UInt32) : Stage :=
  if s.stage = .shutdownPending ∨ s.stage = .shutdownInProgress then
    if s.getShutdownPendingElapsedMs now ≥ pwrShutdownInProgressMs then
      .shutdownInProgress
    else
      .shutdownPending
  else if s.supercapLowConfirmed ∨ s.getHoldElapsedMs now ≥ pwrHoldPrepareTimeoutMs then
    .shutdownPending
  else if pwrSupercapMgmtEnable then
    .supercapHold
  else
    .shutdownPending

-- Branches 2 to 5 of `svc_power_eval_stage`. The edge is computed before branch 2 clears
-- `g_prev_main_present`.
def State.evalMainAbsent (s : State) (adc : AdcSnapshot) (now : UInt32) : State × Stage :=
  let mainFallingEdge := s.mainFallingEdge
  let supercapAvailable := pwrSupercapMgmtEnable && isSupercapAvailableRaw adc
  let s := if s.mainLoss then { s with prevMainPresent := false } else s
  if mainFallingEdge && !s.powerLossLatched then
    let s := { s with powerLossLatched := true }
    if pwrSupercapMgmtEnable && s.supercapReady && supercapAvailable then
      (s, .supercapHold)
    else
      (s, .shutdownPending)
  else if s.powerLossLatched then
    (s, s.evalLatched now)
  else
    (s, .mainOff)

def evalStage (s : State) (adc : AdcSnapshot) (vehicle : VehicleIoState) (now : UInt32) :
    Option (State × Stage) :=
  let s := s.sample adc
  if s.mainPresent then
    s.evalMainPresent vehicle now
  else
    some (s.evalMainAbsent adc now)

-- The readings of `rt_tick_get` in one iteration of the loop, in program order. The readings that only
-- feed a log line are left out.
structure Readings where
  eval    : UInt32
  hold    : UInt32
  pending : UInt32
  cut     : UInt32
  cam     : UInt32

def Readings.toList (t : Readings) : List UInt32 :=
  [t.eval, t.hold, t.pending, t.cut, t.cam]

def handleStageTransition (s : State) (newStage : Stage) (ticks : Readings) : State :=
  if newStage = s.stage then
    s
  else
    let s :=
      if newStage = .supercapHold then
        { s with
          supercapHoldEnterTick    := ticks.hold
          shutdownPendingEnterTick := 0
          shutdownPrepareDone      := false
          finalSocCutDone          := false
          finalHoldCutDone         := false
          backlight                := false }
      else if newStage = .shutdownPending ∧ s.shutdownPrepareDone = false then
        { s with
          supercapHoldEnterTick    :=
            if s.supercapHoldEnterTick = 0 then ticks.hold else s.supercapHoldEnterTick
          shutdownPendingEnterTick := ticks.pending
          shutdownPrepareDone      := true
          finalSocCutDone          := false
          finalHoldCutDone         := false
          backlight                := false }
      else if newStage = .standby ∨ newStage = .accActive ∨ newStage = .onActive ∨
          newStage = .mainOff then
        { s with
          supercapHoldEnterTick    := 0
          shutdownPendingEnterTick := 0
          shutdownPrepareDone      := false
          finalSocCutDone          := false
          finalHoldCutDone         := false }
      else
        -- Entering `SHUTDOWN_IN_PROGRESS`, or `SHUTDOWN_PENDING` once more, only moves the stage.
        s
    { s with stage := newStage }

def cutSocOutputs : List GpioWrite :=
  [⟨.pwrenSoc, false⟩, ⟨.pwren24v, false⟩] ++
    if pwrSupercapMgmtEnable then [⟨.supercapChrg, false⟩] else []

def releaseMcuHold : List GpioWrite :=
  [⟨.pwrHold, false⟩]

def handleFinalPowerCut (s : State) (now : UInt32) : State × List GpioWrite :=
  if s.stage ≠ .shutdownInProgress then
    (s, [])
  else
    let pendingMs := s.getShutdownPendingElapsedMs now
    let soc :=
      if s.finalSocCutDone = false ∧ pendingMs ≥ pwrFinalSocCutDelayMs then
        ({ s with finalSocCutDone := true }, cutSocOutputs)
      else
        (s, [])
    let hold :=
      if soc.1.finalHoldCutDone = false ∧ pendingMs ≥ pwrFinalHoldCutDelayMs then
        ({ soc.1 with finalHoldCutDone := true }, releaseMcuHold)
      else
        (soc.1, [])
    (hold.1, soc.2 ++ hold.2)

def handleCam12vEnable (s : State) (now : UInt32) : State × List GpioWrite :=
  if s.cam12vEnabled then
    (s, [])
  else if ticksToMs s.cam12vEnableStartTick now ≥ cam12vEnableDelayMs then
    ({ s with cam12vEnabled := true }, [⟨.cam12vEn, true⟩])
  else
    (s, [])

-- The body of the loop in `svc_power_thread_entry`, with the GPIO writes it makes.
def loopBody (s : State) (adc : AdcSnapshot) (vehicle : VehicleIoState) (ticks : Readings) :
    Option (State × List GpioWrite) :=
  match evalStage s adc vehicle ticks.eval with
  | none            => none
  | some (s, stage) =>
    let cut := handleFinalPowerCut (handleStageTransition s stage ticks) ticks.cut
    let cam := handleCam12vEnable cut.1 ticks.cam
    let writes := cut.2 ++ cam.2
    some ({ cam.1 with pins := writes.foldl gpioWritePin cam.1.pins }, writes)

-- What one iteration of the loop gets from its environment.
structure Input where
  adc     : AdcSnapshot
  vehicle : VehicleIoState
  ticks   : Readings

def iteration (s : State) (i : Input) : Option (State × List GpioWrite) :=
  loopBody s i.adc i.vehicle i.ticks

abbrev Iteration := Lts.Edge State (Input × List GpioWrite)

-- The runs of the power thread: `svc_power_init` at tick `now` and then iterations of the loop. Nothing
-- is required of the readings of the tick counter, which may have wrapped any number of times.
abbrev Runs (now : UInt32) (backlight : Bool) : List Iteration → State → Prop :=
  Lts.Run (Lts.ofStep iteration) (init now backlight)

-- The readings of the tick counter in a run. A reading that an iteration does not make can be any.
def readings (now : UInt32) (es : List Iteration) : List UInt32 :=
  now :: es.flatMap (·.label.1.ticks.toList)

-- As long as the tick counter does not wrap, its readings never decrease.
def NonDecreasing (now : UInt32) (es : List Iteration) : Prop :=
  (readings now es).Pairwise (· ≤ ·)

instance {now : UInt32} {es : List Iteration} : Decidable (NonDecreasing now es) :=
  inferInstanceAs <| Decidable (List.Pairwise ..)

end Svc.Power

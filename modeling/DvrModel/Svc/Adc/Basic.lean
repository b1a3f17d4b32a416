import DvrModel.Lib.Mealy

namespace Svc.Adc

-- The keys of `adc_key_t`. Its `ADC_KEY_NONE` is `none`.
inductive Key
  | s1
  | s2
  | s3
  | s4
deriving DecidableEq, Repr

-- The static variables of `svc_adc.c` that the keys concern. The raw value is a member of
-- `g_adc_snapshot`.
structure State where
  rawKey       : UInt32
  keyLast      : Option Key
  keyCandidate : Option Key
  keyConfirm   : UInt8
  s1Event      : Bool
  s2Event      : Bool
  s3Event      : Bool
  s4Event      : Bool
deriving DecidableEq, Repr

-- `svc_adc_init`.
def State.init : State where
  rawKey       := 0
  keyLast      := none
  keyCandidate := none
  keyConfirm   := 0
  s1Event      := false
  s2Event      := false
  s3Event      := false
  s4Event      := false

def decodeKey (raw : UInt32) : Option Key :=
  if raw ≤ 200 then
    some .s1
  else if raw ≥ 17000 ∧ raw ≤ 20000 then
    some .s2
  else if raw ≥ 28000 ∧ raw ≤ 31000 then
    some .s3
  else if raw ≥ 46000 ∧ raw ≤ 50000 then
    some .s4
  else
    none

namespace State

def setEvent (s : State) : Option Key → State
  | some .s1 => { s with s1Event := true }
  | some .s2 => { s with s2Event := true }
  | some .s3 => { s with s3Event := true }
  | some .s4 => { s with s4Event := true }
  | none     => s

def updateKeyEvents (s : State) : State :=
  let keyNow := decodeKey s.rawKey
  if keyNow = s.keyCandidate then
    let s := if s.keyConfirm < 2 then { s with keyConfirm := s.keyConfirm + 1 } else s
    if s.keyConfirm ≥ 1 ∧ keyNow ≠ s.keyLast then
      setEvent { s with keyLast := keyNow } keyNow
    else
      s
  else
    -- The early return of the source.
    { s with keyCandidate := keyNow, keyConfirm := 0 }

-- What `svc_adc_sample_update` does for the channel of the keys, when `raw` is read from it.
def sampleUpdate (s : State) (raw : UInt32) : State :=
  updateKeyEvents { s with rawKey := raw }

def isAnyKeyPressed (s : State) : Bool :=
  s.keyLast ≠ none

def consumeS1Event (s : State) : State × Bool :=
  ({ s with s1Event := false }, s.s1Event)

def consumeS2Event (s : State) : State × Bool :=
  ({ s with s2Event := false }, s.s2Event)

def consumeS3Event (s : State) : State × Bool :=
  ({ s with s3Event := false }, s.s3Event)

def consumeS4Event (s : State) : State × Bool :=
  ({ s with s4Event := false }, s.s4Event)

def consumeEvent (s : State) : Key → State × Bool
  | .s1 => s.consumeS1Event
  | .s2 => s.consumeS2Event
  | .s3 => s.consumeS3Event
  | .s4 => s.consumeS4Event

end State

-- A sample by the thread of the service or a call by one of its users.
inductive Action
  | sample (raw : UInt32)
  | consume (k : Key)
deriving DecidableEq, Repr

-- A call returns whether there was an event for its key.
def step (s : State) : Action → State × Option (Key × Bool)
  | .sample raw => (s.sampleUpdate raw, none)
  | .consume k  => ((s.consumeEvent k).1, some (k, (s.consumeEvent k).2))

end Svc.Adc

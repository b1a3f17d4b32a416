import DvrModel.Lcd.St7567

namespace Lcd

open St7567

variable {edge : Serial.Edge} {p : Port} {n : Nat} {byte c : UInt8} {bs buf : List UInt8} {d : Bool}
  {is is₁ is₂ : List Item} {t t₁ t₂ : Trace}

-- The writes of the driver that belong to the two lines.
def wire : Serial.Event → Pin × Bool
  | .clock level => (.sck, level)
  | .data level  => (.sda, level)

theorem and_0x80_ne_zero (byte : UInt8) : (byte &&& 0x80 != 0) = byte.toBitVec.msb := by
  have h : ∀ v : BitVec 8, (v &&& 0x80#8 != 0#8) = v.msb := by decide
  rw [Bool.eq_iff_iff, bne_iff_ne, ne_eq, ←UInt8.toBitVec_inj, ←h, bne_iff_ne]
  rfl

theorem spiWriteBits_eq :
    Drv.spiWriteBits n byte = (Serial.sendBits true <| Crc.bits n byte.toBitVec).map wire := by
  induction n generalizing byte
  case zero => rfl
  case succ n hi =>
    rw [Drv.spiWriteBits, hi, and_0x80_ne_zero]
    simp [Crc.bits, Serial.sendBits, wire, Drv.sckSet, Drv.sdaSet]

theorem spiWriteByte_eq : Drv.spiWriteByte byte = (Serial.send true byte.toBitVec).map wire := by
  rw [Drv.spiWriteByte, spiWriteBits_eq, Serial.send, List.map_append]
  rfl

namespace St7567.Port

-- Between two transfers the controller is not selected, the clock is high and no byte has been started.
structure Idle (p : Port) : Prop where
  rstb   : p.rstb = true
  csn    : p.csn = true
  serial : p.serial.Ready true

-- A selected port hands the bytes on that its receiver collects.
theorem feed_wire (edge : Serial.Edge) (hr : p.rstb = true) (hc : p.csn = false) (es : List Serial.Event) :
    Mealy.feed (step edge) p (es.map wire) =
      ({ p with serial := (Mealy.feed (Serial.Receiver.step edge) p.serial es).1 },
        (Mealy.feed (Serial.Receiver.step edge) p.serial es).2.map (.byte p.a0 <| .ofBitVec ·)) := by
  induction es generalizing p
  case nil => rfl
  case cons e es hi =>
    have hs : step edge p (wire e) = p.serialStep edge e := by cases e <;> simp [step, wire, hr, hc]
    rw [List.map_cons, Mealy.feed_cons, hs, hi (by exact hr) (by exact hc), Mealy.feed_cons]
    cases h : (p.serial.step edge e).2 <;> simp [serialStep, h]

theorem clock_step_sck {level : Bool} : (p.step edge (.sck, level)).1.serial.clock = level := by
  have hs (r : Serial.Receiver 8) : (r.step edge (.clock level)).1.clock = level := by
    rw [Serial.Receiver.step]
    split
    · rw [Serial.Receiver.sample_clock]
    · rfl
  rw [step]
  split
  · exact hs _
  · rfl

theorem clock_step_sda {level : Bool} :
    (p.step edge (.sda, level)).1.serial.clock = p.serial.clock := by
  rw [step]
  split <;> rfl

-- A port that is not selected is deaf to the two lines.
theorem feed_unselected (edge : Serial.Edge) (hc : p.csn = true) (es : List Serial.Event) :
    (Mealy.feed (step edge) p (es.map wire)).2 = [] ∧
    (Mealy.feed (step edge) p (es.map wire)).1.rstb = p.rstb ∧
    (Mealy.feed (step edge) p (es.map wire)).1.csn = true ∧
    (Mealy.feed (step edge) p (es.map wire)).1.serial.count = p.serial.count := by
  induction es generalizing p
  case nil => exact ⟨rfl, rfl, hc, rfl⟩
  case cons e es hi =>
    have hs : (step edge p (wire e)).2 = none ∧ (step edge p (wire e)).1.rstb = p.rstb ∧
        (step edge p (wire e)).1.csn = true ∧
        (step edge p (wire e)).1.serial.count = p.serial.count := by
      cases e <;> simp [step, wire, hc]
    have ⟨ho, hr, hc', hn⟩ := hs
    have ⟨ho', hr', hc'', hn'⟩ := hi hc'
    rw [List.map_cons, Mealy.feed_cons]
    exact ⟨by rw [ho, ho']; rfl, hr'.trans hr, hc'', hn'.trans hn⟩

end St7567.Port

-- What an idle port tells the controller about a trace, on whichever edge the port samples.
structure Sends (t : Trace) (is : List Item) : Prop where
  items (edge : Serial.Edge) (p : Port) : p.Idle → (Mealy.feed (Port.step edge) p t).2 = is
  idle  (edge : Serial.Edge) (p : Port) : p.Idle → (Mealy.feed (Port.step edge) p t).1.Idle
  dark  : ∀ w ∈ t, w.1 ≠ .backlight

theorem flatMap_spiWriteByte :
    bs.flatMap Drv.spiWriteByte = ((bs.map (·.toBitVec)).flatMap (Serial.send true)).map wire := by
  simp only [List.map_flatMap, List.flatMap_map, ←spiWriteByte_eq]

namespace Sends

theorem nil : Sends [] [] where
  items _ _ _ := rfl
  idle _ _ h  := h
  dark        := by simp

theorem append (h₁ : Sends t₁ is₁) (h₂ : Sends t₂ is₂) : Sends (t₁ ++ t₂) (is₁ ++ is₂) where
  items edge p h := by
    rw [Mealy.feed_append, h₁.items edge p h, h₂.items edge _ <| h₁.idle edge p h]
  idle edge p h  := by
    rw [Mealy.feed_append]
    exact h₂.idle edge _ <| h₁.idle edge p h
  dark w hw      := (List.mem_append.mp hw).elim (h₁.dark w) (h₂.dark w)

theorem flatMap {α : Type} {l : List α} {f : α → Trace} {g : α → List Item}
    (h : ∀ a ∈ l, Sends (f a) (g a)) : Sends (l.flatMap f) (l.flatMap g) := by
  induction l
  case nil => exact nil
  case cons a l hi =>
    simp only [List.flatMap_cons]
    exact append (h a List.mem_cons_self) <| hi fun a' ha => h a' <| List.mem_cons_of_mem _ ha

-- One selection of the chip.
theorem feed_transfer (edge : Serial.Edge) (h : p.Idle) (d : Bool) (bs : List UInt8) :
    Mealy.feed (Port.step edge) p
        (Drv.csnSet true ++ Drv.a0Set d ++ bs.flatMap Drv.spiWriteByte ++ Drv.csnSet false) =
      ({ p with a0 := d, serial := (Mealy.feed (Serial.Receiver.step edge) p.serial <|
        (bs.map (·.toBitVec)).flatMap (Serial.send true)).1 }, bs.map (.byte d)) := by
  have ho := (Serial.Receiver.feed_send_all (e := edge) (by decide) h.serial <| bs.map (·.toBitVec)).left
  have hw := Port.feed_wire (p := { p with csn := false, a0 := d }) edge h.rstb rfl <|
    (bs.map (·.toBitVec)).flatMap (Serial.send true)
  have hq : Mealy.feed (Port.step edge) p (Drv.csnSet true ++ Drv.a0Set d) =
      ({ p with csn := false, a0 := d }, []) := rfl
  rw [Mealy.feed_append, Mealy.feed_append, hq, flatMap_spiWriteByte, hw, ho]
  simp [Drv.csnSet, Mealy.feed_cons, Port.step, Function.comp_def, h.csn]

theorem transfer (d : Bool) (bs : List UInt8) : Sends
    (Drv.csnSet true ++ Drv.a0Set d ++ bs.flatMap Drv.spiWriteByte ++ Drv.csnSet false)
    (bs.map (.byte d)) where
  items edge p h := by rw [feed_transfer edge h]
  idle edge p h  := by
    rw [feed_transfer edge h]
    exact ⟨h.rstb, h.csn, (Serial.Receiver.feed_send_all (by decide) h.serial _).right⟩
  dark w hw      := by
    simp only [flatMap_spiWriteByte, Drv.csnSet, Drv.a0Set, List.mem_append, List.mem_singleton,
      List.mem_map] at hw
    rcases hw with ((rfl | rfl) | ⟨e, _, rfl⟩) | rfl
    case inl.inr => cases e <;> simp [wire]
    all_goals simp

theorem writeCmd : Sends (Drv.writeCmd c) [.byte false c] := by
  have h := transfer false [c]
  rwa [List.flatMap_singleton] at h

theorem writeDataBuf : Sends (Drv.writeDataBuf buf) (buf.map (.byte true)) :=
  transfer true buf

-- Without the selection of the chip a byte goes nowhere.
theorem spiWriteByte : Sends (Drv.spiWriteByte byte) [] where
  items edge p h := by
    rw [spiWriteByte_eq]
    exact (Port.feed_unselected edge h.csn _).left
  idle edge p h  := by
    rw [spiWriteByte_eq]
    have ⟨_, hr, hc, hn⟩ := Port.feed_unselected edge h.csn (Serial.send true byte.toBitVec)
    refine ⟨hr.trans h.rstb, hc, ?_, hn.trans h.serial.count⟩
    rw [Serial.send, List.map_append, Mealy.feed_append]
    exact Port.clock_step_sck
  dark w hw      := by
    rw [spiWriteByte_eq] at hw
    obtain ⟨e, _, rfl⟩ := List.mem_map.mp hw
    cases e <;> simp [wire]

end Sends

-- The driver's own functions reach the controller through two functions only.
inductive Transfer
  | cmd (cmd : UInt8)
  | dataBuf (buf : List UInt8)

namespace Transfer

def trace : Transfer → Trace
  | .cmd c       => Drv.writeCmd c
  | .dataBuf buf => Drv.writeDataBuf buf

-- The bytes of a transfer, each with the level of A0 it is meant for.
def items : Transfer → List Item
  | .cmd c       => [.byte false c]
  | .dataBuf buf => buf.map (.byte true)

theorem sends : (x : Transfer) → Sends x.trace x.items
  | .cmd _     => Sends.writeCmd
  | .dataBuf _ => Sends.writeDataBuf

end Transfer

-- However many transfers there are, the controller gets exactly their bytes, in their order and each with
-- its own A0, and it does not depend on the edge that it samples on.
theorem transfers_delivered (edge : Serial.Edge) (p : Port) (h : p.Idle) (xs : List Transfer) :
    (Mealy.feed (Port.step edge) p <| xs.flatMap Transfer.trace).2 = xs.flatMap Transfer.items ∧
    (Mealy.feed (Port.step edge) p <| xs.flatMap Transfer.trace).1.Idle :=
  have hs := Sends.flatMap fun x (_ : x ∈ xs) => x.sends
  ⟨hs.items edge p h, hs.idle edge p h⟩

theorem transfers_delivered_cmd_data :
    (Mealy.feed (Port.step .falling) ⟨true, true, true, ⟨true, false, 0x5A, 0⟩⟩ <|
      [Transfer.cmd 0xB3, .dataBuf [0x81, 0x01]].flatMap Transfer.trace).2 =
    [Transfer.cmd 0xB3, .dataBuf [0x81, 0x01]].flatMap Transfer.items :=
  (transfers_delivered .falling ⟨true, true, true, ⟨true, false, 0x5A, 0⟩⟩ ⟨rfl, rfl, rfl, rfl⟩
    [.cmd 0xB3, .dataBuf [0x81, 0x01]]).left

end Lcd

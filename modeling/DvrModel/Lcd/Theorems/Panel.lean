import DvrModel.Lcd.Theorems.Draw

-- What is seen on the panel.
namespace Lcd

open St7567

-- `LCD_ROWS`.
def rows : Nat := 64

-- A pixel for each column and each row, from the upper left corner on.
abbrev Picture := Fin cols → Fin rows → Bool

-- The page that holds a row.
def pageOf (y : Fin rows) : Fin pages :=
  ⟨y.val / 8, Nat.div_lt_of_lt_mul y.isLt⟩

-- The uppermost row of a page is the most significant bit of its bytes.
def Fb.picture (fb : Fb) : Picture :=
  fun x y => (fb (pageOf y) x).toBitVec.getMsbD (y.val % 8)

def St7567.Core.picture (c : Core) : Picture :=
  fun x y => (c.ram (pageOf y) x).toBitVec.getMsbD (y.val % 8)

-- The row of the panel that shows a row of the source, and the other way round.
def mirror (y : Fin rows) : Fin rows :=
  ⟨y.val ^^^ 24, Nat.xor_lt_two_pow (n := 6) y.isLt (by decide)⟩

-- The pixels of a source: its pages are `srcStride` bytes long, and the uppermost row of a page is the
-- least significant bit of its bytes.
def source (src : Nat → UInt8) (srcStride : Nat) : Picture :=
  fun x y => (src (y.val / 8 * srcStride + x.val)).toBitVec.getLsbD (y.val % 8)

-- The display as its users know it: a picture that is worked on, the picture on the glass, and the light.
structure Panel where
  buffer    : Picture
  glass     : Picture
  backlight : Bool

namespace Panel

def dark : Picture :=
  fun _ _ => false

-- The panel after the initialization.
def start : Panel where
  buffer    := dark
  glass     := dark
  backlight := false

def plot (p : Picture) (x y : UInt8) (on : Bool) : Picture :=
  fun i j => if i.val = x.toNat ∧ j.val = y.toNat then on else p i j

def shown (src : Nat → UInt8) (srcStride : Nat) : Picture :=
  fun x y => source src srcStride x (mirror y)

-- Bytes that are put on the glass directly, from a column of a page on.
def overlay (p : Picture) (page col : Nat) (buf : List UInt8) : Picture :=
  fun x y =>
    if y.val / 8 = page ∧ col ≤ x.val ∧ x.val < col + buf.length
    then (buf.getD (x.val - col) 0).toBitVec.getMsbD (y.val % 8)
    else p x y

def act (p : Panel) : Call → Panel
  | .init                          => { p with glass := dark, backlight := false }
  | .fbClear                       => { p with buffer := dark }
  | .setPixel x y on               => { p with buffer := plot p.buffer x y on }
  | .copyPages none _              => p
  | .copyPages (some src) stride   => { p with buffer := shown src stride.toNat }
  | .flush                         => { p with glass := p.buffer }
  | .u8g2CopyToLcdFb buf tileWidth =>
    { p with buffer := shown buf (tileWidth.toNat * 8), glass := shown buf (tileWidth.toNat * 8) }
  | .clear                         => { p with glass := dark }
  | .fillAll                       => { p with glass := fun _ _ => true }
  | .writePage _ _ none            => p
  | .writePage page col (some buf) => { p with glass := overlay p.glass page.toNat col.toNat buf }
  | .backlightOn                   => { p with backlight := true }
  | .backlightOff                  => { p with backlight := false }
  | .a0Set _ | .csnSet _ | .rstSet _ | .reset | .spiSendByte _ => p

end Panel

-- The calls that do not take the controller out of the hands of the driver: it is neither selected nor reset
-- from outside, and bytes that are written to a page end with its last column at the latest, since the
-- comments do not say which column is the next one.
def Call.Regular : Call → Prop
  | writePage page col (some buf)  => page < 8 → col < 132 → col.toNat + buf.length ≤ cols
  | csnSet active | rstSet active  => active = false
  | reset                          => False
  | _                              => True

variable {k : Chip} {c : Core} {m m₀ : Module} {fb : Fb} {p : Panel} {x : Fin cols} {y : Fin rows}

namespace Fb

theorem picture_zero : zero.picture = Panel.dark := by
  funext x y
  simp [picture, zero, Panel.dark]

theorem getMsbD_setBit {byte : UInt8} {on : Bool} {r s : Nat} (hr : r < 8) (hs : s < 8) :
    (setBit byte (7 - .ofNat r) on).toBitVec.getMsbD s =
      if s = r then on else byte.toBitVec.getMsbD s := by
  have hm : ∀ r : Fin 8, ((1 : UInt8) <<< (7 - .ofNat r.val)).toBitVec = BitVec.twoPow 8 (7 - r.val) := by
    decide
  have hm := hm ⟨r, hr⟩
  have hi : 7 - s = 7 - r ↔ s = r := by omega
  have hl : ∀ k, 7 - k < 8 := by omega
  cases on <;> by_cases h : s = r <;>
    simp [setBit, hm, BitVec.getMsbD, hs, hr, hi, h, hl]

theorem picture_setPixel {x y : UInt8} {on : Bool} :
    (fb.setPixel x y on).picture = Panel.plot fb.picture x y on := by
  funext i j
  have hi : i.val < 132 := i.isLt
  have hj : j.val < 64 := j.isLt
  simp only [setPixel, Panel.plot]
  split
  case isTrue h =>
    rw [ge_iff_le, ge_iff_le, UInt8.le_iff_toNat_le, UInt8.le_iff_toNat_le] at h
    have hn : ¬(i.val = x.toNat ∧ j.val = y.toNat) := by
      intro ⟨hx, hy⟩
      rw [←hx, ←hy] at h
      exact h.elim (Nat.not_le.mpr hi) (Nat.not_le.mpr hj)
    rw [if_neg hn]
  case isFalse h =>
    have hy : y % 8 = .ofNat (y.toNat % 8) := UInt8.toNat.inj <| by
      rw [UInt8.toNat_mod, UInt8.toNat_ofNat', Nat.mod_eq_of_lt (b := 2 ^ 8) (by omega)]
      rfl
    have hd : (y / 8).toNat = y.toNat / 8 := UInt8.toNat_div y 8
    have hm : j.val / 8 = y.toNat / 8 → (j.val % 8 = y.toNat % 8 ↔ j.val = y.toNat) := by omega
    simp only [picture, pageOf, hd, hy]
    by_cases hp : j.val / 8 = y.toNat / 8 ∧ i.val = x.toNat
    case pos =>
      rw [if_pos hp, getMsbD_setBit (Nat.mod_lt _ (by decide)) (Nat.mod_lt _ (by decide))]
      simp only [hm hp.left, hp.right, true_and]
    case neg =>
      have hn : ¬(i.val = x.toNat ∧ j.val = y.toNat) := fun ⟨hx, hy⟩ => hp ⟨by rw [hy], hx⟩
      rw [if_neg hp, if_neg hn]

theorem getMsbD_reverseByte {v : UInt8} {r : Nat} :
    (reverseByte v).toBitVec.getMsbD r = v.toBitVec.getLsbD r := by
  have h : (reverseByte v).toBitVec = v.toBitVec.reverse := by
    apply forall_byte (P := fun v => (reverseByte v).toBitVec = v.toBitVec.reverse)
    decide +kernel
  rw [h, BitVec.getMsbD_reverse]

theorem xor_three {page n : Nat} : page = n ^^^ 3 ↔ page ^^^ 3 = n := by
  constructor <;> rintro rfl <;> rw [Nat.xor_assoc, Nat.xor_self, Nat.xor_zero]

theorem foldl_copyPage {src : Nat → UInt8} {stride : UInt16} {n : Nat} :
    (List.range n).foldl (copyPage src stride) fb = fun page col =>
      if page.val ^^^ 3 < n
      then reverseByte (src ((page.val ^^^ 3) * stride.toNat + col.val))
      else fb page col := by
  induction n
  case zero => simp
  case succ n hi =>
    funext page col
    rw [List.range_succ, List.foldl_append, hi]
    simp only [List.foldl_cons, List.foldl_nil, copyPage, xor_three]
    by_cases h : page.val ^^^ 3 = n
    case pos => simp [h]
    case neg =>
      have hl : page.val ^^^ 3 < n + 1 ↔ page.val ^^^ 3 < n := by omega
      simp only [h, if_false, hl]

theorem picture_copyPages {src : Nat → UInt8} {stride : UInt16} :
    (fb.copyPages stride (some src)).picture = Panel.shown src stride.toNat := by
  funext x y
  have hp : (pageOf y).val ^^^ 3 < pages := Nat.xor_lt_two_pow (n := 3) (pageOf y).isLt (by decide)
  have hm : ∀ y : Fin rows, (mirror y).val / 8 = (pageOf y).val ^^^ 3 ∧ (mirror y).val % 8 = y.val % 8 := by
    decide
  have ⟨hd, hr⟩ := hm y
  simp only [picture, copyPages, foldl_copyPage, hp, if_true, getMsbD_reverseByte, Panel.shown, source, hd, hr]

end Fb

namespace St7567

-- The module waits for the next transfer and shows its display data as it is.
structure Module.Settled (m : Module) : Prop where
  port     : m.port.Idle
  argument : m.core.argument = false
  shown    : m.core.Shown

variable {rws : Nat → List UInt8}

-- What is seen of the bytes of the pages.
def drawn (rws : Nat → List UInt8) : Picture :=
  fun x y => ((rws (pageOf y)).getD x 0).toBitVec.getMsbD (y.val % 8)

theorem drawn_replicate {b : UInt8} {on : Bool} (hb : ∀ r < 8, b.toBitVec.getMsbD r = on) :
    drawn (fun _ => .replicate cols b) = fun _ _ => on := by
  funext x y
  have hx : (List.replicate cols b).getD x 0 = b := by simp
  rw [drawn, hx, hb _ <| Nat.mod_lt _ (by decide)]

theorem Core.picture_of_ram {c' : Core} (h : c.ram = c'.fillPages pages rws) : c.picture = drawn rws := by
  funext x y
  simp only [picture, drawn, h, fillPages, (pageOf y).isLt, x.isLt, and_self, if_true]

namespace Module

theorem run_append {t₁ t₂ : Trace} : m.run k (t₁ ++ t₂) = (m.run k t₁).run k t₂ := by
  simp only [run, List.foldl_append]

-- Drawing all pages replaces the picture and nothing else.
theorem run_draw {t : Trace} (hi : m.port.Idle) (ha : m.core.argument = false)
    (hr : ∀ page, (rws page).length = cols)
    (ht : Sends t <| (List.range pages).flatMap fun page => Core.fillPage page (rws page)) :
    (m.run k t).port.Idle ∧ (m.run k t).backlight = m.backlight ∧ ∃ page col,
      (m.run k t).core =
        { m.core with page := page, col := col, ram := m.core.fillPages pages rws } := by
  have ⟨hp, hc, hl⟩ := run_sends (k := k) ht hi
  exact ⟨hp, hl, hc ▸ Core.foldl_fillPages ha Nat.le.refl hr⟩

theorem Settled.draw {t : Trace} (hm : m.Settled) (hr : ∀ page, (rws page).length = cols)
    (ht : Sends t <| (List.range pages).flatMap fun page => Core.fillPage page (rws page)) :
    (m.run k t).Settled ∧ (m.run k t).backlight = m.backlight ∧
    (m.run k t).core.picture = drawn rws := by
  have ⟨hp, hl, page, col, hc⟩ := run_draw (k := k) hm.port hm.argument hr ht
  have ⟨h₁, h₂, h₃, h₄, h₅, h₆⟩ := hm.shown
  refine ⟨⟨hp, ?_, ?_⟩, hl, Core.picture_of_ram <| congrArg Core.ram hc⟩
  case refine_1 =>
    rw [hc]
    exact hm.argument
  case refine_2 =>
    rw [hc]
    exact ⟨h₁, h₂, h₃, h₄, h₅, h₆⟩

end Module

end St7567

-- The module, together with the framebuffer, shows what the panel is.
structure Reflects (m : Module) (fb : Fb) (p : Panel) : Prop where
  settled   : m.Settled
  buffer    : fb.picture = p.buffer
  glass     : m.core.picture = p.glass
  backlight : m.backlight = p.backlight

namespace Reflects

theorem flush (h : Reflects m fb p) : Reflects (m.run k fb.flush) fb { p with glass := p.buffer } := by
  have ⟨hs, hl, hc⟩ := h.settled.draw (k := k) fb.length_row fb.sends_flush
  refine ⟨hs, h.buffer, ?_, hl.trans h.backlight⟩
  rw [hc, ←h.buffer]
  funext x y
  simp only [drawn, Fb.getD_row, Fb.picture]

-- All bytes of the display are made the same.
theorem paint {b : UInt8} {on : Bool} {t : Trace} (h : Reflects m fb p)
    (ht : Sends t <| (List.range pages).flatMap fun page => Core.fillPage page <| .replicate cols b)
    (hb : ∀ r < 8, b.toBitVec.getMsbD r = on) :
    Reflects (m.run k t) fb { p with glass := fun _ _ => on } := by
  have ⟨hs, hl, hc⟩ := h.settled.draw (k := k) (fun _ => List.length_replicate) ht
  exact ⟨hs, h.buffer, hc.trans <| drawn_replicate hb, hl.trans h.backlight⟩

end Reflects

-- The commands before the display is cleared.
def setup : List UInt8 :=
  [0xA2, 0xA0, 0xC0, 0x40, 0x27, 0x81, 0x28, 0xF8, 0x01, 0x2F, 0xA6, 0xA4]

theorem foldl_setup (ha : c.argument = false) :
    (setup.map (.byte false)).foldl (Core.act k) c =
      { c with segNormal := true, comNormal := true, startLine := 0, inverse := false, allPixels := false } := by
  have hd : [0xA2, 0xA0, 0xC0, 0x40, 0x27, 0x81, 0xF8, 0x2F, 0xA6, 0xA4].map decode =
      [.supply, .segNormal, .comNormal, .startLine 0, .supply, .twoBytes, .twoBytes, .supply, .inverseOff,
        .allPixelOff] := by
    decide
  simp only [List.map_cons, List.map_nil, List.cons.injEq, and_true] at hd
  have ⟨h₁, h₂, h₃, h₄, h₅, h₆, h₇, h₈, h₉, h₁₀⟩ := hd
  simp [setup, Core.act, Core.command, ha, h₁, h₂, h₃, h₄, h₅, h₆, h₇, h₈, h₉, h₁₀]

theorem sends_setup : Sends (setup.flatMap Drv.writeCmd) (setup.map (.byte false)) := by
  rw [←List.flatMap_singleton' (setup.map _), List.flatMap_map]
  exact Sends.flatMap fun _ _ => .writeCmd

-- The start level of the lines, and the other pins with the reset.
def poweron : Trace :=
  Drv.spiHwInit ++ (Drv.csnSet false ++ Drv.a0Set true ++ Drv.backlightOff ++ Drv.reset)

theorem init_eq : Drv.init =
    poweron ++ (setup.flatMap Drv.writeCmd ++ (Drv.clear ++ Drv.writeCmd 0xAF)) := by
  have hr : (0x20 ||| 0x07 : UInt8) = 0x27 := by decide
  simp [Drv.init, Drv.initSeq, poweron, setup, hr]

theorem clock_spiHwInit (edge : Serial.Edge) (q : Port) :
    (Mealy.feed (Port.step edge) q Drv.spiHwInit).1.serial.clock = true :=
  Port.clock_step_sda.trans Port.clock_step_sck

-- Whatever has been on the lines before, the reset leaves no byte begun and no argument expected.
theorem run_poweron (m₀ : Module) : (m₀.run k poweron).port.Idle ∧
    (m₀.run k poweron).core.argument = false ∧ (m₀.run k poweron).backlight = false := by
  have hc := clock_spiHwInit k.edge m₀.port
  simp only [poweron, Module.run_append]
  generalize hm : m₀.run k Drv.spiHwInit = m
  have hp : m.port.serial.clock = true := by
    rw [←hm]
    simpa only [Module.run, Mealy.foldl_drive] using hc
  exact ⟨⟨rfl, rfl, hp, rfl⟩, rfl, rfl⟩

-- What follows the reset.
theorem run_bringup (hi : m.port.Idle) (ha : m.core.argument = false) (hl : m.backlight = false) :
    Reflects (m.run k <| setup.flatMap Drv.writeCmd ++ (Drv.clear ++ Drv.writeCmd 0xAF)) .zero .start := by
  have ⟨hi₁, hc₁, hl₁⟩ := Module.run_sends (k := k) sends_setup hi
  rw [foldl_setup ha] at hc₁
  have ⟨hi₂, hl₂, page, col, hc₂⟩ := Module.run_draw (k := k) hi₁ (hc₁ ▸ ha)
    (fun _ => List.length_replicate) sends_clear
  have ⟨hi₃, hc₃, hl₃⟩ := Module.run_sends (k := k) (Sends.writeCmd (c := 0xAF)) hi₂
  have hd : decode 0xAF = .displayOn := by decide
  rw [hc₂, hc₁] at hc₃
  simp only [List.foldl_cons, List.foldl_nil, Core.act, Core.command, ha, hd, Bool.false_eq_true,
    if_false] at hc₃
  rw [Module.run_append, Module.run_append]
  have hr := Core.picture_of_ram (congrArg Core.ram hc₃)
  refine ⟨⟨hi₃, ?_, ?_⟩, Fb.picture_zero, hr.trans <| drawn_replicate (by decide), ?_⟩
  case refine_1 => rw [hc₃]
  case refine_2 =>
    rw [hc₃]
    exact ⟨rfl, rfl, rfl, rfl, rfl, rfl⟩
  case refine_3 => exact hl₃.trans <| hl₂.trans <| hl₁.trans hl

theorem run_init (m₀ : Module) : Reflects (m₀.run k Drv.init) .zero .start := by
  have ⟨hi, ha, hl⟩ := run_poweron (k := k) m₀
  rw [init_eq, Module.run_append]
  exact run_bringup hi ha hl

namespace Reflects

-- Something that an idle module does not hear.
theorem send_nothing {t : Trace} (h : Reflects m fb p) (ht : Sends t []) : Reflects (m.run k t) fb p := by
  have ⟨hp, hc, hl⟩ := Module.run_sends (k := k) ht h.settled.port
  have hc : (m.run k t).core = m.core := hc
  exact ⟨⟨hp, hc ▸ h.settled.argument, hc ▸ h.settled.shown⟩, h.buffer, hc ▸ h.glass, hl.trans h.backlight⟩

theorem writePage {page col : UInt8} {buf : List UInt8} (h : Reflects m fb p)
    (hc : page < 8 → col < 132 → col.toNat + buf.length ≤ cols) :
    Reflects (m.run k (Drv.writePage page col (some buf))) fb
      { p with glass := Panel.overlay p.glass page.toNat col.toNat buf } := by
  rw [Drv.writePage]
  split
  case isTrue hg =>
    -- Nothing is on the glass where the call returns early.
    have ho : Panel.overlay p.glass page.toNat col.toNat buf = p.glass := by
      funext x y
      have hx : x.val < 132 := x.isLt
      have hy : y.val < 64 := y.isLt
      rw [ge_iff_le, ge_iff_le, UInt8.le_iff_toNat_le, UInt8.le_iff_toNat_le] at hg
      have hg : 8 ≤ page.toNat ∨ 132 ≤ col.toNat ∨ buf.length = 0 := hg
      rw [Panel.overlay, if_neg (by omega)]
    rw [ho]
    exact h.send_nothing .nil
  case isFalse hg =>
    obtain ⟨hp, hcol, -⟩ : page < 8 ∧ col < 132 ∧ buf.length ≠ 0 := by simpa [not_or] using hg
    have hs : Sends (Drv.setPageCol page col ++ Drv.writeDataBuf buf)
        (Core.setPageCol page col ++ buf.map (.byte true)) := sends_setPageCol.append .writeDataBuf
    obtain ⟨hi, hcore, hl⟩ := Module.run_sends (k := k) hs h.settled.port
    have hp₁₆ : page < 16 := UInt8.lt_trans hp (by decide)
    obtain ⟨col', hd⟩ := Core.foldl_data (k := k)
      (c := { m.core with page := page.toNat, col := col.toNat }) (hc hp hcol)
    rw [List.foldl_append, Core.foldl_setPageCol h.settled.argument hp₁₆ hcol, hd] at hcore
    obtain ⟨h₁, h₂, h₃, h₄, h₅, h₆⟩ := h.settled.shown
    refine ⟨⟨hi, ?_, ?_⟩, h.buffer, ?_, hl.trans h.backlight⟩
    case refine_1 =>
      rw [hcore]
      exact h.settled.argument
    case refine_2 =>
      rw [hcore]
      exact ⟨h₁, h₂, h₃, h₄, h₅, h₆⟩
    case refine_3 =>
      rw [hcore, ←h.glass]
      funext x y
      exact apply_ite (fun v : UInt8 => v.toBitVec.getMsbD (y.val % 8)) _ _ _

-- One call.
theorem exec (h : Reflects m fb p) {c : Call} (hc : c.Regular) :
    Reflects (m.run k (c.exec fb).2) (c.exec fb).1 (p.act c) := by
  have ⟨hs, hb, hg, hl⟩ := h
  cases c
  case init =>
    have ⟨hs', _, hg', hl'⟩ := run_init (k := k) m
    exact ⟨hs', hb, hg', hl'⟩
  case fbClear => exact ⟨hs, Fb.picture_zero, hg, hl⟩
  case setPixel x y on => exact ⟨hs, Fb.picture_setPixel.trans <| hb ▸ rfl, hg, hl⟩
  case copyPages src stride =>
    cases src
    case none => exact h
    case some src => exact ⟨hs, Fb.picture_copyPages, hg, hl⟩
  case flush => exact h.flush
  case u8g2CopyToLcdFb buf tileWidth =>
    have hw : (UInt16.ofNat (tileWidth.toNat * 8)).toNat = tileWidth.toNat * 8 := by
      have ht := tileWidth.toNat_lt
      rw [UInt16.toNat_ofNat', Nat.mod_eq_of_lt (by omega)]
    have hc : (u8g2CopyToLcdFb .zero buf tileWidth).picture = Panel.shown buf (tileWidth.toNat * 8) := by
      rw [u8g2CopyToLcdFb, Fb.picture_copyPages, hw]
    have hr : Reflects m (u8g2CopyToLcdFb .zero buf tileWidth)
        { p with buffer := Panel.shown buf (tileWidth.toNat * 8) } := ⟨hs, hc, hg, hl⟩
    exact hr.flush
  case clear => exact h.paint sends_clear (by decide)
  case fillAll => exact h.paint sends_fillAll (by decide)
  case writePage page col buf =>
    cases buf
    case none => exact h
    case some buf => exact h.writePage hc
  case spiSendByte => exact h.send_nothing .spiWriteByte
  case a0Set => exact ⟨⟨⟨hs.port.rstb, hs.port.csn, hs.port.serial⟩, hs.argument, hs.shown⟩, hb, hg, hl⟩
  case csnSet =>
    obtain rfl := hc
    exact ⟨⟨⟨hs.port.rstb, rfl, hs.port.serial⟩, hs.argument, hs.shown⟩, hb, hg, hl⟩
  case rstSet =>
    obtain rfl := hc
    exact ⟨⟨⟨rfl, hs.port.csn, hs.port.serial⟩, hs.argument, hs.shown⟩, hb, hg, hl⟩
  case reset => contradiction
  case backlightOn => exact ⟨⟨hs.port, hs.argument, hs.shown⟩, hb, hg, rfl⟩
  case backlightOff => exact ⟨⟨hs.port, hs.argument, hs.shown⟩, hb, hg, rfl⟩

-- All calls.
theorem execAll (h : Reflects m fb p) {cs : List Call} (hc : ∀ c ∈ cs, c.Regular) :
    Reflects (m.run k (Call.execAll fb cs).2) (Call.execAll fb cs).1 (cs.foldl Panel.act p) := by
  induction cs generalizing m fb p
  case nil => exact h
  case cons c cs hi =>
    rw [Call.execAll, List.foldl_cons, Module.run_append]
    exact hi (h.exec (hc c List.mem_cons_self)) fun c' hm => hc c' (List.mem_cons_of_mem _ hm)

end Reflects

-- The driver, the framebuffer and the controller together are the panel: from any state of the module, after
-- the initialization and any regular calls, every pixel of the glass is the one it is meant to be, and no
-- command has got into the display data or the other way round.
theorem display_refines (k : Chip) (m₀ : Module) {cs : List Call} (hc : ∀ c ∈ cs, c.Regular) :
    Reflects (m₀.run k <| Drv.init ++ (Call.execAll .zero cs).2) (Call.execAll .zero cs).1
      (cs.foldl Panel.act .start) := by
  rw [Module.run_append]
  exact (run_init m₀).execAll hc

theorem wrap_next {col : Nat} (h : col + 1 < cols) : (col + 1) % cols = col + 1 :=
  Nat.mod_eq_of_lt h

-- A controller that samples on the falling edge, starts over after the last column of a page, is not affected
-- by a reset and ignores all other commands.
def wrapping : Chip where
  edge      := .falling
  reset     := id
  next col  := (col + 1) % cols
  other _ c := c
  next_eq   := wrap_next

-- The module before the initialization, in the middle of a transfer, with everything on.
def powered : Module where
  port      := ⟨true, false, true, ⟨false, true, 0x5A, 3⟩⟩
  core      := ⟨5, 7, true, false, 9, false, false, true, true, fun _ _ => 0xFF⟩
  backlight := true

-- A pixel is drawn and flushed, and two more are put below it directly.
def dots : List Call :=
  [.spiSendByte 0x81, .setPixel 3 9 true, .flush, .writePage 2 3 (some [0x80, 0x01]), .csnSet false,
    .backlightOn]

theorem dots_regular : ∀ c ∈ dots, c.Regular := by
  simp [dots, Call.Regular, cols]

theorem display_refines_dots :
    (∀ x y, (powered.run wrapping <| Drv.init ++ (Call.execAll .zero dots).2).core.picture x y =
      decide (x.val = 3 ∧ y.val = 9 ∨ x.val = 3 ∧ y.val = 16 ∨ x.val = 4 ∧ y.val = 23)) ∧
    (powered.run wrapping <| Drv.init ++ (Call.execAll .zero dots).2).backlight = true := by
  have hr := display_refines wrapping powered dots_regular
  refine ⟨fun x y => (congrFun (congrFun hr.glass x) y).trans ?_, hr.backlight⟩
  revert x y
  decide +kernel

theorem mirror_mirror : mirror (mirror y) = y := by
  apply Fin.ext
  change y.val ^^^ 24 ^^^ 24 = y.val
  rw [Nat.xor_assoc, Nat.xor_self, Nat.xor_zero]

theorem Fb.picture_inj {fb' : Fb} (h : fb.picture = fb'.picture) : fb = fb' := by
  funext page col
  apply UInt8.toBitVec_inj.mp
  apply BitVec.eq_of_getMsbD_eq
  intro r hr
  have hp : page.val < 8 := page.isLt
  have hy := congrFun (congrFun h col) ⟨8 * page.val + r, by simp only [rows]; omega⟩
  have hd : (8 * page.val + r) / 8 = page.val := by omega
  have hm : (8 * page.val + r) % 8 = r := by omega
  simpa only [picture, pageOf, hd, hm] using hy

-- Drawing the pixels of a source one by one, from any framebuffer.
def Fb.plotAll (src : Nat → UInt8) (stride : UInt16) (fb : Fb) (l : List (Fin cols × Fin rows)) : Fb :=
  l.foldl (fun fb xy =>
    fb.setPixel (.ofNat xy.1.val) (.ofNat (mirror xy.2).val) (source src stride.toNat xy.1 xy.2)) fb

theorem Fb.picture_plotAll {src : Nat → UInt8} {stride : UInt16} {l : List (Fin cols × Fin rows)} :
    (fb.plotAll src stride l).picture = fun x y =>
      if (x, mirror y) ∈ l then Panel.shown src stride.toNat x y else fb.picture x y := by
  induction l generalizing fb
  case nil => simp [plotAll]
  case cons xy l hi =>
    have ⟨i, j⟩ := xy
    funext x y
    have hx : (UInt8.ofNat i.val).toNat = i.val := by
      have h : i.val < 132 := i.isLt
      rw [UInt8.toNat_ofNat', Nat.mod_eq_of_lt (by omega)]
    have hy : (UInt8.ofNat (mirror j).val).toNat = (mirror j).val := by
      have h : (mirror j).val < 64 := (mirror j).isLt
      rw [UInt8.toNat_ofNat', Nat.mod_eq_of_lt (by omega)]
    have hm : y = mirror j ↔ mirror y = j :=
      ⟨fun h => h ▸ mirror_mirror, fun h => h ▸ mirror_mirror.symm⟩
    rw [plotAll, List.foldl_cons, ←plotAll, hi, picture_setPixel]
    simp only [Panel.plot, hx, hy, ←Fin.ext_iff, hm, List.mem_cons, Prod.mk.injEq]
    by_cases h : (x, mirror y) ∈ l
    case pos => simp [h]
    case neg =>
      by_cases hxy : x = i ∧ mirror y = j
      case pos => simp [Panel.shown, hxy.left, hxy.right]
      case neg => simp [h, hxy]

-- Copying whole pages is the same as drawing every pixel of the source in the row that shows it, in whatever
-- order the pixels are drawn: the remapping of the pages and the reversal of the bytes leave no pixel out and
-- draw none in the wrong place.
theorem copyPages_eq_plotAll (fb : Fb) (src : Nat → UInt8) (stride : UInt16)
    (l : List (Fin cols × Fin rows)) (hl : ∀ xy, xy ∈ l) :
    fb.copyPages stride (some src) = fb.plotAll src stride l := by
  apply Fb.picture_inj
  rw [Fb.picture_copyPages, Fb.picture_plotAll]
  simp [hl]

theorem copyPages_eq_plotAll_rows :
    Fb.zero.copyPages 136 (some fun n => .ofNat n) = Fb.zero.plotAll (fun n => .ofNat n) 136
      ((List.finRange rows).flatMap fun y => (List.finRange cols).map fun x => (x, y)) :=
  copyPages_eq_plotAll _ _ _ _ <| by simp

end Lcd

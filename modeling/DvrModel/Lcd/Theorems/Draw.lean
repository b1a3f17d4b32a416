import DvrModel.Lcd.Graphics
import DvrModel.Lcd.Theorems.Wire

-- What the functions of the driver do to the controller.
namespace Lcd

open St7567

variable {k : Chip} {c : Core} {m : Module} {is : List Item} {t : Trace} {n : Nat} {buf : List UInt8}
  {rows : Nat → List UInt8}

-- Facts about bytes are checked for all of them.
theorem forall_byte {P : UInt8 → Prop} (h : ∀ v : BitVec 8, P ⟨v⟩) (b : UInt8) : P b :=
  h b.toBitVec

theorem decode_setPage (page : UInt8) :
    decode (Drv.cmdSetPage page) = .page (page &&& 0x0F).toNat := by
  apply forall_byte (P := fun page => decode (Drv.cmdSetPage page) = .page (page &&& 0x0F).toNat)
  decide +kernel

theorem decode_setColHi (col : UInt8) :
    decode (Drv.cmdSetColHi col) = .colHi ((Drv.hwCol col).toNat / 16) := by
  apply forall_byte (P := fun col => decode (Drv.cmdSetColHi col) = .colHi ((Drv.hwCol col).toNat / 16))
  decide +kernel

theorem decode_setColLo (col : UInt8) :
    decode (Drv.cmdSetColLo col) = .colLo ((Drv.hwCol col).toNat % 16) := by
  apply forall_byte (P := fun col => decode (Drv.cmdSetColLo col) = .colLo ((Drv.hwCol col).toNat % 16))
  decide +kernel

theorem hwCol_eq {col : UInt8} (h : col < 132) : Drv.hwCol col = col := by
  simp [Drv.hwCol, Drv.hwColOffset, UInt8.not_le.mpr h]

namespace St7567.Core

-- The bytes of `lcd_drv_set_page_col`.
def setPageCol (page col : UInt8) : List Item :=
  [.byte false (Drv.cmdSetPage page), .byte false (Drv.cmdSetColHi col), .byte false (Drv.cmdSetColLo col)]

theorem foldl_setPageCol {page col : UInt8} (ha : c.argument = false) (hp : page < 16) (hc : col < 132) :
    (setPageCol page col).foldl (act k) c = { c with page := page.toNat, col := col.toNat } := by
  have hm : (page &&& 0x0F).toNat = page.toNat := by
    have h := Nat.and_two_pow_sub_one_eq_mod page.toNat 4
    have hl : page.toNat < 16 := UInt8.lt_iff_toNat_lt.mp hp
    simpa [Nat.mod_eq_of_lt hl] using h
  simp only [setPageCol, List.foldl_cons, List.foldl_nil, act, command, ha, decode_setPage,
    decode_setColHi, decode_setColLo, hwCol_eq hc, hm, Bool.false_eq_true, if_false, mk.injEq, true_and,
    and_true]
  omega

-- The display data after `buf` has been written from the current address on.
def written (c : Core) (buf : List UInt8) : Nat → Nat → UInt8 :=
  fun page col =>
    if page = c.page ∧ c.col ≤ col ∧ col < c.col + buf.length
    then buf.getD (col - c.col) 0
    else c.ram page col

theorem written_nil : c.written [] = c.ram := by
  funext page col
  rw [written, if_neg (by simp)]

theorem written_cons {b : UInt8} :
    c.written (b :: buf) = ({ c.data k b with col := c.col + 1 } : Core).written buf := by
  funext page col
  simp only [written, data, List.length_cons]
  rcases Nat.lt_trichotomy col c.col with hlt | rfl | hgt
  case inl => simp [Nat.not_le.mpr hlt, show ¬(c.col + 1 ≤ col) by omega, Nat.ne_of_lt hlt]
  case inr.inl => simp
  case inr.inr =>
    have hs : col - c.col = col - (c.col + 1) + 1 := by omega
    have hl : col < c.col + 1 + buf.length ↔ col < c.col + (buf.length + 1) := by omega
    simp [Nat.le_of_lt hgt, Nat.succ_le_of_lt hgt, Nat.ne_of_gt hgt, hs, hl]

-- A page is filled from its address on, and nothing else changes but the column. Where the last column
-- has been written, the controller may go on anywhere.
theorem foldl_data (h : c.col + buf.length ≤ cols) :
    ∃ col, (buf.map (.byte true)).foldl (act k) c = { c with col := col, ram := c.written buf } := by
  induction buf generalizing c
  case nil => exact ⟨c.col, by rw [written_nil]; rfl⟩
  case cons b buf hi =>
    rw [List.map_cons, List.foldl_cons, written_cons (k := k)]
    cases buf
    case nil => exact ⟨k.next c.col, by rw [written_nil]; rfl⟩
    case cons b' buf =>
      have hn : k.next c.col = c.col + 1 := k.next_eq (by simp at h; omega)
      have ⟨col, hc⟩ := hi (c := c.data k b) (by simp [data, hn] at h ⊢; omega)
      have hd : ({ c.data k b with col := c.col + 1 } : Core) = c.data k b := by rw [data, hn]
      exact ⟨col, by rw [hd]; exact hc⟩

-- The bytes of a whole page.
def fillPage (page : Nat) (buf : List UInt8) : List Item :=
  setPageCol (.ofNat page) 0 ++ buf.map (.byte true)

theorem foldl_fillPage {p : Nat} (ha : c.argument = false) (hp : p < pages) (hb : buf.length = cols) :
    ∃ col, (fillPage p buf).foldl (act k) c =
      { c with
        page := p, col := col
        ram := fun page col => if page = p ∧ col < cols then buf.getD col 0 else c.ram page col } := by
  have hp : p < 8 := hp
  have hpn : (UInt8.ofNat p).toNat = p := by
    rw [UInt8.toNat_ofNat', Nat.mod_eq_of_lt (by omega)]
  have hp16 : UInt8.ofNat p < 16 := by
    rw [UInt8.lt_iff_toNat_lt, hpn]
    exact Nat.lt_trans hp (by decide)
  have ⟨col, hd⟩ := foldl_data (k := k) (c := { c with page := p, col := 0 }) (by simp [hb] : 0 + buf.length ≤ cols)
  refine ⟨col, ?_⟩
  rw [fillPage, List.foldl_append, foldl_setPageCol ha hp16 (by decide), hpn]
  simp only [UInt8.toNat_zero, hd, mk.injEq, true_and]
  funext page col
  simp [written, hb]

-- The display data after the first `n` pages have been filled with `rows`.
def fillPages (c : Core) (n : Nat) (rows : Nat → List UInt8) : Nat → Nat → UInt8 :=
  fun page col => if page < n ∧ col < cols then (rows page).getD col 0 else c.ram page col

theorem foldl_fillPages (ha : c.argument = false) (hn : n ≤ pages) (hr : ∀ page, (rows page).length = cols) :
    ∃ page col, ((List.range n).flatMap fun page => fillPage page (rows page)).foldl (act k) c =
      { c with page := page, col := col, ram := c.fillPages n rows } := by
  induction n
  case zero =>
    have hr : c.fillPages 0 rows = c.ram := by
      funext page col
      simp [fillPages]
    exact ⟨c.page, c.col, by rw [hr]; rfl⟩
  case succ n hi =>
    have ⟨page, col, h⟩ := hi (by omega)
    have ⟨col', h'⟩ := foldl_fillPage (k := k) (p := n)
      (c := { c with page := page, col := col, ram := c.fillPages n rows }) ha hn (hr n)
    refine ⟨n, col', ?_⟩
    rw [List.range_succ, List.flatMap_append, List.foldl_append, h, List.flatMap_singleton, h']
    simp only [mk.injEq, true_and]
    funext p q
    simp only [fillPages]
    by_cases hp : p = n
    case pos => by_cases hq : q < cols <;> simp [hp, hq]
    case neg =>
      have hl : p < n + 1 ↔ p < n := by omega
      simp [hp, hl]

end St7567.Core

open Core

theorem sends_setPageCol {page col : UInt8} : Sends (Drv.setPageCol page col) (setPageCol page col) :=
  Sends.writeCmd.append Sends.writeCmd |>.append Sends.writeCmd

theorem sends_fillPage {page : Nat} :
    Sends (Drv.setPageCol (.ofNat page) 0 ++ Drv.writeDataBuf buf) (fillPage page buf) :=
  sends_setPageCol.append Sends.writeDataBuf

theorem sends_clear : Sends Drv.clear <|
    (List.range pages).flatMap fun page => fillPage page <| .replicate cols 0x00 :=
  Sends.flatMap fun _ _ => sends_fillPage

theorem sends_fillAll : Sends Drv.fillAll <|
    (List.range pages).flatMap fun page => fillPage page <| .replicate cols 0xFF :=
  Sends.flatMap fun _ _ => sends_fillPage

-- A page of the framebuffer as it is handed to the driver.
def Fb.row (fb : Fb) (page : Nat) : List UInt8 :=
  if h : page < pages then .ofFn (fb ⟨page, h⟩) else .replicate cols 0

theorem Fb.length_row (fb : Fb) (page : Nat) : (fb.row page).length = cols := by
  rw [row]
  split <;> simp

theorem Fb.getD_row {fb : Fb} (page : Fin pages) (col : Fin cols) :
    (fb.row page.val).getD col 0 = fb page col := by
  simp [row]

theorem Fb.sends_flush (fb : Fb) : Sends fb.flush <|
    (List.range pages).flatMap fun page => fillPage page (fb.row page) := by
  rw [←List.map_coe_finRange_eq_range, List.flatMap_map]
  apply Sends.flatMap
  intro page _
  have hp : ¬(UInt8.ofNat page.val ≥ 8) := by
    have h : page.val < 8 := page.isLt
    rw [ge_iff_le, UInt8.le_iff_toNat_le, UInt8.toNat_ofNat', Nat.mod_eq_of_lt (by omega)]
    exact Nat.not_le.mpr h
  have hc : ¬((List.ofFn (fb page)).length = 0) := by
    rw [List.length_ofFn]
    decide
  have hr : fb.row page.val = .ofFn (fb page) := by simp [Fb.row]
  simp only [Drv.writePage, hp, hc, or_false, false_or, hr]
  exact sends_fillPage

-- A trace that an idle module listens to.
theorem St7567.Module.run_sends (h : Sends t is) (hi : m.port.Idle) :
    (m.run k t).port.Idle ∧ (m.run k t).core = is.foldl (act k) m.core ∧
    (m.run k t).backlight = m.backlight := by
  simp only [run, Mealy.foldl_drive]
  refine ⟨h.idle _ _ hi, by rw [h.items _ _ hi], ?_⟩
  have hd := h.dark
  clear h
  induction t
  case nil => rfl
  case cons w t ht =>
    have hw := hd w List.mem_cons_self
    simpa [hw] using ht fun w hw => hd w <| List.mem_cons_of_mem _ hw

end Lcd

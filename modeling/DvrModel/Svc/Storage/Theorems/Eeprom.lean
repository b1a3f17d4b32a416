import DvrModel.Svc.Storage.Eeprom

open Crash (wp)

namespace Svc.Eeprom

variable {d d' : Device} {m : Nat → UInt8} {a k n : Nat} {data bs : List UInt8}

@[simp]
theorem Reply.result_eq_true {r : Reply} : r.result = some true ↔ r = ack := by
  cases r <;> simp [result]

theorem ofAddrBytes_addrBytes (h : a < 65536) : ofAddrBytes (.ofNat (a / 256)) (.ofNat a) = a := by
  simp [ofAddrBytes]
  omega

theorem nextInPage_eq (h : a % pageSize + 1 < pageSize) : nextInPage a = a + 1 := by
  simp only [nextInPage, pageSize] at *
  omega

-- As long as the data does not reach beyond the page there is no wrap.
theorem programPage_eq (h : a % pageSize + data.length ≤ pageSize) :
    programPage m a data = Store.write m a data := by
  induction data generalizing m a
  case nil => simp [programPage]
  case cons b bs hi =>
    rw [programPage, Store.write_cons]
    cases bs
    case nil => simp [programPage]
    case cons c cs =>
      simp only [List.length_cons] at h hi
      have hn : nextInPage a = a + 1 := nextInPage_eq (by omega)
      rw [hn, hi]
      simp only [pageSize] at *
      omega

-- A page write that the device has received, whatever became of it.
def Device.pageWritten (d : Device) (a : Nat) (data : List UInt8) : Device :=
  { d with
    mem    := if (d.writes 0).effective then Store.write d.mem a data else d.mem
    writes := (d.writes <| · + 1) }

theorem writePage_run (hb : d.bus = true) (hd : data ≠ []) (ha : a < 65536)
    (hp : a % pageSize + data.length ≤ pageSize) :
    (writePage a data).run d = ((d.writes 0).reply.result, d.pageWritten a data) := by
  have hl : ¬data.length > pageSize := by omega
  have ⟨b, bs, hbs⟩ := List.exists_cons_of_ne_nil hd
  have he : data.isEmpty = false := by simpa using hd
  simp only [writePage, Crash.run_get_bind, hb, he, hl, decide_false]
  subst hbs
  simp [addrBytes, transferWr, ofAddrBytes_addrBytes ha, programPage_eq hp, Device.pageWritten, hb]

-- The number of bytes from `a` to the end of its page.
def pageRemain (a : Nat) : Nat :=
  pageSize - a % pageSize

theorem mod_pageSize_add_pageRemain : a % pageSize + pageRemain a = pageSize :=
  Nat.add_sub_of_le <| Nat.le_of_lt <| Nat.mod_lt a (by decide)

theorem pageRemain_pos : 0 < pageRemain a :=
  Nat.sub_pos_of_lt <| Nat.mod_lt a (by decide)

theorem pageRemain_le : pageRemain a ≤ 32 :=
  Nat.sub_le ..

theorem add_pageRemain_mod : (a + pageRemain a) % pageSize = 0 := by
  rw [←Nat.mod_add_mod, mod_pageSize_add_pageRemain, Nat.mod_self]

-- The loop of `write`, one iteration at a time.
theorem writeFrom_done (h : data.length ≤ k) : writeFrom a data n k = pure true := by
  cases n <;> simp [writeFrom, Nat.not_lt.mpr h]

theorem writeFrom_step (h : k < data.length) (hw : min (data.length - k) (pageRemain (a + k)) = w) :
    writeFrom a data (n + 1) k = do
      if ← writePage ((a + k) % 65536) (data.drop k |>.take w) then
        writeFrom a data n ((k + w) % 65536)
      else
        return false := by
  subst hw
  simp [writeFrom, h, pageRemain]

theorem write_eq_writeFrom (h : data ≠ []) : write a data = writeFrom a data data.length 0 := by
  simp [write, h]

theorem ite_true_false_run {x : Io Bool} :
    (do if ← x then return true else return false : Io Bool).run d = x.run d := by
  rcases h : x.run d with ⟨_ | b, d'⟩
  case none => exact Crash.run_bind_none h
  case some => rw [Crash.run_bind_some h]; cases b <;> rfl

theorem write_one_page (hd : data ≠ []) (ha : a < 65536) (hp : data.length ≤ pageRemain a) :
    (write a data).run d = (writePage a data).run d := by
  have hl := List.length_pos_iff.mpr hd
  have ⟨n, hn⟩ := Nat.exists_eq_add_one.mpr hl
  have hr := pageRemain_le (a := a)
  rw [write_eq_writeFrom hd, hn, writeFrom_step hl (Nat.min_eq_left hp), Nat.sub_zero,
    writeFrom_done (by omega), List.drop_zero, List.take_length, Nat.add_zero,
    Nat.mod_eq_of_lt ha]
  exact ite_true_false_run

theorem write_two_pages (ha : a + data.length ≤ 65536) (h₁ : pageRemain a < data.length)
    (h₂ : data.length ≤ pageRemain a + pageSize) :
    (write a data).run d = (do
      if ← writePage a (data.take <| pageRemain a) then
        writePage (a + pageRemain a) (data.drop <| pageRemain a)
      else
        return false : Io Bool).run d := by
  have hd : data ≠ [] := List.ne_nil_of_length_pos (by omega)
  have hk := pageRemain_pos (a := a)
  have hle := pageRemain_le (a := a)
  have hs : pageSize = 32 := rfl
  have ⟨n, hn⟩ : ∃ n, data.length = n + 1 + 1 := ⟨data.length - 2, by omega⟩
  have hr : pageRemain (a + pageRemain a) = pageSize := by
    rw [pageRemain, add_pageRemain_mod, Nat.sub_zero]
  have hw : min (data.length - pageRemain a) (pageRemain (a + pageRemain a)) =
      data.length - pageRemain a := by omega
  rw [write_eq_writeFrom hd, hn,
    writeFrom_step (w := pageRemain a) (by omega) (Nat.min_eq_right <| Nat.le_of_lt h₁),
    Nat.add_zero, Nat.zero_add, List.drop_zero, Nat.mod_eq_of_lt (show pageRemain a < 65536 by omega),
    writeFrom_step h₁ hw, writeFrom_done (by omega), Nat.mod_eq_of_lt (by omega),
    Nat.mod_eq_of_lt (by omega), ←List.length_drop, List.take_length]
  rcases h : (writePage a (data.take <| pageRemain a)).run d with ⟨_ | _ | _, d'⟩
  case none       => rw [Crash.run_bind_none h, Crash.run_bind_none h]
  case some.false => rw [Crash.run_bind_some h, Crash.run_bind_some h]; rfl
  case some.true  =>
    rw [Crash.run_bind_some h, Crash.run_bind_some h]
    exact ite_true_false_run

-- What is found in an area of at most two pages after a write has been attempted: each of the two parts
-- is either new or old.
def blend (k : Nat) (fst snd : Bool) (new old : List UInt8) : List UInt8 :=
  (if fst then new else old).take k ++ (if snd then new else old).drop k

@[simp]
theorem blend_true_true : blend k true true bs data = bs := by
  simp [blend]

@[simp]
theorem blend_false_false : blend k false false bs data = data := by
  simp [blend]

-- When all of the data lies on one page, the fate of that page decides.
theorem blend_of_length_le (h₁ : bs.length ≤ k) (h₂ : data.length ≤ k) {e₀ e₁ : Bool} :
    blend k e₀ e₁ bs data = if e₀ then bs else data := by
  cases e₀ <;> cases e₁ <;> simp [blend, List.take_of_length_le, List.drop_eq_nil_of_le, h₁, h₂]

-- The effect of `write`, whether it succeeds, fails or is cut off. The second page is attempted only
-- after the first one has been acknowledged.
structure Wrote (d : Device) (a : Nat) (data : List UInt8) (d' : Device) : Prop where
  bus   : d'.bus = d.bus
  reads : d'.reads = d.reads
  area  : Store.read d'.mem a data.length =
    blend (pageRemain a) (d.writes 0).effective
      ((d.writes 0).reply = .ack && (d.writes 1).effective) data (Store.read d.mem a data.length)

theorem Wrote.one_page (h : data.length ≤ pageRemain a) : Wrote d a data (d.pageWritten a data) where
  bus   := rfl
  reads := rfl
  area  := by
    rw [blend_of_length_le h (by simpa using h), Device.pageWritten]
    cases (d.writes 0).effective
    case false => rfl
    case true  => exact Store.read_write rfl

theorem read_pageWritten_fst (h : bs.length = k) (hk : k ≤ n) :
    Store.read (d.pageWritten a bs).mem a n =
      (if (d.writes 0).effective then bs else (Store.read d.mem a n).take k) ++
        (Store.read d.mem a n).drop k := by
  rw [Device.pageWritten]
  cases (d.writes 0).effective
  case false => simp
  case true  => exact Store.read_write_left h hk

theorem read_pageWritten_snd (h : k + bs.length = n) :
    Store.read (d.pageWritten (a + k) bs).mem a n =
      (Store.read d.mem a n).take k ++
        (if (d.writes 0).effective then bs else (Store.read d.mem a n).drop k) := by
  rw [Device.pageWritten]
  cases (d.writes 0).effective
  case false => simp
  case true  => exact Store.read_write_right h

theorem Wrote.fst_page (h : pageRemain a < data.length) (ha : (d.writes 0).reply ≠ .ack) :
    Wrote d a data (d.pageWritten a <| data.take <| pageRemain a) where
  bus   := rfl
  reads := rfl
  area  := by
    rw [read_pageWritten_fst (List.length_take_of_le <| Nat.le_of_lt h) (Nat.le_of_lt h), blend]
    cases (d.writes 0).effective <;> simp [ha]

theorem Wrote.two_pages (h : pageRemain a < data.length) (ha : (d.writes 0).reply = .ack) :
    Wrote d a data (d.pageWritten a (data.take <| pageRemain a) |>.pageWritten (a + pageRemain a)
      (data.drop <| pageRemain a)) where
  bus   := rfl
  reads := rfl
  area  := by
    have hl := List.length_take_of_le <| Nat.le_of_lt h
    have hw : (d.pageWritten a <| data.take <| pageRemain a).writes 0 = d.writes 1 := rfl
    rw [read_pageWritten_snd (by simp; omega), read_pageWritten_fst hl (Nat.le_of_lt h), hw, blend,
      List.take_left', List.drop_left']
    · cases (d.writes 0).effective <;> cases (d.writes 1).effective <;> simp [ha]
    all_goals cases (d.writes 0).effective <;> simp [Nat.le_of_lt h]

theorem write_spec (hb : d.bus = true) (hd : data ≠ []) (ha : a + data.length ≤ 65536)
    (hp : data.length ≤ pageRemain a + pageSize) :
    wp (write a data) (fun r d' => Wrote d a data d' ∧
      (r = some true ↔ (d.writes 0).reply = .ack ∧
        (pageRemain a < data.length → (d.writes 1).reply = .ack))) d := by
  have hl := List.length_pos_iff.mpr hd
  have hm := mod_pageSize_add_pageRemain (a := a)
  by_cases h : data.length ≤ pageRemain a
  case pos =>
    rw [wp, write_one_page hd (by omega) h, writePage_run hb hd (by omega) (by omega)]
    exact ⟨.one_page h, by simp [Nat.not_lt.mpr h]⟩
  case neg =>
    rw [Nat.not_le] at h
    have hk := pageRemain_pos (a := a)
    have hw : (writePage a <| data.take <| pageRemain a).run d =
        ((d.writes 0).reply.result, d.pageWritten a <| data.take <| pageRemain a) :=
      writePage_run hb (List.ne_nil_of_length_pos <| by simp; omega) (by omega) (by simp; omega)
    rw [wp, write_two_pages ha h hp]
    cases hr : (d.writes 0).reply
    case nack =>
      rw [hr] at hw
      rw [Crash.run_bind_some hw]
      exact ⟨.fst_page h (by simp [hr]), by simp⟩
    case powerLoss =>
      rw [hr] at hw
      rw [Crash.run_bind_none hw]
      exact ⟨.fst_page h (by simp [hr]), by simp⟩
    case ack =>
      rw [hr] at hw
      rw [Crash.run_bind_some hw, if_pos rfl, writePage_run (d := d.pageWritten ..) hb]
      · exact ⟨.two_pages h hr, by simp [h, Device.pageWritten]⟩
      · exact List.ne_nil_of_length_pos <| by simp; omega
      · omega
      · rw [add_pageRemain_mod]
        simp
        omega

-- The reply to the two transfers of a read, taken together. The second one is made only after the first
-- one has succeeded.
def Device.readReply (d : Device) : Reply :=
  if d.reads 0 = .ack then d.reads 1 else d.reads 0

-- The effect of `read`. It does not touch the memory, and it delivers what is there, or nothing, or it
-- is cut off.
structure Read (d : Device) (a n : Nat) (r : Option (Option (List UInt8))) (d' : Device) : Prop where
  bus          : d'.bus = d.bus
  mem          : d'.mem = d.mem
  writes       : d'.writes = d.writes
  of_ack       : d.readReply = .ack → r = some (some <| Store.read d.mem a n)
  of_nack      : d.readReply = .nack → r = some none
  of_powerLoss : d.readReply = .powerLoss → r = none

theorem transferRd_run (h : a + n ≤ 65536) (hp : d.ptr = a) :
    (transferRd n).run d =
      ((d.reads 0).result.map fun ok => if ok then some (Store.read d.mem a n) else none,
        { d with reads := (d.reads <| · + 1) }) := by
  have hm : (List.range n).map (fun i => d.mem <| (d.ptr + i) % 65536) = Store.read d.mem a n := by
    refine List.map_congr_left fun i hi => ?_
    have := List.mem_range.mp hi
    rw [hp, Nat.mod_eq_of_lt (by omega)]
  cases hr : d.reads 0 <;> simp [transferRd, hm, hr, Reply.result]

theorem read_spec (hb : d.bus = true) (hn : n ≠ 0) (ha : a + n ≤ 65536) :
    wp (read a n) (Read d a n) d := by
  have hd : ofAddrBytes (.ofNat (a / 256)) (.ofNat a) = a := ofAddrBytes_addrBytes (by omega)
  have ht : (transferWr <| addrBytes a).run d =
      ((d.reads 0).result, { d with ptr := a, reads := (d.reads <| · + 1) }) := by
    simp [transferWr, addrBytes, hd]
  simp only [wp, read, Crash.run_get_bind, hb, hn, decide_false, Bool.not_true, Bool.or_self,
    Bool.false_eq_true, if_false]
  cases h₀ : d.reads 0 <;> rw [h₀] at ht
  case nack =>
    rw [Crash.run_bind_some ht]
    constructor
    all_goals simp [Device.readReply, h₀]
  case powerLoss =>
    rw [Crash.run_bind_none ht]
    constructor
    all_goals simp [Device.readReply, h₀]
  case ack =>
    rw [Crash.run_bind_some ht, if_pos rfl, transferRd_run ha rfl]
    constructor
    all_goals simp [Device.readReply, h₀]
    all_goals intro h₁
    all_goals simp [h₁, Reply.result]

-- The bus is found, every read succeeds, and the page writes end as `F` says.
structure Device.Sound (F : Fate → Prop) (d : Device) : Prop where
  bus    : d.bus = true
  reads  : ∀ n, d.reads n = .ack
  writes : ∀ n, F (d.writes n)

theorem Device.Sound.readReply {F : Fate → Prop} (h : d.Sound F) : d.readReply = .ack := by
  simp [Device.readReply, h.reads]

-- A transfer uses up a fate, and there are enough of them.
section Keeps

open Crash (Keeps)

variable {F : Fate → Prop} {P : Device → Prop} {c : UInt8} {x : Nat}

theorem transferWr_sound {buf : List UInt8} : Keeps (Device.Sound F) (transferWr buf) := by
  intro d h
  unfold transferWr
  dsimp only
  split
  case h_1 => exact ⟨h.bus, fun n => h.reads (n + 1), h.writes⟩
  case h_2 => exact ⟨h.bus, h.reads, fun n => h.writes (n + 1)⟩
  case h_3 => exact h

theorem transferRd_sound : Keeps (Device.Sound F) (transferRd n) := by
  intro d h
  unfold transferRd
  dsimp only
  split <;> exact ⟨h.bus, fun n => h.reads (n + 1), h.writes⟩

theorem writePage_sound : Keeps (Device.Sound F) (writePage a data) :=
  .bind .get fun _ => .ite .pure transferWr_sound

-- A loop of page writes keeps what every one of them keeps.
theorem writeFrom_keeps
    (h : ∀ k < data.length, ∀ w, k + w ≤ data.length → (a + k) % pageSize + w ≤ pageSize →
      Keeps P (writePage ((a + k) % 65536) (data.drop k |>.take w))) :
    Keeps P (writeFrom a data n k) := by
  induction n generalizing k
  case zero => exact .pure
  case succ n hi =>
    by_cases hk : k < data.length
    case pos =>
      have hm := mod_pageSize_add_pageRemain (a := a + k)
      rw [writeFrom_step hk rfl]
      refine .bind (h k hk _ (by omega) (by omega)) fun ok => .ite hi .pure
    case neg =>
      rw [writeFrom_done (by omega)]
      exact .pure

theorem write_sound : Keeps (Device.Sound F) (write a data) :=
  .ite .pure <| writeFrom_keeps fun _ _ _ _ _ => writePage_sound

theorem read_sound : Keeps (Device.Sound F) (read a n) :=
  .bind .get fun _ => .ite .pure <| .bind transferWr_sound fun _ => .ite transferRd_sound .pure

-- A write leaves the cells outside of its area alone.
theorem writePage_frame (ha : a < 65536) (hp : a % pageSize + data.length ≤ pageSize)
    (hx : x < a ∨ a + data.length ≤ x) : Keeps (·.mem x = c) (writePage a data) := by
  intro d h
  by_cases hd : d.bus = true ∧ data ≠ []
  case pos =>
    rw [writePage_run hd.left hd.right ha hp]
    show (if _ then _ else _ : Nat → UInt8) x = c
    split
    case isTrue => exact h ▸ hx.elim Store.write_of_lt Store.write_of_ge
    case isFalse => exact h
  case neg =>
    have hb : (!d.bus || data.isEmpty || decide (data.length > pageSize)) = true := by
      simp only [Classical.not_and_iff_not_or_not] at hd
      rcases hd with hd | hd <;> simp_all
    rw [writePage, Crash.run_get_bind, if_pos hb]
    exact h

theorem write_frame (ha : a + data.length ≤ 65536) (hx : x < a ∨ a + data.length ≤ x) :
    Keeps (·.mem x = c) (write a data) := by
  refine .ite .pure <| writeFrom_keeps fun k hk w hw hp => ?_
  have hl : (data.drop k |>.take w).length = w := List.length_take_of_le (by simp; omega)
  rw [Nat.mod_eq_of_lt (by omega)]
  exact writePage_frame (by omega) (by omega) (by omega)

end Keeps

end Svc.Eeprom

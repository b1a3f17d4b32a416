import DvrModel.Svc.Storage.Theorems.Eeprom

namespace Svc.Eeprom

variable {d : Device} {m : Nat → UInt8} {a j k n : Nat} {data : List UInt8}

-- A call of `svc_eeprom_write_page`.
structure Chunk where
  addr : Nat
  data : List UInt8
  deriving DecidableEq

-- The data page by page.
def chunks (a : Nat) (data : List UInt8) : List Chunk :=
  if data = [] then
    []
  else
    ⟨a, data.take <| pageRemain a⟩ :: chunks (a + pageRemain a) (data.drop <| pageRemain a)
termination_by data.length
decreasing_by
  have := pageRemain_pos (a := a)
  have := List.length_pos_iff.mpr ‹data ≠ []›
  rw [List.length_drop]
  omega

-- One call after the other, up to the first one that fails.
def writePages : List Chunk → Io Bool
  | []      => return true
  | c :: cs => do
    if ← writePage c.addr c.data then
      writePages cs
    else
      return false

-- The data of a chunk does not reach beyond its page.
structure Chunk.Fits (c : Chunk) : Prop where
  ne_nil  : c.data ≠ []
  addr_lt : c.addr < 65536
  page    : c.addr % pageSize + c.data.length ≤ pageSize

@[simp]
theorem chunks_nil : chunks a [] = [] := by
  rw [chunks, if_pos rfl]

theorem chunks_of_ne_nil (h : data ≠ []) : chunks a data =
    ⟨a, data.take <| pageRemain a⟩ :: chunks (a + pageRemain a) (data.drop <| pageRemain a) := by
  rw [chunks, if_neg h]

-- The last chunk may end before its page does.
theorem chunks_cons {w : Nat} (h : data ≠ []) (hw : min data.length (pageRemain a) = w) :
    chunks a data = ⟨a, data.take w⟩ :: chunks (a + w) (data.drop w) := by
  rw [chunks_of_ne_nil h]
  rcases Nat.le_total (pageRemain a) data.length with hr | hr
  case inl =>
    rw [Nat.min_eq_right hr] at hw
    rw [hw]
  case inr =>
    rw [Nat.min_eq_left hr] at hw
    rw [←hw, List.take_of_length_le hr, List.take_length, List.drop_eq_nil_of_le hr, List.drop_length,
      chunks_nil, chunks_nil]

-- However often it may be repeated, the loop makes exactly these calls.
theorem writeFrom_eq_writePages (hl : data.length < 65536) (ha : a + data.length ≤ 65536)
    (hk : k ≤ data.length) (hn : data.length ≤ k + n) :
    writeFrom a data n k = writePages (chunks (a + k) <| data.drop k) := by
  induction n generalizing k
  case zero =>
    rw [List.drop_eq_nil_of_le (by omega), chunks_nil]
    rfl
  case succ n hi =>
    by_cases hlt : k < data.length
    case neg =>
      rw [List.drop_eq_nil_of_le (by omega), chunks_nil, writeFrom_done (by omega)]
      rfl
    case pos =>
      have hp := pageRemain_pos (a := a + k)
      have hne : data.drop k ≠ [] := List.ne_nil_of_length_pos (by simp; omega)
      rw [writeFrom_step hlt rfl, chunks_cons hne rfl, writePages, List.length_drop,
        Nat.mod_eq_of_lt (by omega), Nat.mod_eq_of_lt (by omega), hi (by omega) (by omega),
        List.drop_drop, Nat.add_assoc]

theorem write_eq_writePages (hd : data ≠ []) (hl : data.length < 65536) (ha : a + data.length ≤ 65536) :
    write a data = writePages (chunks a data) := by
  rw [write_eq_writeFrom hd, writeFrom_eq_writePages hl ha (Nat.zero_le _) (by omega)]
  rfl

theorem fits_chunks (ha : a + data.length ≤ 65536) : ∀ c ∈ chunks a data, c.Fits := by
  induction a, data using chunks.induct
  case case1 => simp
  case case2 a data h hi =>
    have hl := List.length_pos_iff.mpr h
    have hp := pageRemain_pos (a := a)
    have hm := mod_pageSize_add_pageRemain (a := a)
    have hr : a + pageRemain a + (data.length - pageRemain a) ≤ 65536 := by
      simp only [pageSize] at hm
      omega
    rw [chunks_of_ne_nil h]
    intro c hc
    rcases List.mem_cons.mp hc with hc | hc
    case inl =>
      have ha : a < 65536 := by omega
      rw [hc]
      exact ⟨List.ne_nil_of_length_pos (by simp; omega), ha, by simp; omega⟩
    case inr => exact hi (by rwa [List.length_drop]) c hc

theorem flatMap_chunks : (chunks a data).flatMap Chunk.data = data := by
  induction a, data using chunks.induct
  case case1 => simp
  case case2 a data h hi =>
    rw [chunks_of_ne_nil h, List.flatMap_cons, hi, List.take_append_drop]

-- The chunks lie one behind the other.
theorem foldl_chunks : ((chunks a data).take j).foldl (fun m c => Store.write m c.addr c.data) m =
    Store.write m a (((chunks a data).take j).flatMap Chunk.data) := by
  induction a, data using chunks.induct generalizing m j
  case case1 => simp
  case case2 a data h hi =>
    cases j
    case zero => simp
    case succ j =>
      rw [chunks_of_ne_nil h, List.take_succ_cons, List.foldl_cons, hi, List.flatMap_cons, Store.write_append]
      rcases Nat.le_total (pageRemain a) data.length with hr | hr
      case inl => rw [List.length_take_of_le hr]
      case inr => simp [List.drop_eq_nil_of_le hr]

-- The first `j` page writes succeed, and the next one fails if there is any. A write that fails does not
-- change the memory.
structure Device.FailsAt (d : Device) (cs : List Chunk) (j : Nat) : Prop where
  bus   : d.bus = true
  le    : j ≤ cs.length
  acks  : ∀ i < j, d.writes i = ⟨.ack, true⟩
  nack  : j < cs.length → d.writes j = ⟨.nack, false⟩

theorem writePages_run {cs : List Chunk} (hf : ∀ c ∈ cs, c.Fits) (h : d.FailsAt cs j) :
    ((writePages cs).run d).1 = some (decide (j = cs.length)) ∧
    ((writePages cs).run d).2.mem = (cs.take j).foldl (fun m c => Store.write m c.addr c.data) d.mem := by
  induction cs generalizing d j
  case nil =>
    have hj : j = 0 := Nat.le_zero.mp h.le
    simp [writePages, hj]
  case cons c cs hi =>
    obtain ⟨hc, hcs⟩ := List.forall_mem_cons.mp hf
    have hw := writePage_run h.bus hc.ne_nil hc.addr_lt hc.page
    cases j
    case zero =>
      have hn := h.nack (by simp)
      rw [hn] at hw
      rw [writePages, Crash.run_bind_some hw]
      simp [Device.pageWritten, hn]
    case succ j =>
      have h₀ := h.acks 0 (by omega)
      have hd : (d.pageWritten c.addr c.data).FailsAt cs j := by
        constructor
        case bus  => exact h.bus
        case le   => exact Nat.le_of_succ_le_succ h.le
        case acks => exact fun i hi => h.acks (i + 1) (by omega)
        case nack => exact fun hj => h.nack (by simpa using hj)
      obtain ⟨h₁, h₂⟩ := hi hcs hd
      rw [h₀] at hw
      rw [writePages, Crash.run_bind_some hw, if_pos rfl, h₁, h₂]
      simp [Device.pageWritten, h₀]

theorem write_run (hd : data ≠ []) (hl : data.length < 65536) (ha : a + data.length ≤ 65536)
    (h : d.FailsAt (chunks a data) j) :
    ((write a data).run d).1 = some (decide (j = (chunks a data).length)) ∧
    ((write a data).run d).2.mem =
      Store.write d.mem a (((chunks a data).take j).flatMap Chunk.data) := by
  rw [write_eq_writePages hd hl ha, ←foldl_chunks]
  exact writePages_run (fits_chunks ha) h

-- Without a bus not even the first page is written.
theorem write_run_no_bus (hd : data ≠ []) (hl : data.length < 65536) (ha : a + data.length ≤ 65536)
    (hb : d.bus = false) : (write a data).run d = (some false, d) := by
  have hw {c : Chunk} : (writePage c.addr c.data).run d = (some false, d) := by
    rw [writePage, Crash.run_get_bind, hb]
    rfl
  rw [write_eq_writePages hd hl ha, chunks_of_ne_nil hd, writePages, Crash.run_bind_some hw]
  rfl

-- Whatever the address and the length: the calls of `svc_eeprom_write_page` are those for the chunks, of
-- which each lies on a single page, and the loop ends with the last one of them. If all of them succeed
-- the data has replaced what was there, and if one of them fails exactly the chunks before it have.
theorem write_paged (hd : data ≠ []) (hl : data.length < 65536) (ha : a + data.length ≤ 65536) :
    (∀ n, data.length ≤ n → writeFrom a data n 0 = writePages (chunks a data)) ∧
    write a data = writePages (chunks a data) ∧
    (∀ c ∈ chunks a data, 1 ≤ c.data.length ∧ c.data.length ≤ 32 ∧
      c.addr / 32 = (c.addr + c.data.length - 1) / 32) ∧
    (chunks a data).flatMap Chunk.data = data ∧
    ∀ d : Device,
      (d.bus = true → (∀ i < (chunks a data).length, d.writes i = ⟨.ack, true⟩) →
        ((write a data).run d).1 = some true ∧ ((write a data).run d).2.mem = Store.write d.mem a data) ∧
      (∀ j < (chunks a data).length, d.bus = true → (∀ i < j, d.writes i = ⟨.ack, true⟩) →
        d.writes j = ⟨.nack, false⟩ → ((write a data).run d).1 = some false ∧
        ((write a data).run d).2.mem =
          Store.write d.mem a (((chunks a data).take j).flatMap Chunk.data)) ∧
      (d.bus = false → (write a data).run d = (some false, d)) := by
  refine ⟨fun n hn => ?_, write_eq_writePages hd hl ha, fun c hc => ?_, flatMap_chunks, fun d => ⟨?_, ?_, ?_⟩⟩
  · exact writeFrom_eq_writePages hl ha (Nat.zero_le _) (by omega)
  · have ⟨hne, _, hp⟩ := fits_chunks ha c hc
    have := List.length_pos_iff.mpr hne
    simp only [pageSize] at hp
    exact ⟨this, by omega, by omega⟩
  · intro hb hw
    have ⟨h₁, h₂⟩ := write_run hd hl ha ⟨hb, Nat.le_refl _, hw, fun h => absurd h (Nat.lt_irrefl _)⟩
    rw [List.take_length, flatMap_chunks] at h₂
    exact ⟨by simpa using h₁, h₂⟩
  · intro j hj hb hw hn
    have ⟨h₁, h₂⟩ := write_run hd hl ha ⟨hb, Nat.le_of_lt hj, hw, fun _ => hn⟩
    exact ⟨by simpa [Nat.ne_of_lt hj] using h₁, h₂⟩
  · exact write_run_no_bus hd hl ha

-- The second page write fails.
def flaky : Device where
  bus      := true
  mem _    := 0
  ptr      := 0
  writes i := if i = 1 then ⟨.nack, false⟩ else ⟨.ack, true⟩
  reads _  := .ack

-- The data starts in the middle of a page and reaches into a third one.
theorem write_paged_flaky : ((write 30 <| .replicate 40 7).run flaky).1 = some false ∧
    ((write 30 <| .replicate 40 7).run flaky).2.mem = Store.write flaky.mem 30 [7, 7] := by
  have hd : List.replicate 40 (7 : UInt8) ≠ [] := by decide
  have hc : (chunks 30 <| .replicate 40 7).take 1 = [⟨30, [7, 7]⟩] := by
    rw [chunks_of_ne_nil hd]
    rfl
  have hj : 1 < (chunks 30 <| .replicate 40 7).length := by
    rw [chunks_of_ne_nil hd, chunks_of_ne_nil (by decide)]
    simp
  have ⟨_, _, _, _, h⟩ := write_paged hd (by decide) (show 30 + _ ≤ _ by decide)
  have ⟨h₁, h₂⟩ := (h flaky).right.left 1 hj rfl (by decide) rfl
  rw [hc] at h₂
  exact ⟨h₁, h₂⟩

end Svc.Eeprom

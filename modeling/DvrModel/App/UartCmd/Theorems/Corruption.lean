import DvrModel.App.UartCmd.Theorems.Crc
import DvrModel.App.UartCmd.Theorems.Resync

namespace App.UartCmd

-- The candidate that begins with the first byte gets delivered: the parser still holds everything that it
-- has been fed, and with the next byte it returns a frame.
def Parser.DeliversFromHead (p : Parser) (bs : List UInt8) : Prop :=
  ∃ k f, k < bs.length ∧ (Mealy.feed parseByte p (bs.take k)).1.index = k ∧
    ((Mealy.feed parseByte p (bs.take k)).1.parseByte (bs.getD k 0)).2 = some (.frame f)

namespace Candidate

open Scanner

variable {c bs : List UInt8} {byte : UInt8}

-- As long as the parser holds everything that it has been fed, it has been waiting all the time.
def Held (bs c : List UInt8) : Prop :=
  Inv c ∧ c.length ≤ bs.length ∧ (c.length = bs.length → c = bs ∧ Waiting bs)

theorem Held.step (byte : UInt8) (h : Held bs c) : Held (bs ++ [byte]) (step c byte).1 := by
  have ⟨hv, hl, hw⟩ := h
  have hs := hv.step_spec byte
  refine ⟨hv.step byte, ?_⟩
  generalize Candidate.step c byte = s at hs ⊢
  simp only [List.length_append, List.length_singleton]
  cases hs
  case skip | badLength | badType | deliver => simp
  case start hc _ =>
    refine ⟨by simp, fun he => ?_⟩
    have hb : bs = [] := List.eq_nil_of_length_eq_zero <| (Nat.add_right_cancel he).symm
    rw [hb]
    exact ⟨rfl, .inr rfl⟩
  case wait hc hk h₆ hlt =>
    simp only [List.length_append, List.length_singleton]
    refine ⟨by omega, fun he => ?_⟩
    have ⟨hb, hw⟩ := hw (Nat.add_right_cancel he)
    rw [hb] at hc hk h₆ hlt
    exact ⟨by rw [hb], .inr <| hw.judge_wait hc hk h₆ hlt⟩
  case reject =>
    have hr := length_resync_lt (c := c ++ [byte]) (by simp)
    rw [List.length_append, List.length_singleton] at hr
    exact ⟨Nat.le_of_lt <| Nat.lt_of_lt_of_le hr <| Nat.succ_le_succ hl,
      fun he => absurd (show (resync (c ++ [byte])).length = _ from he) (by omega)⟩

theorem held_feed (bs : List UInt8) : Held bs (Mealy.feed step [] bs).1 :=
  Mealy.feed_invariant (P := fun bs _ => Held bs) ⟨.nil, Nat.le_refl _, fun _ => ⟨rfl, .inl rfl⟩⟩
    (.of_forall fun _ _ => trivial) fun _ h => h.step _

theorem deliver_of_step (hc : Waiting c) (hi : Inv c)
    (h : (step c byte).2 = some (.frame f)) : judge (c ++ [byte]) = .deliver := by
  have hs := hi.step_spec byte
  generalize step c byte = s at h hs
  cases hs
  case deliver h₆ hl hg => exact hc.judge_deliver h₆ hl hg
  case reject => split at h <;> simp at h
  all_goals simp at h

theorem whole_of_judge (hh : bs.head? = some frameHead) (h : judge bs = .deliver) :
    Whole (bs.take (expectLen bs)) := by
  have ⟨hk, h₆, hl, hg⟩ := judge_eq_deliver_iff.mp h
  have ht := expectLen_take (c := bs) (show 2 ≤ expectLen bs by omega)
  have hlt : (bs.take (expectLen bs)).length = expectLen bs := List.length_take_of_le hl
  have hg' := isGood_append (c := bs.take (expectLen bs)) (d := bs.drop (expectLen bs)) (by omega) (by omega)
  rw [List.take_append_drop] at hg'
  constructor
  case head_eq   => rw [List.head?_take, if_neg (by omega), hh]
  case length_eq => omega
  case length_ge => omega
  case known     => rwa [getD_take (by omega)]
  case good      => rwa [←hg']

theorem Whole.step_last (h : Whole c) :
    (step (c.take (c.length - 1)) (c.getD (c.length - 1) 0)).2 = some (.frame ⟨c.length, c⟩) := by
  have hge := h.length_ge
  have hc := take_concat (c := c) (k := c.length - 1) (by omega)
  rw [Nat.sub_add_cancel (by omega), List.take_length] at hc
  have hf := congrArg Prod.snd h.feed_eq
  nth_rewrite 1 [←hc] at hf
  rw [Mealy.feed_concat, h.feed_take (by omega)] at hf
  simpa using hf

end Candidate

open Candidate Scanner

theorem Parser.deliversFromHead_iff {p : Parser} {bs : List UInt8} (hp : p.index = 0)
    (hh : bs.head? = some frameHead) : p.DeliversFromHead bs ↔ judge bs = .deliver := by
  have hr (k) := (Rep.idle hp).feed (bs.take k) |>.right
  constructor
  · intro ⟨k, f, hk, hi, hf⟩
    have ⟨hv, _, hw⟩ := held_feed (bs.take k)
    rw [←(hr k).length_eq] at hi
    have ⟨he, hw⟩ := hw (by rw [hi, List.length_take_of_le (by omega)])
    rw [(hr k).step.left, he] at hf
    have hd := deliver_of_step hw (he ▸ hv) hf
    rw [take_concat hk] at hd
    rw [←List.take_append_drop (k + 1) bs]
    exact judge_append_deliver hd
  · intro hj
    have ⟨_, h₆, hl, _⟩ := judge_eq_deliver_iff.mp hj
    have hw := whole_of_judge hh hj
    have hlt : (bs.take (Candidate.expectLen bs)).length = _ := List.length_take_of_le hl
    have hft := hw.feed_take (k := Candidate.expectLen bs - 1) (by omega)
    have hs := hw.step_last
    rw [List.take_take, Nat.min_eq_left (by omega)] at hft
    rw [hlt, List.take_take, Nat.min_eq_left (by omega), getD_take (by omega)] at hs
    refine ⟨Candidate.expectLen bs - 1, Candidate.frame bs, by omega, ?_, ?_⟩
    · rw [←(hr _).length_eq, hft, List.length_take_of_le (by omega)]
    · rw [(hr _).step.left, hft]
      exact hs

theorem Candidate.isGood_eq {c : List UInt8} (h₁ : 6 ≤ expectLen c) (h₂ : expectLen c ≤ c.length) :
    isGood c = (c.getD (expectLen c - 1) 0 == frameTail && checkCrc (c.getD · 0) (expectLen c)) := by
  rw [Parser.checkCrc_eq Store.read_getD h₁ h₂, isGood]

namespace Message

-- The two ways in which another value of a single byte can get through: the type becomes another known
-- one, or the length becomes shorter and happens to lead to a tail and a checksum that match.
inductive Masked (m : Message) : Nat → UInt8 → Prop
  | type   : isKnownType v = true → Masked m 2 v
  | length : 6 ≤ v.toNat → v.toNat < m.frame.length → m.frame.data.getD (v.toNat - 1) 0 = frameTail →
      checkCrc (m.frame.data.getD · 0) v.toNat = true → Masked m 1 v

variable {m : Message} {pos : Nat} {v : UInt8}

theorem getD_set_ne {c : List UInt8} (h : pos ≠ k) : (c.set pos v).getD k 0 = c.getD k 0 := by
  simp [List.getElem?_set_ne h]

theorem getD_set_self {c : List UInt8} (h : pos < c.length) : (c.set pos v).getD pos 0 = v := by
  simp [h]

theorem expectLen_set (h : 2 ≤ pos) : expectLen (m.frame.data.set pos v) = m.frame.length := by
  rw [expectLen, getD_set_ne (by omega), ←expectLen, expectLen_data]

theorem judge_set_length (hv : v ≠ m.frame.data.getD 1 0) :
    judge (m.frame.data.set 1 v) = .deliver ↔ Masked m 1 v := by
  have hl : m.frame.data.length = m.frame.length := length_data
  have hge : 6 ≤ m.frame.length := Nat.le_add_left ..
  have he : expectLen (m.frame.data.set 1 v) = v.toNat := by
    rw [expectLen, getD_set_self (by omega)]
  have hne : v.toNat ≠ m.frame.length := by
    rw [←expectLen_data]
    exact mt UInt8.toNat_inj.mp hv
  -- Neither the checksum nor what it is computed from includes the length.
  have hc (h₆ : 6 ≤ v.toNat) : checkCrc ((m.frame.data.set 1 v).getD · 0) v.toNat =
      checkCrc (m.frame.data.getD · 0) v.toNat := by
    have hr : Store.read ((m.frame.data.set 1 v).getD · 0) 3 (v.toNat - 6) =
        Store.read (m.frame.data.getD · 0) 3 (v.toNat - 6) :=
      Store.read_congr fun k _ => getD_set_ne (by omega)
    rw [checkCrc, checkCrc, hr, getD_set_ne (by omega), getD_set_ne (by omega)]
  have hk : isKnownType ((m.frame.data.set 1 v).getD 2 0) = true := m.known
  rw [judge_eq_deliver_iff, he, List.length_set, hl]
  constructor
  · rintro ⟨_, h₆, hle, hg⟩
    rw [isGood_eq (by omega) (by simp; omega), he, hc h₆, getD_set_ne (by omega)] at hg
    obtain ⟨ht, hg⟩ := Bool.and_eq_true_iff.mp hg
    exact .length h₆ (by omega) (beq_iff_eq.mp ht) hg
  · intro h
    cases h
    case length h₆ hlt ht hg =>
      refine ⟨hk, h₆, by omega, ?_⟩
      rw [isGood_eq (by omega) (by simp; omega), he, hc h₆, getD_set_ne (by omega), ht, hg]
      rfl

theorem judge_set_type : judge (m.frame.data.set 2 v) = .deliver ↔ Masked m 2 v := by
  have hge : 6 ≤ m.frame.length := Nat.le_add_left ..
  have hl : m.frame.data.length = m.frame.length := length_data
  have he : expectLen (m.frame.data.set 2 v) = m.frame.length := expectLen_set (Nat.le_refl _)
  have hg : isGood (m.frame.data.set 2 v) = true := by
    rw [isGood, he, List.drop_set_of_lt (by omega), getD_set_ne (by omega), getD_set_ne (by omega),
      getD_set_ne (by omega), ←isGood_data (m := m), isGood, expectLen_data]
  rw [judge_eq_deliver_iff, he, List.length_set, hl, getD_set_self (by omega)]
  constructor
  · exact fun h => .type h.left
  · intro h
    cases h
    case type hk => exact ⟨hk, hge, Nat.le_refl _, hg⟩

-- Behind the type every byte is checked.
theorem judge_set_checked (h₃ : 3 ≤ pos) (hp : pos < m.frame.length) (hv : v ≠ m.frame.data.getD pos 0) :
    judge (m.frame.data.set pos v) ≠ .deliver := by
  intro hj
  have hge : 6 ≤ m.frame.length := Nat.le_add_left ..
  have hl : m.frame.data.length = m.frame.length := length_data
  have he : expectLen (m.frame.data.set pos v) = m.frame.length := expectLen_set (by omega)
  obtain ⟨_, _, _, hg⟩ := judge_eq_deliver_iff.mp hj
  have hg' := isGood_data (m := m)
  simp only [isGood, he, expectLen_data, Bool.and_eq_true, beq_iff_eq] at hg hg'
  have hs := getD_set_self (v := v) (hl ▸ hp)
  by_cases h₁ : pos < m.frame.length - 3
  case pos =>
    rw [getD_set_ne (by omega), getD_set_ne (by omega), getD_set_ne (by omega)] at hg
    have hb : Burst ((m.frame.data.drop 3).take (m.frame.length - 6))
        (((m.frame.data.drop 3).take (m.frame.length - 6)).set (pos - 3) v) := by
      apply Burst.set
      case h => simp; omega
      case hv =>
        rw [List.getD_eq_getElem _ _ (by omega)] at hv
        simpa [show 3 + (pos - 3) = pos by omega] using hv
    apply hb.crc16_ne
    rw [hg'.right, ←hg.right, List.drop_set, if_neg (by omega), List.take_set]
  case neg =>
    rw [List.drop_set, if_neg (by omega), List.take_set_of_le (by omega)] at hg
    obtain ⟨hl, hh⟩ := Bytes.word_inj (hg.right.symm.trans hg'.right)
    have ht := hg.left.trans hg'.left.symm
    have hp : pos = m.frame.length - 3 ∨ pos = m.frame.length - 2 ∨ pos = m.frame.length - 1 := by omega
    have hn {k} (hk : pos = k) : (m.frame.data.set pos v).getD k 0 ≠ m.frame.data.getD k 0 := by
      rwa [←hk, hs]
    rcases hp with hp | hp | hp
    case inl     => exact hn hp hl
    case inr.inl => exact hn hp hh
    case inr.inr => exact hn hp ht

-- Exactly the other corruptions of a single byte are detected: no frame that begins with the head comes
-- out of the parser.
theorem corruption_detected_iff {p : Parser} (hp : p.index = 0) (h₁ : 1 ≤ pos)
    (h₂ : pos < m.frame.length) (hv : v ≠ m.frame.data.getD pos 0) :
    ¬p.DeliversFromHead (m.frame.data.set pos v) ↔ ¬Masked m pos v := by
  have hh : (m.frame.data.set pos v).head? = some frameHead := by
    rw [List.head?_eq_getElem?, List.getElem?_set_ne (by omega)]
    rfl
  rw [Parser.deliversFromHead_iff hp hh, not_iff_not]
  by_cases hp₁ : pos = 1
  case pos =>
    subst hp₁
    exact judge_set_length hv
  case neg =>
    by_cases hp₂ : pos = 2
    case pos =>
      subst hp₂
      exact judge_set_type
    case neg =>
      refine iff_of_false (judge_set_checked (by omega) h₂ hv) fun h => ?_
      cases h
      all_goals contradiction

def empty : Message where
  type      := typeSocStatus
  payload   := []
  known     := isKnownType_status
  length_le := Nat.zero_le _

-- An empty status frame turns into an empty text frame.
theorem corruption_undetected : ¬∀ (m : Message) (pos : Nat) (v : UInt8), 1 ≤ pos →
    pos < m.frame.length → v ≠ m.frame.data.getD pos 0 →
    ¬Parser.init.DeliversFromHead (m.frame.data.set pos v) := by
  intro h
  apply h empty 2 textFrameType (by decide) (by decide) (by decide)
  exact ⟨5, ⟨6, [0xAA, 0x06, 0x02, 0x00, 0x00, 0x55]⟩, by decide, by decide +kernel, by decide +kernel⟩

def hello : List UInt8 := [1, 0x0A, 1, 0x48, 0x65, 0x6C, 0x6C, 0x6F]

theorem length_hello : hello.length ≤ 249 := by
  decide

def helloText : Message where
  type      := textFrameType
  payload   := hello
  known     := isKnownType_text
  length_le := length_hello

-- One of the characters becomes another one.
theorem corruption_detected_iff_hello :
    ¬Parser.init.DeliversFromHead (helloText.frame.data.set 7 0x61) ↔ ¬Masked helloText 7 0x61 :=
  corruption_detected_iff rfl (by decide) (by decide) (by decide)

end Message

end App.UartCmd

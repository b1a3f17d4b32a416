import DvrModel.App.UartCmd.Theorems.Frames
import Mathlib.Tactic.MkIffOfInductiveProp

namespace App.UartCmd

namespace Candidate

variable {c d : List UInt8}

theorem isGood_append (h₁ : 6 ≤ expectLen c) (h₂ : expectLen c ≤ c.length) :
    isGood (c ++ d) = isGood c := by
  have hp : ((c ++ d).drop 3).take (expectLen c - 6) = (c.drop 3).take (expectLen c - 6) := by
    rw [List.drop_append_of_le_length (by omega),
      List.take_append_of_le_length (by rw [List.length_drop]; omega)]
  rw [isGood, expectLen_append (by omega), hp, List.getD_append _ _ _ _ (by omega),
    List.getD_append _ _ _ _ (by omega), List.getD_append _ _ _ _ (by omega), isGood]

theorem frame_append (h₁ : 6 ≤ expectLen c) (h₂ : expectLen c ≤ c.length) :
    frame (c ++ d) = frame c := by
  rw [frame, expectLen_append (by omega), List.take_append_of_le_length h₂, frame]

end Candidate

-- The plain way to find the frames in a stream: a candidate begins at each head that is not part of a
-- frame already, and if it is no frame, the search goes on with the very next byte.
namespace Scanner

open Candidate

variable {c d bs : List UInt8} {byte : UInt8}

inductive Judgement
  | wait
  | deliver
  | reject
  deriving DecidableEq

def judge (c : List UInt8) : Judgement :=
  if c.length < 2 then
    .wait
  else if expectLen c < 6 then
    .reject
  else if c.length < 3 then
    .wait
  else if !isKnownType (c.getD 2 0) then
    .reject
  else if c.length < expectLen c then
    .wait
  else if isGood c then
    .deliver
  else
    .reject

-- The frames in a stream whose first `skip` bytes are part of a frame already, and the candidate that
-- is not complete at its end.
def scan : (skip : Nat) → List UInt8 → List Frame × List UInt8
  | _,        []         => ([], [])
  | skip + 1, _ :: bs    => scan skip bs
  | 0,        byte :: bs =>
    if byte = frameHead then
      match judge (byte :: bs) with
      | .wait    => ([], byte :: bs)
      | .reject  => scan 0 bs
      | .deliver =>
        let rest := scan (expectLen (byte :: bs) - 1) bs
        (frame (byte :: bs) :: rest.1, rest.2)
    else
      scan 0 bs

def frames (bs : List UInt8) : List Frame :=
  (scan 0 bs).1

theorem judge_eq_wait_iff : judge c = .wait ↔ c.length < 2 ∨ 6 ≤ expectLen c ∧
    (c.length = 2 ∨ isKnownType (c.getD 2 0) = true ∧ c.length < expectLen c) := by
  unfold judge
  grind

theorem judge_eq_deliver_iff : judge c = .deliver ↔ isKnownType (c.getD 2 0) = true ∧
    6 ≤ expectLen c ∧ expectLen c ≤ c.length ∧ isGood c = true := by
  unfold judge
  grind

theorem judge_eq_reject_iff : judge c = .reject ↔ 2 ≤ c.length ∧ expectLen c < 6 ∨
    3 ≤ c.length ∧ 6 ≤ expectLen c ∧ isKnownType (c.getD 2 0) = false ∨
    isKnownType (c.getD 2 0) = true ∧ Fails c := by
  unfold judge Fails
  grind

-- Bytes that arrive later do not change what has been decided.
theorem judge_append_deliver (h : judge c = .deliver) : judge (c ++ d) = .deliver := by
  have ⟨hk, h₆, hl, hg⟩ := judge_eq_deliver_iff.mp h
  rw [judge_eq_deliver_iff, expectLen_append (by omega), isGood_append h₆ hl,
    List.getD_append _ _ _ _ (by omega), List.length_append]
  exact ⟨hk, h₆, by omega, hg⟩

theorem judge_append_reject (h : judge c = .reject) : judge (c ++ d) = .reject := by
  have hl : c.length ≤ (c ++ d).length := by simp
  rw [judge_eq_reject_iff] at h ⊢
  rcases h with ⟨h₂, h₆⟩ | ⟨h₃, h₆, hk⟩ | ⟨hk, h₆, he, hg⟩
  case inl =>
    refine .inl ⟨by omega, ?_⟩
    rwa [expectLen_append h₂]
  case inr.inl =>
    refine .inr <| .inl ⟨by omega, ?_⟩
    rw [expectLen_append (by omega), List.getD_append _ _ _ _ h₃]
    exact ⟨h₆, hk⟩
  case inr.inr =>
    refine .inr <| .inr ?_
    rw [Fails, expectLen_append (by omega), isGood_append h₆ he, List.getD_append _ _ _ _ (by omega)]
    exact ⟨hk, h₆, by omega, hg⟩

theorem scan_cons_of_ne (h : byte ≠ frameHead) : scan 0 (byte :: bs) = scan 0 bs := by
  rw [scan, if_neg h]

theorem scan_wait (hh : c.head? = some frameHead) (h : judge c = .wait) : scan 0 c = ([], c) := by
  have ⟨bs, hc⟩ := List.head?_eq_some_iff.mp hh
  rw [hc] at h ⊢
  rw [scan, if_pos rfl, h]

theorem scan_reject (hh : c.head? = some frameHead) (h : judge c = .reject) :
    scan 0 c = scan 0 c.tail := by
  have ⟨bs, hc⟩ := List.head?_eq_some_iff.mp hh
  rw [hc] at h ⊢
  rw [scan, if_pos rfl, h]
  rfl

theorem scan_skip : scan k bs = scan 0 (bs.drop k) := by
  induction bs generalizing k
  case nil => simp [scan]
  case cons b bs hi =>
    cases k
    case zero => rfl
    case succ k => rw [scan, hi, List.drop_succ_cons]

theorem scan_deliver (hh : c.head? = some frameHead) (h : judge c = .deliver) : scan 0 c =
    (frame c :: (scan (expectLen c - 1) c.tail).1, (scan (expectLen c - 1) c.tail).2) := by
  have ⟨bs, hc⟩ := List.head?_eq_some_iff.mp hh
  rw [hc] at h ⊢
  rw [scan, if_pos rfl, h]
  rfl

-- The bytes of a stream can be given to the scanner one after the other.
theorem scan_concat (h : k ≤ bs.length) : scan k (bs ++ [byte]) =
    ((scan k bs).1 ++ (scan 0 ((scan k bs).2 ++ [byte])).1, (scan 0 ((scan k bs).2 ++ [byte])).2) := by
  induction bs generalizing k
  case nil =>
    have hk : k = 0 := Nat.le_zero.mp h
    rw [hk]
    rfl
  case cons b bs hi =>
    cases k
    case succ k => exact hi (Nat.le_of_succ_le_succ h)
    case zero =>
      by_cases hb : b = frameHead
      case neg =>
        rw [List.cons_append, scan_cons_of_ne hb, scan_cons_of_ne hb]
        exact hi (Nat.zero_le _)
      case pos =>
        have hh : (b :: bs).head? = some frameHead := by rw [hb]; rfl
        have hh' : (b :: bs ++ [byte]).head? = some frameHead := hh
        cases hj : judge (b :: bs)
        case wait => simp only [scan_wait hh hj, List.nil_append]
        case reject =>
          rw [scan_reject hh hj, scan_reject hh' (judge_append_reject hj)]
          exact hi (Nat.zero_le _)
        case deliver =>
          have ⟨_, h₆, hl, _⟩ := judge_eq_deliver_iff.mp hj
          have hk : expectLen (b :: bs) - 1 ≤ bs.length := Nat.sub_le_of_le_add hl
          rw [scan_deliver hh hj, scan_deliver hh' (judge_append_deliver hj), frame_append h₆ hl,
            expectLen_append (by omega), List.cons_append, List.tail_cons, hi hk]
          rfl

-- Either no candidate has begun, or the scanner has to wait for the rest of it.
def Waiting (c : List UInt8) : Prop :=
  c = [] ∨ judge c = .wait

theorem waiting_scan (k : Nat) (bs : List UInt8) : Waiting (scan k bs).2 := by
  induction bs generalizing k
  case nil =>
    cases k
    all_goals exact .inl rfl
  case cons b bs hi =>
    cases k
    case succ k => exact hi _
    case zero =>
      by_cases hb : b = frameHead
      case neg =>
        rw [scan_cons_of_ne hb]
        exact hi _
      case pos =>
        have hh : (b :: bs).head? = some frameHead := by rw [hb]; rfl
        cases hj : judge (b :: bs)
        case wait => exact scan_wait hh hj ▸ .inr hj
        case reject =>
          rw [scan_reject hh hj]
          exact hi _
        case deliver =>
          rw [scan_deliver hh hj]
          exact hi _

theorem scan_dropWhile : scan 0 (bs.dropWhile (!· == frameHead)) = scan 0 bs := by
  induction bs
  case nil => rfl
  case cons b bs hi =>
    by_cases hb : b = frameHead
    case pos => simp [hb]
    case neg => simpa [hb, scan_cons_of_ne hb] using hi

-- No head in these bytes can begin a frame anymore.
def Barren (bs : List UInt8) : Prop :=
  ∀ c ∈ bs.tails, c.head? = some frameHead → judge c = .reject

instance : Decidable (Barren bs) :=
  inferInstanceAs (Decidable <| ∀ c ∈ bs.tails, _)

theorem barren_cons :
    Barren (byte :: bs) ↔ (byte = frameHead → judge (byte :: bs) = .reject) ∧ Barren bs := by
  simp [Barren]

theorem scan_eq_nil_iff : scan 0 bs = ([], []) ↔ Barren bs := by
  induction bs
  case nil => simp [scan, Barren]
  case cons b bs hi =>
    rw [barren_cons]
    by_cases hb : b = frameHead
    case neg => simp [scan_cons_of_ne hb, hb, hi]
    case pos =>
      have hh : (b :: bs).head? = some frameHead := by rw [hb]; rfl
      cases hj : judge (b :: bs)
      case wait =>
        rw [scan_wait hh hj]
        simp [hb]
      case deliver =>
        rw [scan_deliver hh hj]
        simp [hb]
      case reject => simp [scan_reject hh hj, hi]

theorem length_scan (k : Nat) (bs : List UInt8) : (scan k bs).2.length ≤ bs.length := by
  induction bs generalizing k
  case nil => simp [scan]
  case cons b bs hi =>
    have hi' {k} : (scan k bs).2.length ≤ (b :: bs).length := Nat.le_succ_of_le (hi k)
    cases k
    case succ k => exact hi'
    case zero =>
      rw [scan]
      split
      case isFalse => exact hi'
      case isTrue =>
        split
        case h_1 => exact Nat.le_refl _
        case h_2 | h_3 => exact hi'

theorem scan_eq_self_iff (hh : c.head? = some frameHead) : scan 0 c = ([], c) ↔ judge c = .wait := by
  cases hj : judge c
  case wait    => simp [scan_wait hh hj]
  case deliver => simp [scan_deliver hh hj]
  case reject  =>
    have ⟨bs, hc⟩ := List.head?_eq_some_iff.mp hh
    rw [scan_reject hh hj, hc, List.tail_cons]
    refine iff_of_false (fun hs => ?_) (by simp)
    have hl := length_scan 0 bs
    rw [hs] at hl
    exact Nat.not_succ_le_self _ hl

-- The parser may throw bytes away only if no frame can begin in them, and what it keeps must be a
-- candidate that has to wait: it does not look again at a type, and whether the candidate is complete
-- is found out only when the next byte arrives.
@[mk_iff]
structure Clean (c : List UInt8) (byte : UInt8) : Prop where
  badType : c.length = 2 → isKnownType byte = false → Barren (c ++ [byte]).tail
  dropped : Fails (c ++ [byte]) → 2 ≤ (rest <| c ++ [byte]).length →
    expectLen (rest <| c ++ [byte]) < 6 → Barren (rest <| c ++ [byte]).tail
  kept    : Fails (c ++ [byte]) → 6 ≤ expectLen (rest <| c ++ [byte]) →
    judge (rest <| c ++ [byte]) = .wait

instance : Decidable (Clean c byte) :=
  decidable_of_iff' _ <| clean_iff c byte

theorem Clean.of_not_fails (hk : c.length = 2 → isKnownType byte = true)
    (hf : ¬Fails (c ++ [byte])) : Clean c byte where
  badType hc hn := absurd hn (by simp [hk hc])
  dropped h     := absurd h hf
  kept h        := absurd h hf

theorem not_fails_of_lt (h : c.length + 1 < expectLen (c ++ [byte])) : ¬Fails (c ++ [byte]) := by
  intro hf
  have hl := hf.right.left
  rw [List.length_append, List.length_singleton] at hl
  omega

theorem Waiting.cases (h : Waiting c) (h₃ : 3 ≤ c.length) :
    isKnownType (c.getD 2 0) = true ∧ c.length < expectLen c := by
  have hj := judge_eq_wait_iff.mp <| h.resolve_left <| List.ne_nil_of_length_pos (by omega)
  exact hj.resolve_left (by omega) |>.right.resolve_left (by omega)

theorem Waiting.isKnownType_concat (byte : UInt8) (h : Waiting c)
    (hb : c.length = 2 → isKnownType byte = true) (h₂ : 2 ≤ c.length) :
    isKnownType ((c ++ [byte]).getD 2 0) = true :=
  Candidate.isKnownType_concat byte (fun h₃ => (h.cases h₃).left) hb h₂

theorem judge_badType (hi : Inv c) (hc : c.length = 2) (hk : isKnownType byte = false) :
    judge (c ++ [byte]) = .reject := by
  have h₆ : 6 ≤ expectLen (c ++ [byte]) := by
    rw [expectLen_append (by omega)]
    exact hi.expectLen_ge (by omega)
  refine judge_eq_reject_iff.mpr <| .inr <| .inl ⟨by simp [hc], h₆, ?_⟩
  rwa [getD_concat_two hc]

theorem Waiting.judge_wait (h : Waiting c) (hc : c ≠ [])
    (hk : c.length = 2 → isKnownType byte = true) (h₆ : 6 ≤ expectLen (c ++ [byte]))
    (hlt : c.length + 1 < expectLen (c ++ [byte])) : judge (c ++ [byte]) = .wait := by
  have hp := List.length_pos_iff.mpr hc
  rw [judge_eq_wait_iff, List.length_append, List.length_singleton]
  refine .inr ⟨h₆, ?_⟩
  by_cases h₁ : c.length = 1
  case pos => exact .inl (by omega)
  case neg => exact .inr ⟨h.isKnownType_concat byte hk (by omega), hlt⟩

theorem Waiting.judge_deliver (h : Waiting c) (h₆ : 6 ≤ expectLen (c ++ [byte]))
    (hl : expectLen (c ++ [byte]) ≤ c.length + 1) (hg : isGood (c ++ [byte]) = true) :
    judge (c ++ [byte]) = .deliver := by
  have hk := h.isKnownType_concat byte (by omega) (by omega)
  exact judge_eq_deliver_iff.mpr ⟨hk, h₆, by simpa using hl, hg⟩

theorem Waiting.judge_fails (h : Waiting c) (hf : Fails (c ++ [byte])) (hl : 5 ≤ c.length) :
    judge (c ++ [byte]) = .reject := by
  have hk := h.isKnownType_concat byte (by omega) (by omega)
  exact judge_eq_reject_iff.mpr <| .inr <| .inr ⟨hk, hf⟩

theorem scan_rest (h : c.head? = some frameHead) (hj : judge c = .reject) :
    scan 0 c = scan 0 (rest c) := by
  rw [scan_reject h hj, rest, scan_dropWhile]

theorem scan_resync_iff : scan 0 (rest c) = ([], resync c) ↔
    (2 ≤ (rest c).length → expectLen (rest c) < 6 → Barren (rest c).tail) ∧
    (6 ≤ expectLen (rest c) → judge (rest c) = .wait) := by
  by_cases hr : rest c = []
  case pos => simp [hr, resync, scan, expectLen]
  case neg =>
    have hh := head?_rest hr
    unfold resync
    split
    case isTrue hl =>
      have h₆ : ¬6 ≤ expectLen (rest c) := by omega
      rw [scan_reject hh (judge_eq_reject_iff.mpr <| .inl hl), scan_eq_nil_iff]
      simp [hl, h₆]
    case isFalse hl =>
      rw [scan_eq_self_iff hh]
      by_cases h₂ : 2 ≤ (rest c).length
      case pos =>
        have h₆ : 6 ≤ expectLen (rest c) := by omega
        simp [h₆, Nat.not_lt.mpr h₆]
      case neg =>
        have hw : judge (rest c) = .wait := judge_eq_wait_iff.mpr <| .inl <| by omega
        simp [hw, h₂]

-- With one more byte, the parser does what the scanner does exactly if the step is clean.
theorem scan_eq_step_iff (hi : Inv c) (hw : Waiting c) :
    scan 0 (c ++ [byte]) = (delivered (step c byte).2.toList, (step c byte).1) ↔ Clean c byte := by
  have hh : c ≠ [] → (c ++ [byte]).head? = some frameHead := head?_concat byte hi
  have hs := hi.step_spec byte
  generalize step c byte = s at hs ⊢
  cases hs
  case skip hc hb =>
    refine iff_of_true ?_ <| .of_not_fails (by simp [hc]) (by simp [hc, Fails, expectLen])
    rw [hc, List.nil_append, scan_cons_of_ne hb]
    rfl
  case start hc hb =>
    refine iff_of_true ?_ <| .of_not_fails (by simp [hc]) (by simp [hc, Fails, expectLen])
    rw [hc, hb]
    rfl
  case badLength hc hl =>
    obtain ⟨a, ha⟩ := List.length_eq_one_iff.mp hc
    have hb : byte ≠ frameHead := fun hb => by
      rw [ha, hb] at hl
      contradiction
    refine iff_of_true ?_ <| .of_not_fails (by omega) (fun hf => Nat.not_le.mpr hl hf.left)
    rw [scan_reject (hh <| by simp [ha]) (judge_eq_reject_iff.mpr <| .inl ⟨by simp [ha], hl⟩), ha]
    exact scan_cons_of_ne hb
  case badType hc hk =>
    have hn : c ≠ [] := List.ne_nil_of_length_pos (by omega)
    have hf : ¬Fails (c ++ [byte]) := fun hf => by
      have hl := hf.left.trans hf.right.left
      rw [List.length_append, hc, List.length_singleton] at hl
      omega
    rw [scan_reject (hh hn) (judge_badType hi hc hk), clean_iff]
    simp only [hc, hk, hf, false_implies, and_true, true_implies]
    exact scan_eq_nil_iff
  case wait hc hk h₆ hlt =>
    refine iff_of_true ?_ <| .of_not_fails hk (not_fails_of_lt hlt)
    exact scan_wait (hh hc) (hw.judge_wait hc hk h₆ hlt)
  case deliver h₆ hl hg =>
    have hn : c ≠ [] := List.ne_nil_of_length_pos (by omega)
    -- The scanner has not waited for more than the frame.
    have hlt := (hw.cases (by omega)).right
    rw [←expectLen_append (d := [byte]) (by omega)] at hlt
    refine iff_of_true ?_ <| .of_not_fails (by omega) (by simp [Fails, hg])
    rw [scan_deliver (hh hn) (hw.judge_deliver h₆ hl hg), scan_skip,
      List.drop_of_length_le (by simp; omega)]
    rfl
  case reject hf =>
    have hl : 5 ≤ c.length := by
      have := hf.left.trans hf.right.left
      rw [List.length_append, List.length_singleton] at this
      omega
    have hn : c ≠ [] := List.ne_nil_of_length_pos (by omega)
    rw [scan_rest (hh hn) (hw.judge_fails hf hl), clean_iff, delivered_forceFinish, scan_resync_iff]
    simp [hf, show c.length ≠ 2 by omega]

-- The frames that have been found and the bytes that are kept are those of the scanner.
def Tracks (bs : List UInt8) : Prop :=
  scan 0 bs = (delivered (Mealy.feed step [] bs).2, (Mealy.feed step [] bs).1)

theorem feed_inv : Inv (Mealy.feed step [] bs).1 := by
  refine Mealy.feed_invariant (P := fun _ _ => Inv) .nil (.of_forall fun _ _ => trivial) ?_
  exact fun _ hi => hi.step _

theorem Tracks.concat_iff (h : Tracks bs) :
    Tracks (bs ++ [byte]) ↔ Clean (Mealy.feed step [] bs).1 byte := by
  have hw := waiting_scan 0 bs
  rw [h] at hw
  rw [←scan_eq_step_iff feed_inv hw, Tracks, scan_concat (Nat.zero_le _), h, Mealy.feed_concat,
    delivered_append]
  simp [Prod.ext_iff]

theorem along_clean_iff : Mealy.Along step Clean [] bs ↔ ∀ l, l <+: bs → Tracks l := by
  induction bs using List.reverseRecOn
  case nil =>
    refine iff_of_true trivial fun l hl => ?_
    rw [List.prefix_nil.mp hl]
    rfl
  case append_singleton bs byte hi =>
    rw [Mealy.along_append, hi]
    refine ⟨fun ⟨ht, hc⟩ l hl => ?_, fun h => ⟨fun l hl => ?_, ?_, trivial⟩⟩
    case refine_1 =>
      cases List.prefix_concat_iff.mp hl
      case inl hl => exact hl ▸ (ht _ List.prefix_rfl).concat_iff.mpr hc.left
      case inr hl => exact ht l hl
    case refine_2 => exact h l <| hl.trans <| List.prefix_append ..
    case refine_3 =>
      have ht := h bs <| List.prefix_append ..
      exact ht.concat_iff.mp <| h _ List.prefix_rfl

end Scanner

namespace Parser

variable {p : Parser} {bs : List UInt8}

def Clean (p : Parser) (byte : UInt8) : Prop :=
  Scanner.Clean (Store.read p.temp 0 p.index) byte

instance : Decidable (Clean p byte) :=
  inferInstanceAs (Decidable <| Scanner.Clean ..)

-- As long as all steps are clean, and no longer, the parser is where the scanner is.
theorem along_clean_iff (hp : p.index = 0) : Mealy.Along parseByte Clean p bs ↔ ∀ l, l <+: bs →
    Scanner.scan 0 l = (delivered (Mealy.feed parseByte p l).2,
      Store.read (Mealy.feed parseByte p l).1.temp 0 (Mealy.feed parseByte p l).1.index) := by
  refine (Rep.idle hp).along_iff Scanner.Clean bs |>.trans ?_
  refine Scanner.along_clean_iff.trans <| forall₂_congr fun l _ => ?_
  have ⟨he, hr⟩ := (Rep.idle hp).feed l
  rw [he, hr.view, Scanner.Tracks]

-- After every byte, the idle parser has found the frames that the scanner finds.
theorem delivered_eq_frames (p : Parser) (bs : List UInt8) (hp : p.index = 0)
    (h : Mealy.Along parseByte Clean p bs) :
    ∀ l, l <+: bs → delivered (Mealy.feed parseByte p l).2 = Scanner.frames l := by
  intro l hl
  rw [Scanner.frames, along_clean_iff hp |>.mp h l hl]

-- Noise, a head with a bad length, and a frame that begins inside of a candidate that fails.
def noise : List UInt8 :=
  [0x00, 0xAA, 0x03, 0xAA, 0x08, 0x01, 0xAA, 0x06, 0x01, 0x00, 0x00, 0x55, 0xAA]

theorem delivered_eq_frames_noise :
    (∀ l, l <+: noise → delivered (Mealy.feed parseByte .init l).2 = Scanner.frames l) ∧
    Scanner.frames noise = [⟨6, [0xAA, 0x06, 0x01, 0x00, 0x00, 0x55]⟩] :=
  ⟨delivered_eq_frames .init noise rfl (by decide +kernel), by decide +kernel⟩

-- The second head stands where the type of the first candidate is expected, and is thrown away with it.
def swallowed : List UInt8 :=
  [0xAA, 0x06, 0xAA, 0x06, 0x01, 0x00, 0x00, 0x55]

theorem not_delivered_eq_frames_swallowed :
    delivered (Mealy.feed parseByte .init swallowed).2 ≠ Scanner.frames swallowed := by
  decide +kernel

end Parser

end App.UartCmd

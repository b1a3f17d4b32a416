import Mathlib.Data.List.Basic
import Mathlib.Data.List.Induction

-- Machines that read one symbol at a time and may emit something for each of them.
namespace Mealy

variable {σ τ ι ο : Type} {step : σ → ι → σ × Option ο} {s s' : σ} {i : ι} {is is₁ is₂ : List ι}
  {Q : σ → ι → Prop}

def feed (step : σ → ι → σ × Option ο) (s : σ) : List ι → σ × List ο
  | []      => (s, [])
  | i :: is => ((feed step (step s i).1 is).1, (step s i).2.toList ++ (feed step (step s i).1 is).2)

@[simp]
theorem feed_nil : feed step s [] = (s, []) := rfl

theorem feed_cons : feed step s (i :: is) =
    ((feed step (step s i).1 is).1, (step s i).2.toList ++ (feed step (step s i).1 is).2) := rfl

theorem feed_append : feed step s (is₁ ++ is₂) =
    ((feed step (feed step s is₁).1 is₂).1,
      (feed step s is₁).2 ++ (feed step (feed step s is₁).1 is₂).2) := by
  induction is₁ generalizing s
  case nil => simp
  case cons i is hi => simp [feed_cons, hi]

theorem feed_concat : feed step s (is ++ [i]) =
    ((step (feed step s is).1 i).1, (feed step s is).2 ++ (step (feed step s is).1 i).2.toList) := by
  simp [feed_append, feed_cons]

-- Every step that is taken satisfies a condition on the state before it and on the symbol.
def Along (step : σ → ι → σ × Option ο) (Q : σ → ι → Prop) (s : σ) : List ι → Prop
  | []      => True
  | i :: is => Q s i ∧ Along step Q (step s i).1 is

instance decidableAlong [h : ∀ s i, Decidable (Q s i)] (s : σ) :
    (is : List ι) → Decidable (Along step Q s is)
  | []      => isTrue trivial
  | i :: is =>
    have := decidableAlong (h := h) (step s i).1 is
    inferInstanceAs (Decidable <| Q s i ∧ Along step Q (step s i).1 is)

theorem Along.of_forall (h : ∀ s i, Q s i) : Along step Q s is := by
  induction is generalizing s
  case nil => trivial
  case cons i is hi => exact ⟨h s i, hi⟩

theorem along_append :
    Along step Q s (is₁ ++ is₂) ↔ Along step Q s is₁ ∧ Along step Q (feed step s is₁).1 is₂ := by
  induction is₁ generalizing s
  case nil => simp [Along]
  case cons i is hi => simp [Along, feed_cons, hi, and_assoc]

-- The invariant rule. The invariant may speak about what has been read and emitted so far.
theorem feed_invariant {P : List ι → List ο → σ → Prop} (h₀ : P [] [] s) (hq : Along step Q s is)
    (hs : ∀ {is os s i}, Q s i → P is os s →
      P (is ++ [i]) (os ++ (step s i).2.toList) (step s i).1) :
    P is (feed step s is).2 (feed step s is).1 := by
  induction is using List.reverseRecOn
  case nil => exact h₀
  case append_singleton is i hi =>
    have ⟨hq₁, hq₂⟩ := along_append.mp hq
    rw [feed_concat]
    exact hs hq₂.left (hi hq₁)

-- Forward simulation: related states emit the same, so the machines behave alike on every input.
theorem feed_sim {step' : τ → ι → τ × Option ο} {t : τ} (R : σ → τ → Prop) (h : R s t)
    (hs : ∀ {s t i}, R s t → (step s i).2 = (step' t i).2 ∧ R (step s i).1 (step' t i).1) :
    (feed step s is).2 = (feed step' t is).2 ∧ R (feed step s is).1 (feed step' t is).1 := by
  induction is generalizing s t
  case nil => exact ⟨rfl, h⟩
  case cons i is hi =>
    have ⟨ho, hr⟩ := hs (i := i) h
    have ⟨ho', hr'⟩ := hi hr
    exact ⟨by simp [feed_cons, ho, ho'], hr'⟩

theorem along_sim {step' : τ → ι → τ × Option ο} {Q' : τ → ι → Prop} {t : τ} (R : σ → τ → Prop)
    (h : R s t) (hs : ∀ {s t i}, R s t → R (step s i).1 (step' t i).1)
    (hq : ∀ {s t i}, R s t → (Q s i ↔ Q' t i)) : Along step Q s is ↔ Along step' Q' t is := by
  induction is generalizing s t
  case nil => rfl
  case cons i is hi => exact and_congr (hq h) (hi (hs h))

-- A consumer that acts on everything the machine emits.
def drive (step : σ → ι → σ × Option ο) (act : τ → ο → τ) (p : σ × τ) (i : ι) : σ × τ :=
  ((step p.1 i).1, (step p.1 i).2.toList.foldl act p.2)

theorem foldl_drive {act : τ → ο → τ} {t : τ} : is.foldl (drive step act) (s, t) =
    ((feed step s is).1, (feed step s is).2.foldl act t) := by
  induction is generalizing s t
  case nil => rfl
  case cons i is hi => simp [drive, feed_cons, hi]

end Mealy

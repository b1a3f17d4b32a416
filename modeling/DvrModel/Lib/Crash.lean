import Mathlib.Logic.Basic

-- Computations over a state `σ` that a loss of power may cut off at any point. A computation that is
-- cut off has no result, but it leaves a state behind.
structure Crash (σ α : Type) where
  run : σ → Option α × σ

namespace Crash

variable {σ α β : Type} {x : Crash σ α} {f : α → Crash σ β} {s s' : σ}

instance : Monad (Crash σ) where
  pure a   := ⟨fun s => (some a, s)⟩
  bind x f := ⟨fun s =>
    match x.run s with
    | (some a, s') => (f a).run s'
    | (none, s')   => (none, s')⟩

def get : Crash σ σ :=
  ⟨fun s => (some s, s)⟩

@[simp]
theorem run_pure {a : α} : (pure a : Crash σ α).run s = (some a, s) := rfl

theorem run_bind_some {a : α} (h : x.run s = (some a, s')) : (x >>= f).run s = (f a).run s' := by
  show (match x.run s with | (some a, s') => (f a).run s' | (none, s') => (none, s')) = _
  rw [h]

theorem run_bind_none (h : x.run s = (none, s')) : (x >>= f).run s = (none, s') := by
  show (match x.run s with | (some a, s') => (f a).run s' | (none, s') => (none, s')) = _
  rw [h]

theorem run_bind_eq_some {b : β} {s'' : σ} (h : (x >>= f).run s = (some b, s'')) :
    ∃ a s', x.run s = (some a, s') ∧ (f a).run s' = (some b, s'') := by
  rcases hr : x.run s with ⟨_ | a, s'⟩
  case none => simp [run_bind_none hr] at h
  case some => exact ⟨a, s', rfl, run_bind_some hr ▸ h⟩

@[simp]
theorem run_get_bind {f : σ → Crash σ β} : (get >>= f).run s = (f s).run s := rfl

-- The weakest precondition. The postcondition speaks about the result, if there is one, and about the
-- state that is left behind.
def wp (x : Crash σ α) (Q : Option α → σ → Prop) (s : σ) : Prop :=
  Q (x.run s).1 (x.run s).2

variable {Q R : Option α → σ → Prop}

@[simp]
theorem wp_pure {a : α} : wp (pure a : Crash σ α) Q s ↔ Q (some a) s := .rfl

theorem wp_bind {Q : Option β → σ → Prop} :
    wp (x >>= f) Q s ↔ wp x (fun r s' => r.elim (Q none s') (fun a => wp (f a) Q s')) s := by
  rcases h : x.run s with ⟨_ | a, s'⟩
  · simp [wp, run_bind_none h, h]
  · simp [wp, run_bind_some h, h]

theorem wp_mono (h : wp x Q s) (hi : ∀ r s', Q r s' → R r s') : wp x R s :=
  hi _ _ h

theorem wp_ite {c : Prop} [Decidable c] {y : Crash σ α} (ht : c → wp x Q s) (hf : ¬c → wp y Q s) :
    wp (if c then x else y) Q s := by
  split
  case isTrue h  => exact ht h
  case isFalse h => exact hf h

-- The computation preserves a property of the state, also when it is cut off.
def Keeps (P : σ → Prop) (x : Crash σ α) : Prop :=
  ∀ s, P s → P (x.run s).2

namespace Keeps

variable {P : σ → Prop}

theorem pure {a : α} : Keeps P (Pure.pure a : Crash σ α) :=
  fun _ h => h

theorem get : Keeps P Crash.get :=
  fun _ h => h

theorem bind (hx : Keeps P x) (hf : ∀ a, Keeps P (f a)) : Keeps P (x >>= f) := by
  intro s h
  rcases hr : x.run s with ⟨_ | a, s'⟩ <;> have hs := hx s h <;> rw [hr] at hs
  case none => rwa [run_bind_none hr]
  case some =>
    rw [run_bind_some hr]
    exact hf a s' hs

theorem ite {c : Prop} [Decidable c] {y : Crash σ α} (hx : Keeps P x) (hy : Keeps P y) :
    Keeps P (if c then x else y) := by
  split
  case isTrue  => exact hx
  case isFalse => exact hy

end Keeps

-- Every result of the computation has a property, whatever state it starts from.
def Returns (P : α → Prop) (x : Crash σ α) : Prop :=
  ∀ s a, (x.run s).1 = some a → P a

namespace Returns

variable {P : α → Prop} {R : β → Prop}

theorem pure {a : α} (h : P a) : Returns P (Pure.pure a : Crash σ α) := by
  intro s b hb
  cases hb
  exact h

theorem bind (hx : Returns P x) (hf : ∀ a, P a → Returns R (f a)) : Returns R (x >>= f) := by
  intro s b hb
  rcases hr : x.run s with ⟨_ | a, s'⟩
  case none => simp [run_bind_none hr] at hb
  case some =>
    rw [run_bind_some hr] at hb
    exact hf a (hx s a <| by rw [hr]) s' b hb

-- Nothing needs to be known about the first part.
theorem bind_any (hf : ∀ a, Returns R (f a)) : Returns R (x >>= f) :=
  bind (P := fun _ => True) (fun _ _ _ => trivial) fun a _ => hf a

theorem ite {c : Prop} [Decidable c] {y : Crash σ α} (hx : c → Returns P x) (hy : ¬c → Returns P y) :
    Returns P (if c then x else y) := by
  split
  case isTrue h  => exact hx h
  case isFalse h => exact hy h

theorem and {P' : α → Prop} (h : Returns P x) (h' : Returns P' x) : Returns (fun a => P a ∧ P' a) x :=
  fun s a ha => ⟨h s a ha, h' s a ha⟩

theorem mono {P' : α → Prop} (h : Returns P x) (hi : ∀ a, P a → P' a) : Returns P' x :=
  fun s a ha => hi a (h s a ha)

end Returns

-- The computation is not cut off, and its result and the state that it leaves behind are as stated.
def Yields (x : Crash σ α) (Q : α → σ → Prop) (s : σ) : Prop :=
  ∃ a s', x.run s = (some a, s') ∧ Q a s'

namespace Yields

variable {Q Q' : α → σ → Prop} {R : β → σ → Prop}

theorem pure {a : α} (h : Q a s) : Yields (Pure.pure a) Q s :=
  ⟨a, s, rfl, h⟩

theorem bind (hx : Yields x Q s) (hf : ∀ a s', Q a s' → Yields (f a) R s') : Yields (x >>= f) R s := by
  obtain ⟨a, s', hr, hq⟩ := hx
  obtain ⟨b, s'', hr', hq'⟩ := hf a s' hq
  exact ⟨b, s'', (run_bind_some hr).trans hr', hq'⟩

theorem ite {c : Prop} [Decidable c] {y : Crash σ α} (hx : c → Yields x Q s) (hy : ¬c → Yields y Q s) :
    Yields (if c then x else y) Q s := by
  split
  case isTrue h  => exact hx h
  case isFalse h => exact hy h

theorem mono (h : Yields x Q s) (hi : ∀ a s', Q a s' → Q' a s') : Yields x Q' s := by
  obtain ⟨a, s', hr, hq⟩ := h
  exact ⟨a, s', hr, hi a s' hq⟩

theorem and_returns {P : α → Prop} (h : Yields x Q s) (hp : Returns P x) :
    Yields x (fun a s' => Q a s' ∧ P a) s := by
  obtain ⟨a, s', hr, hq⟩ := h
  exact ⟨a, s', hr, hq, hp s a (by rw [hr])⟩

theorem of_run (h : Yields x Q s) {a : α} (hr : x.run s = (some a, s')) : Q a s' := by
  obtain ⟨b, s'', hr', hq⟩ := h
  cases hr.symm.trans hr'
  exact hq

end Yields

end Crash

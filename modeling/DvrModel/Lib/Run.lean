import Mathlib.Data.List.Basic
import Mathlib.Data.List.TakeDrop

namespace Lts

-- One step of a transition system, together with the label that caused it.
structure Edge (σ ι : Type) where
  src   : σ
  label : ι
  dst   : σ

-- The finite runs of `tr` from `s₀`. A run is indexed by the edges it takes, the latest one last, and
-- by the state it reaches.
inductive Run {σ ι : Type} (tr : σ → ι → σ → Prop) (s₀ : σ) : List (Edge σ ι) → σ → Prop
  | refl : Run tr s₀ [] s₀
  | step : Run tr s₀ es s → tr s i s' → Run tr s₀ (es ++ [⟨s, i, s'⟩]) s'

-- An element of a list with a last element is that one or comes before it.
theorem append_cons_eq_concat {ε : Type} {l r es : List ε} {e x : ε} (h : l ++ e :: r = es ++ [x]) :
    (r = [] ∧ l = es ∧ e = x) ∨ ∃ r', r = r' ++ [x] ∧ es = l ++ e :: r' := by
  rcases r.eq_nil_or_concat with rfl | ⟨r, e', rfl⟩
  case inl =>
    have ⟨hl, he⟩ := List.append_inj' h rfl
    exact .inl ⟨rfl, hl, by simpa using he⟩
  case inr =>
    rw [List.concat_eq_append, ←List.cons_append, ←List.append_assoc] at h
    have ⟨hl, he⟩ := List.append_inj' h rfl
    have he : e' = x := by simpa using he
    exact .inr ⟨r, by rw [List.concat_eq_append, he], hl.symm⟩

namespace Run

variable {σ ι : Type} {tr : σ → ι → σ → Prop} {s₀ s : σ} {e : Edge σ ι} {es l r : List (Edge σ ι)}

theorem single {i : ι} {s' : σ} (h : tr s i s') : Run tr s [⟨s, i, s'⟩] s' :=
  .step .refl h

theorem trans {es₁ es₂ : List (Edge σ ι)} {s₁ s₂ : σ}
    (r₁ : Run tr s₀ es₁ s₁) (r₂ : Run tr s₁ es₂ s₂) : Run tr s₀ (es₁ ++ es₂) s₂ := by
  induction r₂
  case refl => simpa using r₁
  case step h hi => exact List.append_assoc .. ▸ .step hi h

theorem cons {i : ι} {s' : σ} (h : tr s₀ i s') (r : Run tr s' es s) :
    Run tr s₀ (⟨s₀, i, s'⟩ :: es) s :=
  trans (single h) r

-- A run ends where its latest edge leads to.
theorem last (h : Run tr s₀ es s) : (es = [] ∧ s = s₀) ∨ ∃ l e, es = l ++ [e] ∧ e.dst = s := by
  cases h
  case refl => exact .inl ⟨rfl, rfl⟩
  case step => exact .inr ⟨_, _, rfl, rfl⟩

-- Every edge of a run cuts it into the run before, the step itself and the run after.
theorem split (h : Run tr s₀ (l ++ e :: r) s) :
    Run tr s₀ l e.src ∧ tr e.src e.label e.dst ∧ Run tr e.dst r s := by
  generalize hes : l ++ e :: r = es at h
  induction h generalizing r
  case refl => simp at hes
  case step es s i s' h ht hi =>
    rcases append_cons_eq_concat hes with ⟨rfl, rfl, rfl⟩ | ⟨r, rfl, rfl⟩
    case inl => exact ⟨h, ht, .refl⟩
    case inr =>
      have ⟨h₁, h₂, h₃⟩ := hi rfl
      exact ⟨h₁, h₂, .step h₃ ht⟩

theorem src_of_cons (h : Run tr s₀ (e :: es) s) : e.src = s₀ := by
  have ⟨h, _, _⟩ := split (l := []) h
  rcases h.last with ⟨_, hs⟩ | ⟨_, _, hc, _⟩
  · exact hs
  · simp at hc

-- The invariant rule: what holds initially and is preserved by every step holds in the end.
theorem invariant {P : σ → Prop} (h₀ : P s₀) (hs : ∀ {s i s'}, tr s i s' → P s → P s')
    (h : Run tr s₀ es s) : P s := by
  induction h
  case refl => exact h₀
  case step ht hi => exact hs ht hi

-- The same rule for runs whose edges are known to satisfy a side condition `C`.
theorem invariant_of {P : σ → Prop} {C : Edge σ ι → Prop} (h₀ : P s₀)
    (hs : ∀ {s i s'}, tr s i s' → C ⟨s, i, s'⟩ → P s → P s') (h : Run tr s₀ es s)
    (hc : ∀ e ∈ es, C e) : P s := by
  induction h
  case refl => exact h₀
  case step ht hi =>
    exact hs ht (hc _ <| by simp) <| hi fun e he => hc e <| List.mem_append_left _ he

theorem step_of_mem (h : Run tr s₀ es s) (he : e ∈ es) : tr e.src e.label e.dst := by
  have ⟨l, r, hes⟩ := List.append_of_mem he
  exact (hes ▸ h).split.right.left

-- An invariant holds at the source of every edge.
theorem invariant_src {P : σ → Prop} (h₀ : P s₀) (hs : ∀ {s i s'}, tr s i s' → P s → P s')
    (h : Run tr s₀ es s) (he : e ∈ es) : P e.src := by
  have ⟨l, r, hes⟩ := List.append_of_mem he
  exact (hes ▸ h).split.left.invariant h₀ hs

end Run

-- Among the edges that satisfy `P` there is a first one.
theorem exists_first {P : ε → Prop} {es : List ε} (h : ∃ e ∈ es, P e) :
    ∃ l e r, es = l ++ e :: r ∧ P e ∧ ∀ x ∈ l, ¬P x := by
  induction es
  case nil => simp at h
  case cons hd tl hi =>
    by_cases hh : P hd
    case pos => exact ⟨[], hd, tl, rfl, hh, by simp⟩
    case neg =>
      have ⟨l, e, r, hes, he, hl⟩ := hi (by simpa [hh] using h)
      refine ⟨hd :: l, e, r, by simp [hes], he, ?_⟩
      simpa [hh] using hl

-- The transition system of a partial step function with outputs. Where the function is undefined, the
-- run ends.
def ofStep {σ ι ο : Type} (step : σ → ι → Option (σ × ο)) (s : σ) (l : ι × ο) (s' : σ) : Prop :=
  step s l.1 = some (s', l.2)

-- Executes a list of inputs, recording the edges taken.
def replay {σ ι ο : Type} (step : σ → ι → Option (σ × ο)) :
    σ → List ι → Option (List (Edge σ (ι × ο)) × σ)
  | s, []      => some ([], s)
  | s, i :: is => do
    let (s', o) ← step s i
    let (es, s'') ← replay step s' is
    return (⟨s, (i, o), s'⟩ :: es, s'')

theorem replay_run {σ ι ο : Type} {step : σ → ι → Option (σ × ο)} {is : List ι} {s s' : σ}
    {es : List (Edge σ (ι × ο))} (h : replay step s is = some (es, s')) :
    Run (ofStep step) s es s' := by
  induction is generalizing s es
  case nil =>
    obtain ⟨rfl, rfl⟩ : es = [] ∧ s = s' := by simpa [replay, eq_comm] using h
    exact .refl
  case cons i is hi =>
    simp only [replay, bind, Option.bind_eq_some_iff] at h
    obtain ⟨⟨s₁, o⟩, hs, ⟨es', s₂⟩, hr, he⟩ := h
    obtain ⟨rfl, rfl⟩ : ⟨s, (i, o), s₁⟩ :: es' = es ∧ s₂ = s' := by simpa using he
    exact .cons hs (hi hr)

-- A property that the recorded edges are found to have is a property of some run.
theorem exists_run_of_replay {σ ι ο : Type} (step : σ → ι → Option (σ × ο)) (s : σ) (is : List ι)
    (p : List (Edge σ (ι × ο)) × σ → Bool) (h : (replay step s is).any p = true) :
    ∃ es s', Run (ofStep step) s es s' ∧ p (es, s') = true := by
  cases hr : replay step s is
  case none => simp [hr] at h
  case some r => exact ⟨r.1, r.2, replay_run hr, by simpa [hr] using h⟩

-- The same for step functions without outputs.
def trace {σ ι : Type} (step : σ → ι → Option σ) : σ → List ι → Option (List (Edge σ ι) × σ)
  | s, []      => some ([], s)
  | s, i :: is => do
    let s' ← step s i
    let (es, s'') ← trace step s' is
    return (⟨s, i, s'⟩ :: es, s'')

theorem trace_run {σ ι : Type} {step : σ → ι → Option σ} {is : List ι} {s s' : σ}
    {es : List (Edge σ ι)} (h : trace step s is = some (es, s')) :
    Run (fun s i s' => step s i = some s') s es s' := by
  induction is generalizing s es
  case nil =>
    obtain ⟨rfl, rfl⟩ : es = [] ∧ s = s' := by simpa [trace, eq_comm] using h
    exact .refl
  case cons i is hi =>
    simp only [trace, bind, Option.bind_eq_some_iff] at h
    obtain ⟨s₁, hs, ⟨es', s₂⟩, hr, he⟩ := h
    obtain ⟨rfl, rfl⟩ : ⟨s, i, s₁⟩ :: es' = es ∧ s₂ = s' := by simpa using he
    exact .cons hs (hi hr)

theorem exists_run_of_trace {σ ι : Type} (step : σ → ι → Option σ) (s : σ) (is : List ι)
    (p : List (Edge σ ι) × σ → Bool) (h : (trace step s is).any p = true) :
    ∃ es s', Run (fun s i s' => step s i = some s') s es s' ∧ p (es, s') = true := by
  cases hr : trace step s is
  case none => simp [hr] at h
  case some r => exact ⟨r.1, r.2, trace_run hr, by simpa [hr] using h⟩

-- The run of a total step function.
def record {σ ι : Type} (step : σ → ι → σ) : σ → List ι → List (Edge σ ι)
  | _, []      => []
  | s, i :: is => ⟨s, i, step s i⟩ :: record step (step s i) is

theorem record_run {σ ι : Type} (step : σ → ι → σ) (s : σ) (is : List ι) :
    Run (step · · = ·) s (record step s is) (is.foldl step s) := by
  induction is generalizing s
  case nil => exact .refl
  case cons i is hi => exact .cons rfl (hi _)

-- What the latest edge that satisfies `p` had to offer.
def latest {ε τ : Type} (p : ε → Option τ) : List ε → Option τ
  | []      => none
  | e :: es => (latest p es).or (p e)

@[simp]
theorem latest_nil {ε τ : Type} (p : ε → Option τ) : latest p [] = none := rfl

@[simp]
theorem latest_concat {ε τ : Type} (p : ε → Option τ) (es : List ε) (e : ε) :
    latest p (es ++ [e]) = (p e).or (latest p es) := by
  induction es
  case nil => simp [latest]
  case cons hd tl hi => simp [latest, hi, Option.or_assoc]

theorem mem_of_latest {ε τ : Type} {p : ε → Option τ} {es : List ε} {t : τ}
    (h : latest p es = some t) : ∃ e ∈ es, p e = some t := by
  induction es
  case nil => simp at h
  case cons hd tl hi =>
    rcases Option.or_eq_some_iff.mp h with h | ⟨_, h⟩
    · have ⟨e, he, ht⟩ := hi h
      exact ⟨e, List.mem_cons_of_mem _ he, ht⟩
    · exact ⟨hd, List.mem_cons_self, h⟩

-- After some prefix of the labels `P` has happened, and none of the later ones satisfies `Q`.
def Since {ι : Type} (P : List ι → ι → Prop) (Q : ι → Prop) (is : List ι) : Prop :=
  ∃ l i r, is = l ++ i :: r ∧ P l i ∧ ∀ j ∈ r, ¬Q j

theorem not_since_nil {ι : Type} {P : List ι → ι → Prop} {Q : ι → Prop} : ¬Since P Q [] := by
  intro ⟨l, i, r, h, _⟩
  simp at h

theorem since_concat {ι : Type} {P : List ι → ι → Prop} {Q : ι → Prop} {is : List ι} {i : ι} :
    Since P Q (is ++ [i]) ↔ P is i ∨ (¬Q i ∧ Since P Q is) := by
  constructor
  case mp =>
    rintro ⟨l, j, r, h, hp, hq⟩
    rcases append_cons_eq_concat h.symm with ⟨rfl, rfl, rfl⟩ | ⟨r, rfl, rfl⟩
    case inl => exact .inl hp
    case inr =>
      have hi := hq i <| List.mem_append_right _ (List.mem_singleton_self i)
      exact .inr ⟨hi, l, j, r, rfl, hp, fun x hx => hq x <| List.mem_append_left _ hx⟩
  case mpr =>
    rintro (hp | ⟨hn, l, j, r, rfl, hp, hq⟩)
    case inl => exact ⟨is, i, [], rfl, hp, by simp⟩
    case inr =>
      refine ⟨l, j, r ++ [i], by simp, hp, fun x hx => ?_⟩
      rcases List.mem_append.mp hx with hx | hx
      · exact hq x hx
      · exact List.mem_singleton.mp hx ▸ hn

end Lts

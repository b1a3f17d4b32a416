import DvrModel.Svc.Storage.Theorems.Config

namespace Svc.Storage

open Eeprom

namespace Field

def load : (f : Field) → Io (Bool × f.Value)
  | localPhone  => loadLocalPhone
  | plateClass  => loadPlateClass
  | plateColor  => loadPlateColor
  | plateNumber => loadPlateNumber

theorem load_eq (f : Field) : f.load = loadField f.get := by
  cases f <;> rfl

end Field

-- The calls of the storage service.
inductive Call
  | load      (k : Kind)
  | save      (k : Kind) (v : k.Value)
  | loadField (f : Field)
  | saveField (f : Field) (v : f.Value)

namespace Call

def Result : Call → Type
  | load k      => Bool × k.Value
  | save ..     => Bool
  | loadField f => Bool × f.Value
  | saveField _ _ => Bool

def exec : (c : Call) → Io c.Result
  | load k        => k.load
  | save k v      => k.save v
  | loadField f   => f.load
  | saveField f v => f.save v

-- Executes calls one after the other and collects their results.
def execAll : List Call → Io (List (Σ c : Call, c.Result))
  | []      => return []
  | c :: cs => do
    let r ← c.exec
    let rs ← execAll cs
    return ⟨c, r⟩ :: rs

end Call

-- What the storage service is for: one cell for each kind, which is empty until something valid is
-- there.
abbrev Cells := (k : Kind) → Option k.Value

namespace Cells

variable {cs : Cells} {k : Kind}

-- An empty cell holds the default.
def value (cs : Cells) (k : Kind) : k.Value :=
  (cs k).getD k.layout.fallback

def set (cs : Cells) (k : Kind) (v : k.Value) : Cells :=
  Function.update cs k (some v)

theorem set_self {v : k.Value} : cs.set k v k = some v :=
  Function.update_self ..

theorem value_set_self {v : k.Value} : (cs.set k v).value k = v := by
  rw [value, set_self, Option.getD_some]

theorem set_eq_self {v : k.Value} (h : cs k = some v) : cs.set k v = cs := by
  rw [set, ←h]
  exact Function.update_eq_self k cs

-- Each call concerns a single cell. The saves of a field concern nothing but that field, and they are
-- rejected only for their argument.
def call (cs : Cells) : (c : Call) → c.Result × Cells
  | .load k        => (((cs k).isSome || k.layout.fallbackResult, cs.value k), cs)
  | .save k v      => if k.layout.accepts v then (true, cs.set k v) else (false, cs)
  | .loadField f   => (((cs .config).isSome, f.get (cs.value .config)), cs)
  | .saveField f v =>
    if f.valid v then (true, cs.set .config (f.set (cs.value .config) v)) else (false, cs)

def callAll (cs : Cells) : List Call → List (Σ c : Call, c.Result) × Cells
  | []      => ([], cs)
  | c :: t => (⟨c, (cs.call c).1⟩ :: ((cs.call c).2.callAll t).1, ((cs.call c).2.callAll t).2)

-- The cells that the memory of a device makes up.
def ofDevice (d : Device) : Cells :=
  fun k => k.layout.stored d

end Cells

namespace Layout

variable {L : Layout α} {L' : Layout β} {v : α} {d : Device}

-- On a fault-free bus.
section FaultFree

variable (hd : d.Sound (· = ⟨.ack, true⟩))

include hd

theorem load_run_faultFree : (L.load.run d).1 =
    some ((L.stored d).isSome || L.fallbackResult, (L.stored d).getD L.fallback) := by
  rw [show (L.load.run d).1 = _ from load_spec.of_ack hd.bus hd.readReply, ofRead_area]
  cases L.stored d <;> rfl

theorem save_run_faultFree (ha : L.accepts v = true) :
    ((L.save v).run d).1 = some true ∧ L.stored ((L.save v).run d).2 = some v := by
  have hl : L.left v d = L.record v := by simp [left, hd.writes]
  refine ⟨(save_spec ha hd.bus).success.mpr ⟨?_, hd.readReply, ?_⟩, stored_save ha hd.bus hd.writes⟩
  · simp [WritesAcked, hd.writes]
  · rw [hl, recordIsValid_record ha]

end FaultFree

-- Records that do not overlap.
def Apart (L : Layout α) (L' : Layout β) : Prop :=
  L'.addr + L'.size ≤ L.addr ∨ L.addr + L.size ≤ L'.addr

instance : Decidable (Apart L L') :=
  inferInstanceAs (Decidable <| _ ∨ _)

theorem stored_save_apart (h : Apart L L') : L'.stored ((L.save v).run d).2 = L'.stored d := by
  have ha : L'.area ((L.save v).run d).2 = L'.area d := by
    refine Store.read_congr fun k hk => ?_
    refine save_frame ?_ d rfl
    cases h
    case inl h => exact .inl (by omega)
    case inr h => exact .inr (by omega)
  rw [stored, ha, stored]

end Layout

namespace Kind

theorem apart {k k' : Kind} (h : k' ≠ k) : k.layout.Apart k'.layout := by
  cases k <;> cases k' <;> first | contradiction | decide

end Kind

theorem Call.exec_sound {F : Fate → Prop} (c : Call) : Crash.Keeps (Device.Sound F) c.exec := by
  cases c <;> rw [exec]
  case load k => exact k.load_eq ▸ Layout.load_sound
  case save k _ => exact k.save_eq ▸ Layout.save_sound
  case loadField f => exact f.load_eq ▸ .bind Layout.load_sound fun _ => .pure
  case saveField f _ =>
    exact f.save_eq ▸ .ite .pure (.bind Layout.load_sound fun _ => Layout.save_sound)

namespace Cells

variable {d : Device} {k : Kind} {v : k.Value} {f : Field} {w : f.Value}

theorem ofDevice_congr {d' : Device} (h : d'.mem = d.mem) : ofDevice d' = ofDevice d :=
  funext fun _ => Layout.stored_congr h

variable (hd : d.Sound (· = ⟨.ack, true⟩))

include hd

-- A load delivers the value of its cell and leaves all cells as they are.
theorem load_refines : (k.load.run d).1 = some ((ofDevice d).call (.load k)).1 ∧
    ofDevice (k.load.run d).2 = ofDevice d := by
  rw [Kind.load_eq]
  exact ⟨Layout.load_run_faultFree hd, ofDevice_congr Layout.load_spec.mem⟩

theorem save_refines : (k.save v |>.run d).1 = some ((ofDevice d).call (.save k v)).1 ∧
    ofDevice (k.save v |>.run d).2 = ((ofDevice d).call (.save k v)).2 := by
  rw [Kind.save_eq]
  cases ha : k.layout.accepts v
  case false =>
    rw [Layout.save_run_of_not_accepts ha]
    simp only [call, ha, Bool.false_eq_true, if_false]
    exact ⟨rfl, trivial⟩
  case true =>
    have ⟨hr, hs⟩ := Layout.save_run_faultFree hd ha
    simp only [call, ha, if_true]
    refine ⟨hr, funext fun k' => ?_⟩
    by_cases hk : k' = k
    case pos =>
      subst hk
      rw [set, Function.update_self]
      exact hs
    case neg =>
      rw [set, Function.update_of_ne hk]
      exact Layout.stored_save_apart (Kind.apart hk)

omit hd in
theorem configValid_value : configValid ((ofDevice d).value .config) = true := by
  show configValid ((config.stored d).getD defaultConfig) = true
  cases h : config.stored d
  case none => exact Field.configValid_defaultConfig
  case some => exact Layout.accepts_of_stored h

theorem loadConfig_run : ∃ d', loadConfig.run d =
    (some ((ofDevice d .config).isSome, (ofDevice d).value .config), d') ∧
    d'.Sound (· = ⟨.ack, true⟩) ∧ ofDevice d' = ofDevice d := by
  have hr : (loadConfig.run d).1 = _ := Layout.load_run_faultFree hd
  refine ⟨_, Prod.ext (hr.trans ?_) rfl, Layout.load_sound d hd, ofDevice_congr Layout.load_spec.mem⟩
  rw [show config.fallbackResult = false from rfl, Bool.or_false]
  rfl

theorem loadField_refines : (f.load.run d).1 = some ((ofDevice d).call (.loadField f)).1 ∧
    ofDevice (f.load.run d).2 = ofDevice d := by
  have ⟨d', hl, _, hc⟩ := loadConfig_run hd
  rw [Field.load_eq, loadField, Crash.run_bind_some hl]
  exact ⟨rfl, hc⟩

-- A save of a field reads the cell of the configuration and writes it again.
theorem saveField_refines : (f.save w |>.run d).1 = some ((ofDevice d).call (.saveField f w)).1 ∧
    ofDevice (f.save w |>.run d).2 = ((ofDevice d).call (.saveField f w)).2 := by
  cases hv : f.valid w
  case false =>
    have hs : (f.save w).run d = (some false, d) := by simp [Field.save_eq, saveField, hv]
    simp only [hs, call, hv, Bool.false_eq_true, if_false]
    exact ⟨rfl, trivial⟩
  case true =>
    obtain ⟨d', hl, hd', hc⟩ := loadConfig_run hd
    have ha : Kind.config.layout.accepts (f.set ((ofDevice d).value .config) w) = true :=
      Field.valid_set configValid_value hv
    have hs := save_refines (k := .config) (v := f.set ((ofDevice d).value .config) w) hd'
    simp only [call, ha, if_true, hc] at hs
    rw [Field.save_run_some hv hl]
    simp only [call, hv, if_true]
    exact hs

theorem call_refines (c : Call) : (c.exec.run d).1 = some ((ofDevice d).call c).1 ∧
    ofDevice (c.exec.run d).2 = ((ofDevice d).call c).2 := by
  cases c
  case load      => exact load_refines hd
  case save      => exact save_refines hd
  case loadField => exact loadField_refines hd
  case saveField => exact saveField_refines hd

theorem callAll_refines (cs : List Call) :
    ((Call.execAll cs).run d).1 = some ((ofDevice d).callAll cs).1 ∧
    ofDevice ((Call.execAll cs).run d).2 = ((ofDevice d).callAll cs).2 := by
  induction cs generalizing d
  case nil => exact ⟨rfl, rfl⟩
  case cons c cs hi =>
    have ⟨hr, hc⟩ := call_refines hd c
    have ⟨hr', hc'⟩ := hi (c.exec_sound d hd)
    rw [hc] at hr' hc'
    have h₁ : c.exec.run d = (some _, (c.exec.run d).2) := Prod.ext hr rfl
    have h₂ : (Call.execAll cs).run (c.exec.run d).2 = (some _, _) := Prod.ext hr' rfl
    rw [Call.execAll, Crash.run_bind_some h₁, Crash.run_bind_some h₂]
    exact ⟨rfl, hc'⟩

end Cells

-- The cell that a call may change.
def Call.Saves : Call → Kind → Prop
  | .save k _, k'      => k' = k
  | .saveField _ _, k' => k' = .config
  | _, _               => False

namespace Cells

variable {cs : Cells} {c : Call} {k : Kind} {f g : Field} {w : f.Value}

theorem call_of_not_saves (h : ¬c.Saves k) : (cs.call c).2 k = cs k := by
  cases c
  case load | loadField => rfl
  case save k' v =>
    simp only [call]
    split
    case isTrue => exact Function.update_of_ne h ..
    case isFalse => rfl
  case saveField f v =>
    simp only [call]
    split
    case isTrue => exact Function.update_of_ne h ..
    case isFalse => rfl

theorem call_saveField_of_ne (h : g ≠ f) :
    g.get ((cs.call (.saveField f w)).2.value .config) = g.get (cs.value .config) := by
  simp only [call]
  split
  case isTrue =>
    exact (congrArg g.get value_set_self).trans (Field.get_set_of_ne h)
  case isFalse => rfl

end Cells

-- On a fault-free bus the records behave like independent cells, whatever the memory holds at first.
theorem calls_refine_cells {d : Device} (hd : d.Sound (· = ⟨.ack, true⟩)) (calls : List Call) :
    ((Call.execAll calls).run d).1 = some ((Cells.ofDevice d).callAll calls).1 ∧
    Cells.ofDevice ((Call.execAll calls).run d).2 = ((Cells.ofDevice d).callAll calls).2 ∧
    (∀ (cs : Cells) (c : Call) (k : Kind), ¬c.Saves k → (cs.call c).2 k = cs k) ∧
    ∀ (cs : Cells) (f g : Field) (w : f.Value), g ≠ f →
      g.get ((cs.call (.saveField f w)).2.value .config) = g.get (cs.value .config) := by
  have ⟨hr, hc⟩ := Cells.callAll_refines hd calls
  exact ⟨hr, hc, fun _ _ _ => Cells.call_of_not_saves, fun _ _ _ _ => Cells.call_saveField_of_ne⟩

-- A device that has never been written to.
def blank : Device where
  bus      := true
  mem _    := 0xFF
  ptr      := 0
  writes _ := ⟨.ack, true⟩
  reads _  := .ack

def firstCalls : List Call :=
  [.load .mileage, .saveField .plateColor (3 : UInt8), .save .mileage (⟨7, 0, 0⟩ : Mileage),
    .loadField .localPhone]

theorem calls_refine_cells_firstCalls :
    ((Call.execAll firstCalls).run blank).1 = some ((Cells.ofDevice blank).callAll firstCalls).1 ∧
    Cells.ofDevice ((Call.execAll firstCalls).run blank).2 =
      ((Cells.ofDevice blank).callAll firstCalls).2 :=
  have h := calls_refine_cells (d := blank) ⟨rfl, fun _ => rfl, fun _ => rfl⟩ firstCalls
  ⟨h.left, h.right.left⟩

end Svc.Storage

import DvrModel.App.UartCmd.Status
import DvrModel.Svc.Storage.Theorems.Cells

open Crash (Yields)

namespace Svc.Storage

open Eeprom

-- What the storage service does while no transfer fails.
abbrev FaultFree (d : Device) : Prop :=
  d.Sound (· = ⟨.ack, true⟩)

-- The device has only been read from.
structure OnlyRead (d d' : Device) : Prop where
  faultFree : FaultFree d'
  mem       : d'.mem = d.mem

namespace OnlyRead

variable {d d' d'' : Device}

theorem refl (h : FaultFree d) : OnlyRead d d :=
  ⟨h, rfl⟩

theorem trans (h : OnlyRead d d') (h' : OnlyRead d' d'') : OnlyRead d d'' :=
  ⟨h'.faultFree, h'.mem.trans h.mem⟩

theorem cells (h : OnlyRead d d') : Cells.ofDevice d' = Cells.ofDevice d :=
  Cells.ofDevice_congr h.mem

end OnlyRead

variable {d : Device}

theorem load_yields {L : Layout α} (hd : FaultFree d) : Yields L.load (fun r d' =>
    r = ((L.stored d).isSome || L.fallbackResult, (L.stored d).getD L.fallback) ∧ OnlyRead d d') d :=
  ⟨_, _, Prod.ext (Layout.load_run_faultFree hd) rfl, rfl, Layout.load_sound d hd, Layout.load_spec.mem⟩

-- Where a fallback does not count as a success, the result tells whether something is stored.
theorem load_yields_stored {L : Layout α} (hf : L.fallbackResult = false) (hd : FaultFree d) :
    Yields L.load (fun r d' =>
      r = ((L.stored d).isSome, (L.stored d).getD L.fallback) ∧ OnlyRead d d') d := by
  refine (load_yields hd).mono fun r d' ⟨hr, hd'⟩ => ⟨?_, hd'⟩
  rw [hr, hf, Bool.or_false]

theorem loadField_yields {φ : Type} {get : Config → φ} (hd : FaultFree d) :
    Yields (loadField get) (fun r d' =>
      r = ((config.stored d).isSome, get ((config.stored d).getD defaultConfig)) ∧ OnlyRead d d') d := by
  refine (load_yields_stored rfl hd).bind fun r d' ⟨hr, hd'⟩ => .pure ⟨?_, hd'⟩
  rw [hr]
  rfl

-- What has been loaded successfully has been accepted.
theorem accepts_of_load {L : Layout α} {r : Bool × α}
    (hr : r = ((L.stored d).isSome, (L.stored d).getD L.fallback)) :
    r.1 = true → L.accepts r.2 = true := by
  subst hr
  cases hs : L.stored d
  case none => simp
  case some => exact fun _ => Layout.accepts_of_stored hs

theorem valid_of_loadField {f : Field} {r : Bool × f.Value}
    (hr : r = ((config.stored d).isSome, f.get ((config.stored d).getD defaultConfig))) :
    f.valid r.2 = true := by
  subst hr
  exact f.valid_get Cells.configValid_value

-- The value of each cell goes into what is reported.
def Cells.status (cs : Cells) : App.UartCmd.ConfigStatus :=
  .ofStored (cs.value .config) (cs.value .vin) (cs.value .provinceId) (cs.value .cityId)

theorem refreshStatusConfig_yields (hd : FaultFree d) : Yields App.UartCmd.refreshStatusConfig
    (fun c d' => c = (Cells.ofDevice d).status ∧ OnlyRead d d') d := by
  refine (load_yields hd).bind fun c d₁ ⟨hc, h₁⟩ => ?_
  refine (load_yields h₁.faultFree).bind fun v d₂ ⟨hv, h₂⟩ => ?_
  refine (load_yields h₂.faultFree).bind fun p d₃ ⟨hp, h₃⟩ => ?_
  refine (load_yields h₃.faultFree).bind fun q d₄ ⟨hq, h₄⟩ => .pure ⟨?_, ?_⟩
  · rw [hc, hv, hp, hq, Layout.stored_congr h₁.mem, Layout.stored_congr (h₁.trans h₂).mem,
      Layout.stored_congr (h₁.trans <| h₂.trans h₃).mem]
    rfl
  · exact h₁.trans <| h₂.trans <| h₃.trans h₄

-- A save that is rejected does not change anything.
def Saves (save : Io Bool) : Prop :=
  ∀ d, FaultFree d → Yields save (fun r d' =>
    FaultFree d' ∧ (r = false → Cells.ofDevice d' = Cells.ofDevice d)) d

theorem save_yields {k : Kind} {v : k.Value} (hd : FaultFree d) : Yields (k.save v) (fun r d' =>
    FaultFree d' ∧ (r, Cells.ofDevice d') = (Cells.ofDevice d).call (.save k v)) d := by
  have ⟨hr, hc⟩ := Cells.save_refines (v := v) hd
  exact ⟨_, _, Prod.ext hr rfl, Call.exec_sound (.save k v) d hd, Prod.ext rfl hc⟩

theorem saveField_yields {f : Field} {v : f.Value} (hd : FaultFree d) : Yields (f.save v) (fun r d' =>
    FaultFree d' ∧ (r, Cells.ofDevice d') = (Cells.ofDevice d).call (.saveField f v)) d := by
  have ⟨hr, hc⟩ := Cells.saveField_refines (w := v) hd
  exact ⟨_, _, Prod.ext hr rfl, Call.exec_sound (.saveField f v) d hd, Prod.ext rfl hc⟩

theorem Saves.save (k : Kind) (v : k.Value) : Saves (k.save v) := by
  refine fun d hd => (save_yields hd).mono fun r d' ⟨hd', hc⟩ => ⟨hd', fun hr => ?_⟩
  simp only [Cells.call] at hc
  split at hc
  · have := congrArg Prod.fst hc
    simp [hr] at this
  · exact congrArg Prod.snd hc

theorem Saves.saveField (f : Field) (v : f.Value) : Saves (f.save v) := by
  refine fun d hd => (saveField_yields hd).mono fun r d' ⟨hd', hc⟩ => ⟨hd', fun hr => ?_⟩
  simp only [Cells.call] at hc
  split at hc
  · have := congrArg Prod.fst hc
    simp [hr] at this
  · exact congrArg Prod.snd hc

-- A save that is not rejected, and the cells that it leaves behind.
def Puts (save : Io Bool) (d : Device) (cs : Cells) : Prop :=
  Yields save (fun r d' => r = true ∧ FaultFree d' ∧ Cells.ofDevice d' = cs) d

theorem Puts.save {k : Kind} {v : k.Value} (hd : FaultFree d) (hv : k.layout.accepts v = true) :
    Puts (k.save v) d ((Cells.ofDevice d).set k v) := by
  refine (save_yields hd).mono fun r d' ⟨hd', hc⟩ => ?_
  rw [Cells.call, if_pos hv] at hc
  exact ⟨congrArg Prod.fst hc, hd', congrArg Prod.snd hc⟩

theorem Puts.saveField {f : Field} {v : f.Value} (hd : FaultFree d) (hv : f.valid v = true) :
    Puts (f.save v) d ((Cells.ofDevice d).set .config (f.set ((Cells.ofDevice d).value .config) v)) := by
  refine (saveField_yields hd).mono fun r d' ⟨hd', hc⟩ => ?_
  rw [Cells.call, if_pos hv] at hc
  exact ⟨congrArg Prod.fst hc, hd', congrArg Prod.snd hc⟩

end Svc.Storage

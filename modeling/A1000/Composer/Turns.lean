import A1000.Composer.Device

/-!
# What a step of the adapter does

Every input either leaves displays and layers alone, or does one of a few things to them. Whatever
is kept by these is kept by every step.

## Main definitions

* `Adapter.Device.Happens` — what a step can do

## Main results

* `Adapter.Device.happens_of_step` — what it has done
-/

namespace A1000

namespace Adapter

namespace Device

open Composer

variable {F : Type*}

/-- The client is told something. -/
def Call.Tells : Call F → Prop
  | .refresh _ => True
  | .vsync _ _ => True
  | .hotplug _ _ => True
  | _ => False

/-- Nothing has happened to displays and layers. -/
structure Sys.Same (s t : Sys F) : Prop where
  layer : t.layer = s.layer
  nextLayer : t.nextLayer = s.nextLayer
  known : t.known = s.known
  display : t.display = s.display
  nextDisplay : t.nextDisplay = s.nextDisplay
  displayMap : t.displayMap = s.displayMap
  virtualDisplay : t.virtualDisplay = s.virtualDisplay
  contents : t.contents = s.contents

theorem Sys.Same.refl (s : Sys F) : s.Same s := ⟨rfl, rfl, rfl, rfl, rfl, rfl, rfl, rfl⟩

/-- An input that has not changed where a layer stands. -/
def Still (s : Sys F) (e : Error) : Input F → Prop
  | .createLayer _ => e ≠ .none
  | .destroyLayer _ _ => e ≠ .none
  | .updateLayerZ d l z =>
    e = .none → ∃ x, s.display d = some x ∧ l ∈ x.layers ∧ (s.layer l).z = z
  | _ => True

/-- Of a display, only what the client sets for the display has changed. -/
structure Display.Rest (x y : Display F) : Prop where
  hwc1Id : y.hwc1Id = x.hwc1Id
  layers : y.layers = x.layers
  layerMap : y.layerMap = x.layerMap
  requested : y.requested = x.requested
  contents : y.contents = x.contents
  changes : y.changes = x.changes
  geometryChanged : y.geometryChanged = x.geometryChanged

/-- What the client is told, or is kept for it. -/
inductive Hears (s : Sys F) : Input F → Sys F → List (Call F) → Prop
  | nothing {i : Input F} : Hears s i s []
  | registered (c : Callback) (pointer : Bool) :
      Hears s (.registerCallback c pointer) (registerCallback s c pointer).1
        (registerCallback s c pointer).2
  | invalidate : Hears s .hwc1Invalidate (hwc1Invalidate s).1 (hwc1Invalidate s).2
  | vsync (c : ℕ) (timestamp : ℤ) :
      Hears s (.hwc1Vsync c timestamp) (hwc1Vsync s c timestamp).1 (hwc1Vsync s c timestamp).2
  | kept {there : ℤ} (unregistered : ¬ s.callbacks .hotplug = true) :
      Hears s (.hwc1Hotplug hwcDisplayExternal there)
        { s with pendingHotplugs := s.pendingHotplugs ++ [(hwcDisplayExternal, there)] } []

/-- **What a step can do.** -/
inductive Happens (env : Env F) (s : Sys F) : Input F → Sys F → Output F → Prop
  | quiet {i : Input F} {t : Sys F} {o : Output F} (same : s.Same t) (still : Still s o.error i)
      (tells : ∀ c ∈ o.calls, c.Tells) (hears : Hears s i t o.calls) : Happens env s i t o
  | addedVirtual (free : s.virtualDisplay = none) :
      Happens env s .createVirtualDisplay
        { s.addDisplay hwcDisplayVirtual with virtualDisplay := some s.nextDisplay }
        ⟨.none, some s.nextDisplay, []⟩
  | addedExternal {there : ℤ} (hthere : there ≠ 0) (free : s.displayMap hwcDisplayExternal = none)
      (registered : s.callbacks .hotplug = true) :
      Happens env s (.hwc1Hotplug hwcDisplayExternal there) (s.addDisplay hwcDisplayExternal)
        ⟨.none, none, [.hotplug s.nextDisplay connected]⟩
  | removedVirtual {d : ℕ} (hd : s.virtualDisplay = some d) :
      Happens env s (.destroyVirtualDisplay d)
        { s.removeDisplay hwcDisplayVirtual d with virtualDisplay := none } .ok
  | removedExternal {d : ℕ} (hd : s.displayMap hwcDisplayExternal = some d)
      (registered : s.callbacks .hotplug = true) :
      Happens env s (.hwc1Hotplug hwcDisplayExternal 0) (s.removeDisplay hwcDisplayExternal d)
        ⟨.none, none, [.hotplug d disconnected]⟩
  | createdLayer {d : ℕ} {x : Display F} (there : s.display d = some x) :
      Happens env s (.createLayer d) (createLayer env s d) ⟨.none, some s.nextLayer, []⟩
  | destroyedLayer {d l : ℕ} {x : Display F} (there : s.display d = some x)
      (known : s.known l = true) : Happens env s (.destroyLayer d l) (destroyLayer s d l).1 .ok
  | movedLayer {d l : ℕ} {z : ℕ} {x : Display F} (there : s.display d = some x)
      (known : s.known l = true) (mem : l ∈ x.layers) (hz : (s.layer l).z ≠ z) :
      Happens env s (.updateLayerZ d l z) (updateLayerZ s d l x z).1 .ok
  | calledLayer {d l : ℕ} {call : LayerCall F} {x : Display F} (there : s.display d = some x)
      (known : s.known l = true) (own : (s.layer l).display = d) :
      Happens env s (.callLayer d l call) (callLayer env s l call) .ok
  | setDisplay {i : Input F} {d : ℕ} {x : Display F} {f : Display F → Display F}
      (there : s.display d = some x) (rest : ∀ x : Display F, x.Rest (f x))
      (still : Still s .none i) :
      Happens env s i (s.modifyDisplay d f) .ok
  | validated {d : ℕ} {x : Display F} {a₁ a₂ : Answers} {t : Sys F} {calls : List (Call F)}
      {e : Error} (there : s.display d = some x) (free : x.changes = none)
      (prepared : prepareAllDisplays env s a₁ a₂ = some (t, true, calls)) :
      Happens env s (.validate d a₁ a₂) t ⟨e, none, calls⟩
  | notPrepared {d : ℕ} {a₁ a₂ : Answers} (free : s.displayMap hwcDisplayPrimary = none) :
      Happens env s (.validate d a₁ a₂) (s.prepareEach env) (.fail .badDisplay)
  | accepted {d : ℕ} {x : Display F} {ch : Changes} (there : s.display d = some x)
      (changes : x.changes = some ch) :
      Happens env s (.acceptChanges d) (acceptChanges env s d x).1 .ok
  | notSet {d : ℕ} {x : Display F} {ch : Changes} {fences : ℕ → Fences} {t : Sys F}
      {closed : List ℤ} (there : s.display d = some x) (changes : x.changes = some ch)
      (failed : setEach s 0 s.contents = some (t, false, closed)) :
      Happens env s (.present d fences) t ⟨.notValidated, none, closed.map .close⟩
  | set {d : ℕ} {x : Display F} {ch : Changes} {fences : ℕ → Fences} {t : Sys F}
      {closed : List ℤ} (there : s.display d = some x) (changes : x.changes = some ch)
      (done : setEach s 0 s.contents = some (t, true, closed)) :
      Happens env s (.present d fences) (addEach t fences 0 t.contents).1
        ⟨.none, none, closed.map .close ++ [.set (t.shown) fences] ++
          (addEach t fences 0 t.contents).2.map .close⟩

theorem Happens.refused {env : Env F} {s : Sys F} {i : Input F} {e : Error} (he : e ≠ .none) :
    Happens env s i s (.fail e) := by
  refine .quiet (.refl s) ?_ (fun c hc => absurd hc List.not_mem_nil) .nothing
  cases i with
  | createLayer => exact he
  | destroyLayer => exact he
  | updateLayerZ => exact fun h => absurd h he
  | _ => trivial

theorem onDisplay_eq_some {s t : Sys F} {d : ℕ} {f : Display F → Option (Sys F × Output F)}
    {o : Output F} (h : onDisplay s d f = some (t, o)) :
    t = s ∧ o = .fail .badDisplay ∨ ∃ x, s.display d = some x ∧ f x = some (t, o) := by
  rw [onDisplay] at h
  cases hx : s.display d with
  | none =>
    rw [hx] at h
    cases h
    exact .inl ⟨rfl, rfl⟩
  | some x =>
    rw [hx] at h
    exact .inr ⟨x, rfl, h⟩

theorem happens_of_validate {env : Env F} {s t : Sys F} {d : ℕ} {x : Display F} {a₁ a₂ : Answers}
    {o : Output F} (hx : s.display d = some x) (h : validate env s d x a₁ a₂ = some (t, o)) :
    Happens env s (.validate d a₁ a₂) t o := by
  rw [validate] at h
  split at h
  · cases h
    exact .quiet (.refl s) trivial (fun c hc => absurd hc List.not_mem_nil) .nothing
  · rename_i hfree
    obtain ⟨⟨t', done, calls⟩, hprepared, h⟩ := Option.bind_eq_some_iff.mp h
    dsimp only at h
    split_ifs at h with hdone
    · obtain ⟨ch, -, h⟩ := Option.map_eq_some_iff.mp h
      cases h
      obtain rfl : done = true := hdone
      exact .validated hx hfree hprepared
    · cases h
      rw [prepareAllDisplays] at hprepared
      dsimp only at hprepared
      split_ifs at hprepared with hnone hgone
      · cases hprepared
        exact .notPrepared hnone
      · cases hprepared
        exact absurd rfl hdone

theorem happens_of_present {env : Env F} {s t : Sys F} {d : ℕ} {x : Display F}
    {fences : ℕ → Fences} {o : Output F} (hx : s.display d = some x)
    (h : present s x fences = some (t, o)) : Happens env s (.present d fences) t o := by
  rw [present] at h
  split at h
  · cases h
    exact .quiet (.refl s) trivial (fun c hc => absurd hc List.not_mem_nil) .nothing
  · rename_i ch hch
    obtain ⟨r, hr, h⟩ := Option.map_eq_some_iff.mp h
    cases h
    obtain ⟨⟨t', done, closed⟩, hset, hr⟩ := Option.map_eq_some_iff.mp hr
    cases done with
    | false =>
      cases hr
      exact .notSet hx hch hset
    | true =>
      cases hr
      exact .set hx hch hset

theorem happens_of_registerCallback {env : Env F} {s : Sys F} (c : Callback) (pointer : Bool) :
    Happens env s (.registerCallback c pointer) (registerCallback s c pointer).1
      ⟨.none, none, (registerCallback s c pointer).2⟩ := by
  refine .quiet ?_ trivial ?_ (.registered c pointer)
  · cases pointer <;> cases c <;> exact ⟨rfl, rfl, rfl, rfl, rfl, rfl, rfl, rfl⟩
  · intro k hk
    cases pointer with
    | false => exact absurd hk List.not_mem_nil
    | true =>
      cases c with
      | refresh =>
        replace hk : k ∈ if s.hasPendingInvalidate then s.displayIds.map .refresh else [] := hk
        split_ifs at hk
        · obtain ⟨d, -, rfl⟩ := List.mem_map.mp hk
          trivial
        · exact absurd hk List.not_mem_nil
      | vsync =>
        obtain ⟨t, -, rfl⟩ := List.mem_map.mp hk
        trivial
      | hotplug =>
        obtain ⟨t, -, rfl⟩ := List.mem_map.mp hk
        trivial

theorem happens_of_hwc1Hotplug {env : Env F} {s : Sys F} (c : ℕ) (there : ℤ) :
    Happens env s (.hwc1Hotplug c there) (hwc1Hotplug s c there).1
      ⟨.none, none, (hwc1Hotplug s c there).2⟩ := by
  have hquiet : ∀ {t : Sys F}, s.Same t → Hears s (.hwc1Hotplug c there) t [] →
      Happens env s (.hwc1Hotplug c there) t ⟨.none, none, []⟩ :=
    fun same hears => .quiet same trivial (fun k hk => absurd hk List.not_mem_nil) hears
  by_cases hc : c = hwcDisplayExternal
  · subst hc
    by_cases hregistered : s.callbacks .hotplug = true
    · rw [hwc1Hotplug, if_neg (not_not.mpr rfl), if_neg (not_not.mpr hregistered)]
      cases hmap : s.displayMap hwcDisplayExternal with
      | none =>
        dsimp only
        by_cases hthere : there = 0
        · rw [if_pos hthere]
          exact hquiet (.refl s) .nothing
        · rw [if_neg hthere]
          exact .addedExternal hthere hmap hregistered
      | some d =>
        by_cases hthere : there = 0
        · subst hthere
          exact .removedExternal hmap hregistered
        · dsimp only
          rw [if_pos hthere]
          exact hquiet (.refl s) .nothing
    · rw [hwc1Hotplug, if_neg (not_not.mpr rfl), if_pos hregistered]
      exact hquiet ⟨rfl, rfl, rfl, rfl, rfl, rfl, rfl, rfl⟩ (.kept hregistered)
  · rw [hwc1Hotplug, if_pos hc]
    exact hquiet (.refl s) .nothing

/-- **What a step has done.** -/
theorem happens_of_step {env : Env F} {s t : Sys F} {i : Input F} {o : Output F}
    (h : step env s i = some (t, o)) : Happens env s i t o := by
  have hlost : Error.badDisplay ≠ .none := by decide
  have hlayer : Error.badLayer ≠ .none := by decide
  have hvalidated : Error.notValidated ≠ .none := by decide
  cases i with
  | createVirtualDisplay =>
    rw [step] at h
    split_ifs at h with hsome
    · cases h
      exact .refused (by decide)
    · cases h
      exact .addedVirtual (Option.not_isSome_iff_eq_none.mp hsome)
  | destroyVirtualDisplay d =>
    rw [step] at h
    split_ifs at h with hne
    · cases h
      exact .refused hlost
    · cases h
      exact .removedVirtual (not_not.mp hne)
  | registerCallback c pointer =>
    cases h
    exact happens_of_registerCallback c pointer
  | createLayer d =>
    obtain ⟨rfl, rfl⟩ | ⟨x, hx, h⟩ := onDisplay_eq_some h
    · exact .refused hlost
    · cases h
      exact .createdLayer hx
  | destroyLayer d l =>
    obtain ⟨rfl, rfl⟩ | ⟨x, hx, h⟩ := onDisplay_eq_some h
    · exact .refused hlost
    · cases h
      by_cases hknown : s.known l = true
      · have herror : (destroyLayer s d l).2 = .none := by rw [destroyLayer, if_neg (by simpa)]
        rw [herror]
        exact .destroyedLayer hx hknown
      · have hsame : destroyLayer s d l = (s, .badLayer) := by rw [destroyLayer, if_pos hknown]
        rw [hsame]
        exact .refused hlayer
  | updateLayerZ d l z =>
    obtain ⟨rfl, rfl⟩ | ⟨x, hx, h⟩ := onDisplay_eq_some h
    · exact .refused hlost
    · cases h
      by_cases hknown : s.known l = true
      · by_cases hmem : l ∈ x.layers
        · by_cases hz : (s.layer l).z = z
          · have hsame : updateLayerZ s d l x z = (s, .none) := by
              rw [updateLayerZ, if_neg (not_not.mpr hknown), if_pos hmem, if_pos hz]
            rw [hsame]
            exact .quiet (.refl s) (fun _ => ⟨x, hx, hmem, hz⟩)
              (fun c hc => absurd hc List.not_mem_nil) .nothing
          · have herror : (updateLayerZ s d l x z).2 = .none := by
              rw [updateLayerZ, if_neg (not_not.mpr hknown), if_pos hmem, if_neg hz]
            rw [herror]
            exact .movedLayer hx hknown hmem hz
        · have hsame : updateLayerZ s d l x z = (s, .badLayer) := by
            rw [updateLayerZ, if_neg (not_not.mpr hknown), if_neg hmem]
          rw [hsame]
          exact .refused hlayer
      · have hsame : updateLayerZ s d l x z = (s, .badLayer) := by rw [updateLayerZ, if_pos hknown]
        rw [hsame]
        exact .refused hlayer
  | callLayer d l call =>
    obtain ⟨rfl, rfl⟩ | ⟨x, hx, h⟩ := onDisplay_eq_some h
    · exact .refused hlost
    · by_cases hknown : s.known l = true
      · rw [if_neg (not_not.mpr hknown)] at h
        obtain ⟨y, -, h⟩ := Option.bind_eq_some_iff.mp h
        split_ifs at h with hown
        · cases h
          exact .refused hlayer
        · cases h
          exact .calledLayer hx hknown (not_not.mp hown)
      · rw [if_pos hknown] at h
        cases h
        exact .refused hlayer
  | setColorTransform d identity =>
    obtain ⟨rfl, rfl⟩ | ⟨x, hx, h⟩ := onDisplay_eq_some h
    · exact .refused hlost
    · cases h
      exact .setDisplay hx (fun x => ⟨rfl, rfl, rfl, rfl, rfl, rfl, rfl⟩) trivial
  | setClientTarget d target acquireFence =>
    obtain ⟨rfl, rfl⟩ | ⟨x, hx, h⟩ := onDisplay_eq_some h
    · exact .refused hlost
    · cases h
      exact .setDisplay hx (fun x => ⟨rfl, rfl, rfl, rfl, rfl, rfl, rfl⟩) trivial
  | setOutputBuffer d buffer releaseFence =>
    obtain ⟨rfl, rfl⟩ | ⟨x, hx, h⟩ := onDisplay_eq_some h
    · exact .refused hlost
    · cases h
      exact .setDisplay hx (fun x => ⟨rfl, rfl, rfl, rfl, rfl, rfl, rfl⟩) trivial
  | validate d a₁ a₂ =>
    obtain ⟨rfl, rfl⟩ | ⟨x, hx, h⟩ := onDisplay_eq_some h
    · exact .refused hlost
    · exact happens_of_validate hx h
  | acceptChanges d =>
    obtain ⟨rfl, rfl⟩ | ⟨x, hx, h⟩ := onDisplay_eq_some h
    · exact .refused hlost
    · cases h
      cases hch : x.changes with
      | none =>
        have hsame : acceptChanges env s d x = (s, .notValidated) := by rw [acceptChanges, hch]
        rw [hsame]
        exact .refused hvalidated
      | some ch =>
        have herror : (acceptChanges env s d x).2 = .none := by rw [acceptChanges, hch]
        rw [herror]
        exact .accepted hx hch
  | present d fences =>
    obtain ⟨rfl, rfl⟩ | ⟨x, hx, h⟩ := onDisplay_eq_some h
    · exact .refused hlost
    · exact happens_of_present hx h
  | hwc1Invalidate =>
    cases h
    refine .quiet ?_ trivial ?_ .invalidate
    · rw [hwc1Invalidate]
      split_ifs
      · exact .refl s
      · exact ⟨rfl, rfl, rfl, rfl, rfl, rfl, rfl, rfl⟩
    · intro c hc
      rw [hwc1Invalidate] at hc
      split_ifs at hc
      · obtain ⟨d, -, rfl⟩ := List.mem_map.mp hc
        trivial
      · exact absurd hc List.not_mem_nil
  | hwc1Vsync c timestamp =>
    cases h
    refine .quiet ?_ trivial ?_ (.vsync c timestamp)
    · rw [hwc1Vsync]
      split_ifs
      · exact .refl s
      · exact ⟨rfl, rfl, rfl, rfl, rfl, rfl, rfl, rfl⟩
    · intro k hk
      rw [hwc1Vsync] at hk
      split_ifs at hk
      · obtain ⟨d, -, rfl⟩ := Option.map_eq_some_iff.mp (Option.mem_toList.mp hk)
        trivial
      · exact absurd hk List.not_mem_nil
  | hwc1Hotplug c there =>
    cases h
    exact happens_of_hwc1Hotplug c there

end Device

end Adapter

end A1000

import A1000.Composer.Hwc1

/-!
# One overlay at most

`HWC2On1Adapter::prepareAllDisplays` prepares all displays through the vendor's HWC 1. The vendor
must not get two layers of a display into the hardware path; so when it has put two there, they are
marked with `HWC_SKIP_LAYER` and the vendor is asked once more.

A vendor that honours the flag answers, for each layer but the target, that it goes to the GPU, or
into an overlay, or nothing, which leaves the type; it cannot make an overlay of a layer with the
flag. The displays are listed under their HWC 1 numbers.

## Main definitions

* `Adapter.prepareAllDisplays` — the function, for two answers of the vendor
* `Adapter.OneOverlay` — at most one overlay for each display, and changes that agree
* `Adapter.Spares` — the answers that keep to it

## Main results

* `Adapter.generated_agrees` — the changes always agree with the types
* `Adapter.oneOverlay_iff` — when there is one overlay at most
-/

namespace A1000

namespace Adapter

open Composer

/-! ### Layers -/

def hwcSideband : Int := 4

def hwcIsCursorLayer : UInt32 := 2

def hwcHintClearFb : UInt32 := 2

/-- The composition types of HWC 2. -/
inductive Composition
  | invalid
  | client
  | device
  | solidColor
  | cursor
  | sideband
  deriving DecidableEq, Repr

/-- A layer of HWC 2. `translucent` says that its plane alpha is less than 1. -/
structure Layer where
  id : ℕ
  compositionType : Composition
  translucent : Bool
  hasUnsupportedBackgroundColor : Bool
  deriving DecidableEq, Repr

/-- A layer of HWC 1, with its hints. -/
structure Hwc1Layer extends Composer.Layer where
  hints : UInt32
  deriving DecidableEq, Repr

def Hwc1Layer.IsOverlay (x : Hwc1Layer) : Prop := x.compositionType = hwcOverlay

instance (x : Hwc1Layer) : Decidable x.IsOverlay := inferInstanceAs (Decidable (_ = _))

/-- The layers that go to HWC 1; the target is the last one there. -/
structure Contents where
  layers : List Hwc1Layer
  target : Hwc1Layer
  deriving DecidableEq, Repr

/-- `mChanges`: the types that were changed, and the requests for layers to be cleared. -/
structure Changes where
  types : List (ℕ × Composition)
  requests : List ℕ
  deriving DecidableEq, Repr

/-- A display; its layers have different numbers. -/
structure Display where
  activeConfig : Bool
  hasColorTransform : Bool
  layers : List Layer
  ids : (layers.map Layer.id).Nodup
  contents : Option Contents
  changes : Option Changes

/-! ### Preparing -/

/-- `Layer::applyCompositionType`, on a layer of zeros. -/
def Layer.applyCompositionType (minorVersion : ℕ) (hasColorTransform : Bool) (layer : Layer) :
    Hwc1Layer :=
  -- plane alpha is supported from version 2 on
  if (minorVersion < 2 ∧ layer.translucent) ∨ hasColorTransform ∨
      layer.hasUnsupportedBackgroundColor then
    ⟨⟨hwcFramebuffer, hwcSkipLayer⟩, 0⟩
  else
    match layer.compositionType with
    | .client => ⟨⟨hwcFramebuffer, hwcSkipLayer⟩, 0⟩
    | .device => ⟨⟨hwcFramebuffer, 0⟩, 0⟩
    | .solidColor => ⟨⟨hwcFramebuffer, hwcSkipLayer⟩, 0⟩
    | .cursor => ⟨⟨hwcFramebuffer, 0⟩, if 4 ≤ minorVersion then hwcIsCursorLayer else 0⟩
    | .sideband =>
      if minorVersion < 4 then ⟨⟨hwcSideband, 0⟩, 0⟩ else ⟨⟨hwcFramebuffer, hwcSkipLayer⟩, 0⟩
    | .invalid => ⟨⟨hwcFramebuffer, hwcSkipLayer⟩, 0⟩

/-- What a display asks HWC 1 for. -/
def Display.requested (minorVersion : ℕ) (d : Display) : Contents :=
  ⟨d.layers.map (Layer.applyCompositionType minorVersion d.hasColorTransform),
    ⟨⟨hwcFramebufferTarget, 0⟩, 0⟩⟩

/-- `Display::prepare`. -/
def Display.prepare (minorVersion : ℕ) (d : Display) : Option Display :=
  if d.activeConfig then some { d with contents := some (d.requested minorVersion) } else none

/-! ### The vendor -/

/-- The types the vendor may give to a layer. -/
inductive Given
  | framebuffer
  | overlay
  deriving DecidableEq, Repr

/-- What the vendor does to a layer: it may give it a type, and sets its hints. -/
structure LayerAnswer where
  type : Option Given
  hints : UInt32
  deriving DecidableEq, Repr

/-- The answers of one call, by display and layer. -/
abbrev Answers := ℕ → ℕ → LayerAnswer

/-- A layer with the flag is not made an overlay. -/
def Hwc1Layer.given (x : Hwc1Layer) (a : LayerAnswer) : Hwc1Layer :=
  { x with
    hints := a.hints
    compositionType :=
      match a.type with
      | none => x.compositionType
      | some .framebuffer => hwcFramebuffer
      | some .overlay => if x.Skipped then x.compositionType else hwcOverlay }

def Contents.given (k : Contents) (a : ℕ → LayerAnswer) : Contents :=
  { k with layers := k.layers.mapIdx fun l x => x.given (a l) }

/-- The vendor's `prepare`. -/
def vendorPrepare (a : Answers) (cs : List (Option Contents)) : List (Option Contents) :=
  cs.mapIdx fun c k => k.map fun k => k.given (a c)

/-! ### The change -/

/-- The number of overlays, not counting the target. -/
def Contents.overlays (k : Contents) : ℕ := k.layers.countP (·.IsOverlay)

/-- An overlay is taken back. -/
def Hwc1Layer.mark (x : Hwc1Layer) : Hwc1Layer :=
  if x.IsOverlay then
    { x with compositionType := hwcFramebuffer, flags := x.flags ||| hwcSkipLayer }
  else x

/-- When there are two overlays, all of them are taken back. -/
def Contents.mark (k : Contents) : Contents :=
  if k.overlays < 2 then k else { k with layers := k.layers.map Hwc1Layer.mark }

/-- `Display::updateTypeChanges`. -/
def updateTypeChanges (x : Hwc1Layer) (layer : Layer) : List (ℕ × Composition) :=
  if x.compositionType = hwcFramebuffer then
    if layer.compositionType ≠ .client then [(layer.id, .client)] else []
  else if x.compositionType = hwcOverlay then
    if layer.compositionType ≠ .device then [(layer.id, .device)] else []
  else []

/-- `Display::updateLayerRequests`. -/
def updateLayerRequests (x : Hwc1Layer) (layer : Layer) : List ℕ :=
  if x.hints &&& hwcHintClearFb ≠ 0 then [layer.id] else []

/-- `Display::generateChanges`; there is no layer for the target. -/
def generateChanges (layers : List Layer) (k : Contents) : Changes where
  types := (layers.zip k.layers).flatMap fun t => updateTypeChanges t.2 t.1
  requests := (layers.zip k.layers).flatMap fun t => updateLayerRequests t.2 t.1

/-- A display gets its contents back. -/
def Display.receive (d : Display) (k : Contents) : Display :=
  { d with contents := some k, changes := some (generateChanges d.layers k) }

/-- What the vendor's answers make of the contents. -/
def vendorTypes (a₁ a₂ : Answers) (cs : List (Option Contents)) : List (Option Contents) :=
  let cs := vendorPrepare a₁ cs
  let needRepeat := cs.any fun k => k.any fun k => 2 ≤ k.overlays
  let cs := cs.map (Option.map Contents.mark)
  if needRepeat then vendorPrepare a₂ cs else cs

/-- All displays are prepared; `none` when one of them cannot be. -/
def prepareDisplays (minorVersion : ℕ) : List (Option Display) → Option (List (Option Display))
  | [] => some []
  | none :: ds => (prepareDisplays minorVersion ds).map (none :: ·)
  | some d :: ds =>
    (d.prepare minorVersion).bind fun d => (prepareDisplays minorVersion ds).map (some d :: ·)

/-- The contents go back to the display they are of. -/
def receive? : Option Display → Option Contents → Option Display
  | some d, some k => some (d.receive k)
  | o, _ => o

/-- `HWC2On1Adapter::prepareAllDisplays`; `none` when it returns false. -/
def prepareAllDisplays (minorVersion : ℕ) (ds : List (Option Display)) (a₁ a₂ : Answers) :
    Option (List (Option Display)) :=
  (prepareDisplays minorVersion ds).bind fun ds =>
    match ds with
    | some primary :: others =>
      let ds := some primary :: others
      let cs := vendorTypes a₁ a₂ (ds.map (Option.bind · Display.contents))
      some (List.zipWith receive? ds cs)
    | _ => none

/-! ### What is wanted -/

/-- A layer is of the type `t`, or becomes so through one change. -/
def Listed (ch : Changes) (layer : Layer) (t : Composition) : Prop :=
  (layer.compositionType = t ∧ ch.types.filter (·.1 = layer.id) = []) ∨
    ch.types.filter (·.1 = layer.id) = [(layer.id, t)]

/-- The changes agree with the types of the layers. -/
structure Agrees (d : Display) (k : Contents) (ch : Changes) : Prop where
  length : k.layers.length = d.layers.length
  client : ∀ (i : ℕ) (layer : Layer) (x : Hwc1Layer), d.layers[i]? = some layer →
    k.layers[i]? = some x → x.compositionType = hwcFramebuffer → Listed ch layer .client
  device : ∀ (i : ℕ) (layer : Layer) (x : Hwc1Layer), d.layers[i]? = some layer →
    k.layers[i]? = some x → x.IsOverlay → Listed ch layer .device

/-- **One overlay at most** on every display, and the changes agree with the types. -/
def OneOverlay (minorVersion : ℕ) (ds : List (Option Display)) (a₁ a₂ : Answers) : Prop :=
  ∀ ds', prepareAllDisplays minorVersion ds a₁ a₂ = some ds' → ∀ d, some d ∈ ds' →
    ∃ k ch, d.contents = some k ∧ d.changes = some ch ∧ k.overlays ≤ 1 ∧ Agrees d k ch

/-! ### The changes -/

theorem fst_of_mem_updateTypeChanges {x : Hwc1Layer} {layer : Layer} {c : ℕ × Composition}
    (h : c ∈ updateTypeChanges x layer) : c.1 = layer.id := by
  rw [updateTypeChanges] at h
  split_ifs at h <;> simp_all

/-- The changes of a layer are the ones that were made for it. -/
theorem filter_generated {layers : List Layer} {xs : List Hwc1Layer} {i : ℕ} {layer : Layer}
    {x : Hwc1Layer} (ids : (layers.map Layer.id).Nodup) (hlayer : layers[i]? = some layer)
    (hx : xs[i]? = some x) :
    ((layers.zip xs).flatMap fun t => updateTypeChanges t.2 t.1).filter (·.1 = layer.id) =
      updateTypeChanges x layer := by
  induction layers generalizing xs i with
  | nil => simp at hlayer
  | cons layer₀ layers ih =>
    cases xs with
    | nil => simp at hx
    | cons x₀ xs =>
      simp only [List.map_cons, List.nodup_cons, List.mem_map, not_exists, not_and] at ids
      rw [List.zip_cons_cons, List.flatMap_cons, List.filter_append]
      cases i with
      | zero =>
        simp only [List.getElem?_cons_zero, Option.some.injEq] at hlayer hx
        subst hlayer hx
        have hhead : (updateTypeChanges x₀ layer₀).filter (·.1 = layer₀.id) =
            updateTypeChanges x₀ layer₀ :=
          List.filter_eq_self.mpr fun c hc => decide_eq_true (fst_of_mem_updateTypeChanges hc)
        have htail : ((layers.zip xs).flatMap fun t => updateTypeChanges t.2 t.1).filter
            (·.1 = layer₀.id) = [] := by
          refine List.filter_eq_nil_iff.mpr fun c hc heq => ?_
          obtain ⟨t, ht, hc⟩ := List.mem_flatMap.mp hc
          refine ids.1 t.1 (List.of_mem_zip ht).1 ?_
          rw [← fst_of_mem_updateTypeChanges hc, of_decide_eq_true heq]
        rw [hhead, htail, List.append_nil]
      | succ i =>
        simp only [List.getElem?_cons_succ] at hlayer hx
        have hhead : (updateTypeChanges x₀ layer₀).filter (·.1 = layer.id) = [] := by
          refine List.filter_eq_nil_iff.mpr fun c hc heq => ?_
          refine ids.1 layer (List.mem_of_getElem? hlayer) ?_
          rw [← of_decide_eq_true heq, fst_of_mem_updateTypeChanges hc]
        rw [hhead, List.nil_append, ih ids.2 hlayer hx]

/-- **The changes agree with the types** the layers have come back with. -/
theorem generated_agrees {d : Display} {k : Contents} (h : k.layers.length = d.layers.length) :
    Agrees d k (generateChanges d.layers k) := by
  refine ⟨h, fun i layer x hlayer hx htype => ?_, fun i layer x hlayer hx htype => ?_⟩
  · have hfilter := filter_generated d.ids hlayer hx
    rw [updateTypeChanges, if_pos htype] at hfilter
    by_cases hclient : layer.compositionType = .client
    · rw [if_neg (not_not.mpr hclient)] at hfilter
      exact .inl ⟨hclient, hfilter⟩
    · rw [if_pos hclient] at hfilter
      exact .inr hfilter
  · have hfilter := filter_generated d.ids hlayer hx
    have hne : x.compositionType ≠ hwcFramebuffer := fun heq => by
      rw [Hwc1Layer.IsOverlay, heq] at htype
      cases htype
    rw [updateTypeChanges, if_neg hne, if_pos (show x.compositionType = hwcOverlay from htype)]
      at hfilter
    by_cases hdevice : layer.compositionType = .device
    · rw [if_neg (not_not.mpr hdevice)] at hfilter
      exact .inl ⟨hdevice, hfilter⟩
    · rw [if_pos hdevice] at hfilter
      exact .inr hfilter

/-! ### The overlays -/

/-- A layer with the flag is no overlay. -/
def Contents.Honest (k : Contents) : Prop := ∀ x ∈ k.layers, x.Skipped → ¬ x.IsOverlay

theorem not_isOverlay_applyCompositionType (minorVersion : ℕ) (hasColorTransform : Bool)
    (layer : Layer) : ¬ (layer.applyCompositionType minorVersion hasColorTransform).IsOverlay := by
  rw [Layer.applyCompositionType]
  cases layer.compositionType <;> dsimp only <;> split_ifs <;> decide

/-- What the vendor makes an overlay. -/
theorem isOverlay_given (x : Hwc1Layer) (a : LayerAnswer) :
    (x.given a).IsOverlay ↔
      a.type = none ∧ x.IsOverlay ∨ a.type = some .overlay ∧ (x.Skipped → x.IsOverlay) := by
  rcases a with ⟨_ | _ | _, hints⟩
  · simp [Hwc1Layer.given, Hwc1Layer.IsOverlay]
  · simp [Hwc1Layer.given, Hwc1Layer.IsOverlay, hwcFramebuffer, hwcOverlay]
  · by_cases hskip : x.Skipped <;> simp [Hwc1Layer.given, Hwc1Layer.IsOverlay, hskip]

theorem honest_requested (minorVersion : ℕ) (d : Display) (a : ℕ → LayerAnswer) :
    ((d.requested minorVersion).given a).Honest := by
  intro y hy hskip hov
  obtain ⟨l, hl, rfl⟩ := List.mem_mapIdx.mp hy
  have hno : ¬ ((d.requested minorVersion).layers[l]).IsOverlay := by
    simp only [Display.requested, List.getElem_map]
    exact not_isOverlay_applyCompositionType _ _ _
  rcases (isOverlay_given _ _).mp hov with ⟨-, hov⟩ | ⟨-, hov⟩
  · exact hno hov
  · exact hno (hov hskip)

/-- The second answer makes an overlay of a layer: it has no flag, was not taken back, and the
vendor wants it in the hardware path. -/
def Taken (k : Contents) (x : Hwc1Layer) (a : LayerAnswer) : Prop :=
  ¬ x.Skipped ∧ ¬ (2 ≤ k.overlays ∧ x.IsOverlay) ∧
    (a.type = some .overlay ∨ a.type = none ∧ x.IsOverlay)

instance (k : Contents) (x : Hwc1Layer) (a : LayerAnswer) : Decidable (Taken k x a) :=
  inferInstanceAs (Decidable (_ ∧ _))

theorem mark_of_overlays_lt {k : Contents} (h : k.overlays < 2) : k.mark = k := if_pos h

/-- **What is an overlay in the end**, when the vendor has been asked twice. -/
theorem overlays_mark_given {k : Contents} (hk : k.Honest) (a : ℕ → LayerAnswer) :
    (k.mark.given a).overlays = k.layers.zipIdx.countP fun t => Taken k t.1 (a t.2) := by
  have htaken : ∀ x ∈ k.layers, ∀ b : LayerAnswer,
      ((if k.overlays < 2 then x else x.mark).given b).IsOverlay ↔ Taken k x b := by
    intro x hx b
    have hhonest := hk x hx
    rw [isOverlay_given, Taken]
    by_cases hback : 2 ≤ k.overlays ∧ x.IsOverlay
    · have hskip : x.mark.Skipped := by
        rw [Hwc1Layer.mark, if_pos hback.2]
        exact skipped_setSkip x.toLayer
      have hno : ¬ x.mark.IsOverlay := by
        rw [Hwc1Layer.mark, if_pos hback.2]
        exact of_decide_eq_false rfl
      rw [if_neg (Nat.not_lt.mpr hback.1)]
      tauto
    · have hsame : (if k.overlays < 2 then x else x.mark) = x := by
        split_ifs with hfew
        · rfl
        · exact if_neg fun hov => hback ⟨Nat.not_lt.mp hfew, hov⟩
      rw [hsame]
      tauto
  have hlayers : k.mark.layers = k.layers.map fun x => if k.overlays < 2 then x else x.mark := by
    rw [Contents.mark]
    split_ifs with hfew
    · simp
    · rfl
  simp only [Contents.overlays, Contents.given, hlayers, List.mapIdx_eq_zipIdx_map,
    List.zipIdx_map, List.map_map, List.countP_map]
  refine List.countP_congr fun t ht => ?_
  have hmem : t.1 ∈ k.layers := List.fst_mem_of_mem_zipIdx ht
  simpa [Contents.overlays] using htaken t.1 hmem (a t.2)

/-! ### The function -/

/-- Every display can be prepared, and there is a primary one. -/
def Ready (ds : List (Option Display)) : Prop :=
  (∀ d, some d ∈ ds → d.activeConfig = true) ∧ ∃ d, ds.head? = some (some d)

/-- A display that has been prepared. -/
def Display.prepared (minorVersion : ℕ) (d : Display) : Display :=
  { d with contents := some (d.requested minorVersion) }

theorem prepareDisplays_eq_some {minorVersion : ℕ} {ds ds' : List (Option Display)} :
    prepareDisplays minorVersion ds = some ds' ↔
      (∀ d, some d ∈ ds → d.activeConfig = true) ∧
        ds' = ds.map (Option.map (Display.prepared minorVersion)) := by
  induction ds generalizing ds' with
  | nil => exact ⟨fun h => ⟨by simp, (Option.some.inj h).symm⟩, fun h => congrArg some h.2.symm⟩
  | cons o ds ih =>
    cases o with
    | none =>
      simp only [prepareDisplays, Option.map_eq_some_iff, ih]
      constructor
      · rintro ⟨ds', ⟨hall, rfl⟩, rfl⟩
        exact ⟨by simpa using hall, rfl⟩
      · rintro ⟨hall, rfl⟩
        exact ⟨_, ⟨by simpa using hall, rfl⟩, rfl⟩
    | some d =>
      simp only [prepareDisplays, Display.prepare, Option.bind_eq_some_iff,
        Option.map_eq_some_iff, ih]
      constructor
      · rintro ⟨d', hd', ds', ⟨hall, rfl⟩, rfl⟩
        split_ifs at hd' with hactive
        cases hd'
        exact ⟨by simpa using ⟨hactive, hall⟩, rfl⟩
      · rintro ⟨hall, rfl⟩
        have hactive : d.activeConfig = true := hall d List.mem_cons_self
        exact ⟨_, if_pos hactive, _, ⟨fun d hd => hall d (List.mem_cons_of_mem _ hd), rfl⟩, rfl⟩

/-- What the vendor answers first. -/
def firsts (minorVersion : ℕ) (ds : List (Option Display)) (a₁ : Answers) :
    List (Option Contents) :=
  vendorPrepare a₁ (ds.map (Option.map (Display.requested minorVersion)))

theorem getElem?_vendorPrepare (a : Answers) (cs : List (Option Contents)) (c : ℕ) :
    (vendorPrepare a cs)[c]? = cs[c]?.map (Option.map (Contents.given · (a c))) :=
  List.getElem?_mapIdx

/-- The vendor is not asked again when there is one overlay at most. -/
theorem vendorTypes_of_few {a₁ a₂ : Answers} {cs : List (Option Contents)}
    (h : ∀ k, some k ∈ vendorPrepare a₁ cs → k.overlays < 2) :
    vendorTypes a₁ a₂ cs = vendorPrepare a₁ cs := by
  have hno : ((vendorPrepare a₁ cs).any fun k => k.any fun k => 2 ≤ k.overlays) = false := by
    rw [List.any_eq_false]
    rintro (_ | k) hk
    · simp
    · simpa using h k hk
  have hmark : (vendorPrepare a₁ cs).map (Option.map Contents.mark) = vendorPrepare a₁ cs := by
    refine (List.map_congr_left fun o ho => ?_).trans (List.map_id _)
    cases o with
    | none => rfl
    | some k => exact congrArg some (mark_of_overlays_lt (h k ho))
  simp only [vendorTypes, hno, hmark]
  rfl

theorem vendorTypes_of_several {a₁ a₂ : Answers} {cs : List (Option Contents)} {k : Contents}
    (hk : some k ∈ vendorPrepare a₁ cs) (hmany : 2 ≤ k.overlays) :
    vendorTypes a₁ a₂ cs =
      vendorPrepare a₂ ((vendorPrepare a₁ cs).map (Option.map Contents.mark)) := by
  have hyes : ((vendorPrepare a₁ cs).any fun k => k.any fun k => 2 ≤ k.overlays) = true :=
    List.any_eq_true.mpr ⟨some k, hk, by simpa using hmany⟩
  simp only [vendorTypes, hyes]
  rfl

theorem prepareAllDisplays_eq_some {minorVersion : ℕ} {ds ds' : List (Option Display)}
    {a₁ a₂ : Answers} :
    prepareAllDisplays minorVersion ds a₁ a₂ = some ds' ↔ Ready ds ∧
      ds' = List.zipWith receive? (ds.map (Option.map (Display.prepared minorVersion)))
        (vendorTypes a₁ a₂ (ds.map (Option.map (Display.requested minorVersion)))) := by
  have hcontents : (ds.map (Option.map (Display.prepared minorVersion))).map
      (Option.bind · Display.contents) = ds.map (Option.map (Display.requested minorVersion)) := by
    rw [List.map_map]
    refine List.map_congr_left fun o _ => ?_
    cases o <;> rfl
  simp only [prepareAllDisplays, Option.bind_eq_some_iff, prepareDisplays_eq_some, Ready]
  constructor
  · rintro ⟨_, ⟨hall, rfl⟩, h⟩
    rcases ds with _ | ⟨_ | d, ds⟩
    · cases h
    · cases h
    · refine ⟨⟨hall, d, rfl⟩, ?_⟩
      rw [← hcontents]
      exact (Option.some.inj h).symm
  · rintro ⟨⟨hall, d, hd⟩, rfl⟩
    refine ⟨_, ⟨hall, rfl⟩, ?_⟩
    rcases ds with _ | ⟨_ | d, ds⟩
    · cases hd
    · cases hd
    · rw [← hcontents]
      rfl

/-- The result is told by the overlays each display ends with. -/
theorem oneOverlay_iff_of_last {minorVersion : ℕ} {ds : List (Option Display)} {a₁ a₂ : Answers}
    {f : ℕ → Display → Contents} (hready : Ready ds)
    (hf : ∀ c, (vendorTypes a₁ a₂ (ds.map (Option.map (Display.requested minorVersion))))[c]? =
      ds[c]?.map (Option.map (f c)))
    (hlen : ∀ c d, (f c d).layers.length = d.layers.length) :
    OneOverlay minorVersion ds a₁ a₂ ↔
      ∀ (c : ℕ) (d : Display), ds[c]? = some (some d) → (f c d).overlays ≤ 1 := by
  have hds : ∀ (c : ℕ) (d : Display), ds[c]? = some (some d) →
      (List.zipWith receive? (ds.map (Option.map (Display.prepared minorVersion)))
        (vendorTypes a₁ a₂ (ds.map (Option.map (Display.requested minorVersion)))))[c]? =
          some (some ((d.prepared minorVersion).receive (f c d))) := by
    intro c d hd
    simp [List.getElem?_zipWith, hf, hd, receive?]
  constructor
  · intro h c d hd
    obtain ⟨k, ch, hk, hch, hfew, -⟩ := h _ (prepareAllDisplays_eq_some.mpr ⟨hready, rfl⟩) _
      (List.mem_of_getElem? (hds c d hd))
    cases hk
    exact hfew
  · intro h ds' hds' d' hd'
    obtain ⟨-, rfl⟩ := prepareAllDisplays_eq_some.mp hds'
    obtain ⟨c, hc⟩ := List.mem_iff_getElem?.mp hd'
    cases hd : ds[c]? with
    | none => simp [List.getElem?_zipWith, hd] at hc
    | some o =>
      cases o with
      | none => simp [List.getElem?_zipWith, hf, hd, receive?] at hc
      | some d =>
        rw [hds c d hd] at hc
        cases hc
        exact ⟨f c d, _, rfl, rfl, h c d hd, generated_agrees (hlen c d)⟩

/-- **The answers that keep to one overlay**: the first one does, or the second one does among the
layers that have no flag and were not taken back. -/
def Spares (minorVersion : ℕ) (ds : List (Option Display)) (a₁ a₂ : Answers) : Prop :=
  (∀ k, some k ∈ firsts minorVersion ds a₁ → k.overlays < 2) ∨
    ∀ (c : ℕ) (k : Contents), (firsts minorVersion ds a₁)[c]? = some (some k) →
      (k.layers.zipIdx.countP fun t => Taken k t.1 (a₂ c t.2)) ≤ 1

/-- **One overlay at most on every display exactly for the answers that keep to it.** -/
theorem oneOverlay_iff (minorVersion : ℕ) (ds : List (Option Display)) (a₁ a₂ : Answers) :
    OneOverlay minorVersion ds a₁ a₂ ↔ (Ready ds → Spares minorVersion ds a₁ a₂) := by
  by_cases hready : Ready ds
  · have hfirsts : ∀ c, (firsts minorVersion ds a₁)[c]? =
        ds[c]?.map (Option.map fun d : Display => (d.requested minorVersion).given (a₁ c)) := by
      intro c
      rw [firsts, getElem?_vendorPrepare, List.getElem?_map, Option.map_map]
      refine congrArg (ds[c]?.map ·) (funext fun o => ?_)
      exact Option.map_map ..
    simp only [hready, forall_const]
    by_cases hfew : ∀ k, some k ∈ firsts minorVersion ds a₁ → k.overlays < 2
    · -- the first answer will do
      refine iff_of_true ((oneOverlay_iff_of_last hready
        (f := fun c (d : Display) => (d.requested minorVersion).given (a₁ c))
        (fun c => ?_) ?_).mpr ?_) (.inl hfew)
      · rw [vendorTypes_of_few hfew]
        exact hfirsts c
      · simp [Display.requested, Contents.given]
      · intro c d hd
        refine Nat.le_of_lt_succ (hfew _ (List.mem_of_getElem? (i := c) ?_))
        rw [hfirsts, hd]
        rfl
    · -- all displays are asked about again
      obtain ⟨k, hk, hmany⟩ : ∃ k, some k ∈ firsts minorVersion ds a₁ ∧ 2 ≤ k.overlays := by
        by_contra hno
        exact hfew fun k hk => Nat.not_le.mp fun hle => hno ⟨k, hk, hle⟩
      rw [oneOverlay_iff_of_last hready
        (f := fun c (d : Display) => ((d.requested minorVersion).given (a₁ c)).mark.given (a₂ c)),
        Spares, or_iff_right hfew]
      · simp only [hfirsts, overlays_mark_given (honest_requested minorVersion _ _)]
        constructor
        · intro h c k hk
          obtain ⟨o, ho, hk⟩ := Option.map_eq_some_iff.mp hk
          obtain ⟨d, rfl, rfl⟩ := Option.map_eq_some_iff.mp hk
          exact h c d ho
        · intro h c d hd
          refine h c _ ?_
          rw [hd]
          rfl
      · intro c
        rw [vendorTypes_of_several hk hmany, getElem?_vendorPrepare, List.getElem?_map,
          ← firsts, hfirsts, Option.map_map, Option.map_map]
        refine congrArg (ds[c]?.map ·) (funext fun o => ?_)
        cases o <;> rfl
      · intro c d
        rw [Contents.mark]
        split_ifs <;> simp [Display.requested, Contents.given]
  · refine iff_of_true (fun ds' hds' => ?_) fun h => absurd h hready
    exact absurd (prepareAllDisplays_eq_some.mp hds').1 hready

/-- Four layers for the hardware: the vendor takes the first two, and when these are taken back, the
others. -/
def fourLayers : Display where
  activeConfig := true
  hasColorTransform := false
  layers := [⟨1, .device, false, false⟩, ⟨2, .device, false, false⟩, ⟨3, .device, false, false⟩,
    ⟨4, .device, false, false⟩]
  ids := by decide
  contents := none
  changes := none

/-- The third and the fourth layer are overlays after the second answer. -/
theorem oneOverlay_not_always :
    ¬ ∀ (minorVersion : ℕ) (ds : List (Option Display)) (a₁ a₂ : Answers),
      OneOverlay minorVersion ds a₁ a₂ := by
  intro hall
  obtain ⟨k, ch, hk, -, hfew, -⟩ := hall 1 [some fourLayers, none]
    (fun _ l => ⟨some (if l < 2 then .overlay else .framebuffer), 0⟩)
    (fun _ _ => ⟨some .overlay, 0⟩) _
    (prepareAllDisplays_eq_some.mpr ⟨⟨by simp [fourLayers], _, rfl⟩, rfl⟩) _ List.mem_cons_self
  cases hk
  exact absurd hfew (by decide)

end Adapter

end A1000

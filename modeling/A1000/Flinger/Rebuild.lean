import A1000.Flinger.Regions

/-!
# Settling the layer stacks, and the damage they do

`rebuildLayerStacks` makes one traversal for each display. After it everything that is kept with a
display and its layers fits the layers as they are, also where displays have a stack in common. What
was shown before and is not in the dirty region of a display is still right, as long as the displays
have different stacks: a traversal takes the marks off the layers, and a second display of the same
stack no longer finds them. What a composition leaves undrawn was right before.

## Main definitions

* `Flinger.Regions.rebuildDisplays` — the traversals, one after the other
* `Flinger.Regions.Stable` — what another traversal would not change
* `Flinger.Regions.Kept`, `Flinger.Regions.Shows` — a display shows an earlier picture, or the
  present one, where it is not dirty

## Main results

* `Flinger.Regions.settled_rebuildDisplays` — everything fits
* `Flinger.Regions.shows_rebuildDisplays` — all the damage is found
* `Flinger.Regions.shown_doComposition` — what a composed display shows
-/

namespace A1000

namespace Flinger

namespace Regions

open Painter

variable {P Q C : Type*} [DecidableEq P] [DecidableEq Q]

/-! ### What a traversal keeps -/

section Traversal

variable {a : Above P} {stack stack' : ℕ}

omit [DecidableEq Q] in
theorem traverse_cons_of_eq {l : Layer P C} (h : l.layerStack = stack) (ls : List (Layer P C)) :
    (a.traverse stack (l :: ls)).2 = (a.visit l).2 :: ((a.visit l).1.traverse stack ls).2 := by
  rw [Above.traverse, if_neg (not_not.mpr h)]

omit [DecidableEq Q] in
theorem traverse_cons_of_ne {l : Layer P C} (h : l.layerStack ≠ stack) (ls : List (Layer P C)) :
    (a.traverse stack (l :: ls)).2 = l :: (a.traverse stack ls).2 := by
  rw [Above.traverse, if_pos h]

omit [DecidableEq Q] in
theorem onStack_traverse_of_ne (h : stack ≠ stack') (ls : List (Layer P C)) :
    onStack stack (a.traverse stack' ls).2 = onStack stack ls := by
  induction ls generalizing a with
  | nil => rfl
  | cons l ls ih =>
    by_cases heq : l.layerStack = stack'
    · have hne : l.layerStack ≠ stack := heq ▸ h.symm
      rw [traverse_cons_of_eq heq, onStack_cons_of_ne hne,
        onStack_cons_of_ne (show (a.visit l).2.layerStack ≠ stack from hne), ih]
    · rw [traverse_cons_of_ne heq]
      simp only [onStack, List.filter_cons] at ih ⊢
      rw [ih]

omit [DecidableEq Q] in
/-- The layers of other stacks are as if they were not there. -/
theorem onStack_traverse (ls : List (Layer P C)) :
    onStack stack (a.traverse stack ls).2 = (a.traverse stack (onStack stack ls)).2 := by
  induction ls generalizing a with
  | nil => rfl
  | cons l ls ih =>
    by_cases heq : l.layerStack = stack
    · rw [onStack_cons_of_eq heq, traverse_cons_of_eq heq, traverse_cons_of_eq heq,
        onStack_cons_of_eq (show (a.visit l).2.layerStack = stack from heq), ih]
    · rw [onStack_cons_of_ne heq, traverse_cons_of_ne heq, onStack_cons_of_ne heq, ih]

omit [DecidableEq Q] in
/-- The dirty region so far has no part in what the traversal leaves in the layers. -/
theorem traverse_congr {b : Above P} (hsolid : a.aboveOpaqueLayers = b.aboveOpaqueLayers)
    (hcovered : a.aboveCoveredLayers = b.aboveCoveredLayers) (ls : List (Layer P C)) :
    (a.traverse stack ls).2 = (b.traverse stack ls).2 := by
  induction ls generalizing a b with
  | nil => rfl
  | cons l ls ih =>
    by_cases heq : l.layerStack = stack
    · rw [traverse_cons_of_eq heq, traverse_cons_of_eq heq,
        ih (a := (a.visit l).1) (b := (b.visit l).1) (by simp [Above.visit, hsolid])
          (by simp [Above.visit, hcovered])]
      simp only [Above.visit, hsolid, hcovered]
    · rw [traverse_cons_of_ne heq, traverse_cons_of_ne heq, ih hsolid hcovered]

omit [DecidableEq Q] in
/-- What a traversal leaves in the layers depends on where they are only. -/
theorem traverse_traverse (ls : List (Layer P C)) :
    (a.traverse stack (a.traverse stack ls).2).2 = (a.traverse stack ls).2 := by
  induction ls generalizing a with
  | nil => rfl
  | cons l ls ih =>
    by_cases heq : l.layerStack = stack
    · rw [traverse_cons_of_eq heq,
        traverse_cons_of_eq (show (a.visit l).2.layerStack = stack from heq),
        traverse_congr (a := (a.visit (a.visit l).2).1) (b := (a.visit l).1) rfl rfl, ih]
      rfl
    · rw [traverse_cons_of_ne heq, traverse_cons_of_ne heq, ih]

omit [DecidableEq Q] in
/-- The layers stay where they are. -/
theorem map_traverse (ls : List (Layer P C)) :
    (a.traverse stack ls).2.map (fun l => (l.toState, l.id)) =
      ls.map fun l => (l.toState, l.id) := by
  induction ls generalizing a with
  | nil => rfl
  | cons l ls ih =>
    by_cases heq : l.layerStack = stack
    · rw [traverse_cons_of_eq heq, List.map_cons, ih]
      rfl
    · rw [traverse_cons_of_ne heq, List.map_cons, ih, List.map_cons]

omit [DecidableEq Q] in
/-- Every layer of the stack has been visited. -/
theorem exists_visit {ls : List (Layer P C)} {m : Layer P C}
    (h : m ∈ onStack stack (a.traverse stack ls).2) : ∃ b l, m = (Above.visit b l).2 := by
  induction ls generalizing a with
  | nil => simp [Above.traverse, onStack] at h
  | cons l ls ih =>
    by_cases heq : l.layerStack = stack
    · rw [traverse_cons_of_eq heq,
        onStack_cons_of_eq (show (a.visit l).2.layerStack = stack from heq)] at h
      rcases List.mem_cons.mp h with rfl | h
      · exact ⟨a, l, rfl⟩
      · exact ih h
    · rw [traverse_cons_of_ne heq, onStack_cons_of_ne heq] at h
      exact ih h

end Traversal

/-! ### Rebuilding the layer stacks -/

/-- The displays, one after the other: a traversal for each of them. -/
def rebuildDisplays : List (Display P Q C) → List (Layer P C) →
    List (Display P Q C) × List (Layer P C)
  | [], layers => ([], layers)
  | hw :: hws, layers =>
    let r := rebuildLayerStack hw layers
    let rest := rebuildDisplays hws r.2
    (r.1 :: rest.1, rest.2)

section Rebuild

variable {e : Engine P Q C} {hw : Display P Q C} {layers layers' : List (Layer P C)} {stack : ℕ}

/-- The layers are where they were; only what traversals leave in them may differ. -/
def SamePlaces (layers layers' : List (Layer P C)) : Prop :=
  layers'.map (fun l => (l.toState, l.id)) = layers.map fun l => (l.toState, l.id)

omit [DecidableEq P] [DecidableEq Q] in
theorem SamePlaces.onStack (h : SamePlaces layers layers') (stack : ℕ) :
    SamePlaces (onStack stack layers) (onStack stack layers') := by
  have hfilter : ∀ ls : List (Layer P C),
      (Regions.onStack stack ls).map (fun l => (l.toState, l.id)) =
        (ls.map fun l => (l.toState, l.id)).filter fun x => x.1.layerStack = stack := by
    intro ls
    rw [List.filter_map]
    rfl
  rw [SamePlaces, hfilter, hfilter, h]

omit [DecidableEq P] [DecidableEq Q] in
theorem SamePlaces.map_id (h : SamePlaces layers layers') :
    layers'.map (·.id) = layers.map (·.id) := by
  simpa [List.map_map, Function.comp_def] using congrArg (List.map Prod.snd) h

omit [DecidableEq P] [DecidableEq Q] in
theorem SamePlaces.map_state (h : SamePlaces layers layers') :
    layers'.map (·.toState) = layers.map (·.toState) := by
  simpa [List.map_map, Function.comp_def] using congrArg (List.map Prod.fst) h

omit [DecidableEq Q] in
theorem SamePlaces.right {blend : C → C → C} (h : SamePlaces layers layers')
    (hright : ∀ l ∈ layers, l.Right blend) : ∀ l ∈ layers', l.Right blend := by
  intro l hl
  have hl' : l.toState ∈ layers'.map (·.toState) := List.mem_map_of_mem hl
  rw [h.map_state] at hl'
  obtain ⟨m, hm, heq⟩ := List.mem_map.mp hl'
  exact heq ▸ hright m hm

/-- The picture is one of where the layers are. -/
theorem SamePlaces.picture_eq (h : SamePlaces layers layers') (q : Q) :
    hw.picture e layers' q = hw.picture e layers q := by
  have hstate := (h.onStack hw.layerStack).map_state
  have hcells : ∀ ls : List (Layer P C), (hw.cells e ls q).map (·.paint) =
      ((Regions.onStack hw.layerStack ls).map (·.toState)).map
        fun s => s.paint e.blend (hw.tr.symm q) := by
    intro ls
    rw [Display.cells, List.map_map, List.map_map]
    rfl
  have hpaint : (hw.cells e layers' q).map (·.paint) = (hw.cells e layers q).map (·.paint) := by
    rw [hcells, hcells, hstate]
  unfold Display.picture Display.pictureOf
  rw [picture_congr hpaint]

theorem SamePlaces.exists_full (h : SamePlaces layers layers') (q : Q) :
    (∃ c ∈ hw.cells e layers' q, c.full = true) ↔ ∃ c ∈ hw.cells e layers q, c.full = true := by
  have hstate := (h.onStack hw.layerStack).map_state
  have hfull := congrArg (List.map fun s => decide (hw.tr.symm q ∈ s.opaqueRegion)) hstate
  rw [List.map_map, List.map_map] at hfull
  have hany : ∀ ls : List (Layer P C), (∃ c ∈ hw.cells e ls q, c.full = true) ↔
      true ∈ (Regions.onStack hw.layerStack ls).map
        ((fun s => decide (hw.tr.symm q ∈ s.opaqueRegion)) ∘ (·.toState)) := by
    intro ls
    simp [Display.cells, Layer.cell]
  rw [hany, hany, hfull]

omit [DecidableEq P] in
/-- Only layers of its stack are drawn on a display. -/
theorem filter_draws (hw : Display P Q C) (ls : List (Layer P C)) :
    ls.reverse.filter hw.draws = (onStack hw.layerStack ls).reverse.filter hw.draws := by
  rw [onStack, ← List.filter_reverse, List.filter_filter]
  refine List.filter_congr fun l _ => ?_
  simp only [Display.draws]
  grind

theorem rebuildLayerStack_on (h : hw.isDisplayOn = true) (ls : List (Layer P C)) :
    rebuildLayerStack hw ls =
      ({ hw with
         visibleLayersSortedByZ :=
           (((computeVisibleRegions hw.layerStack ls).2).reverse.filter hw.draws).map (·.id)
         undefinedRegion := hw.bounds \
           hw.transform (computeVisibleRegions hw.layerStack ls).1.aboveOpaqueLayers
         dirtyRegion :=
           hw.dirtyRegion ∪ (computeVisibleRegions hw.layerStack ls).1.outDirtyRegion },
        (computeVisibleRegions hw.layerStack ls).2) := by
  rw [rebuildLayerStack, if_pos h]

theorem rebuildLayerStack_off (h : hw.isDisplayOn = false) (ls : List (Layer P C)) :
    (rebuildLayerStack hw ls).2 = ls := by
  rw [rebuildLayerStack, if_neg (by simp [h])]

theorem samePlaces_rebuildLayerStack (hw : Display P Q C) (ls : List (Layer P C)) :
    SamePlaces ls (rebuildLayerStack hw ls).2 := by
  cases h : hw.isDisplayOn with
  | false =>
    rw [rebuildLayerStack_off h]
    rfl
  | true =>
    rw [rebuildLayerStack_on h]
    exact map_traverse ls

omit [DecidableEq P] in
theorem above_empty (p : P) : (⟨∅, ∅, ∅⟩ : Above P).At p false false :=
  ⟨by simp, by simp⟩

/-- **A traversal settles** what depends on the layers of its display. -/
theorem settled_rebuildLayerStack (h : hw.isDisplayOn = true) (ls : List (Layer P C)) :
    Settled e (rebuildLayerStack hw ls).1 (rebuildLayerStack hw ls).2 := by
  have hsame := samePlaces_rebuildLayerStack hw ls
  rw [rebuildLayerStack_on h] at hsame ⊢
  refine ⟨?_, ?_, ?_, ?_⟩
  · intro q
    exact recorded_traverse (above_empty _) ls
  · have hdraws := filter_draws hw (computeVisibleRegions hw.layerStack ls).2
    exact congrArg (List.map (·.id)) hdraws
  · intro q
    have hfull : (∃ c ∈ hw.cells e _ q, c.full = true) ↔ _ := hsame.exists_full q
    have hsolid : hw.tr.symm q ∈ (Above.traverse hw.layerStack _ ls).1.aboveOpaqueLayers ↔ _ :=
      mem_aboveOpaqueLayers e.blend (above_empty (hw.tr.symm q)) ls
    rw [Finset.mem_sdiff, Display.mem_transform]
    refine and_congr_right fun _ => not_congr ?_
    refine Iff.trans ?_ hfull.symm
    rw [computeVisibleRegions, hsolid]
    simp [Display.cells]
  · intro l hl
    obtain ⟨b, m, rfl⟩ := exists_visit hl
    rfl

/-- Another traversal would leave the same in the layers of the stack. -/
def Stable (stack : ℕ) (layers : List (Layer P C)) : Prop :=
  (computeVisibleRegions stack (onStack stack layers)).2 = onStack stack layers

omit [DecidableEq P] in
theorem onStack_onStack (layers : List (Layer P C)) :
    onStack stack (onStack stack layers) = onStack stack layers := by
  simp [onStack]

omit [DecidableEq Q] in
theorem Stable.contentDirty (h : Stable stack layers) {l : Layer P C}
    (hl : l ∈ onStack stack layers) : l.contentDirty = false := by
  have hl' : l ∈ onStack stack (computeVisibleRegions stack (onStack stack layers)).2 := by
    rwa [h, onStack_onStack]
  obtain ⟨b, m, rfl⟩ := exists_visit hl'
  rfl

theorem stable_rebuildLayerStack (h : hw.isDisplayOn = true) (ls : List (Layer P C)) :
    Stable hw.layerStack (rebuildLayerStack hw ls).2 := by
  rw [rebuildLayerStack_on h, Stable, computeVisibleRegions, computeVisibleRegions,
    ← onStack_traverse, traverse_traverse]

theorem onStack_rebuildLayerStack_of_ne (h : stack ≠ hw.layerStack) (ls : List (Layer P C)) :
    onStack stack (rebuildLayerStack hw ls).2 = onStack stack ls := by
  cases hon : hw.isDisplayOn with
  | false => rw [rebuildLayerStack_off hon]
  | true =>
    rw [rebuildLayerStack_on hon]
    exact onStack_traverse_of_ne h ls

/-- A display of the same stack, or of another one, does not unsettle what is settled. -/
theorem Stable.onStack_rebuildLayerStack (h : Stable stack layers) (hw : Display P Q C) :
    onStack stack (rebuildLayerStack hw layers).2 = onStack stack layers := by
  by_cases heq : stack = hw.layerStack
  · cases hon : hw.isDisplayOn with
    | false => rw [rebuildLayerStack_off hon]
    | true =>
      subst heq
      rw [rebuildLayerStack_on hon, computeVisibleRegions, onStack_traverse]
      exact h
  · exact onStack_rebuildLayerStack_of_ne heq layers

omit [DecidableEq Q] in
theorem Stable.congr (h : Stable stack layers)
    (heq : onStack stack layers' = onStack stack layers) : Stable stack layers' := by
  rw [Stable, heq]
  exact h

theorem Stable.onStack_rebuildDisplays (h : Stable stack layers) (hws : List (Display P Q C)) :
    onStack stack (rebuildDisplays hws layers).2 = onStack stack layers := by
  induction hws generalizing layers with
  | nil => rfl
  | cons hw hws ih =>
    have hone := h.onStack_rebuildLayerStack hw
    exact (ih (h.congr hone)).trans hone

theorem onStack_rebuildDisplays_of_notMem {hws : List (Display P Q C)}
    (h : stack ∉ hws.map (·.layerStack)) (ls : List (Layer P C)) :
    onStack stack (rebuildDisplays hws ls).2 = onStack stack ls := by
  induction hws generalizing ls with
  | nil => rfl
  | cons hw hws ih =>
    rw [List.map_cons, List.mem_cons, not_or] at h
    exact (ih h.2 _).trans (onStack_rebuildLayerStack_of_ne h.1 ls)

theorem samePlaces_rebuildDisplays (hws : List (Display P Q C)) (ls : List (Layer P C)) :
    SamePlaces ls (rebuildDisplays hws ls).2 := by
  induction hws generalizing ls with
  | nil => rfl
  | cons hw hws ih => exact (ih _).trans (samePlaces_rebuildLayerStack hw ls)

theorem Settled.congr (h : Settled e hw layers)
    (heq : onStack hw.layerStack layers' = onStack hw.layerStack layers) :
    Settled e hw layers' := by
  obtain ⟨hrec, hvis, hundef, hnt⟩ := h
  have hcells : ∀ q, hw.cells e layers' q = hw.cells e layers q := fun q => by
    rw [Display.cells, Display.cells, heq]
  exact ⟨fun q => hcells q ▸ hrec q, heq ▸ hvis, fun q => hcells q ▸ hundef q, heq ▸ hnt⟩

theorem rebuildLayerStack_layerStack (hw : Display P Q C) (ls : List (Layer P C)) :
    (rebuildLayerStack hw ls).1.layerStack = hw.layerStack := by
  unfold rebuildLayerStack
  split <;> rfl

theorem rebuildLayerStack_isDisplayOn (hw : Display P Q C) (ls : List (Layer P C)) :
    (rebuildLayerStack hw ls).1.isDisplayOn = hw.isDisplayOn := by
  unfold rebuildLayerStack
  split <;> rfl

/-- After `rebuildLayerStacks` everything is settled, also where displays have a stack in common. -/
theorem settled_rebuildDisplays {hws : List (Display P Q C)} {ls : List (Layer P C)}
    (hmem : hw ∈ (rebuildDisplays hws ls).1) (hon : hw.isDisplayOn = true) :
    Settled e hw (rebuildDisplays hws ls).2 ∧ Stable hw.layerStack (rebuildDisplays hws ls).2 := by
  induction hws generalizing ls with
  | nil => simp [rebuildDisplays] at hmem
  | cons d hws ih =>
    rcases List.mem_cons.mp hmem with rfl | hmem
    · rw [rebuildLayerStack_isDisplayOn] at hon
      have hstable := stable_rebuildLayerStack hon ls
      rw [← rebuildLayerStack_layerStack d ls] at hstable
      have heq := hstable.onStack_rebuildDisplays hws
      exact ⟨(settled_rebuildLayerStack hon ls).congr heq, hstable.congr heq⟩
    · exact ih hmem

/-! ### Damage -/

/-- What is shown at the pixel `q` is an earlier picture, from which the layers may have changed. -/
def Awaits (e : Engine P Q C) (hw : Display P Q C) (layers : List (Layer P C)) (q : Q) : Prop :=
  ∃ old, Recorded old ∧ Changed old (hw.cells e layers q) ∧ hw.shown q = hw.pictureOf e old q

/-- Where the display is not dirty, it shows an earlier picture. -/
def Kept (e : Engine P Q C) (hw : Display P Q C) (layers : List (Layer P C)) : Prop :=
  ∀ q ∈ hw.bounds, hw.tr.symm q ∉ hw.dirtyRegion → Awaits e hw layers q

/-- Where the display is not dirty, it shows the picture. -/
def Shows (e : Engine P Q C) (hw : Display P Q C) (layers : List (Layer P C)) : Prop :=
  ∀ q ∈ hw.bounds, hw.tr.symm q ∉ hw.dirtyRegion → hw.shown q = hw.picture e layers q

/-- **The traversal finds all the damage.** -/
theorem Kept.shows (h : Kept e hw layers) (hright : ∀ l ∈ layers, l.Right e.blend)
    (hon : hw.isDisplayOn = true) :
    Shows e (rebuildLayerStack hw layers).1 (rebuildLayerStack hw layers).2 := by
  have hsame := samePlaces_rebuildLayerStack hw layers
  intro q hq hclean
  rw [hsame.picture_eq]
  rw [rebuildLayerStack_on hon] at hq hclean ⊢
  rw [Finset.mem_union, not_or] at hclean
  obtain ⟨old, hrec, hch, hshown⟩ := h q hq hclean.1
  obtain ⟨-, hcells⟩ := clean_of_not_mem_dirty e.blend (above_empty _) hclean.2
  refine hshown.trans ?_
  unfold Display.picture Display.pictureOf
  rw [← picture_eq_of_clean (hides_cells hright q) hrec hch hcells]
  rfl

theorem Kept.congr (h : Kept e hw layers)
    (heq : onStack hw.layerStack layers' = onStack hw.layerStack layers) :
    Kept e hw layers' := by
  intro q hq hclean
  obtain ⟨old, hrec, hch, hshown⟩ := h q hq hclean
  refine ⟨old, hrec, ?_, hshown⟩
  rwa [Display.cells, heq]

theorem Shows.congr (h : Shows e hw layers)
    (heq : onStack hw.layerStack layers' = onStack hw.layerStack layers) :
    Shows e hw layers' := by
  intro q hq hclean
  rw [h q hq hclean, Display.picture, Display.picture, Display.cells, Display.cells, heq]

/-- The same for all displays, which have different stacks. -/
theorem shows_rebuildDisplays {hws : List (Display P Q C)} {ls : List (Layer P C)}
    (hstacks : (hws.map (·.layerStack)).Nodup) (hright : ∀ l ∈ ls, l.Right e.blend)
    (h : ∀ d ∈ hws, d.isDisplayOn = true → Kept e d ls) (hmem : hw ∈ (rebuildDisplays hws ls).1)
    (hon : hw.isDisplayOn = true) : Shows e hw (rebuildDisplays hws ls).2 := by
  induction hws generalizing ls with
  | nil => simp [rebuildDisplays] at hmem
  | cons d hws ih =>
    rw [List.map_cons, List.nodup_cons] at hstacks
    rcases List.mem_cons.mp hmem with rfl | hmem
    · rw [rebuildLayerStack_isDisplayOn] at hon
      refine ((h d List.mem_cons_self hon).shows hright hon).congr ?_
      rw [rebuildLayerStack_layerStack]
      exact onStack_rebuildDisplays_of_notMem hstacks.1 _
    · refine ih hstacks.2 ((samePlaces_rebuildLayerStack d ls).right hright) ?_ hmem
      intro c hc hcon
      refine (h c (List.mem_cons_of_mem d hc) hcon).congr ?_
      refine onStack_rebuildLayerStack_of_ne ?_ ls
      exact fun heq => hstacks.1 (heq ▸ List.mem_map_of_mem hc)

/-! ### Composition -/

/-- All of the display is redrawn: everything is to be repainted, or the display is one that cannot
update a part of its screen. -/
def Whole (hw : Display P Q C) (repaintEverything : Bool) : Prop :=
  repaintEverything = true ∨
    (hw.hwcDisplay = true ∧ hw.swapRectangle = false ∧ hw.partialUpdates = false)

/-- What is redrawn reaches the panel. -/
theorem shown_of_redrawn {f : Frame Q C} {inDirtyRegion : Finset Q} {fb : Q → C} {q : Q}
    (hskip : ¬ (¬ hw.hwcDisplay ∧ inDirtyRegion = ∅)) (hq : q ∈ hw.redrawn e inDirtyRegion)
    (hfb : doComposeSurfaces e hw layers (hw.redrawn e inDirtyRegion) f.cur f.makeCurrent f.back =
      some fb) :
    (doDisplayComposition e hw layers inDirtyRegion f).shown q = fb q := by
  simp only [doDisplayComposition, if_neg hskip, hfb, Finset.mem_union, hq, or_true, if_true]

/-- On a display that can update a part of its screen, the rest is left as it is. -/
theorem shown_of_not_redrawn {f : Frame Q C} {inDirtyRegion : Finset Q} {q : Q}
    (hflags : hw.swapRectangle = true ∨ hw.partialUpdates = true)
    (hq : q ∉ hw.redrawn e inDirtyRegion) :
    (doDisplayComposition e hw layers inDirtyRegion f).shown q = hw.shown q := by
  have hout : q ∉ hw.swapRegion ∪ inDirtyRegion := by
    rw [Display.redrawn, if_pos hflags] at hq
    exact fun hin => hq (e.subset_box _ hin)
  simp only [doDisplayComposition, if_pos hflags]
  split
  · rfl
  · split
    · rfl
    · simp only [Finset.mem_union (s := hw.swapRegion ∪ inDirtyRegion), hout, hq, or_false,
        if_false]

/-- What is not redrawn was right. -/
theorem shown_doComposition {repaintEverything : Bool} {f : Frame Q C} (h : Settled e hw layers)
    (hnodup : (layers.map (·.id)).Nodup) (hright : ∀ l ∈ layers, l.Right e.blend)
    (hon : hw.isDisplayOn = true) (hcur : f.makeCurrent = true)
    (hgles : Gles f.cur (hw.visibleLayers layers).length)
    (hrest : Whole hw repaintEverything ∨ Shows e hw layers) {q : Q} (hq : q ∈ hw.bounds) :
    (doComposition e repaintEverything layers hw f).shown q = hw.picture e layers q := by
  rw [doComposition, if_pos hon]
  change (doDisplayComposition e hw layers (e.getDirtyRegion hw repaintEverything) f).shown q = _
  have hout : q ∉ e.getDirtyRegion hw repaintEverything →
      repaintEverything = false ∧ (Shows e hw layers → hw.shown q = hw.picture e layers q) := by
    intro hin
    constructor
    · by_contra hall
      rw [Bool.not_eq_false] at hall
      exact hin (hall ▸ e.bounds_subset hw hq)
    · intro hshows
      refine hshows q hq fun hdirty => hin (e.subset_getDirtyRegion hw _ ?_)
      exact Finset.mem_inter.mpr ⟨Display.mem_transform.mpr hdirty, hq⟩
  by_cases hskip : ¬ hw.hwcDisplay ∧ e.getDirtyRegion hw repaintEverything = ∅
  · obtain ⟨hall, hshown⟩ := hout (by rw [hskip.2]; exact Finset.notMem_empty q)
    rw [doDisplayComposition, if_pos hskip]
    rcases hrest with (hwhole | ⟨hhwc, -⟩) | hshows
    · rw [hall] at hwhole
      cases hwhole
    · exact absurd hhwc hskip.1
    · exact hshown hshows
  · by_cases hred : q ∈ hw.redrawn e (e.getDirtyRegion hw repaintEverything)
    · obtain ⟨fb, hfb, hpic⟩ := doComposeSurfaces_eq_picture h hnodup hright hgles f.back hred hq
      rw [shown_of_redrawn hskip hred (by rw [hcur, hfb]), hpic]
    · -- the display updates a part of its screen, and the pixel is not in it
      have hflags : hw.swapRectangle = true ∨ hw.partialUpdates = true := by
        by_contra hflags
        rw [Display.redrawn, if_neg hflags] at hred
        exact hred hq
      rw [shown_of_not_redrawn hflags hred]
      rw [Display.redrawn, if_pos hflags] at hred
      obtain ⟨hall, hshown⟩ := hout fun hin =>
        hred (e.subset_box _ (Finset.mem_union_right _ hin))
      refine hshown (hrest.resolve_left ?_)
      rintro (hwhole | ⟨-, hswap, hpart⟩)
      · rw [hall] at hwhole
        cases hwhole
      · simp [hswap, hpart] at hflags

end Rebuild

end Regions

end Flinger

end A1000

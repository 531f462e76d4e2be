import A1000.Lib.Run
import A1000.Lib.Heap
import Mathlib.Data.Finset.Basic

/-!
# Layers that are placed relative to other layers

A layer may be told to stay just above or below another layer instead of at a place of its own. The
layer then has a weak pointer to the other, and the other keeps it in `zOrderRelatives`, which is
what the traversal looks at. Nothing but the functions here keeps the two in step. They do in one
direction only: `setRelativeLayer` does not take the layer away from the layer it was relative to
before.

## Main definitions

* `Flinger.Relatives.setLayer`, `Flinger.Relatives.setRelativeLayer`
* `Flinger.Relatives.onRemovedFromCurrentState`
* `Flinger.Relatives.step` — the whole
* `Flinger.Relatives.Mutual` — the two sides agree
* `Flinger.Relatives.Moves` — a layer goes from one layer to another without a `setLayer` between

## Main results

* `Flinger.Relatives.linked_of_run`
* `Flinger.Relatives.mutual_iff`
* `Flinger.Relatives.left_behind`
-/

namespace A1000

namespace Flinger

namespace Relatives

open StepSystem

/-- What of `Layer::State` has to do with the order of layers. -/
structure State where
  z : ℤ
  zOrderRelativeOf : Option ℕ
  zOrderRelatives : Finset ℕ
  sequence : ℕ
  modified : Bool
  deriving DecidableEq

structure Layer where
  current : State
  children : List ℕ
  /-- `eTransactionNeeded` is set. -/
  transactionNeeded : Bool
  deriving DecidableEq

/-- The layers that exist. -/
structure Sys where
  layers : ℕ → Option Layer
  nextLayer : ℕ
  /-- `eTraversalNeeded` is set. -/
  traversalNeeded : Bool

def Sys.modify (s : Sys) (l : ℕ) (f : Layer → Layer) : Sys :=
  { s with layers := Heap.modify s.layers l f }

/-- Something is written to the current state, and the transaction is asked for. -/
def Layer.write (x : Layer) (f : State → State) : Layer :=
  { x with
    current := { f x.current with sequence := x.current.sequence + 1, modified := true }
    transactionNeeded := true }

/-! ### The functions -/

def removeZOrderRelative (s : Sys) (r l : ℕ) : Sys :=
  s.modify r fun y => y.write fun c =>
    { c with zOrderRelatives := c.zOrderRelatives.erase l }

def addZOrderRelative (s : Sys) (r l : ℕ) : Sys :=
  s.modify r fun y => y.write fun c =>
    { c with zOrderRelatives := insert l c.zOrderRelatives }

/-- `zOrderRelativeOf = nullptr`. -/
def forget (s : Sys) (l : ℕ) : Sys :=
  s.modify l fun x => { x with current := { x.current with zOrderRelativeOf := none } }

/-- All relative layering of `l` is discarded, when `q` is the layer it is relative to; whether
there was one. -/
def discard (s : Sys) (l : ℕ) (q : Option ℕ) : Sys × Bool :=
  match q with
  | none => (s, false)
  | some r =>
    -- the weak pointer is promoted
    match s.layers r with
    | none => (forget s l, false)
    | some _ => (forget (removeZOrderRelative s r l) l, true)

def setLayer (s : Sys) (l : ℕ) (x : Layer) (z : ℤ) : Sys × Bool :=
  if x.current.z = z then (s, false)
  else
    let s := s.modify l fun x => x.write fun c => { c with z := z }
    ((discard s l x.current.zOrderRelativeOf).1, true)

/-- `relativeToHandle` is null, or the handle of a layer, which may be gone. -/
def setRelativeLayer (s : Sys) (l : ℕ) (relativeToHandle : Option ℕ) (z : ℤ) : Sys × Bool :=
  match relativeToHandle with
  | none => (s, false)
  | some r =>
    match s.layers r with
    | none => (s, false)
    | some _ =>
      let s := s.modify l fun x => x.write fun c => { c with z := z, zOrderRelativeOf := some r }
      (addZOrderRelative s r l, true)

/-- The part of `onRemovedFromCurrentState` about the layer itself. -/
def leave (s : Sys) (l : ℕ) (x : Layer) : Sys :=
  let r := discard s l x.current.zOrderRelativeOf
  { r.1 with traversalNeeded := r.1.traversalNeeded || r.2 }

/-- `onRemovedFromCurrentState`, where the layers are at most `depth` deep. -/
def onRemovedFromCurrentState : ℕ → Sys → ℕ → Option Sys
  | 0, _, _ => none
  | depth + 1, s, l =>
    -- the children are strong pointers: they exist
    match s.layers l with
    | none => none
    | some x => x.children.foldlM (onRemovedFromCurrentState depth) (leave s l x)

/-! ### Runs -/

inductive Input
  | create
  | destroy (l : ℕ)
  | setChildren (l : ℕ) (children : List ℕ)
  | setLayer (l : ℕ) (z : ℤ)
  | setRelativeLayer (l : ℕ) (relativeToHandle : Option ℕ) (z : ℤ)
  | onRemovedFromCurrentState (depth l : ℕ)
  /-- Another setter has written to the current state. -/
  | set (l : ℕ)
  /-- The transaction of the layer, after which states may still be pending. -/
  | doTransaction (l : ℕ) (pending : Bool)
  deriving DecidableEq

/-- A new layer. -/
def newLayer : Layer where
  current := ⟨0, none, ∅, 0, false⟩
  children := []
  transactionNeeded := false

def create (s : Sys) : Sys :=
  { s with
    layers := fun k => if k = s.nextLayer then some newLayer else s.layers k
    nextLayer := s.nextLayer + 1 }

def destroy (s : Sys) (l : ℕ) : Sys :=
  { s with layers := fun k => if k = l then none else s.layers k }

/-- The output is what the setters return. -/
def step (s : Sys) : Input → Option (Sys × Bool)
  | .create => some (create s, true)
  | .destroy l => (s.layers l).map fun _ => (destroy s l, true)
  | .setChildren l children => (s.layers l).map fun _ =>
    (s.modify l fun x => { x with children := children }, true)
  | .setLayer l z => (s.layers l).map fun x => setLayer s l x z
  | .setRelativeLayer l relativeToHandle z => (s.layers l).map fun _ =>
    setRelativeLayer s l relativeToHandle z
  | .onRemovedFromCurrentState depth l =>
    (onRemovedFromCurrentState depth s l).map fun t => (t, true)
  | .set l => (s.layers l).map fun _ => (s.modify l fun x => x.write id, true)
  | .doTransaction l pending => (s.layers l).map fun _ =>
    ({ s.modify l fun x => { x with
        current := { x.current with modified := false }
        transactionNeeded := pending } with
      traversalNeeded := s.traversalNeeded || pending }, true)

/-- No layers yet. -/
def start : Sys where
  layers := fun _ => none
  nextLayer := 0
  traversalNeeded := false

/-! ### The two sides -/

/-- The layers that a layer keeps as its relatives. -/
def among (s : Sys) (r : ℕ) : Option (Finset ℕ) :=
  (s.layers r).map fun y => y.current.zOrderRelatives

/-- What a layer is relative to. -/
def relativeTo (s : Sys) (l : ℕ) : Option (Option ℕ) :=
  (s.layers l).map fun x => x.current.zOrderRelativeOf

variable {s t : Sys} {l r k : ℕ} {q : Option ℕ} {x y : Layer}

/-- Neither side of any layer is changed. -/
structure Same (s t : Sys) : Prop where
  among : ∀ k, among t k = among s k
  relativeTo : ∀ k, relativeTo t k = relativeTo s k
  nextLayer : t.nextLayer = s.nextLayer

theorem Same.refl (s : Sys) : Same s s := ⟨fun _ => rfl, fun _ => rfl, rfl⟩

theorem same_modify {f : Layer → Layer}
    (hamong : ∀ x, (f x).current.zOrderRelatives = x.current.zOrderRelatives)
    (hof : ∀ x, (f x).current.zOrderRelativeOf = x.current.zOrderRelativeOf) :
    Same s (s.modify l f) where
  among := by
    intro k
    by_cases hk : k = l <;> simp [among, Sys.modify, Heap.modify, hk, Function.comp_def, hamong]
  relativeTo := by
    intro k
    by_cases hk : k = l <;> simp [relativeTo, Sys.modify, Heap.modify, hk, Function.comp_def, hof]
  nextLayer := rfl

@[simp] theorem relativeTo_removeZOrderRelative :
    relativeTo (removeZOrderRelative s r l) k = relativeTo s k := by
  by_cases hk : k = r <;>
    simp [relativeTo, removeZOrderRelative, Sys.modify, Heap.modify, Layer.write, hk,
      Function.comp_def]

@[simp] theorem among_removeZOrderRelative : among (removeZOrderRelative s r l) k =
    if k = r then (among s k).map fun rs => rs.erase l else among s k := by
  by_cases hk : k = r <;>
    simp [among, removeZOrderRelative, Sys.modify, Heap.modify, Layer.write, hk, Function.comp_def]

@[simp] theorem relativeTo_addZOrderRelative :
    relativeTo (addZOrderRelative s r l) k = relativeTo s k := by
  by_cases hk : k = r <;>
    simp [relativeTo, addZOrderRelative, Sys.modify, Heap.modify, Layer.write, hk,
      Function.comp_def]

@[simp] theorem among_addZOrderRelative : among (addZOrderRelative s r l) k =
    if k = r then (among s k).map fun rs => insert l rs else among s k := by
  by_cases hk : k = r <;>
    simp [among, addZOrderRelative, Sys.modify, Heap.modify, Layer.write, hk, Function.comp_def]

@[simp] theorem relativeTo_forget : relativeTo (forget s l) k =
    if k = l then (relativeTo s k).map fun _ => none else relativeTo s k := by
  by_cases hk : k = l <;> simp [relativeTo, forget, Sys.modify, Heap.modify, hk, Function.comp_def]

@[simp] theorem among_forget : among (forget s l) k = among s k := by
  by_cases hk : k = l <;> simp [among, forget, Sys.modify, Heap.modify, hk, Function.comp_def]

/-- Whether `l` is among the relatives of `r`, and whether it is relative to it. -/
def link (s : Sys) (l r : ℕ) : Option (Bool × Bool) :=
  (among s r).bind fun rs => (relativeTo s l).map fun q => (decide (l ∈ rs), decide (q = some r))

theorem link_of_layers (hx : s.layers l = some x) (hy : s.layers r = some y) :
    link s l r = some (decide (l ∈ y.current.zOrderRelatives),
      decide (x.current.zOrderRelativeOf = some r)) := by
  simp [link, among, relativeTo, hx, hy]

theorem layers_of_link {a b : Bool} (h : link s l r = some (a, b)) : ∃ x y,
    s.layers l = some x ∧ s.layers r = some y ∧
      a = decide (l ∈ y.current.zOrderRelatives) ∧
      b = decide (x.current.zOrderRelativeOf = some r) := by
  simp only [link, among, relativeTo, Option.bind_eq_some_iff, Option.map_eq_some_iff] at h
  obtain ⟨-, ⟨y, hy, rfl⟩, -, ⟨x, hx, rfl⟩, hab⟩ := h
  obtain ⟨rfl, rfl⟩ := Prod.mk.inj hab
  exact ⟨x, y, hx, hy, rfl, rfl⟩

theorem Same.link (h : Same s t) : link t l r = link s l r := by
  rw [Relatives.link, Relatives.link, h.among, h.relativeTo]

/-! ### What each function does to them -/

/-- No layer has become a relative of another. -/
structure Shrinks (s t : Sys) : Prop where
  among : ∀ {k rs}, among t k = some rs → ∃ rs', Relatives.among s k = some rs' ∧ rs ⊆ rs'
  relativeTo : ∀ {k r}, relativeTo t k = some (some r) → Relatives.relativeTo s k = some (some r)
  nextLayer : t.nextLayer = s.nextLayer

/-- Some relative layering is discarded: who was linked on both sides is so on neither. -/
structure Cleared (s t : Sys) : Prop extends Shrinks s t where
  link : ∀ l r, link t l r = Relatives.link s l r ∨
    ∃ a b, Relatives.link s l r = some (a, b) ∧ Relatives.link t l r = some (a && !b, false)

/-- The layer `l` is made relative to the layer `r`. -/
structure Related (s t : Sys) (l r : ℕ) : Prop where
  living : (s.layers l).isSome ∧ (s.layers r).isSome
  among : ∀ k, among t k =
    if k = r then (Relatives.among s k).map fun rs => insert l rs else Relatives.among s k
  relativeTo : ∀ k, relativeTo t k = if k = l then some (some r) else Relatives.relativeTo s k
  nextLayer : t.nextLayer = s.nextLayer

theorem Same.shrinks (h : Same s t) : Shrinks s t where
  among hrs := ⟨_, (h.among _).symm.trans hrs, Finset.Subset.refl _⟩
  relativeTo hr := (h.relativeTo _).symm.trans hr
  nextLayer := h.nextLayer

theorem Same.cleared (h : Same s t) : Cleared s t :=
  { h.shrinks with link := fun _ _ => .inl h.link }

theorem Shrinks.trans {u : Sys} (h : Shrinks s t) (h' : Shrinks t u) : Shrinks s u where
  among hrs := by
    obtain ⟨rs', hrs', hsub'⟩ := h'.among hrs
    obtain ⟨rs'', hrs'', hsub⟩ := h.among hrs'
    exact ⟨rs'', hrs'', hsub'.trans hsub⟩
  relativeTo hr := h.relativeTo (h'.relativeTo hr)
  nextLayer := h'.nextLayer.trans h.nextLayer

theorem Cleared.trans {u : Sys} (h : Cleared s t) (h' : Cleared t u) : Cleared s u where
  toShrinks := h.toShrinks.trans h'.toShrinks
  link := by
    intro l r
    rcases h'.link l r with hu | ⟨a, b, ht, hu⟩
    · rw [hu]
      exact h.link l r
    · right
      rcases h.link l r with hs | ⟨a', b', hs, ht'⟩
      · exact ⟨a, b, hs ▸ ht, hu⟩
      · rw [ht'] at ht
        obtain ⟨rfl, rfl⟩ := Prod.mk.inj (Option.some.inj ht)
        exact ⟨a', b', hs, by simpa using hu⟩

/-- Its own pointer is all that is lost, when the layer it was relative to is gone. -/
theorem cleared_forget (h : relativeTo s l = some (some r)) (hr : s.layers r = none) :
    Cleared s (forget s l) where
  among hrs := ⟨_, among_forget.symm.trans hrs, Finset.Subset.refl _⟩
  relativeTo {k r'} hr' := by
    rw [relativeTo_forget] at hr'
    split at hr'
    · simp [Option.map_eq_some_iff] at hr'
    · exact hr'
  nextLayer := rfl
  link l' r' := by
    by_cases hl : l' = l
    · subst hl
      cases hr' : among s r' with
      | none => simp [link, hr']
      | some rs =>
        have hne : r ≠ r' := by
          rintro rfl
          simp [among, hr] at hr'
        exact .inr ⟨decide (l' ∈ rs), false, by simp [link, hr', h, hne], by simp [link, hr', h]⟩
    · left
      simp [link, hl]

/-- Both sides are cleared. -/
theorem cleared_forget_remove (h : relativeTo s l = some (some r)) :
    Cleared s (forget (removeZOrderRelative s r l) l) where
  among {k rs} hrs := by
    rw [among_forget, among_removeZOrderRelative] at hrs
    split at hrs
    · obtain ⟨rs', hrs', rfl⟩ := Option.map_eq_some_iff.mp hrs
      exact ⟨rs', hrs', Finset.erase_subset _ _⟩
    · exact ⟨rs, hrs, Finset.Subset.refl _⟩
  relativeTo {k r'} hr' := by
    rw [relativeTo_forget, relativeTo_removeZOrderRelative] at hr'
    split at hr'
    · simp [Option.map_eq_some_iff] at hr'
    · exact hr'
  nextLayer := rfl
  link l' r' := by
    cases hr' : among s r' with
    | none =>
      left
      by_cases hk : r' = r
      · subst hk
        simp [link, hr']
      · simp [link, hr', hk]
    | some rs =>
      by_cases hl : l' = l
      · subst hl
        refine .inr ⟨decide (l' ∈ rs), decide (r = r'), by simp [link, hr', h], ?_⟩
        by_cases hk : r' = r
        · subst hk
          simp [link, hr', h]
        · simp [link, hr', h, hk, Ne.symm hk]
      · left
        by_cases hk : r' = r
        · subst hk
          simp [link, hr', hl]
        · simp [link, hr', hl, hk]

theorem cleared_discard (h : relativeTo s l = some q) : Cleared s (discard s l q).1 := by
  cases q with
  | none => exact (Same.refl s).cleared
  | some r =>
    simp only [discard]
    split
    · exact cleared_forget h ‹_›
    · exact cleared_forget_remove h

theorem relativeTo_of_layers (hx : s.layers l = some x) :
    relativeTo s l = some x.current.zOrderRelativeOf := by
  simp [relativeTo, hx]

theorem cleared_setLayer (hx : s.layers l = some x) (z : ℤ) : Cleared s (setLayer s l x z).1 := by
  simp only [setLayer]
  split
  · exact (Same.refl s).cleared
  · have hsame : Same s (s.modify l fun x => x.write fun c => { c with z := z }) :=
      same_modify (fun _ => rfl) fun _ => rfl
    refine hsame.cleared.trans (cleared_discard ?_)
    rw [hsame.relativeTo, relativeTo_of_layers hx]

theorem cleared_leave (hx : s.layers l = some x) : Cleared s (leave s l x) := by
  refine (cleared_discard (relativeTo_of_layers hx)).trans (Same.cleared ?_)
  exact ⟨fun _ => rfl, fun _ => rfl, rfl⟩

theorem cleared_foldlM {f : Sys → ℕ → Option Sys}
    (hf : ∀ {s l t}, f s l = some t → Cleared s t) {ls : List ℕ} (h : ls.foldlM f s = some t) :
    Cleared s t := by
  induction ls generalizing s with
  | nil =>
    obtain rfl : s = t := by simpa using h
    exact (Same.refl s).cleared
  | cons l ls ih =>
    rw [List.foldlM_cons] at h
    obtain ⟨u, hu, hut⟩ := Option.bind_eq_some_iff.mp h
    exact (hf hu).trans (ih hut)

theorem cleared_onRemovedFromCurrentState {depth : ℕ}
    (h : onRemovedFromCurrentState depth s l = some t) : Cleared s t := by
  induction depth generalizing s l t with
  | zero => cases h
  | succ depth ih =>
    rw [onRemovedFromCurrentState] at h
    split at h
    · cases h
    · exact (cleared_leave ‹_›).trans (cleared_foldlM ih h)

theorem related_setRelativeLayer (hl : (s.layers l).isSome) (hr : (s.layers r).isSome) (z : ℤ) :
    Related s (setRelativeLayer s l (some r) z).1 l r := by
  obtain ⟨y, hy⟩ := Option.isSome_iff_exists.mp hr
  obtain ⟨x, hx⟩ := Option.isSome_iff_exists.mp hl
  have heq : (setRelativeLayer s l (some r) z).1 =
      addZOrderRelative (s.modify l fun x => x.write fun c =>
        { c with z := z, zOrderRelativeOf := some r }) r l := by
    simp [setRelativeLayer, hy]
  have hamong : ∀ k, among (s.modify l fun x => x.write fun c =>
      { c with z := z, zOrderRelativeOf := some r }) k = among s k := by
    intro k
    by_cases hk : k = l <;>
      simp [among, Sys.modify, Heap.modify, Layer.write, hk, Function.comp_def]
  refine ⟨⟨hl, hr⟩, fun k => ?_, fun k => ?_, by rw [heq]; rfl⟩
  · rw [heq, among_addZOrderRelative, hamong]
  · rw [heq, relativeTo_addZOrderRelative]
    by_cases hk : k = l <;> simp [relativeTo, Sys.modify, Heap.modify, Layer.write, hk, hx]

theorem setRelativeLayer_of_gone (h : ∀ r, q = some r → s.layers r = none) (z : ℤ) :
    setRelativeLayer s l q z = (s, false) := by
  cases q with
  | none => rfl
  | some r => simp [setRelativeLayer, h r rfl]

/-- The layer `l` is no more. -/
theorem shrinks_destroy : Shrinks s (destroy s l) where
  among {k rs} hrs := by
    by_cases hk : k = l
    · simp [among, destroy, hk] at hrs
    · exact ⟨rs, by simpa [among, destroy, hk] using hrs, Finset.Subset.refl _⟩
  relativeTo {k r} hr := by
    by_cases hk : k = l
    · simp [relativeTo, destroy, hk] at hr
    · simpa [relativeTo, destroy, hk] using hr
  nextLayer := rfl

theorem link_destroy (l' r : ℕ) :
    link (destroy s l) l' r = link s l' r ∨ link (destroy s l) l' r = none := by
  by_cases hl : l' = l
  · right
    simp [link, relativeTo, destroy, hl]
  · by_cases hr : r = l
    · right
      simp [link, among, destroy, hr]
    · left
      simp [link, among, relativeTo, destroy, hl, hr]

/-- **What a step can do** to who is relative to whom. -/
theorem step_cases {i : Input} {o : Bool} (h : step s i = some (t, o)) :
    t = create s ∨
    (Shrinks s t ∧ ∀ l r, link t l r = link s l r ∨ link t l r = none) ∨
    Cleared s t ∨
    ∃ l r z, i = .setRelativeLayer l (some r) z ∧ Related s t l r := by
  cases i with
  | create =>
    obtain ⟨rfl, -⟩ := Prod.mk.inj (Option.some.inj h)
    exact .inl rfl
  | destroy l =>
    obtain ⟨-, -, hst⟩ := Option.map_eq_some_iff.mp h
    obtain ⟨rfl, -⟩ := Prod.mk.inj hst
    exact .inr (.inl ⟨shrinks_destroy, link_destroy⟩)
  | setChildren l children =>
    obtain ⟨-, -, hst⟩ := Option.map_eq_some_iff.mp h
    obtain ⟨rfl, -⟩ := Prod.mk.inj hst
    refine .inr (.inr (.inl (Same.cleared ?_)))
    exact same_modify (fun _ => rfl) fun _ => rfl
  | setLayer l z =>
    obtain ⟨x, hx, hst⟩ := Option.map_eq_some_iff.mp h
    obtain rfl : (setLayer s l x z).1 = t := by rw [hst]
    exact .inr (.inr (.inl (cleared_setLayer hx z)))
  | setRelativeLayer l q z =>
    obtain ⟨x, hx, hst⟩ := Option.map_eq_some_iff.mp h
    obtain rfl : (setRelativeLayer s l q z).1 = t := by rw [hst]
    by_cases hq : ∃ r, q = some r ∧ (s.layers r).isSome
    · obtain ⟨r, rfl, hr⟩ := hq
      exact .inr (.inr (.inr ⟨l, r, z, rfl, related_setRelativeLayer (by simp [hx]) hr z⟩))
    · rw [setRelativeLayer_of_gone (by simpa using hq)]
      exact .inr (.inr (.inl (Same.refl s).cleared))
  | onRemovedFromCurrentState depth l =>
    obtain ⟨u, hu, hst⟩ := Option.map_eq_some_iff.mp h
    obtain ⟨rfl, -⟩ := Prod.mk.inj hst
    exact .inr (.inr (.inl (cleared_onRemovedFromCurrentState hu)))
  | set l =>
    obtain ⟨-, -, hst⟩ := Option.map_eq_some_iff.mp h
    obtain ⟨rfl, -⟩ := Prod.mk.inj hst
    refine .inr (.inr (.inl (Same.cleared ?_)))
    exact same_modify (fun _ => rfl) fun _ => rfl
  | doTransaction l pending =>
    obtain ⟨-, -, hst⟩ := Option.map_eq_some_iff.mp h
    obtain ⟨rfl, -⟩ := Prod.mk.inj hst
    have hsame : Same s (s.modify l fun x => { x with
        current := { x.current with modified := false }, transactionNeeded := pending }) :=
      same_modify (fun _ => rfl) fun _ => rfl
    exact .inr (.inr (.inl (Same.cleared ⟨hsame.among, hsame.relativeTo, rfl⟩)))

/-! ### Pointers are to layers that have been created -/

structure Bounded (s : Sys) : Prop where
  among : ∀ {k rs}, among s k = some rs → k < s.nextLayer ∧ ∀ l ∈ rs, l < s.nextLayer
  relativeTo : ∀ {k r}, relativeTo s k = some (some r) → r < s.nextLayer

theorem Bounded.lt (hs : Bounded s) (hl : (s.layers l).isSome) : l < s.nextLayer := by
  obtain ⟨x, hx⟩ := Option.isSome_iff_exists.mp hl
  have hrs : Relatives.among s l = some x.current.zOrderRelatives := by simp [Relatives.among, hx]
  exact (hs.among hrs).1

theorem Bounded.shrinks (hs : Bounded s) (h : Shrinks s t) : Bounded t where
  among hrs := by
    obtain ⟨rs', hrs', hsub⟩ := h.among hrs
    rw [h.nextLayer]
    exact ⟨(hs.among hrs').1, fun l hl => (hs.among hrs').2 l (hsub hl)⟩
  relativeTo hr := by
    rw [h.nextLayer]
    exact hs.relativeTo (h.relativeTo hr)

theorem Bounded.create (hs : Bounded s) : Bounded (create s) where
  among {k rs} hrs := by
    by_cases hk : k = s.nextLayer
    · simp only [Relatives.among, Relatives.create, hk, if_true, Option.map_some,
        Option.some.injEq] at hrs ⊢
      subst hrs
      simp [newLayer]
    · have hrs' : Relatives.among s k = some rs := by
        simpa [Relatives.among, Relatives.create, hk] using hrs
      obtain ⟨hlt, hall⟩ := hs.among hrs'
      exact ⟨Nat.lt_succ_of_lt hlt, fun l hl => Nat.lt_succ_of_lt (hall l hl)⟩
  relativeTo {k r} hr := by
    by_cases hk : k = s.nextLayer
    · simp [Relatives.relativeTo, Relatives.create, hk, newLayer] at hr
    · have hr' : Relatives.relativeTo s k = some (some r) := by
        simpa [Relatives.relativeTo, Relatives.create, hk] using hr
      exact Nat.lt_succ_of_lt (hs.relativeTo hr')

theorem Bounded.related (hs : Bounded s) (h : Related s t l r) : Bounded t where
  among {k rs} hrs := by
    rw [h.among] at hrs
    rw [h.nextLayer]
    split at hrs
    · obtain ⟨rs', hrs', rfl⟩ := Option.map_eq_some_iff.mp hrs
      refine ⟨(hs.among hrs').1, fun m hm => ?_⟩
      rcases Finset.mem_insert.mp hm with rfl | hm
      · exact hs.lt h.living.1
      · exact (hs.among hrs').2 m hm
    · exact hs.among hrs
  relativeTo {k r'} hr := by
    rw [h.relativeTo] at hr
    rw [h.nextLayer]
    split at hr
    · obtain rfl : r = r' := by simpa using hr
      exact hs.lt h.living.2
    · exact hs.relativeTo hr

variable {i : Input} {o : Bool} {tr tr' : List (Input × Bool)}

theorem Bounded.step (hs : Bounded s) (h : step s i = some (t, o)) :
    Bounded t ∧ s.nextLayer ≤ t.nextLayer := by
  rcases step_cases h with rfl | ⟨hshrinks, -⟩ | hcleared | ⟨l, r, z, -, hrelated⟩
  · exact ⟨hs.create, Nat.le_succ _⟩
  · exact ⟨hs.shrinks hshrinks, hshrinks.nextLayer.ge⟩
  · exact ⟨hs.shrinks hcleared.toShrinks, hcleared.nextLayer.ge⟩
  · exact ⟨hs.related hrelated, hrelated.nextLayer.ge⟩

theorem bounded_of_run (h : Run step start tr s) : Bounded s := by
  refine h.invariant (P := fun _ s => Bounded s) ⟨?_, ?_⟩ fun hs _ hstep => (hs.step hstep).1
  · intro k rs hrs
    cases hrs
  · intro k r hr
    cases hr

/-! ### One pair of layers -/

theorem Related.link_same (h : Related s t l r) : link t l r = some (true, true) := by
  obtain ⟨y, hy⟩ := Option.isSome_iff_exists.mp h.living.2
  have hrs : Relatives.among s r = some y.current.zOrderRelatives := by simp [Relatives.among, hy]
  simp [link, h.among, h.relativeTo, hrs]

/-- The layer is taken away from no other. -/
theorem Related.link_other (h : Related s t l r) (hne : k ≠ r) :
    link t l k = (link s l k).map fun p => (p.1, false) := by
  obtain ⟨x, hx⟩ := Option.isSome_iff_exists.mp h.living.1
  cases hrs : Relatives.among s k with
  | none => simp [link, h.among, hne, hrs]
  | some rs => simp [link, h.among, h.relativeTo, hne, hrs, relativeTo_of_layers hx, hne.symm]

theorem Related.link_of_ne (h : Related s t l r) (hne : k ≠ l) (r' : ℕ) :
    link t k r' = link s k r' := by
  by_cases hr : r' = r
  · subst hr
    cases hrs : Relatives.among s r' with
    | none => simp [link, h.among, hrs]
    | some rs => simp [link, h.among, h.relativeTo, hne, hrs]
  · simp [link, h.among, h.relativeTo, hne, hr]

theorem among_create :
    among (create s) k = if k = s.nextLayer then some ∅ else among s k := by
  by_cases hk : k = s.nextLayer <;> simp [among, create, newLayer, hk]

theorem relativeTo_create :
    relativeTo (create s) k = if k = s.nextLayer then some none else relativeTo s k := by
  by_cases hk : k = s.nextLayer <;> simp [relativeTo, create, newLayer, hk]

/-- Nobody points to a new layer, and it points to nobody. -/
theorem link_create (hs : Bounded s) (l r : ℕ) : link (create s) l r = link s l r ∨
    ((l = s.nextLayer ∨ r = s.nextLayer) ∧
      (link (create s) l r = none ∨ link (create s) l r = some (false, false))) := by
  by_cases hr : r = s.nextLayer
  · right
    refine ⟨.inr hr, ?_⟩
    subst hr
    cases hq : relativeTo (create s) l with
    | none => simp [link, hq]
    | some q =>
      have hne : q ≠ some s.nextLayer := by
        rintro rfl
        rw [relativeTo_create] at hq
        split at hq
        · simp at hq
        · exact absurd (hs.relativeTo hq) (lt_irrefl _)
      right
      simp [link, among_create, hq, hne]
  · by_cases hl : l = s.nextLayer
    · right
      refine ⟨.inl hl, ?_⟩
      subst hl
      cases hrs : among s r with
      | none => simp [link, among_create, hr, hrs]
      | some rs =>
        have hnot : s.nextLayer ∉ rs := fun hmem => absurd ((hs.among hrs).2 _ hmem) (lt_irrefl _)
        right
        simp [link, among_create, relativeTo_create, hr, hrs, hnot]
    · left
      simp [link, among_create, relativeTo_create, hl, hr]

/-- **What a step can do** to one pair of layers. -/
theorem link_step (hs : Bounded s) (h : step s i = some (t, o)) (l r : ℕ) :
    link t l r = link s l r ∨ link t l r = none ∨
    ((l = s.nextLayer ∨ r = s.nextLayer) ∧ link t l r = some (false, false)) ∨
    (∃ a b, link s l r = some (a, b) ∧ link t l r = some (a && !b, false)) ∨
    (∃ z, i = .setRelativeLayer l (some r) z ∧ link t l r = some (true, true)) ∨
    ∃ r' z a b, i = .setRelativeLayer l (some r') z ∧ r ≠ r' ∧ (s.layers r').isSome ∧
      link s l r = some (a, b) ∧ link t l r = some (a, false) := by
  rcases step_cases h with rfl | ⟨-, hlink⟩ | hcleared | ⟨l', r', z, rfl, hrelated⟩
  · rcases link_create hs l r with hsame | ⟨hnew, hnone | hfalse⟩
    · exact .inl hsame
    · exact .inr (.inl hnone)
    · exact .inr (.inr (.inl ⟨hnew, hfalse⟩))
  · exact (hlink l r).imp_right .inl
  · rcases hcleared.link l r with hsame | hclear
    · exact .inl hsame
    · exact .inr (.inr (.inr (.inl hclear)))
  · by_cases hl : l = l'
    · subst hl
      by_cases hr : r = r'
      · subst hr
        exact .inr (.inr (.inr (.inr (.inl ⟨z, rfl, hrelated.link_same⟩))))
      · have hlink := hrelated.link_other hr
        cases hp : link s l r with
        | none => exact .inr (.inl (by rw [hlink, hp]; rfl))
        | some p =>
          refine .inr (.inr (.inr (.inr (.inr ⟨r', z, p.1, p.2, rfl, hr, ?_, rfl, ?_⟩))))
          · exact hrelated.living.2
          · rw [hlink, hp]
            rfl
    · exact .inl (hrelated.link_of_ne hl r)

/-! ### Every run -/

/-- A layer that points to another is among its relatives. -/
def Linked (s : Sys) : Prop := ∀ ⦃l r x y⦄, s.layers l = some x → s.layers r = some y →
  x.current.zOrderRelativeOf = some r → l ∈ y.current.zOrderRelatives

/-- The relatives of a layer are those that point to it. -/
def Mutual (s : Sys) : Prop := ∀ ⦃l r x y⦄, s.layers l = some x → s.layers r = some y →
  (l ∈ y.current.zOrderRelatives ↔ x.current.zOrderRelativeOf = some r)

/-- A layer that is relative to one layer is made relative to another. -/
def Moves (s : Sys) (i : Input) : Prop := ∃ l r r' z x, i = .setRelativeLayer l (some r') z ∧
  s.layers l = some x ∧ x.current.zOrderRelativeOf = some r ∧ r ≠ r' ∧
    (s.layers r).isSome ∧ (s.layers r').isSome

theorem linked_iff : Linked s ↔ ∀ l r, link s l r ≠ some (false, true) := by
  constructor
  · intro h l r hlink
    obtain ⟨x, y, hx, hy, ha, hb⟩ := layers_of_link hlink
    exact of_decide_eq_false ha.symm (h hx hy (of_decide_eq_true hb.symm))
  · intro h l r x y hx hy hof
    by_contra hmem
    refine h l r ?_
    rw [link_of_layers hx hy, decide_eq_false hmem, decide_eq_true hof]

theorem mutual_iff_link : Mutual s ↔ ∀ l r a b, link s l r = some (a, b) → a = b := by
  constructor
  · intro h l r a b hlink
    obtain ⟨x, y, hx, hy, rfl, rfl⟩ := layers_of_link hlink
    exact decide_eq_decide.mpr (h hx hy)
  · intro h l r x y hx hy
    exact decide_eq_decide.mp (h l r _ _ (link_of_layers hx hy))

theorem Linked.step (hs : Bounded s) (hlinked : Linked s) (h : step s i = some (t, o)) :
    Linked t := by
  rw [linked_iff] at hlinked ⊢
  intro l r
  rcases link_step hs h l r with hlink | hlink | ⟨-, hlink⟩ | ⟨a, b, -, hlink⟩ | ⟨z, -, hlink⟩ |
    ⟨r', z, a, b, -, -, -, -, hlink⟩
  · rw [hlink]
    exact hlinked l r
  all_goals
    rw [hlink]
    simp

/-- **A layer that points to another is among its relatives**, in every run. -/
theorem linked_of_run (h : Run step start tr s) : Linked s := by
  refine (h.invariant (P := fun _ s => Bounded s ∧ Linked s) ⟨bounded_of_run .nil, ?_⟩
    fun hs _ hstep => ⟨(hs.1.step hstep).1, hs.2.step hs.1 hstep⟩).2
  intro l r x y hx
  cases hx

/-- As long as no layer moves, the two sides agree. -/
theorem Mutual.step (hs : Bounded s) (hmutual : Mutual s) (hstay : ¬ Moves s i)
    (h : step s i = some (t, o)) : Mutual t := by
  rw [mutual_iff_link] at hmutual ⊢
  intro l r a b hab
  rcases link_step hs h l r with hlink | hlink | ⟨-, hlink⟩ | ⟨a', b', hlink', hlink⟩ |
    ⟨z, -, hlink⟩ | ⟨r', z, a', b', rfl, hne, hr', hlink', hlink⟩
  · exact hmutual l r a b (hlink ▸ hab)
  · rw [hlink] at hab
    cases hab
  · rw [hlink] at hab
    obtain ⟨rfl, rfl⟩ := Prod.mk.inj (Option.some.inj hab)
    rfl
  · rw [hlink] at hab
    obtain ⟨rfl, rfl⟩ := Prod.mk.inj (Option.some.inj hab)
    simp [hmutual l r a' b' hlink']
  · rw [hlink] at hab
    obtain ⟨rfl, rfl⟩ := Prod.mk.inj (Option.some.inj hab)
    rfl
  · rw [hlink] at hab
    obtain ⟨rfl, rfl⟩ := Prod.mk.inj (Option.some.inj hab)
    -- were it relative to `r`, this would be a move
    obtain ⟨x, y, hx, hy, -, hof⟩ := layers_of_link hlink'
    rw [hmutual l r a' b' hlink', hof]
    exact decide_eq_false fun hof => hstay ⟨l, r, r', z, x, rfl, hx, hof, hne, by simp [hy], hr'⟩

/-- The layer that is moved stays among the relatives of the layer it was relative to. -/
theorem link_of_move {z : ℤ} {r' : ℕ} (hlinked : Linked s) (hx : s.layers l = some x)
    (hof : x.current.zOrderRelativeOf = some r) (hne : r ≠ r') (hr : (s.layers r).isSome)
    (hr' : (s.layers r').isSome) (h : step s (.setRelativeLayer l (some r') z) = some (t, o)) :
    link t l r = some (true, false) := by
  obtain ⟨y, hy⟩ := Option.isSome_iff_exists.mp hr
  have hst : setRelativeLayer s l (some r') z = (t, o) := by
    simpa [step, hx] using h
  have hrelated := related_setRelativeLayer (by simp [hx]) hr' z (s := s) (l := l)
  rw [hst] at hrelated
  rw [hrelated.link_other hne, link_of_layers hx hy, decide_eq_true (hlinked hx hy hof)]
  rfl

theorem not_mutual_of_moves (hlinked : Linked s) (hmoves : Moves s i)
    (h : step s i = some (t, o)) : ¬ Mutual t := by
  obtain ⟨l, r, r', z, x, rfl, hx, hof, hne, hr, hr'⟩ := hmoves
  rw [mutual_iff_link]
  intro hmutual
  have hab := hmutual l r _ _ (link_of_move hlinked hx hof hne hr hr' h)
  cases hab

theorem mutual_start : Mutual start := by
  intro l r x y hx
  cases hx

/-- **The two sides agree** after every step of a run exactly when no step of it moves a layer. -/
theorem mutual_iff (h : Run step start tr s) :
    Always (fun tr i o => ∀ t, Run step start (tr ++ [(i, o)]) t → Mutual t) tr ↔
      RunWhere step (fun s i => ¬ Moves s i) start tr s := by
  refine Run.always_iff_of_good (fun {tr s i t o} hrun hstep => ?_) h
  have hsnoc : Run step start (tr ++ [(i, o)]) t := hrun.run.snoc trivial hstep
  have hmutual : Bounded s ∧ Mutual s := by
    refine hrun.invariant (P := fun _ s => Bounded s ∧ Mutual s)
      ⟨bounded_of_run .nil, mutual_start⟩ fun hs hstay hstep => ?_
    exact ⟨(hs.1.step hstep).1, hs.2.step hs.1 hstay hstep⟩
  constructor
  · intro hgood hmoves
    exact not_mutual_of_moves (linked_of_run hrun.run) hmoves hstep (hgood t hsnoc)
  · intro hstay t' ht'
    obtain rfl := hsnoc.unique ht'
    exact hmutual.2.step hmutual.1 hstay hstep

/-- Layer 2 is relative to layer 0. -/
def relativeInputs : List Input := [.create, .create, .create, .setRelativeLayer 2 (some 0) 1]

/-- Layer 2 is moved from layer 0 to layer 1, and layer 0 keeps it. -/
theorem mutual_iff_moved : ∃ (tr : List (Input × Bool)) (s : Sys), Run step start tr s ∧
    (Always (fun tr i o => ∀ t, Run step start (tr ++ [(i, o)]) t → Mutual t) tr ↔
      RunWhere step (fun s i => ¬ Moves s i) start tr s) ∧ link s 2 0 = some (true, false) := by
  have hexec : exec step (fun _ _ => True) start
      (relativeInputs ++ [.setRelativeLayer 2 (some 1) 1]) = some _ := rfl
  have hrun := run_of_exec hexec
  exact ⟨_, _, hrun, mutual_iff hrun, by decide⟩

/-- **A layer that has been moved is left behind** with the layer it was relative to, for good: no
`setLayer` and no removal takes it away from there, as long as it is not made relative to that
layer again. -/
theorem left_behind {r' : ℕ} {z : ℤ} {u : Sys} {x' y' : Layer} (h : Run step start tr s)
    (hx : s.layers l = some x) (hof : x.current.zOrderRelativeOf = some r) (hne : r ≠ r')
    (hr : (s.layers r).isSome) (hr' : (s.layers r').isSome)
    (hstep : step s (.setRelativeLayer l (some r') z) = some (t, o))
    (hrun : RunWhere step (fun _ i => ∀ z, i ≠ .setRelativeLayer l (some r) z) t tr' u)
    (hx' : u.layers l = some x') (hy' : u.layers r = some y') :
    l ∈ y'.current.zOrderRelatives ∧ x'.current.zOrderRelativeOf ≠ some r := by
  have hbounded := bounded_of_run h
  have hlink := link_of_move (linked_of_run h) hx hof hne hr hr' hstep
  have hnext := (hbounded.step hstep).2
  have hl : l < t.nextLayer := (hbounded.lt (by simp [hx])).trans_le hnext
  have hlt : r < t.nextLayer := (hbounded.lt hr).trans_le hnext
  -- layers that are gone do not come back
  have hkeep : Bounded u ∧ l < u.nextLayer ∧ r < u.nextLayer ∧
      (link u l r = none ∨ link u l r = some (true, false)) := by
    refine hrun.invariant (P := fun _ u => Bounded u ∧ l < u.nextLayer ∧ r < u.nextLayer ∧
      (link u l r = none ∨ link u l r = some (true, false)))
      ⟨(hbounded.step hstep).1, hl, hlt, .inr hlink⟩ ?_
    rintro - u i v o ⟨hu, hl, hr, hlink⟩ hnot hstep
    obtain ⟨hv, hle⟩ := hu.step hstep
    refine ⟨hv, hl.trans_le hle, hr.trans_le hle, ?_⟩
    rcases link_step hu hstep l r with hsame | hnone | ⟨hnew, -⟩ | ⟨a, b, hab, hclear⟩ |
      ⟨z, rfl, -⟩ | ⟨r'', z, a, b, -, -, -, hab, hother⟩
    · rw [hsame]
      exact hlink
    · exact .inl hnone
    · omega
    · rw [hab] at hlink
      obtain ⟨rfl, rfl⟩ : a = true ∧ b = false := by simpa using hlink
      exact .inr hclear
    · exact absurd rfl (hnot z)
    · rw [hab] at hlink
      obtain ⟨rfl, rfl⟩ : a = true ∧ b = false := by simpa using hlink
      exact .inr hother
  have hlayers := link_of_layers hx' hy'
  rcases hkeep.2.2.2 with hnone | hleft
  · rw [hlayers] at hnone
    cases hnone
  · rw [hlayers] at hleft
    simpa using hleft

/-- Layer 2 is placed by itself again, and is still among the relatives of layer 0. -/
theorem left_behind_placed : ∃ (tr : List (Input × Bool)) (s : Sys) (x y : Layer),
    Run step start tr s ∧ s.layers 2 = some x ∧ s.layers 0 = some y ∧
      x.current.zOrderRelativeOf = none ∧
      2 ∈ y.current.zOrderRelatives ∧ x.current.zOrderRelativeOf ≠ some 0 := by
  have hexec : exec step (fun _ _ => True) start relativeInputs = some _ := rfl
  have hall : exec step (fun _ _ => True) start
      (relativeInputs ++ [.setRelativeLayer 2 (some 1) 1, .setLayer 2 5]) = some _ := rfl
  have hne : (0 : ℕ) ≠ 1 := by decide
  have hleft := left_behind (l := 2) (z := 1) (run_of_exec hexec) rfl rfl hne rfl rfl rfl
    (RunWhere.nil.snoc (i := .setLayer 2 5) (by simp) rfl) rfl rfl
  exact ⟨_, _, _, _, run_of_exec hall, rfl, rfl, rfl, hleft⟩

end Relatives

end Flinger

end A1000

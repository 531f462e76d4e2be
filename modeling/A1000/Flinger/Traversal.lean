import Mathlib.Data.Int.Notation
import Mathlib.Data.List.Basic
import Mathlib.Data.List.DropRight
import Mathlib.Data.Nat.Find
import Mathlib.Data.Nat.Notation

/-!
# The traversal of the layers

`SurfaceFlinger` goes through the layers bottom to top, and for some purposes top to bottom. At each
layer both ways go through one list, the relatives and the children of the layer, up to the first
entry of non-negative `z` and from the last entry of negative `z`. Both visit the same layers; they
do so in opposite orders only where the two places are one.

## Main definitions

* `Flinger.Traversal.makeTraversalList`
* `Flinger.Traversal.traverseInZOrder`, `Flinger.Traversal.traverseInReverseZOrder`
* `Flinger.Traversal.NegativesFirst` — the layers of negative `z` come first in a list

## Main results

* `Flinger.Traversal.perm_traverse` — both ways visit the same layers
* `Flinger.Traversal.reversed_iff` — when they do so in opposite orders
-/

namespace A1000

namespace Flinger

namespace Traversal

inductive StateSet
  | invalid
  | current
  | drawing
  deriving DecidableEq, Repr

/-- What of `Layer::State` has to do with the traversal. -/
structure State where
  z : ℤ
  zOrderRelatives : List ℕ
  deriving DecidableEq

structure Layer where
  currentState : State
  drawingState : State
  currentChildren : List ℕ
  drawingChildren : List ℕ
  deriving DecidableEq

def Layer.getZ (x : Layer) : ℤ := x.drawingState.z

/-- The layers that exist, and how a layer is added to a `LayerVector`. -/
structure Sys where
  layers : ℕ → Option Layer
  add : List ℕ → ℕ → List ℕ

variable (s : Sys) (stateSet : StateSet)

/-- Nothing is returned when `stateSet` is invalid, which is fatal. -/
def makeTraversalList (x : Layer) : Option (List ℕ) :=
  if stateSet = .invalid then none
  else
    let useDrawing := stateSet = .drawing
    let children := if useDrawing then x.drawingChildren else x.currentChildren
    let state := if useDrawing then x.drawingState else x.currentState
    if state.zOrderRelatives.length = 0 then some children
    else
      -- the weak pointers are promoted
      let relatives := state.zOrderRelatives.filter fun r => (s.layers r).isSome
      some (children.foldl s.add (relatives.foldl s.add []))

/-- The layer is below the layer in whose list it is. -/
def negative (l : ℕ) : Bool := (s.layers l).any fun x => x.getZ < 0

/-- The layers of a list, each with what is visited from it. -/
def visitAll (f : ℕ → Option (List ℕ)) : List ℕ → Option (List ℕ)
  | [] => some []
  | l :: ls => (f l).bind fun vs => (visitAll f ls).map fun ws => vs ++ ws

/-- The layers before `l`, the layer `l` itself and the layers after it. -/
def visitAround (f : ℕ → Option (List ℕ)) (l : ℕ) (before after : List ℕ) : Option (List ℕ) :=
  (visitAll f before).bind fun vs => (visitAll f after).map fun ws => vs ++ l :: ws

/-- The layers that are visited from `l`, where they are at most `depth` deep; nothing is returned
otherwise. -/
def traverseInZOrder : ℕ → ℕ → Option (List ℕ)
  | 0, _ => none
  | depth + 1, l =>
    (s.layers l).bind fun x => (makeTraversalList s stateSet x).bind fun list =>
      visitAround (traverseInZOrder depth) l
        (list.takeWhile (negative s)) (list.dropWhile (negative s))

def traverseInReverseZOrder : ℕ → ℕ → Option (List ℕ)
  | 0, _ => none
  | depth + 1, l =>
    (s.layers l).bind fun x => (makeTraversalList s stateSet x).bind fun list =>
      visitAround (traverseInReverseZOrder depth) l
        (list.reverse.takeWhile (!negative s ·)) (list.reverse.dropWhile (!negative s ·))

variable {s stateSet}
variable {f g : ℕ → Option (List ℕ)} {l k depth : ℕ} {ls ls' vs ws list : List ℕ} {x : Layer}

/-! ### Lists of layers -/

theorem visitAll_eq_some_cons : visitAll f (l :: ls) = some vs ↔
    ∃ us ws, f l = some us ∧ visitAll f ls = some ws ∧ vs = us ++ ws := by
  simp only [visitAll, Option.bind_eq_some_iff, Option.map_eq_some_iff]
  constructor
  · rintro ⟨us, hus, ws, hws, rfl⟩
    exact ⟨us, ws, hus, hws, rfl⟩
  · rintro ⟨us, ws, hus, hws, rfl⟩
    exact ⟨us, hus, ws, hws, rfl⟩

theorem visitAll_append : visitAll f (ls ++ ls') =
    (visitAll f ls).bind fun us => (visitAll f ls').map fun ws => us ++ ws := by
  induction ls with
  | nil => simp [visitAll]
  | cons l ls ih =>
    rw [List.cons_append, visitAll, visitAll, ih]
    cases f l <;> cases visitAll f ls <;> cases visitAll f ls' <;> simp

theorem visitAll_append_eq_some : visitAll f (ls ++ ls') = some vs ↔
    ∃ us ws, visitAll f ls = some us ∧ visitAll f ls' = some ws ∧ vs = us ++ ws := by
  simp only [visitAll_append, Option.bind_eq_some_iff, Option.map_eq_some_iff]
  constructor
  · rintro ⟨us, hus, ws, hws, rfl⟩
    exact ⟨us, ws, hus, hws, rfl⟩
  · rintro ⟨us, ws, hus, hws, rfl⟩
    exact ⟨us, hus, ws, hws, rfl⟩

/-- What is visited from the layers of a list is visited from one of them. -/
theorem exists_of_mem_visitAll (h : visitAll f ls = some vs) (hk : k ∈ vs) :
    ∃ l ∈ ls, ∃ us, f l = some us ∧ k ∈ us := by
  induction ls generalizing vs with
  | nil =>
    obtain rfl : [] = vs := by simpa [visitAll] using h
    cases hk
  | cons l ls ih =>
    obtain ⟨us, ws, hus, hws, rfl⟩ := visitAll_eq_some_cons.mp h
    rcases List.mem_append.mp hk with hk | hk
    · exact ⟨l, List.mem_cons_self, us, hus, hk⟩
    · obtain ⟨l', hl', us', hus', hk'⟩ := ih hws hk
      exact ⟨l', List.mem_cons_of_mem l hl', us', hus', hk'⟩

theorem exists_of_visitAll (h : visitAll f ls = some vs) (hl : l ∈ ls) :
    ∃ us, f l = some us ∧ us ⊆ vs := by
  induction ls generalizing vs with
  | nil => cases hl
  | cons l' ls ih =>
    obtain ⟨us, ws, hus, hws, rfl⟩ := visitAll_eq_some_cons.mp h
    rcases List.mem_cons.mp hl with rfl | hl
    · exact ⟨us, hus, List.subset_append_left us ws⟩
    · obtain ⟨us', hus', hsub⟩ := ih hws hl
      exact ⟨us', hus', List.subset_append_of_subset_right us hsub⟩

theorem visitAll_mono (hfg : ∀ l vs, f l = some vs → g l = some vs)
    (h : visitAll f ls = some vs) : visitAll g ls = some vs := by
  induction ls generalizing vs with
  | nil => exact h
  | cons l ls ih =>
    obtain ⟨us, ws, hus, hws, rfl⟩ := visitAll_eq_some_cons.mp h
    exact visitAll_eq_some_cons.mpr ⟨us, ws, hfg l us hus, ih hws, rfl⟩

/-- Visits that agree up to their order. -/
def Alike (f g : ℕ → Option (List ℕ)) : Prop :=
  ∀ l vs, f l = some vs → ∃ ws, g l = some ws ∧ vs.Perm ws

theorem Alike.visitAll (hfg : Alike f g) (h : visitAll f ls = some vs) :
    ∃ ws, visitAll g ls = some ws ∧ vs.Perm ws := by
  induction ls generalizing vs with
  | nil => exact ⟨vs, h, .refl vs⟩
  | cons l ls ih =>
    obtain ⟨us, ws, hus, hws, rfl⟩ := visitAll_eq_some_cons.mp h
    obtain ⟨us', hus', hperm⟩ := hfg l us hus
    obtain ⟨ws', hws', hperm'⟩ := ih hws
    exact ⟨us' ++ ws', visitAll_eq_some_cons.mpr ⟨us', ws', hus', hws', rfl⟩, hperm.append hperm'⟩

theorem visitAll_perm (hls : ls.Perm ls') (h : visitAll f ls = some vs) :
    ∃ ws, visitAll f ls' = some ws ∧ vs.Perm ws := by
  induction hls generalizing vs with
  | nil => exact ⟨vs, h, .refl vs⟩
  | cons l _ ih =>
    obtain ⟨us, ws, hus, hws, rfl⟩ := visitAll_eq_some_cons.mp h
    obtain ⟨ws', hws', hperm⟩ := ih hws
    exact ⟨us ++ ws', visitAll_eq_some_cons.mpr ⟨us, ws', hus, hws', rfl⟩, hperm.append_left us⟩
  | swap l l' ls =>
    obtain ⟨us, ws, hus, hws, rfl⟩ := visitAll_eq_some_cons.mp h
    obtain ⟨us', ws', hus', hws', rfl⟩ := visitAll_eq_some_cons.mp hws
    refine ⟨us' ++ (us ++ ws'), visitAll_eq_some_cons.mpr ⟨us', us ++ ws', hus',
      visitAll_eq_some_cons.mpr ⟨us, ws', hus, hws', rfl⟩, rfl⟩, ?_⟩
    rw [← List.append_assoc, ← List.append_assoc]
    exact List.perm_append_comm.append_right ws'
  | trans _ _ ih ih' =>
    obtain ⟨us, hus, hperm⟩ := ih h
    obtain ⟨ws, hws, hperm'⟩ := ih' hus
    exact ⟨ws, hws, hperm.trans hperm'⟩

theorem visitAround_eq_some {before after : List ℕ} :
    visitAround f l before after = some vs ↔ ∃ us ws, visitAll f before = some us ∧
      visitAll f after = some ws ∧ vs = us ++ l :: ws := by
  simp only [visitAround, Option.bind_eq_some_iff, Option.map_eq_some_iff]
  constructor
  · rintro ⟨us, hus, ws, hws, rfl⟩
    exact ⟨us, ws, hus, hws, rfl⟩
  · rintro ⟨us, ws, hus, hws, rfl⟩
    exact ⟨us, hus, ws, hws, rfl⟩

theorem Alike.visitAround {before after before' after' : List ℕ} (hfg : Alike f g)
    (hls : (before ++ after).Perm (before' ++ after'))
    (h : visitAround f l before after = some vs) :
    ∃ ws, visitAround g l before' after' = some ws ∧ vs.Perm ws := by
  obtain ⟨us, ws, hus, hws, rfl⟩ := visitAround_eq_some.mp h
  obtain ⟨vs', hvs', hperm⟩ :=
    visitAll_perm hls (visitAll_append_eq_some.mpr ⟨us, ws, hus, hws, rfl⟩)
  obtain ⟨vs'', hvs'', hperm'⟩ := hfg.visitAll hvs'
  obtain ⟨us', ws', hus', hws', rfl⟩ := visitAll_append_eq_some.mp hvs''
  refine ⟨us' ++ l :: ws', visitAround_eq_some.mpr ⟨us', ws', hus', hws', rfl⟩, ?_⟩
  exact List.perm_middle.trans ((List.Perm.cons l (hperm.trans hperm')).trans
    List.perm_middle.symm)

/-- The lists the other way round, each visit the other way round. -/
theorem visitAll_reverse :
    visitAll (fun l => (f l).map List.reverse) ls.reverse = (visitAll f ls).map List.reverse := by
  induction ls with
  | nil => rfl
  | cons l ls ih =>
    rw [List.reverse_cons, visitAll_append, ih, visitAll, visitAll, visitAll]
    cases f l <;> cases visitAll f ls <;> simp

theorem map_reverse_visitAround {before after : List ℕ} :
    (visitAround f l before after).map List.reverse =
      visitAround (fun l => (f l).map List.reverse) l after.reverse before.reverse := by
  rw [visitAround, visitAround, visitAll_reverse, visitAll_reverse]
  cases visitAll f before <;> cases visitAll f after <;> simp

/-! ### The same layers -/

theorem perm_reverse_split (list : List ℕ) (p q : ℕ → Bool) :
    (list.takeWhile p ++ list.dropWhile p).Perm
      (list.reverse.takeWhile q ++ list.reverse.dropWhile q) := by
  rw [List.takeWhile_append_dropWhile, List.takeWhile_append_dropWhile]
  exact (List.reverse_perm list).symm

theorem traverseInZOrder_succ : traverseInZOrder s stateSet (depth + 1) l = some vs ↔
    ∃ x list, s.layers l = some x ∧ makeTraversalList s stateSet x = some list ∧
      visitAround (traverseInZOrder s stateSet depth) l
        (list.takeWhile (negative s)) (list.dropWhile (negative s)) = some vs := by
  simp only [traverseInZOrder, Option.bind_eq_some_iff]
  constructor
  · rintro ⟨x, hx, list, hlist, hvs⟩
    exact ⟨x, list, hx, hlist, hvs⟩
  · rintro ⟨x, list, hx, hlist, hvs⟩
    exact ⟨x, hx, list, hlist, hvs⟩

theorem traverseInReverseZOrder_succ : traverseInReverseZOrder s stateSet (depth + 1) l = some vs ↔
    ∃ x list, s.layers l = some x ∧ makeTraversalList s stateSet x = some list ∧
      visitAround (traverseInReverseZOrder s stateSet depth) l
        (list.reverse.takeWhile (!negative s ·)) (list.reverse.dropWhile (!negative s ·)) =
          some vs := by
  simp only [traverseInReverseZOrder, Option.bind_eq_some_iff]
  constructor
  · rintro ⟨x, hx, list, hlist, hvs⟩
    exact ⟨x, list, hx, hlist, hvs⟩
  · rintro ⟨x, list, hx, hlist, hvs⟩
    exact ⟨x, hx, list, hlist, hvs⟩

theorem alike_reverse :
    Alike (traverseInZOrder s stateSet depth) (traverseInReverseZOrder s stateSet depth) := by
  induction depth with
  | zero =>
    intro l vs h
    cases h
  | succ depth ih =>
    intro l vs h
    obtain ⟨x, list, hx, hlist, hvs⟩ := traverseInZOrder_succ.mp h
    obtain ⟨ws, hws, hperm⟩ := ih.visitAround (perm_reverse_split list _ _) hvs
    exact ⟨ws, traverseInReverseZOrder_succ.mpr ⟨x, list, hx, hlist, hws⟩, hperm⟩

theorem alike_forward :
    Alike (traverseInReverseZOrder s stateSet depth) (traverseInZOrder s stateSet depth) := by
  induction depth with
  | zero =>
    intro l vs h
    cases h
  | succ depth ih =>
    intro l vs h
    obtain ⟨x, list, hx, hlist, hvs⟩ := traverseInReverseZOrder_succ.mp h
    obtain ⟨ws, hws, hperm⟩ := ih.visitAround (perm_reverse_split list _ _).symm hvs
    exact ⟨ws, traverseInZOrder_succ.mpr ⟨x, list, hx, hlist, hws⟩, hperm⟩

/-- **Both ways visit the same layers**, each as often. -/
theorem perm_traverse (s : Sys) (stateSet : StateSet) (depth l : ℕ) :
    (∀ vs, traverseInZOrder s stateSet depth l = some vs →
      ∃ ws, traverseInReverseZOrder s stateSet depth l = some ws ∧ vs.Perm ws) ∧
    ∀ ws, traverseInReverseZOrder s stateSet depth l = some ws →
      ∃ vs, traverseInZOrder s stateSet depth l = some vs ∧ vs.Perm ws := by
  refine ⟨alike_reverse l, fun ws hws => ?_⟩
  obtain ⟨vs, hvs, hperm⟩ := alike_forward l ws hws
  exact ⟨vs, hvs, hperm.symm⟩

/-! ### How deep -/

theorem visitAround_mono {before after : List ℕ} (hfg : ∀ l vs, f l = some vs → g l = some vs)
    (h : visitAround f l before after = some vs) : visitAround g l before after = some vs := by
  obtain ⟨us, ws, hus, hws, rfl⟩ := visitAround_eq_some.mp h
  exact visitAround_eq_some.mpr ⟨us, ws, visitAll_mono hfg hus, visitAll_mono hfg hws, rfl⟩

theorem traverseInZOrder_mono {depth' : ℕ} (hle : depth ≤ depth')
    (h : traverseInZOrder s stateSet depth l = some vs) :
    traverseInZOrder s stateSet depth' l = some vs := by
  induction depth generalizing depth' l vs with
  | zero => cases h
  | succ depth ih =>
    obtain ⟨depth', rfl⟩ := Nat.exists_eq_add_of_lt hle
    obtain ⟨x, list, hx, hlist, hvs⟩ := traverseInZOrder_succ.mp h
    exact traverseInZOrder_succ.mpr ⟨x, list, hx, hlist,
      visitAround_mono (fun _ _ => ih (by omega)) hvs⟩

/-- What is visited top to bottom, bottom to top. -/
def turned (s : Sys) (stateSet : StateSet) (depth l : ℕ) : Option (List ℕ) :=
  (traverseInReverseZOrder s stateSet depth l).map List.reverse

theorem turned_succ : turned s stateSet (depth + 1) l = some vs ↔
    ∃ x list, s.layers l = some x ∧ makeTraversalList s stateSet x = some list ∧
      visitAround (turned s stateSet depth) l (list.rdropWhile (!negative s ·))
        (list.rtakeWhile (!negative s ·)) = some vs := by
  simp only [turned, traverseInReverseZOrder, Option.map_bind, Option.bind_eq_some_iff,
    Function.comp_def, map_reverse_visitAround, List.rdropWhile, List.rtakeWhile]
  constructor
  · rintro ⟨x, hx, list, hlist, hvs⟩
    exact ⟨x, list, hx, hlist, hvs⟩
  · rintro ⟨x, list, hx, hlist, hvs⟩
    exact ⟨x, hx, list, hlist, hvs⟩

theorem turned_mono {depth' : ℕ} (hle : depth ≤ depth') (h : turned s stateSet depth l = some vs) :
    turned s stateSet depth' l = some vs := by
  induction depth generalizing depth' l vs with
  | zero => cases h
  | succ depth ih =>
    obtain ⟨depth', rfl⟩ := Nat.exists_eq_add_of_lt hle
    obtain ⟨x, list, hx, hlist, hvs⟩ := turned_succ.mp h
    exact turned_succ.mpr ⟨x, list, hx, hlist, visitAround_mono (fun _ _ => ih (by omega)) hvs⟩

theorem alike_turned : Alike (traverseInZOrder s stateSet depth) (turned s stateSet depth) := by
  intro l vs h
  obtain ⟨ws, hws, hperm⟩ := alike_reverse l vs h
  exact ⟨ws.reverse, by simp [turned, hws], hperm.trans (List.reverse_perm ws).symm⟩

theorem alike_of_turned : Alike (turned s stateSet depth) (traverseInZOrder s stateSet depth) := by
  intro l vs h
  obtain ⟨ws, hws, rfl⟩ := Option.map_eq_some_iff.mp h
  obtain ⟨us, hus, hperm⟩ := alike_forward l ws hws
  exact ⟨us, hus, (List.reverse_perm ws).trans hperm⟩

theorem mem_traverseInZOrder (h : traverseInZOrder s stateSet depth l = some vs) : l ∈ vs := by
  cases depth with
  | zero => cases h
  | succ depth =>
    obtain ⟨x, list, -, -, hvs⟩ := traverseInZOrder_succ.mp h
    obtain ⟨us, ws, -, -, rfl⟩ := visitAround_eq_some.mp hvs
    exact List.mem_append_right us List.mem_cons_self

theorem mem_turned (h : turned s stateSet depth l = some vs) : l ∈ vs := by
  obtain ⟨us, hus, hperm⟩ := alike_of_turned l vs h
  exact hperm.mem_iff.mpr (mem_traverseInZOrder hus)

/-- A layer that is visited from `l` can itself be gone through to this depth. -/
theorem exists_of_visited (h : traverseInZOrder s stateSet depth l = some vs) (hk : k ∈ vs) :
    ∃ ws, traverseInZOrder s stateSet depth k = some ws := by
  induction depth generalizing l vs with
  | zero => cases h
  | succ depth ih =>
    obtain ⟨x, list, -, -, hvs⟩ := traverseInZOrder_succ.mp h
    obtain ⟨us, ws, hus, hws, rfl⟩ := visitAround_eq_some.mp hvs
    have hbelow : ∀ {ls us}, visitAll (traverseInZOrder s stateSet depth) ls = some us → k ∈ us →
        ∃ ws, traverseInZOrder s stateSet (depth + 1) k = some ws := by
      intro ls us hus hk
      obtain ⟨c, -, us', hus', hk'⟩ := exists_of_mem_visitAll hus hk
      obtain ⟨ws', hws'⟩ := ih hus' hk'
      exact ⟨ws', traverseInZOrder_mono (Nat.le_succ _) hws'⟩
    rcases List.mem_append.mp hk with hk | hk
    · exact hbelow hus hk
    · rcases List.mem_cons.mp hk with rfl | hk
      · exact ⟨_, h⟩
      · exact hbelow hws hk

/-! ### The other way round -/

/-- The layers of negative `z` come first. -/
def NegativesFirst (s : Sys) (list : List ℕ) : Prop :=
  list.Pairwise fun j k => negative s k → negative s j

theorem takeWhile_eq_iff : list.takeWhile (negative s) = list.rdropWhile (!negative s ·) ↔
    NegativesFirst s list := by
  constructor
  · intro h
    have hsplit : list.takeWhile (negative s) ++ list.rtakeWhile (!negative s ·) = list := by
      rw [h, List.rdropWhile_append_rtakeWhile]
    rw [NegativesFirst, ← hsplit, List.pairwise_append]
    have hneg : ∀ k ∈ list.takeWhile (negative s), negative s k := fun k => List.mem_takeWhile_imp
    have hpos : ∀ k ∈ list.rtakeWhile (!negative s ·), ¬ negative s k := by
      intro k hk
      simpa using List.mem_rtakeWhile_imp hk
    refine ⟨?_, ?_, fun j hj k _ _ => hneg j hj⟩
    · exact List.pairwise_of_forall_mem_list fun j hj k _ _ => hneg j hj
    · exact List.pairwise_of_forall_mem_list fun j _ k hk hneg => absurd hneg (hpos k hk)
  · intro h
    induction list with
    | nil => rfl
    | cons l ls ih =>
      rw [NegativesFirst, List.pairwise_cons] at h
      by_cases hl : negative s l
      · have hdrop : (l :: ls).rdropWhile (!negative s ·) = l :: ls.rdropWhile (!negative s ·) := by
          rw [List.rdropWhile, List.reverse_cons, List.dropWhile_append]
          split
          · rename_i hnil
            simp [List.rdropWhile, List.isEmpty_iff.mp hnil, hl]
          · simp [List.rdropWhile]
        rw [List.takeWhile_cons_of_pos hl, hdrop, ih h.2]
      · have hall : ∀ k ∈ l :: ls, (!negative s k) = true := by
          intro k hk
          rcases List.mem_cons.mp hk with rfl | hk
          · simpa using hl
          · simpa using mt (h.1 k hk) hl
        rw [List.takeWhile_cons_of_neg hl, List.rdropWhile_eq_nil_iff.mpr hall]

theorem dropWhile_eq (h : list.takeWhile (negative s) = list.rdropWhile (!negative s ·)) :
    list.dropWhile (negative s) = list.rtakeWhile (!negative s ·) := by
  have hsplit : list.takeWhile (negative s) ++ list.dropWhile (negative s) =
      list.takeWhile (negative s) ++ list.rtakeWhile (!negative s ·) := by
    rw [List.takeWhile_append_dropWhile, h, List.rdropWhile_append_rtakeWhile]
  exact List.append_cancel_left hsplit

/-- A list whose visits are already had by the beginning of it is no longer than that. -/
theorem eq_nil_of_visitAll {d : List ℕ} (hfg : Alike f g) (hne : ∀ l vs, g l = some vs → l ∈ vs)
    (h : visitAll f ls = some vs) (h' : visitAll g (ls ++ d) = some vs) : d = [] := by
  obtain ⟨us, ws, hus, hws, rfl⟩ := visitAll_append_eq_some.mp h'
  obtain ⟨us', hus', hperm⟩ := hfg.visitAll h
  obtain rfl : us = us' := by
    rw [hus] at hus'
    exact Option.some.inj hus'
  have hlen := hperm.length_eq
  rw [List.length_append] at hlen
  cases d with
  | nil => rfl
  | cons c d =>
    obtain ⟨vs', hvs', hsub⟩ := exists_of_visitAll hws List.mem_cons_self
    obtain rfl : ws = [] := List.eq_nil_of_length_eq_zero (by omega)
    exact absurd (hsub (hne c vs' hvs')) List.not_mem_nil

/-- Two prefixes of one list with the same visits are the same. -/
theorem prefix_unique (hfg : Alike f g) (hgf : Alike g f) (hf : ∀ l vs, f l = some vs → l ∈ vs)
    (hg : ∀ l vs, g l = some vs → l ∈ vs) (hls : ls <+: list) (hls' : ls' <+: list)
    (h : visitAll f ls = some vs) (h' : visitAll g ls' = some vs) : ls = ls' := by
  rcases List.prefix_or_prefix_of_prefix hls hls' with ⟨d, rfl⟩ | ⟨d, rfl⟩
  · rw [eq_nil_of_visitAll hfg hg h h', List.append_nil]
  · rw [eq_nil_of_visitAll hgf hf h' h, List.append_nil]

/-- Visits of one list that are the same are so layer by layer. -/
theorem agree_of_visitAll (hfg : Alike f g) (h : visitAll f ls = some vs)
    (h' : visitAll g ls = some vs) (hl : l ∈ ls) : ∃ us, f l = some us ∧ g l = some us := by
  induction ls generalizing vs with
  | nil => cases hl
  | cons c ls ih =>
    obtain ⟨us, ws, hus, hws, rfl⟩ := visitAll_eq_some_cons.mp h
    obtain ⟨us', ws', hus', hws', heq⟩ := visitAll_eq_some_cons.mp h'
    obtain ⟨us'', hus'', hperm⟩ := hfg c us hus
    obtain rfl : us' = us'' := by
      rw [hus'] at hus''
      exact Option.some.inj hus''
    obtain ⟨rfl, rfl⟩ := List.append_inj heq hperm.length_eq
    rcases List.mem_cons.mp hl with rfl | hl
    · exact ⟨us, hus, hus'⟩
    · exact ih hws hws' hl

theorem visitAll_congr (hfg : ∀ l ∈ ls, ∀ us, f l = some us → us ⊆ vs → g l = some us)
    (h : visitAll f ls = some ws) (hsub : ws ⊆ vs) : visitAll g ls = some ws := by
  induction ls generalizing ws with
  | nil => exact h
  | cons l ls ih =>
    obtain ⟨us, ws, hus, hws, rfl⟩ := visitAll_eq_some_cons.mp h
    obtain ⟨hsub, hsub'⟩ := List.append_subset.mp hsub
    exact visitAll_eq_some_cons.mpr ⟨us, ws, hfg l List.mem_cons_self us hus hsub,
      ih (fun c hc => hfg c (List.mem_cons_of_mem l hc)) hws hsub', rfl⟩

/-- The list of every layer of `vs` has the layers of negative `z` first. -/
def AllNegativesFirst (s : Sys) (stateSet : StateSet) (vs : List ℕ) : Prop :=
  ∀ k ∈ vs, ∀ x list, s.layers k = some x → makeTraversalList s stateSet x = some list →
    NegativesFirst s list

theorem AllNegativesFirst.subset (h : AllNegativesFirst s stateSet vs) (hsub : ws ⊆ vs) :
    AllNegativesFirst s stateSet ws := fun k hk => h k (hsub hk)

/-- With the layers of negative `z` first everywhere, both ways are opposite. -/
theorem turned_of_negativesFirst (h : traverseInZOrder s stateSet depth l = some vs)
    (hfirst : AllNegativesFirst s stateSet vs) : turned s stateSet depth l = some vs := by
  induction depth generalizing l vs with
  | zero => cases h
  | succ depth ih =>
    obtain ⟨x, list, hx, hlist, hvs⟩ := traverseInZOrder_succ.mp h
    have hl := hfirst l (mem_traverseInZOrder h) x list hx hlist
    obtain ⟨us, ws, hus, hws, rfl⟩ := visitAround_eq_some.mp hvs
    have htake := takeWhile_eq_iff.mpr hl
    have hdrop := dropWhile_eq htake
    refine turned_succ.mpr ⟨x, list, hx, hlist, visitAround_eq_some.mpr ⟨us, ws, ?_, ?_, rfl⟩⟩
    · rw [← htake]
      exact visitAll_congr (fun c _ us hus hsub => ih hus (hfirst.subset hsub)) hus
        (List.subset_append_left us _)
    · rw [← hdrop]
      exact visitAll_congr (fun c _ us hus hsub => ih hus (hfirst.subset hsub)) hws
        (List.subset_append_of_subset_right us (List.subset_cons_self l ws))

/-- The least depth for a layer. -/
theorem exists_least (h : traverseInZOrder s stateSet depth l = some vs) :
    ∃ n ≤ depth, traverseInZOrder s stateSet n l = some vs ∧
      ∀ m < n, ∀ us, traverseInZOrder s stateSet m l ≠ some us := by
  classical
  have hex : ∃ n, ∃ ws, traverseInZOrder s stateSet n l = some ws := ⟨depth, vs, h⟩
  have hle : Nat.find hex ≤ depth := Nat.find_min' hex ⟨vs, h⟩
  obtain ⟨ws, hws⟩ := Nat.find_spec hex
  have hws' := traverseInZOrder_mono hle hws
  obtain rfl : vs = ws := Option.some.inj (h.symm.trans hws')
  exact ⟨Nat.find hex, hle, hws, fun m hm us hus => Nat.find_min hex hm ⟨us, hus⟩⟩

/-- A layer is not visited from the layers below it. -/
theorem not_mem_below (hleast : ∀ us, traverseInZOrder s stateSet depth l ≠ some us)
    (h : visitAll (traverseInZOrder s stateSet depth) ls = some vs) : l ∉ vs := by
  intro hmem
  obtain ⟨c, -, us, hus, hl⟩ := exists_of_mem_visitAll h hmem
  obtain ⟨ws, hws⟩ := exists_of_visited hus hl
  exact hleast ws hws

/-- Where both ways are opposite, the layers of negative `z` come first everywhere. At its least
depth a layer is visited once, which tells what comes before it and what after. -/
theorem negativesFirst_of_turned (h : traverseInZOrder s stateSet depth l = some vs)
    (hturned : turned s stateSet depth l = some vs) : AllNegativesFirst s stateSet vs := by
  induction depth using Nat.strong_induction_on generalizing l vs with
  | _ depth ih =>
    obtain ⟨n, hle, hvs, hleast⟩ := exists_least h
    have hturned' : turned s stateSet n l = some vs := by
      obtain ⟨us, hus, -⟩ := alike_turned l vs hvs
      rw [hus, ← turned_mono hle hus, hturned]
    cases n with
    | zero => cases hvs
    | succ m =>
      obtain ⟨x, list, hx, hlist, hvs⟩ := traverseInZOrder_succ.mp hvs
      obtain ⟨x', list', hx', hlist', hvs'⟩ := turned_succ.mp hturned'
      obtain rfl : x = x' := Option.some.inj (hx.symm.trans hx')
      obtain rfl : list = list' := Option.some.inj (hlist.symm.trans hlist')
      obtain ⟨b, a, hb, ha, rfl⟩ := visitAround_eq_some.mp hvs
      obtain ⟨b', a', hb', ha', heq⟩ := visitAround_eq_some.mp hvs'
      have hnot := hleast m (Nat.lt_succ_self m)
      obtain ⟨rfl, -, rfl⟩ := (List.append_cons_inj_of_notMem (not_mem_below hnot hb)
        (not_mem_below hnot ha)).mp heq
      have htake : list.takeWhile (negative s) = list.rdropWhile (!negative s ·) :=
        prefix_unique alike_turned alike_of_turned (fun _ _ => mem_traverseInZOrder)
          (fun _ _ => mem_turned) (List.takeWhile_prefix _) (List.rdropWhile_prefix _ _) hb hb'
      rw [← htake] at hb'
      rw [← dropWhile_eq htake] at ha'
      have hbelow : ∀ {ls us}, visitAll (traverseInZOrder s stateSet m) ls = some us →
          visitAll (turned s stateSet m) ls = some us → AllNegativesFirst s stateSet us := by
        intro ls us hus hus' k hk
        obtain ⟨c, hc, us', hc', hk'⟩ := exists_of_mem_visitAll hus hk
        obtain ⟨us'', hf, hg⟩ := agree_of_visitAll alike_turned hus hus' hc
        obtain rfl : us' = us'' := Option.some.inj (hc'.symm.trans hf)
        exact ih m (by omega) hf hg k hk'
      intro k hk
      rcases List.mem_append.mp hk with hk | hk
      · exact hbelow hb hb' k hk
      · rcases List.mem_cons.mp hk with rfl | hk
        · intro y list' hy hlist'
          obtain rfl : x = y := Option.some.inj (hx.symm.trans hy)
          obtain rfl : list = list' := Option.some.inj (hlist.symm.trans hlist')
          exact takeWhile_eq_iff.mp htake
        · exact hbelow ha ha' k hk

/-- **The two ways are opposite** exactly when the layers of negative `z` come first in the list of
every layer that is visited. -/
theorem reversed_iff (h : traverseInZOrder s stateSet depth l = some vs) :
    traverseInReverseZOrder s stateSet depth l = some vs.reverse ↔
      ∀ k ∈ vs, ∀ x list, s.layers k = some x → makeTraversalList s stateSet x = some list →
        NegativesFirst s list := by
  have hturned : traverseInReverseZOrder s stateSet depth l = some vs.reverse ↔
      turned s stateSet depth l = some vs := by
    rw [turned, Option.map_eq_some_iff]
    constructor
    · intro hr
      exact ⟨_, hr, List.reverse_reverse vs⟩
    · rintro ⟨ws, hws, rfl⟩
      rw [hws, List.reverse_reverse]
  rw [hturned]
  exact ⟨negativesFirst_of_turned h, turned_of_negativesFirst h⟩

/-- Layer 0 has the children 1 and 2 and the relative 3; 1 and 3 are below it. -/
def family : Sys where
  layers := fun k =>
    match k with
    | 0 => some ⟨⟨0, [3]⟩, ⟨0, [3]⟩, [1, 2], [1, 2]⟩
    | 1 => some ⟨⟨-1, []⟩, ⟨-1, []⟩, [], []⟩
    | 2 => some ⟨⟨1, []⟩, ⟨1, []⟩, [], []⟩
    | 3 => some ⟨⟨-2, []⟩, ⟨-2, []⟩, [], []⟩
    | _ => none
  add := fun ls l => ls ++ [l]

theorem reversed_iff_family : traverseInZOrder family .drawing 2 0 = some [3, 1, 0, 2] ∧
    traverseInReverseZOrder family .drawing 2 0 = some [2, 0, 1, 3] ∧
      ∀ k ∈ [3, 1, 0, 2], ∀ x list, family.layers k = some x →
        makeTraversalList family .drawing x = some list → NegativesFirst family list := by
  have hforward : traverseInZOrder family .drawing 2 0 = some [3, 1, 0, 2] := rfl
  exact ⟨hforward, rfl, (reversed_iff hforward).mp rfl⟩

end Traversal

end Flinger

end A1000

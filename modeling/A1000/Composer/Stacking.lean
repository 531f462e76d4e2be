import A1000.Composer.Registry
import A1000.Lib.Stable

/-!
# The layers of a display, bottom to top

The layers of a display stand in a multiset that is sorted by their z. A layer is made with z 0; it
is taken out and put in again when its z changes, behind the layers it is then level with. HWC 1 is
asked about the layers in this order.

Abstractly a display has a place for each of its layers, the z and the time it was put there, and
the calls of the client write to these places only.

## Main definitions

* `Adapter.Device.Owned` — a layer stands on one display only, once
* `Adapter.Device.places` — where the layers of a display stand, told from the calls

## Main results

* `Adapter.Device.owned_of_run` — layers stand on their own display only
* `Adapter.Device.layers_of_run` — the layers are those that have a place, in order
-/

namespace A1000

namespace Adapter

namespace Device

open Composer

variable {F : Type*} {env : Env F} {s t : Sys F}

/-! ### What leaves the layers where they are -/

/-- Layers stand where they stood; they may have been written down for HWC 1. -/
structure SameStack (s t : Sys F) : Prop where
  nextLayer : t.nextLayer = s.nextLayer
  known : t.known = s.known
  owner : ∀ l, (t.layer l).display = (s.layer l).display
  z : ∀ l, (t.layer l).z = (s.layer l).z
  display : ∀ d y, t.display d = some y → ∃ x, s.display d = some x ∧ y.layers = x.layers ∧
    (y.layerMap = x.layerMap ∨ y.layerMap = x.layers)

theorem SameStack.refl (s : Sys F) : SameStack s s :=
  ⟨rfl, rfl, fun _ => rfl, fun _ => rfl, fun _ y hy => ⟨y, hy, rfl, .inl rfl⟩⟩

theorem SameStack.trans {u : Sys F} (h : SameStack s t) (h' : SameStack t u) : SameStack s u := by
  refine ⟨h'.nextLayer.trans h.nextLayer, h'.known.trans h.known,
    fun l => (h'.owner l).trans (h.owner l), fun l => (h'.z l).trans (h.z l), fun d y'' hy'' => ?_⟩
  obtain ⟨y', hy', hlayers', hmap'⟩ := h'.display d y'' hy''
  obtain ⟨x, hx, hlayers, hmap⟩ := h.display d y' hy'
  refine ⟨x, hx, hlayers'.trans hlayers, ?_⟩
  rcases hmap' with hmap' | hmap'
  · rwa [hmap']
  · exact .inr (hmap'.trans hlayers)

theorem Sys.Same.sameStack (h : s.Same t) : SameStack s t :=
  ⟨h.nextLayer, h.known, fun l => by rw [h.layer], fun l => by rw [h.layer],
    fun _ y hy => ⟨y, h.display ▸ hy, rfl, .inl rfl⟩⟩

theorem sameStack_modifyDisplay {d : ℕ} {f : Display F → Display F}
    (hlayers : ∀ x, (f x).layers = x.layers) (hmap : ∀ x, (f x).layerMap = x.layerMap) :
    SameStack s (s.modifyDisplay d f) := by
  refine ⟨rfl, rfl, fun _ => rfl, fun _ => rfl, fun k y hy => ?_⟩
  obtain ⟨x, hx, ⟨-, rfl⟩ | ⟨-, rfl⟩⟩ := exists_of_modifyDisplay hy
  · exact ⟨x, hx, hlayers x, .inl (hmap x)⟩
  · exact ⟨_, hx, rfl, .inl rfl⟩

theorem layer_modifyDisplay (s : Sys F) (d : ℕ) (f : Display F → Display F) :
    (s.modifyDisplay d f).layer = s.layer := rfl

theorem layer_modifyLayer (s : Sys F) (l k : ℕ) (f : Layer F → Layer F) :
    (s.modifyLayer l f).layer k = if k = l then f (s.layer k) else s.layer k := rfl

theorem sameStack_modifyLayer {l : ℕ} {f : Layer F → Layer F}
    (howner : ∀ y, (f y).display = y.display) (hz : ∀ y, (f y).z = y.z) :
    SameStack s (s.modifyLayer l f) := by
  refine ⟨rfl, rfl, fun k => ?_, fun k => ?_, fun _ y hy => ⟨y, hy, rfl, .inl rfl⟩⟩
  · rw [layer_modifyLayer]
    split_ifs
    · exact howner _
    · rfl
  · rw [layer_modifyLayer]
    split_ifs
    · exact hz _
    · rfl

theorem sameStack_callLayer (s : Sys F) (l : ℕ) (call : LayerCall F) :
    SameStack s (callLayer env s l call) := by
  have hlayer : SameStack s (s.modifyLayer l fun y =>
      { y with state := y.state.call env.minorVersion call }) :=
    sameStack_modifyLayer (fun _ => rfl) fun _ => rfl
  rw [callLayer]
  split_ifs
  · exact hlayer.trans (sameStack_modifyDisplay (fun _ => rfl) fun _ => rfl)
  · exact hlayer

theorem sameStack_acceptChanges (s : Sys F) (d : ℕ) (x : Display F) :
    SameStack s (acceptChanges env s d x).1 :=
  rel_acceptChanges SameStack.refl SameStack.trans sameStack_callLayer
    (fun _ _ => sameStack_modifyDisplay (fun _ => rfl) fun _ => rfl) s d x

theorem sameStack_setEach {c : ℕ} {pushed : List (Option ℕ)} {b : Bool} {closed : List ℤ}
    (h : setEach s c pushed = some (t, b, closed)) : SameStack s t :=
  rel_setEach SameStack.refl SameStack.trans
    (fun _ _ => sameStack_modifyDisplay (fun _ => rfl) fun _ => rfl) h

theorem sameStack_addFences (s : Sys F) (d : ℕ) (x : Display F) (r : Fences) :
    SameStack s (addFences s d x r).1 :=
  rel_addFences SameStack.refl SameStack.trans
    (fun _ _ _ => sameStack_modifyDisplay (fun _ => rfl) fun _ => rfl)
    (fun _ _ _ => sameStack_modifyLayer (fun _ => rfl) fun _ => rfl) s d x r

theorem sameStack_addEach (fences : ℕ → Fences) (c : ℕ) (pushed : List (Option ℕ)) (s : Sys F) :
    SameStack s (addEach s fences c pushed).1 :=
  rel_addEach SameStack.refl SameStack.trans sameStack_addFences fences c pushed s

theorem sameStack_prepareEach (s : Sys F) : SameStack s (s.prepareEach env) := by
  refine ⟨rfl, rfl, fun _ => rfl, fun _ => rfl, fun d y hy => ?_⟩
  rw [display_prepareEach] at hy
  obtain ⟨x, hx, rfl⟩ := Option.map_eq_some_iff.mp hy
  exact ⟨x, hx, rfl, .inr rfl⟩

theorem sameStack_giveBack (ds : List (Option ℕ)) (ks : List (Option Contents)) (s : Sys F) :
    SameStack s (s.giveBack env ds ks) :=
  rel_giveBack SameStack.refl SameStack.trans
    (fun _ _ _ => sameStack_modifyDisplay (fun _ => rfl) fun _ => rfl) ds ks s

theorem sameStack_prepareAllDisplays {a₁ a₂ : Answers} {calls : List (Call F)}
    (h : prepareAllDisplays env s a₁ a₂ = some (t, true, calls)) : SameStack s t := by
  obtain ⟨rfl, -⟩ := prepareAllDisplays_cases h rfl
  have hprepare : SameStack s { s.prepareEach env with contents := s.slots env } := by
    have h : SameStack s (s.prepareEach env) := sameStack_prepareEach s
    exact ⟨h.nextLayer, h.known, h.owner, h.z, h.display⟩
  exact hprepare.trans (sameStack_giveBack _ _ _)

/-- What a step can do to the layers of displays. -/
inductive Shifts (env : Env F) (s : Sys F) : Input F → Sys F → Output F → Prop
  | still {i : Input F} {t : Sys F} {o : Output F} (same : SameStack s t)
      (next : t.nextDisplay = s.nextDisplay) (still : Still s o.error i) : Shifts env s i t o
  | added {i : Input F} {c : ℕ} {v : Option ℕ} {o : Output F} (still : Still s o.error i) :
      Shifts env s i { s.addDisplay c with virtualDisplay := v } o
  | removed {i : Input F} {c d : ℕ} {v : Option ℕ} {o : Output F} (still : Still s o.error i) :
      Shifts env s i { s.removeDisplay c d with virtualDisplay := v } o
  | created {d : ℕ} {x : Display F} (there : s.display d = some x) :
      Shifts env s (.createLayer d) (createLayer env s d) ⟨.none, some s.nextLayer, []⟩
  | destroyed {d l : ℕ} {x : Display F} (there : s.display d = some x) (known : s.known l = true) :
      Shifts env s (.destroyLayer d l) (destroyLayer s d l).1 .ok
  | moved {d l : ℕ} {z : ℕ} {x : Display F} (there : s.display d = some x)
      (known : s.known l = true) (mem : l ∈ x.layers) (hz : (s.layer l).z ≠ z) :
      Shifts env s (.updateLayerZ d l z) (updateLayerZ s d l x z).1 .ok

theorem Happens.shifts {i : Input F} {o : Output F} (h : Happens env s i t o) :
    Shifts env s i t o := by
  cases h with
  | quiet same still => exact .still same.sameStack same.nextDisplay still
  | addedVirtual => exact .added trivial
  | addedExternal => exact .added (v := s.virtualDisplay) trivial
  | removedVirtual => exact .removed trivial
  | removedExternal => exact .removed (v := s.virtualDisplay) trivial
  | createdLayer there => exact .created there
  | destroyedLayer there known => exact .destroyed there known
  | movedLayer there known mem hz => exact .moved there known mem hz
  | calledLayer =>
    exact .still (sameStack_callLayer s _ _) (follows_callLayer s _ _).nextDisplay trivial
  | setDisplay _ rest still =>
    refine .still (sameStack_modifyDisplay (fun x => ?_) fun x => ?_) rfl still
    · exact (rest x).layers
    · exact (rest x).layerMap
  | validated _ _ prepared =>
    exact .still (sameStack_prepareAllDisplays prepared)
      (sameDisplays_prepareAllDisplays prepared).nextDisplay trivial
  | notPrepared => exact .still (sameStack_prepareEach s) rfl trivial
  | accepted =>
    exact .still (sameStack_acceptChanges s _ _) (follows_acceptChanges s _ _).nextDisplay trivial
  | notSet _ _ failed =>
    exact .still (sameStack_setEach failed) (follows_setEach failed).nextDisplay trivial
  | set _ _ done =>
    exact .still ((sameStack_setEach done).trans (sameStack_addEach ..))
      ((follows_setEach done).trans (follows_addEach ..)).nextDisplay trivial

/-! ### The calls that move layers -/

theorem layer_createLayer (s : Sys F) (d k : ℕ) : (createLayer env s d).layer k =
    if k = s.nextLayer then .ofDisplay env d else s.layer k := Function.update_apply ..

theorem known_createLayer (s : Sys F) (d k : ℕ) : (createLayer env s d).known k =
    if k = s.nextLayer then true else s.known k := Function.update_apply ..

theorem display_createLayer {d k : ℕ} {y : Display F}
    (h : (createLayer env s d).display k = some y) : ∃ x, s.display k = some x ∧
      (k = d ∧ y = x.insertLayer (fun l => ((createLayer env s d).layer l).z) s.nextLayer ∨
        k ≠ d ∧ y = x) :=
  exists_of_modifyDisplay h

theorem layer_destroyLayer (s : Sys F) (d l : ℕ) : (destroyLayer s d l).1.layer = s.layer := by
  rw [destroyLayer]
  split_ifs <;> rfl

theorem nextLayer_destroyLayer (s : Sys F) (d l : ℕ) :
    (destroyLayer s d l).1.nextLayer = s.nextLayer := by
  rw [destroyLayer]
  split_ifs <;> rfl

theorem known_of_destroyLayer {d l k : ℕ} (h : (destroyLayer s d l).1.known k = true) :
    s.known k = true := by
  rw [destroyLayer] at h
  split_ifs at h with hknown
  · replace h : Function.update s.known l false k = true := h
    rw [Function.update_apply] at h
    split_ifs at h
    exact h
  · exact h

theorem display_destroyLayer {d l k : ℕ} {y : Display F} (hknown : s.known l = true)
    (h : (destroyLayer s d l).1.display k = some y) :
    ∃ x, s.display k = some x ∧ (k = d ∧ y = x.eraseLayer l ∨ k ≠ d ∧ y = x) := by
  rw [destroyLayer, if_neg (not_not.mpr hknown)] at h
  exact exists_of_modifyDisplay h

/-- **What `updateLayerZ` does** to a layer whose z changes. -/
theorem updateLayerZ_of_ne {d l : ℕ} {x : Display F} {z : ℕ} (hknown : s.known l = true)
    (hmem : l ∈ x.layers) (hz : (s.layer l).z ≠ z) : (updateLayerZ s d l x z).1 =
      (s.modifyLayer l fun y => { y with z := z }).modifyDisplay d fun x =>
        (x.eraseLayer l).insertLayer
          (fun k => ((s.modifyLayer l fun y => { y with z := z }).layer k).z) l := by
  rw [updateLayerZ, if_neg (not_not.mpr hknown), if_pos hmem, if_neg hz]

/-! ### A layer stands on its own display, once -/

/-- The layers on a display were made for it. -/
def OwnList (s : Sys F) (d : ℕ) (ls : List ℕ) : Prop :=
  ls.Nodup ∧ ∀ l ∈ ls, l < s.nextLayer ∧ (s.layer l).display = d

/-- **A layer stands on its own display only, once**, and so do the layers that were written down
for HWC 1. -/
structure Owned (s : Sys F) : Prop where
  known_lt : ∀ l, s.known l = true → l < s.nextLayer
  layers : ∀ d x, s.display d = some x → OwnList s d x.layers
  layerMap : ∀ d x, s.display d = some x → OwnList s d x.layerMap

theorem OwnList.of_owner {d : ℕ} {ls : List ℕ} (h : OwnList s d ls)
    (hnext : t.nextLayer = s.nextLayer) (howner : ∀ l, (t.layer l).display = (s.layer l).display) :
    OwnList t d ls := by
  refine ⟨h.1, fun l hl => ?_⟩
  rw [hnext, howner]
  exact h.2 l hl

theorem OwnList.subset {d : ℕ} {ls ls' : List ℕ} (h : OwnList s d ls) (hnodup : ls'.Nodup)
    (hsub : ls' ⊆ ls) : OwnList s d ls' := ⟨hnodup, fun l hl => h.2 l (hsub hl)⟩

theorem ownList_nil (d : ℕ) : OwnList s d [] := ⟨List.nodup_nil, fun _ hl => by cases hl⟩

/-- A display with a layer that is new. -/
theorem OwnList.created {d d' : ℕ} {ls : List ℕ} (h : OwnList s d' ls) :
    OwnList (createLayer env s d) d' ls := by
  refine ⟨h.1, fun l hl => ?_⟩
  obtain ⟨hlt, howner⟩ := h.2 l hl
  refine ⟨Nat.lt_succ_of_lt hlt, ?_⟩
  rw [layer_createLayer, if_neg (Nat.ne_of_lt hlt), howner]

/-- A layer is put among the others. -/
theorem ownList_insertByZ {d l : ℕ} {ls : List ℕ} {z : ℕ → ℕ} (hnot : l ∉ ls)
    (h : OwnList s d ls) (hlt : l < s.nextLayer) (howner : (s.layer l).display = d) :
    OwnList s d (insertByZ z l ls) := by
  have hperm := List.perm_orderedInsert (fun a b => z a < z b) l ls
  refine ⟨hperm.nodup_iff.mpr (List.nodup_cons.mpr ⟨hnot, h.1⟩), fun k hk => ?_⟩
  rcases List.mem_cons.mp (hperm.mem_iff.mp hk) with rfl | hk
  · exact ⟨hlt, howner⟩
  · exact h.2 k hk

theorem Owned.step (hs : Owned s) {i : Input F} {o : Output F} (h : Shifts env s i t o) :
    Owned t := by
  cases h with
  | still same =>
    constructor
    · intro l hl
      rw [same.nextLayer]
      exact hs.known_lt l (same.known ▸ hl)
    · intro d y hy
      obtain ⟨x, hx, hlayers, -⟩ := same.display d y hy
      rw [hlayers]
      exact (hs.layers d x hx).of_owner same.nextLayer same.owner
    · intro d y hy
      obtain ⟨x, hx, -, hmap⟩ := same.display d y hy
      rcases hmap with hmap | hmap
      · exact hmap ▸ (hs.layerMap d x hx).of_owner same.nextLayer same.owner
      · exact hmap ▸ (hs.layers d x hx).of_owner same.nextLayer same.owner
  | added =>
    constructor
    · exact hs.known_lt
    · intro d y hy
      rcases addDisplay_cases hy with ⟨-, rfl⟩ | hx
      · exact ownList_nil d
      · exact hs.layers d y hx
    · intro d y hy
      rcases addDisplay_cases hy with ⟨-, rfl⟩ | hx
      · exact ownList_nil d
      · exact hs.layerMap d y hx
  | @removed _ c =>
    constructor
    · exact hs.known_lt
    · intro d y hy
      exact hs.layers d y (removeDisplay_cases (c := c) hy).2
    · intro d y hy
      exact hs.layerMap d y (removeDisplay_cases (c := c) hy).2
  | @created d x there =>
    constructor
    · intro l hl
      rw [known_createLayer] at hl
      split_ifs at hl with hnew
      · rw [hnew]
        exact Nat.lt_succ_self _
      · exact Nat.lt_succ_of_lt (hs.known_lt l hl)
    · intro k y hy
      obtain ⟨x', hx', ⟨rfl, rfl⟩ | ⟨-, rfl⟩⟩ := display_createLayer hy
      · have hold := hs.layers k x' hx'
        have hfresh : s.nextLayer ∉ x'.layers := fun hmem => Nat.lt_irrefl _ (hold.2 _ hmem).1
        have hcreated : OwnList (createLayer env s k) k x'.layers := hold.created
        refine ownList_insertByZ hfresh hcreated (Nat.lt_succ_self _) ?_
        rw [layer_createLayer, if_pos rfl]
        rfl
      · exact (hs.layers k _ hx').created
    · intro k y hy
      obtain ⟨x', hx', ⟨rfl, rfl⟩ | ⟨-, rfl⟩⟩ := display_createLayer hy
      · exact (hs.layerMap k x' hx').created
      · exact (hs.layerMap k _ hx').created
  | @destroyed d l x there known =>
    constructor
    · intro k hk
      rw [nextLayer_destroyLayer]
      exact hs.known_lt k (known_of_destroyLayer hk)
    · intro k y hy
      have hkeep : ∀ {ls : List ℕ}, OwnList s k ls → OwnList (destroyLayer s d l).1 k ls :=
        fun h => h.of_owner (nextLayer_destroyLayer ..) fun _ => by rw [layer_destroyLayer]
      obtain ⟨x', hx', ⟨rfl, rfl⟩ | ⟨-, rfl⟩⟩ := display_destroyLayer known hy
      · have hold := hs.layers k x' hx'
        exact hkeep (hold.subset (hold.1.erase l) List.erase_subset)
      · exact hkeep (hs.layers k _ hx')
    · intro k y hy
      have hkeep : ∀ {ls : List ℕ}, OwnList s k ls → OwnList (destroyLayer s d l).1 k ls :=
        fun h => h.of_owner (nextLayer_destroyLayer ..) fun _ => by rw [layer_destroyLayer]
      obtain ⟨x', hx', ⟨rfl, rfl⟩ | ⟨-, rfl⟩⟩ := display_destroyLayer known hy
      · exact hkeep (hs.layerMap k x' hx')
      · exact hkeep (hs.layerMap k _ hx')
  | @moved d l z x there known mem hz =>
    rw [updateLayerZ_of_ne known mem hz]
    have howner : ∀ k, ((s.modifyLayer l fun y => { y with z := z }).layer k).display =
        (s.layer k).display := by
      intro k
      rw [layer_modifyLayer]
      split_ifs <;> rfl
    constructor
    · exact hs.known_lt
    · intro k y hy
      obtain ⟨x', hx', ⟨rfl, rfl⟩ | ⟨-, rfl⟩⟩ := exists_of_modifyDisplay hy
      · obtain rfl : x' = x := Option.some.inj (hx'.symm.trans there)
        have hold := hs.layers k x' hx'
        have hl := hold.2 l mem
        refine ownList_insertByZ (hold.1.not_mem_erase) ?_ hl.1 ((howner l).trans hl.2)
        exact (hold.subset (hold.1.erase l) List.erase_subset).of_owner rfl howner
      · exact (hs.layers k _ hx').of_owner rfl howner
    · intro k y hy
      obtain ⟨x', hx', ⟨rfl, rfl⟩ | ⟨-, rfl⟩⟩ := exists_of_modifyDisplay hy
      · exact (hs.layerMap k x' hx').of_owner rfl howner
      · exact (hs.layerMap k _ hx').of_owner rfl howner

theorem owned_start (env : Env F) : Owned (start env) := by
  constructor
  · intro l hl
    cases hl
  · intro d x hx
    simp only [start] at hx
    split_ifs at hx
    cases hx
    exact ownList_nil d
  · intro d x hx
    simp only [start] at hx
    split_ifs at hx
    cases hx
    exact ownList_nil d

/-- **A layer stands on its own display only, once, in every run.** -/
theorem owned_of_run {tr : List (Input F × Output F)}
    (h : StepSystem.Run (step env) (start env) tr s) : Owned s :=
  StepSystem.RunWhere.invariant (P := fun _ s => Owned s) (owned_start env)
    (fun hs _ hstep => hs.step (happens_of_step hstep).shifts) h

/-! ### The order -/

/-- One call, made at the time `e.2`: it puts a layer of the display `d` somewhere, or takes it
away. A layer that is told the z it has stays where it is. -/
def settle (d : ℕ) (places : ℕ → Option (ℕ × ℕ)) (e : (Input F × Output F) × ℕ) :
    ℕ → Option (ℕ × ℕ) :=
  if e.1.2.error ≠ .none then places
  else
    match e.1.1 with
    | .createLayer d' =>
      if d' = d then
        e.1.2.outId.elim places fun l => Function.update places l (some (0, e.2))
      else places
    | .destroyLayer d' l => if d' = d then Function.update places l none else places
    | .updateLayerZ d' l z =>
      if d' = d ∧ (places l).map Prod.fst ≠ some z then Function.update places l (some (z, e.2))
      else places
    | _ => places

/-- Where the layers of the display `d` stand: their z, and since when. -/
def places (d : ℕ) (tr : List (Input F × Output F)) : ℕ → Option (ℕ × ℕ) :=
  tr.zipIdx.foldl (settle d) fun _ => none

theorem places_snoc (d : ℕ) (tr : List (Input F × Output F)) (e : Input F × Output F) :
    places d (tr ++ [e]) = settle d (places d tr) (e, tr.length) := by
  rw [places, List.zipIdx_append, List.foldl_append, Nat.zero_add]
  rfl

/-- The z of a layer that has a place, and since when it stands there. -/
def zOf (p : ℕ → Option (ℕ × ℕ)) (l : ℕ) : ℕ := ((p l).map Prod.fst).getD 0

def sinceOf (p : ℕ → Option (ℕ × ℕ)) (l : ℕ) : ℕ := ((p l).map Prod.snd).getD 0

/-- The layers are those that have a place, in order. -/
structure InPlace (n : ℕ) (z : ℕ → ℕ) (layers : List ℕ) (p : ℕ → Option (ℕ × ℕ)) :
    Prop where
  mem : ∀ l, l ∈ layers ↔ (p l).isSome
  z : ∀ l ∈ layers, z l = zOf p l
  since : ∀ l ∈ layers, sinceOf p l < n
  sorted : layers.Pairwise (Stable.Before (zOf p) (sinceOf p))

/-- Nothing happens to the layers, and time goes on. -/
theorem InPlace.still {n : ℕ} {z z' : ℕ → ℕ} {layers : List ℕ}
    {p : ℕ → Option (ℕ × ℕ)} (h : InPlace n z layers p) (hz : ∀ l ∈ layers, z' l = z l) :
    InPlace (n + 1) z' layers p :=
  ⟨h.mem, fun l hl => (hz l hl).trans (h.z l hl), fun l hl => Nat.lt_succ_of_lt (h.since l hl),
    h.sorted⟩

/-- A layer is put in. -/
theorem InPlace.insert {n : ℕ} {z z' : ℕ → ℕ} {layers : List ℕ}
    {p : ℕ → Option (ℕ × ℕ)} (h : InPlace n z layers p) {l : ℕ} (hnot : l ∉ layers)
    (hz : ∀ k ∈ layers, z' k = z k) :
    InPlace (n + 1) z' (insertByZ z' l layers) (Function.update p l (some (z' l, n))) := by
  have hperm := List.perm_orderedInsert (fun a b => z' a < z' b) l layers
  have hmem : ∀ k, k ∈ insertByZ z' l layers ↔ k = l ∨ k ∈ layers :=
    fun k => hperm.mem_iff.trans List.mem_cons
  have hne : ∀ k ∈ layers, k ≠ l := fun k hk hkl => hnot (hkl ▸ hk)
  have hold : ∀ k ∈ layers, Function.update p l (some (z' l, n)) k = p k :=
    fun k hk => Function.update_of_ne (hne k hk) ..
  have hnew : Function.update p l (some (z' l, n)) l = some (z' l, n) := Function.update_self ..
  have hkey : ∀ k, k = l ∨ k ∈ layers → z' k = zOf (Function.update p l (some (z' l, n))) k := by
    rintro k (rfl | hk)
    · rw [zOf, hnew]
      rfl
    · rw [zOf, hold k hk, hz k hk, h.z k hk]
      rfl
  constructor
  · intro k
    rw [hmem, Function.update_apply]
    split_ifs with hk
    · simp [hk]
    · rw [or_iff_right hk]
      exact h.mem k
  · exact fun k hk => hkey k ((hmem k).mp hk)
  · intro k hk
    rcases (hmem k).mp hk with rfl | hk
    · rw [sinceOf, hnew]
      exact Nat.lt_succ_self n
    · rw [sinceOf, hold k hk]
      exact Nat.lt_succ_of_lt (h.since k hk)
  · have hsorted : layers.Pairwise
        (Stable.Before z' (sinceOf (Function.update p l (some (z' l, n))))) :=
      Stable.Before.congr (fun k hk => (hz k hk).trans (h.z k hk))
        (fun k hk => by rw [sinceOf, hold k hk]; rfl) h.sorted
    have hlate : ∀ k ∈ layers, sinceOf (Function.update p l (some (z' l, n))) k <
        sinceOf (Function.update p l (some (z' l, n))) l := by
      intro k hk
      rw [sinceOf, hold k hk, sinceOf, hnew]
      exact h.since k hk
    exact Stable.Before.congr (fun k hk => (hkey k ((hmem k).mp hk)).symm) (fun _ _ => rfl)
      (Stable.pairwise_orderedInsert hsorted hlate)

/-- A layer is taken out. -/
theorem InPlace.erase {n : ℕ} {z : ℕ → ℕ} {layers : List ℕ} {p : ℕ → Option (ℕ × ℕ)}
    (h : InPlace n z layers p) (l : ℕ) :
    InPlace n z (layers.erase l) (Function.update p l none) := by
  have hnodup : layers.Nodup := h.sorted.imp fun hbc => hbc.ne
  have hmem : ∀ k, k ∈ layers.erase l ↔ k ≠ l ∧ k ∈ layers := fun k => hnodup.mem_erase_iff
  have hold : ∀ k ∈ layers.erase l, Function.update p l none k = p k :=
    fun k hk => Function.update_of_ne ((hmem k).mp hk).1 ..
  have hsub : ∀ k ∈ layers.erase l, k ∈ layers := fun k hk => List.mem_of_mem_erase hk
  constructor
  · intro k
    rw [hmem, Function.update_apply]
    split_ifs with hk
    · simp [hk]
    · rw [and_iff_right hk]
      exact h.mem k
  · intro k hk
    rw [zOf, hold k hk]
    exact h.z k (hsub k hk)
  · intro k hk
    rw [sinceOf, hold k hk]
    exact h.since k (hsub k hk)
  · refine Stable.Before.congr (fun k hk => ?_) (fun k hk => ?_)
      (h.sorted.sublist List.erase_sublist)
    · rw [zOf, hold k hk]
      rfl
    · rw [sinceOf, hold k hk]
      rfl

/-- A layer that is on the display has its z in its place. -/
theorem InPlace.map_fst {n : ℕ} {z : ℕ → ℕ} {layers : List ℕ} {p : ℕ → Option (ℕ × ℕ)}
    (h : InPlace n z layers p) {l : ℕ} (hl : l ∈ layers) : (p l).map Prod.fst = some (z l) := by
  have hz := h.z l hl
  obtain ⟨q, hq⟩ := Option.isSome_iff_exists.mp ((h.mem l).mp hl)
  rw [zOf, hq] at hz
  rw [hq, hz]
  rfl

/-- **The layers of every display have their places.** -/
structure Placed (tr : List (Input F × Output F)) (s : Sys F) : Prop where
  inPlace : ∀ d x, s.display d = some x →
    InPlace tr.length (fun l => (s.layer l).z) x.layers (places d tr)
  fresh : ∀ d, s.nextDisplay ≤ d → ∀ l, places d tr l = none

/-- A call that does not move layers leaves the places. -/
theorem settle_of_still {tr : List (Input F × Output F)} (hp : Placed tr s) {i : Input F}
    {o : Output F} (h : Still s o.error i) (d : ℕ) :
    settle d (places d tr) ((i, o), tr.length) = places d tr := by
  rw [settle]
  by_cases herror : o.error = .none
  · rw [if_neg (not_not.mpr herror)]
    cases i with
    | createLayer d' => exact absurd herror h
    | destroyLayer d' l => exact absurd herror h
    | updateLayerZ d' l z =>
      obtain ⟨x, hx, hmem, hz⟩ := h herror
      refine if_neg ?_
      rintro ⟨rfl, hne⟩
      exact hne (((hp.inPlace _ x hx).map_fst hmem).trans (congrArg some hz))
    | _ => rfl
  · exact if_pos herror

theorem Placed.step {tr : List (Input F × Output F)} (hp : Placed tr s) (hs : Consistent s)
    (ho : Owned s) {i : Input F} {o : Output F} (h : Shifts env s i t o) :
    Placed (tr ++ [(i, o)]) t := by
  have hlength : (tr ++ [(i, o)]).length = tr.length + 1 := List.length_append
  cases h with
  | still same hnext hstill =>
    have hplaces : ∀ d, places d (tr ++ [(i, o)]) = places d tr := fun d => by
      rw [places_snoc, settle_of_still hp hstill]
    constructor
    · intro d y hy
      obtain ⟨x, hx, hlayers, -⟩ := same.display d y hy
      rw [hplaces, hlength, hlayers]
      exact (hp.inPlace d x hx).still fun l _ => same.z l
    · intro d hd l
      rw [hplaces]
      exact hp.fresh d (hnext ▸ hd) l
  | added hstill =>
    have hplaces : ∀ d, places d (tr ++ [(i, o)]) = places d tr := fun d => by
      rw [places_snoc, settle_of_still hp hstill]
    constructor
    · intro d y hy
      rw [hplaces, hlength]
      rcases addDisplay_cases hy with ⟨rfl, rfl⟩ | hx
      · -- the new display has no layers, and no places
        refine ⟨fun l => ?_, fun l hl => ?_, fun l hl => ?_, List.Pairwise.nil⟩
        · rw [hp.fresh _ (Nat.le_refl _)]
          exact iff_of_false List.not_mem_nil Bool.false_ne_true
        · cases hl
        · cases hl
      · exact (hp.inPlace d y hx).still fun _ _ => rfl
    · intro d hd l
      rw [hplaces]
      exact hp.fresh d (Nat.le_of_succ_le hd) l
  | @removed _ c _ _ _ hstill =>
    have hplaces : ∀ d, places d (tr ++ [(i, o)]) = places d tr := fun d => by
      rw [places_snoc, settle_of_still hp hstill]
    constructor
    · intro d y hy
      rw [hplaces, hlength]
      exact (hp.inPlace d y (removeDisplay_cases (c := c) hy).2).still fun _ _ => rfl
    · intro d hd l
      rw [hplaces]
      exact hp.fresh d hd l
  | @created d x there =>
    have hplaces : ∀ k, places k (tr ++ [(.createLayer d, ⟨.none, some s.nextLayer, []⟩)]) =
        if d = k then Function.update (places k tr) s.nextLayer (some (0, tr.length))
        else places k tr := fun k => by
      rw [places_snoc]
      rfl
    constructor
    · intro k y hy
      rw [hplaces, hlength]
      have hz : ∀ {ls : List ℕ}, OwnList s k ls → ∀ l ∈ ls,
          ((createLayer env s d).layer l).z = (s.layer l).z := fun hls l hl => by
        rw [layer_createLayer, if_neg (Nat.ne_of_lt (hls.2 l hl).1)]
      obtain ⟨x', hx', ⟨rfl, rfl⟩ | ⟨hne, rfl⟩⟩ := display_createLayer hy
      · have hold := ho.layers k x' hx'
        have hfresh : s.nextLayer ∉ x'.layers := fun hmem => Nat.lt_irrefl _ (hold.2 _ hmem).1
        have hinsert := (hp.inPlace k x' hx').insert hfresh (hz hold)
        have hnew : ((createLayer env s k).layer s.nextLayer).z = 0 := by
          rw [layer_createLayer, if_pos rfl]
          rfl
        rw [if_pos rfl]
        rwa [hnew] at hinsert
      · rw [if_neg (Ne.symm hne)]
        exact (hp.inPlace k _ hx').still (hz (ho.layers k _ hx'))
    · intro k hk l
      have hne : d ≠ k := by
        rintro rfl
        exact absurd (hs.display_lt d x there) (Nat.not_lt.mpr hk)
      rw [hplaces, if_neg hne]
      exact hp.fresh k hk l
  | @destroyed d l x there known =>
    have hplaces : ∀ k, places k (tr ++ [(.destroyLayer d l, Output.ok)]) =
        if d = k then Function.update (places k tr) l none else places k tr := fun k => by
      rw [places_snoc]
      rfl
    constructor
    · intro k y hy
      rw [hplaces, hlength, layer_destroyLayer]
      obtain ⟨x', hx', ⟨rfl, rfl⟩ | ⟨hne, rfl⟩⟩ := display_destroyLayer known hy
      · rw [if_pos rfl]
        exact ((hp.inPlace k x' hx').erase l).still fun _ _ => rfl
      · rw [if_neg (Ne.symm hne)]
        exact (hp.inPlace k _ hx').still fun _ _ => rfl
    · intro k hk l'
      have hne : d ≠ k := by
        rintro rfl
        refine absurd (hs.display_lt d x there) (Nat.not_lt.mpr ?_)
        rwa [(follows_destroyLayer s d l).nextDisplay] at hk
      rw [hplaces, if_neg hne]
      exact hp.fresh k ((follows_destroyLayer s d l).nextDisplay ▸ hk) l'
  | @moved d l z x there known mem hz =>
    have hplace := hp.inPlace d x there
    have hplaces : ∀ k, places k (tr ++ [(.updateLayerZ d l z, Output.ok)]) =
        if d = k ∧ (places k tr l).map Prod.fst ≠ some z then
          Function.update (places k tr) l (some (z, tr.length))
        else places k tr := fun k => by
      rw [places_snoc]
      rfl
    rw [updateLayerZ_of_ne known mem hz]
    have hlayer : ∀ k, k ≠ l →
        ((s.modifyLayer l fun y => { y with z := z }).layer k).z = (s.layer k).z :=
      fun k hk => by rw [layer_modifyLayer, if_neg hk]
    constructor
    · intro k y hy
      rw [hplaces, hlength]
      obtain ⟨x', hx', ⟨rfl, rfl⟩ | ⟨hne, rfl⟩⟩ := exists_of_modifyDisplay hy
      · obtain rfl : x' = x := Option.some.inj (hx'.symm.trans there)
        have hnodup : x'.layers.Nodup := (ho.layers k x' there).1
        rw [if_pos ⟨rfl, fun heq => hz (Option.some.inj ((hplace.map_fst mem).symm.trans heq))⟩]
        have hinsert := (hplace.erase l).insert hnodup.not_mem_erase fun j hj =>
          hlayer j (hnodup.mem_erase_iff.mp hj).1
        have hnew : ((s.modifyLayer l fun y => { y with z := z }).layer l).z = z := by
          rw [layer_modifyLayer, if_pos rfl]
        rwa [hnew, Function.update_idem] at hinsert
      · rw [if_neg fun hdk => hne hdk.1.symm]
        refine (hp.inPlace k _ hx').still fun j hj => hlayer j ?_
        -- the layer that moves is on its own display
        rintro rfl
        exact hne (((ho.layers k _ hx').2 j hj).2.symm.trans ((ho.layers d x there).2 j mem).2)
    · intro k hk l'
      have hne : d ≠ k := by
        rintro rfl
        exact absurd (hs.display_lt d x there) (Nat.not_lt.mpr hk)
      rw [hplaces, if_neg fun hdk => hne hdk.1]
      exact hp.fresh k hk l'

/-- The first of two layers is put above the second. -/
def raisedInputs : List (Input ℕ) :=
  [.createLayer 1, .createLayer 1, .updateLayerZ 1 1 5,
    .callLayer 1 1 (.setCompositionType .device), .callLayer 1 2 (.setCompositionType .device)]

end Device

end Adapter

end A1000

import A1000.Composer.Turns

/-!
# The displays of the adapter

A display stands in `mDisplays` under its own number and in `mHwc1DisplayMap` under that of HWC 1,
and `mHwc1Contents` keeps pointers to the contents of displays from one `prepareAllDisplays` to the
next. `setAllDisplays` goes from the place in `mHwc1Contents` through the map to the display, so a
display that was removed since it was validated is missed there.

## Main definitions

* `Adapter.Device.Consistent` — the two tables agree
* `Adapter.Device.Sys.Idle` — no display is validated
* `Adapter.Device.Proper` — displays are removed when no display is validated

## Main results

* `Adapter.Device.consistent_of_run` — the tables agree in every run
* `Adapter.Device.step_of_proper` — no step of a proper run goes through a null pointer
-/

namespace A1000

namespace Adapter

namespace Device

open Composer

variable {F : Type*} {env : Env F} {s t : Sys F}

/-! ### Writing to a display -/

@[simp]
theorem display_modifyDisplay_self (s : Sys F) (d : ℕ) (f : Display F → Display F) :
    (s.modifyDisplay d f).display d = (s.display d).map f := Heap.modify_self ..

theorem display_modifyDisplay_of_ne (s : Sys F) {d k : ℕ} (h : k ≠ d)
    (f : Display F → Display F) : (s.modifyDisplay d f).display k = s.display k :=
  Heap.modify_of_ne _ f h

/-- Where a display that has been written to comes from. -/
theorem exists_of_modifyDisplay {d k : ℕ} {f : Display F → Display F} {y : Display F}
    (h : (s.modifyDisplay d f).display k = some y) :
    ∃ x, s.display k = some x ∧ (k = d ∧ y = f x ∨ k ≠ d ∧ y = x) := by
  rcases Heap.of_modify h with ⟨hk, hy⟩ | ⟨rfl, x, hx, rfl⟩
  · exact ⟨y, hy, .inr ⟨hk, rfl⟩⟩
  · exact ⟨x, hx, .inl ⟨rfl, rfl⟩⟩

/-- No display has come or gone. -/
structure SameDisplays (s t : Sys F) : Prop where
  nextDisplay : t.nextDisplay = s.nextDisplay
  displayMap : t.displayMap = s.displayMap
  virtualDisplay : t.virtualDisplay = s.virtualDisplay
  gone : ∀ d, s.display d = none → t.display d = none
  there : ∀ d x, s.display d = some x → ∃ y, t.display d = some y ∧ y.hwc1Id = x.hwc1Id

/-- No display has come or gone or been validated. -/
structure Follows (s t : Sys F) : Prop extends SameDisplays s t where
  contents : t.contents = s.contents
  free : ∀ d x y, s.display d = some x → t.display d = some y → x.changes = none → y.changes = none

theorem SameDisplays.trans {u : Sys F} (h : SameDisplays s t) (h' : SameDisplays t u) :
    SameDisplays s u := by
  refine ⟨h'.nextDisplay.trans h.nextDisplay, h'.displayMap.trans h.displayMap,
    h'.virtualDisplay.trans h.virtualDisplay, fun d hd => h'.gone d (h.gone d hd),
    fun d x hx => ?_⟩
  obtain ⟨y, hy, hid⟩ := h.there d x hx
  obtain ⟨z, hz, hid'⟩ := h'.there d y hy
  exact ⟨z, hz, hid'.trans hid⟩

/-- Where a display comes from. -/
theorem SameDisplays.exists_of_some (h : SameDisplays s t) {d : ℕ} {y : Display F}
    (hy : t.display d = some y) : ∃ x, s.display d = some x ∧ y.hwc1Id = x.hwc1Id := by
  cases hx : s.display d with
  | none =>
    rw [h.gone d hx] at hy
    cases hy
  | some x =>
    obtain ⟨y', hy', hid⟩ := h.there d x hx
    rw [hy] at hy'
    cases hy'
    exact ⟨x, rfl, hid⟩

theorem Follows.refl (s : Sys F) : Follows s s := by
  refine ⟨⟨rfl, rfl, rfl, fun _ h => h, fun _ x h => ⟨x, h, rfl⟩⟩, rfl, fun d x y hx hy hch => ?_⟩
  rw [hx] at hy
  cases hy
  exact hch

theorem Follows.trans {u : Sys F} (h : Follows s t) (h' : Follows t u) : Follows s u := by
  refine ⟨h.toSameDisplays.trans h'.toSameDisplays, h'.contents.trans h.contents,
    fun d x z hx hz hch => ?_⟩
  obtain ⟨y, hy, -⟩ := h.there d x hx
  exact h'.free d y z hy hz (h.free d x y hx hy hch)

theorem Sys.Same.follows (h : s.Same t) : Follows s t := by
  refine ⟨⟨h.nextDisplay, h.displayMap, h.virtualDisplay, fun d hd => h.display ▸ hd,
    fun d x hx => ⟨x, h.display ▸ hx, rfl⟩⟩, h.contents, fun d x y hx hy hch => ?_⟩
  rw [h.display, hx] at hy
  cases hy
  exact hch

theorem sameDisplays_modifyDisplay {d : ℕ} {f : Display F → Display F}
    (hid : ∀ x, (f x).hwc1Id = x.hwc1Id) : SameDisplays s (s.modifyDisplay d f) := by
  refine ⟨rfl, rfl, rfl, fun k hk => ?_, fun k x hx => ?_⟩
  · exact Heap.modify_eq_none.mpr hk
  · by_cases hk : k = d
    · subst hk
      exact ⟨f x, by rw [display_modifyDisplay_self, hx]; rfl, hid x⟩
    · exact ⟨x, by rw [display_modifyDisplay_of_ne s hk, hx], rfl⟩

theorem follows_modifyDisplay {d : ℕ} {f : Display F → Display F}
    (hid : ∀ x, (f x).hwc1Id = x.hwc1Id) (hch : ∀ x, x.changes = none → (f x).changes = none) :
    Follows s (s.modifyDisplay d f) := by
  refine ⟨sameDisplays_modifyDisplay hid, rfl, fun k x y hx hy hnone => ?_⟩
  obtain ⟨x', hx', ⟨-, rfl⟩ | ⟨-, rfl⟩⟩ := exists_of_modifyDisplay hy
  · rw [hx] at hx'
    cases hx'
    exact hch _ hnone
  · rw [hx] at hx'
    cases hx'
    exact hnone

/-- Nothing has been written to a display. -/
theorem follows_of_display (hnext : t.nextDisplay = s.nextDisplay)
    (hmap : t.displayMap = s.displayMap) (hvirtual : t.virtualDisplay = s.virtualDisplay)
    (hcontents : t.contents = s.contents) (hdisplay : t.display = s.display) : Follows s t := by
  refine ⟨⟨hnext, hmap, hvirtual, fun d hd => hdisplay ▸ hd,
    fun d x hx => ⟨x, hdisplay ▸ hx, rfl⟩⟩, hcontents, fun d x y hx hy hch => ?_⟩
  rw [hdisplay, hx] at hy
  cases hy
  exact hch

theorem follows_modifyLayer (s : Sys F) (l : ℕ) (f : Layer F → Layer F) :
    Follows s (s.modifyLayer l f) := follows_of_display rfl rfl rfl rfl rfl

theorem follows_createLayer (s : Sys F) (d : ℕ) : Follows s (createLayer env s d) := by
  refine Follows.trans ?_ (follows_modifyDisplay (fun _ => rfl) fun _ hch => hch)
  exact follows_of_display rfl rfl rfl rfl rfl

theorem follows_destroyLayer (s : Sys F) (d l : ℕ) : Follows s (destroyLayer s d l).1 := by
  rw [destroyLayer]
  split_ifs
  · refine Follows.trans ?_ (follows_modifyDisplay (fun _ => rfl) fun _ hch => hch)
    exact follows_of_display rfl rfl rfl rfl rfl
  · exact .refl s

theorem follows_updateLayerZ (s : Sys F) (d l : ℕ) (x : Display F) (z : ℕ) :
    Follows s (updateLayerZ s d l x z).1 := by
  rw [updateLayerZ]
  split_ifs
  · exact .refl s
  · refine Follows.trans ?_ (follows_modifyDisplay (fun _ => rfl) fun _ hch => hch)
    exact follows_modifyLayer s _ _
  · exact .refl s
  · exact .refl s

theorem follows_callLayer (s : Sys F) (l : ℕ) (call : LayerCall F) :
    Follows s (callLayer env s l call) := by
  rw [callLayer]
  split_ifs
  · exact (follows_modifyLayer s l _).trans
      (follows_modifyDisplay (fun _ => rfl) fun _ hch => hch)
  · exact follows_modifyLayer s l _

/-- **One turn of the loop** over the displays that are to be set. -/
theorem setEach_cons {c d₀ : ℕ} {pushed : List (Option ℕ)} {b : Bool} {closed : List ℤ}
    (h : setEach s c (some d₀ :: pushed) = some (t, b, closed)) :
    t = s ∧ b = false ∨ ∃ x ch closed', s.displayMap c = some d₀ ∧ s.display d₀ = some x ∧
      x.changes = some ch ∧ ch.types = [] ∧
        setEach (s.modifyDisplay d₀ Display.set) (c + 1) pushed = some (t, b, closed') ∧
          closed = x.closed ++ closed' := by
  obtain ⟨d, hd, h⟩ := Option.bind_eq_some_iff.mp h
  obtain ⟨x, hx, h⟩ := Option.bind_eq_some_iff.mp h
  cases hch : x.changes with
  | none =>
    rw [hch] at h
    cases h
    exact .inl ⟨rfl, rfl⟩
  | some ch =>
    rw [hch] at h
    dsimp only at h
    by_cases htypes : ch.types.isEmpty = true
    · rw [if_neg (not_not.mpr htypes)] at h
      by_cases hne : d ≠ d₀
      · rw [if_pos hne] at h
        cases h
      · obtain rfl : d = d₀ := not_not.mp hne
        rw [if_neg hne] at h
        obtain ⟨⟨t', b', closed'⟩, hrest, h⟩ := Option.map_eq_some_iff.mp h
        cases h
        exact .inr ⟨x, ch, closed', hd, hx, hch, List.isEmpty_iff.mp htypes, hrest, rfl⟩
    · rw [if_pos htypes] at h
      cases h
      exact .inl ⟨rfl, rfl⟩

/-! ### Loops -/

section Loops

variable {R : Sys F → Sys F → Prop} (refl : ∀ s, R s s) (trans : ∀ {s t u}, R s t → R t u → R s u)

include refl trans

/-- What holds between a state and what becomes of it in one turn of a loop, and in several turns if
it does in each of them, holds for the loop. -/
theorem rel_foldl {α : Type*} {f : Sys F → α → Sys F} (hf : ∀ s a, R s (f s a)) (as : List α)
    (s : Sys F) : R s (as.foldl f s) :=
  List.foldlRecOn as f (refl s) fun t h a _ => trans h (hf t a)

theorem rel_acceptChanges (hcall : ∀ s l call, R s (callLayer env s l call))
    (hdone : ∀ s d, R s (s.modifyDisplay d fun x =>
      { x with changes := x.changes.map fun ch => { ch with types := [] } }))
    (s : Sys F) (d : ℕ) (x : Display F) : R s (acceptChanges env s d x).1 := by
  rw [acceptChanges]
  split
  · exact refl s
  · refine trans (rel_foldl refl trans (fun s change => ?_) _ s) (hdone _ d)
    rw [acceptChange]
    split_ifs
    · exact hcall s _ _
    · exact refl s

theorem rel_giveBack (hone : ∀ s d k, R s (s.modifyDisplay d (.receive env s.layer k)))
    (ds : List (Option ℕ)) (ks : List (Option Contents)) (s : Sys F) :
    R s (s.giveBack env ds ks) := by
  induction ds generalizing s ks with
  | nil => exact refl s
  | cons o ds ih =>
    cases ks with
    | nil => cases o <;> exact refl s
    | cons k ks =>
      cases o with
      | none => exact ih ks s
      | some d =>
        cases k with
        | none => exact ih ks s
        | some k => exact trans (hone s d k) (ih ks _)

theorem rel_setEach (hone : ∀ s d, R s (s.modifyDisplay d Display.set)) {c : ℕ}
    {pushed : List (Option ℕ)} {b : Bool} {closed : List ℤ}
    (h : setEach s c pushed = some (t, b, closed)) : R s t := by
  induction pushed generalizing s c closed with
  | nil =>
    cases h
    exact refl _
  | cons o pushed ih =>
    cases o with
    | none => exact ih h
    | some d₀ =>
      obtain ⟨rfl, -⟩ | ⟨x, ch, closed', -, -, -, -, hrest, -⟩ := setEach_cons h
      · exact refl _
      · exact trans (hone s d₀) (ih hrest)

theorem rel_addFences (hretire : ∀ (s : Sys F) (d : ℕ) (r : Fences), R s (s.modifyDisplay d fun x =>
      { x with retireFences := x.retireFences ++ [r.retire] }))
    (hrelease : ∀ release s p, R s (addReleaseFence release s p)) (s : Sys F) (d : ℕ)
    (x : Display F) (r : Fences) : R s (addFences s d x r).1 :=
  trans (hretire s d r) (rel_foldl refl trans (hrelease r.release) _ _)

theorem rel_addEach (hone : ∀ s d x r, R s (addFences s d x r).1) (fences : ℕ → Fences) (c : ℕ)
    (pushed : List (Option ℕ)) (s : Sys F) : R s (addEach s fences c pushed).1 := by
  induction pushed generalizing s c with
  | nil => exact refl s
  | cons o pushed ih =>
    cases o with
    | none => exact ih (c + 1) s
    | some d₀ =>
      rw [addEach]
      split
      · exact ih (c + 1) s
      · exact trans (hone s _ _ _) (ih (c + 1) _)

end Loops

theorem follows_acceptChanges (s : Sys F) (d : ℕ) (x : Display F) :
    Follows s (acceptChanges env s d x).1 := by
  refine rel_acceptChanges Follows.refl Follows.trans follows_callLayer (fun s d => ?_) s d x
  refine follows_modifyDisplay (fun _ => rfl) fun x hch => ?_
  dsimp only
  rw [hch]
  rfl

theorem follows_setEach {c : ℕ} {pushed : List (Option ℕ)} {b : Bool} {closed : List ℤ}
    (h : setEach s c pushed = some (t, b, closed)) : Follows s t :=
  rel_setEach Follows.refl Follows.trans
    (fun _ _ => follows_modifyDisplay (fun _ => rfl) fun _ _ => rfl) h

theorem follows_addFences (s : Sys F) (d : ℕ) (x : Display F) (r : Fences) :
    Follows s (addFences s d x r).1 :=
  rel_addFences Follows.refl Follows.trans
    (fun _ _ _ => follows_modifyDisplay (fun _ => rfl) fun _ hch => hch)
    (fun _ s p => follows_modifyLayer s p.1 _) s d x r

theorem follows_addEach (fences : ℕ → Fences) (c : ℕ) (pushed : List (Option ℕ)) (s : Sys F) :
    Follows s (addEach s fences c pushed).1 :=
  rel_addEach Follows.refl Follows.trans follows_addFences fences c pushed s

theorem display_prepareEach (s : Sys F) (d : ℕ) :
    (s.prepareEach env).display d = (s.display d).map (Display.prepare env s.layer) := rfl

theorem follows_prepareEach (s : Sys F) : Follows s (s.prepareEach env) := by
  refine ⟨⟨rfl, rfl, rfl, fun d hd => ?_, fun d x hx => ?_⟩, rfl, fun d x y hx hy hch => ?_⟩
  · rw [display_prepareEach, hd]
    rfl
  · exact ⟨x.prepare env s.layer, by rw [display_prepareEach, hx]; rfl, rfl⟩
  · rw [display_prepareEach, hx] at hy
    cases hy
    exact hch

theorem sameDisplays_giveBack (ds : List (Option ℕ)) (ks : List (Option Contents)) (s : Sys F) :
    SameDisplays s (s.giveBack env ds ks) :=
  rel_giveBack (fun s => (Follows.refl s).toSameDisplays) SameDisplays.trans
    (fun _ _ _ => sameDisplays_modifyDisplay fun _ => rfl) ds ks s

/-! ### The tables agree -/

/-- **The two tables of displays agree.** -/
structure Consistent (s : Sys F) : Prop where
  primary : s.displayMap hwcDisplayPrimary ≠ none
  display_of_map : ∀ c d, s.displayMap c = some d → ∃ x, s.display d = some x ∧ x.hwc1Id = c
  map_of_display : ∀ d x, s.display d = some x → s.displayMap x.hwc1Id = some d
  display_lt : ∀ d x, s.display d = some x → d < s.nextDisplay
  hwc1Id_lt : ∀ d x, s.display d = some x → x.hwc1Id < 3
  virtualDisplay : s.virtualDisplay = s.displayMap hwcDisplayVirtual

theorem Consistent.of_same (hs : Consistent s) (h : SameDisplays s t) : Consistent t := by
  constructor
  · rw [h.displayMap]
    exact hs.primary
  · intro c d hd
    rw [h.displayMap] at hd
    obtain ⟨x, hx, rfl⟩ := hs.display_of_map c d hd
    exact h.there d x hx
  · intro d y hy
    obtain ⟨x, hx, hid⟩ := h.exists_of_some hy
    rw [h.displayMap, hid]
    exact hs.map_of_display d x hx
  · intro d y hy
    obtain ⟨x, hx, -⟩ := h.exists_of_some hy
    rw [h.nextDisplay]
    exact hs.display_lt d x hx
  · intro d y hy
    obtain ⟨x, hx, hid⟩ := h.exists_of_some hy
    rw [hid]
    exact hs.hwc1Id_lt d x hx
  · rw [h.virtualDisplay, h.displayMap]
    exact hs.virtualDisplay

theorem display_addDisplay (s : Sys F) (c d : ℕ) : (s.addDisplay c).display d =
    if d = s.nextDisplay then some (.ofHwc1Id c) else s.display d := Function.update_apply ..

theorem displayMap_addDisplay (s : Sys F) (c k : ℕ) : (s.addDisplay c).displayMap k =
    if k = c then some s.nextDisplay else s.displayMap k := Function.update_apply ..

theorem display_removeDisplay (s : Sys F) (c d k : ℕ) : (s.removeDisplay c d).display k =
    if k = d then none else s.display k := Function.update_apply ..

theorem displayMap_removeDisplay (s : Sys F) (c d k : ℕ) : (s.removeDisplay c d).displayMap k =
    if k = c then none else s.displayMap k := Function.update_apply ..

/-- A display is the new one, or one of those before. -/
theorem addDisplay_cases {c d : ℕ} {x : Display F} (h : (s.addDisplay c).display d = some x) :
    d = s.nextDisplay ∧ x = .ofHwc1Id c ∨ s.display d = some x := by
  rw [display_addDisplay] at h
  split_ifs at h with hd
  · cases h
    exact .inl ⟨hd, rfl⟩
  · exact .inr h

/-- A display that is left. -/
theorem removeDisplay_cases {c d k : ℕ} {x : Display F}
    (h : (s.removeDisplay c d).display k = some x) : k ≠ d ∧ s.display k = some x := by
  rw [display_removeDisplay] at h
  split_ifs at h with hk
  exact ⟨hk, h⟩

/-- A display is added where there was none. -/
theorem Consistent.addDisplay (hs : Consistent s) {c : ℕ} (hc : c < 3)
    (free : s.displayMap c = none) {v : Option ℕ}
    (hv : v = if c = hwcDisplayVirtual then some s.nextDisplay else s.virtualDisplay) :
    Consistent { s.addDisplay c with virtualDisplay := v } := by
  constructor
  · intro hnone
    rw [displayMap_addDisplay] at hnone
    split_ifs at hnone
    exact hs.primary hnone
  · intro k d hd
    rw [displayMap_addDisplay] at hd
    split_ifs at hd with hk
    · cases hd
      exact ⟨.ofHwc1Id c, (display_addDisplay s c _).trans (if_pos rfl), hk.symm⟩
    · obtain ⟨x, hx, hid⟩ := hs.display_of_map k d hd
      have hne : d ≠ s.nextDisplay := Nat.ne_of_lt (hs.display_lt d x hx)
      exact ⟨x, ((display_addDisplay s c d).trans (if_neg hne)).trans hx, hid⟩
  · intro d x hx
    rcases addDisplay_cases hx with ⟨rfl, rfl⟩ | hx
    · exact (displayMap_addDisplay s c _).trans (if_pos rfl)
    · have hmap := hs.map_of_display d x hx
      have hne : x.hwc1Id ≠ c := by
        rintro rfl
        rw [free] at hmap
        cases hmap
      exact ((displayMap_addDisplay s c _).trans (if_neg hne)).trans hmap
  · intro d x hx
    rcases addDisplay_cases hx with ⟨rfl, -⟩ | hx
    · exact Nat.lt_succ_self _
    · exact Nat.lt_succ_of_lt (hs.display_lt d x hx)
  · intro d x hx
    rcases addDisplay_cases hx with ⟨-, rfl⟩ | hx
    · exact hc
    · exact hs.hwc1Id_lt d x hx
  · rw [hv, hs.virtualDisplay, displayMap_addDisplay]
    exact if_congr eq_comm rfl rfl

/-- A display is removed, but not the primary one. -/
theorem Consistent.removeDisplay (hs : Consistent s) {c d : ℕ} (hc : c ≠ hwcDisplayPrimary)
    (there : s.displayMap c = some d) {v : Option ℕ}
    (hv : v = if c = hwcDisplayVirtual then none else s.virtualDisplay) :
    Consistent { s.removeDisplay c d with virtualDisplay := v } := by
  obtain ⟨x, hx, hid⟩ := hs.display_of_map c d there
  constructor
  · intro hnone
    rw [displayMap_removeDisplay, if_neg (Ne.symm hc)] at hnone
    exact hs.primary hnone
  · intro k d' hd'
    rw [displayMap_removeDisplay] at hd'
    split_ifs at hd' with hk
    obtain ⟨y, hy, hid'⟩ := hs.display_of_map k d' hd'
    have hne : d' ≠ d := by
      rintro rfl
      rw [hx] at hy
      cases hy
      exact hk (hid'.symm.trans hid)
    exact ⟨y, ((display_removeDisplay s c d d').trans (if_neg hne)).trans hy, hid'⟩
  · intro k y hy
    obtain ⟨hne, hy⟩ := removeDisplay_cases (c := c) hy
    have hmap := hs.map_of_display k y hy
    have hne' : y.hwc1Id ≠ c := by
      rintro rfl
      rw [there] at hmap
      cases hmap
      exact hne rfl
    exact ((displayMap_removeDisplay s c d _).trans (if_neg hne')).trans hmap
  · intro k y hy
    exact hs.display_lt k y (removeDisplay_cases (c := c) hy).2
  · intro k y hy
    exact hs.hwc1Id_lt k y (removeDisplay_cases (c := c) hy).2
  · rw [hv, hs.virtualDisplay, displayMap_removeDisplay]
    exact if_congr eq_comm rfl rfl

theorem consistent_start (env : Env F) : Consistent (start env) := by
  constructor
  · simp [start]
  · intro c d hd
    simp only [start] at hd
    split_ifs at hd with hc
    cases hd
    exact ⟨_, rfl, hc.symm⟩
  · intro d x hx
    simp only [start] at hx
    split_ifs at hx with hd
    cases hx
    rw [hd]
    rfl
  · intro d x hx
    simp only [start] at hx
    split_ifs at hx with hd
    rw [hd]
    exact Nat.lt_succ_self 1
  · intro d x hx
    simp only [start] at hx
    split_ifs at hx
    cases hx
    exact Nat.succ_pos 2
  · rfl

/-- What `prepareAllDisplays` does when there is a primary display. -/
theorem prepareAllDisplays_cases {a₁ a₂ : Answers} {b : Bool} {calls : List (Call F)}
    (h : prepareAllDisplays env s a₁ a₂ = some (t, b, calls)) (hb : b = true) :
    t = Sys.giveBack env { s.prepareEach env with contents := s.slots env } (s.slots env)
      (vendorTypes a₁ a₂ ((s.slots env).map
        (Option.bind · fun d => ((s.prepareEach env).display d).bind (·.contents)))) ∧
      calls = [.prepare (s.asked env)] := by
  subst hb
  rw [prepareAllDisplays] at h
  dsimp only at h
  split_ifs at h
  · cases h
  · cases h
    exact ⟨rfl, rfl⟩

theorem sameDisplays_prepareAllDisplays {a₁ a₂ : Answers} {calls : List (Call F)}
    (h : prepareAllDisplays env s a₁ a₂ = some (t, true, calls)) : SameDisplays s t := by
  obtain ⟨rfl, -⟩ := prepareAllDisplays_cases h rfl
  have hprepare : SameDisplays s { s.prepareEach env with contents := s.slots env } := by
    have h : SameDisplays s (s.prepareEach env) := (follows_prepareEach s).toSameDisplays
    exact ⟨h.nextDisplay, h.displayMap, h.virtualDisplay, h.gone, h.there⟩
  exact hprepare.trans (sameDisplays_giveBack _ _ _)

theorem Consistent.step (hs : Consistent s) {i : Input F} {o : Output F}
    (h : Happens env s i t o) : Consistent t := by
  cases h with
  | quiet same => exact hs.of_same same.follows.toSameDisplays
  | addedVirtual free =>
    exact hs.addDisplay (by decide) (hs.virtualDisplay.symm.trans free) (if_pos rfl).symm
  | addedExternal _ free => exact hs.addDisplay (by decide) free rfl
  | removedVirtual hd =>
    exact hs.removeDisplay (by decide) (hs.virtualDisplay.symm.trans hd) (if_pos rfl).symm
  | removedExternal hd => exact hs.removeDisplay (by decide) hd rfl
  | createdLayer => exact hs.of_same (follows_createLayer s _).toSameDisplays
  | destroyedLayer => exact hs.of_same (follows_destroyLayer s _ _).toSameDisplays
  | movedLayer => exact hs.of_same (follows_updateLayerZ s _ _ _ _).toSameDisplays
  | calledLayer => exact hs.of_same (follows_callLayer s _ _).toSameDisplays
  | setDisplay there rest => exact hs.of_same (sameDisplays_modifyDisplay fun x => (rest x).hwc1Id)
  | validated _ _ prepared => exact hs.of_same (sameDisplays_prepareAllDisplays prepared)
  | notPrepared => exact hs.of_same (follows_prepareEach s).toSameDisplays
  | accepted => exact hs.of_same (follows_acceptChanges s _ _).toSameDisplays
  | notSet _ _ failed => exact hs.of_same (follows_setEach failed).toSameDisplays
  | set _ _ done =>
    exact hs.of_same ((follows_setEach done).trans (follows_addEach ..)).toSameDisplays

/-- **The two tables of displays agree in every run.** -/
theorem consistent_of_run {tr : List (Input F × Output F)}
    (h : StepSystem.Run (step env) (start env) tr s) : Consistent s :=
  StepSystem.RunWhere.invariant (P := fun _ s => Consistent s) (consistent_start env)
    (fun hs _ hstep => hs.step (happens_of_step hstep)) h

/-! ### Every display is asked about -/

/-- The vendor's answers keep the number of layers and the target. -/
theorem exists_vendorTypes (a₁ a₂ : Answers) (cs : List (Option Contents)) :
    ∃ g : ℕ → Contents → Contents,
      (∀ c k, (g c k).layers.length = k.layers.length ∧ (g c k).target = k.target) ∧
        ∀ c : ℕ, (vendorTypes a₁ a₂ cs)[c]? = cs[c]?.map (Option.map (g c)) := by
  by_cases hfew : ∀ k, some k ∈ vendorPrepare a₁ cs → k.overlays < 2
  · refine ⟨fun c k => k.given (a₁ c), fun c k => ⟨by simp [Contents.given], rfl⟩, fun c => ?_⟩
    rw [vendorTypes_of_few hfew, getElem?_vendorPrepare]
  · obtain ⟨k, hk, hmany⟩ : ∃ k, some k ∈ vendorPrepare a₁ cs ∧ 2 ≤ k.overlays := by
      by_contra hno
      exact hfew fun k hk => Nat.not_le.mp fun hle => hno ⟨k, hk, hle⟩
    refine ⟨fun c k => (k.given (a₁ c)).mark.given (a₂ c), fun c k => ?_, fun c => ?_⟩
    · dsimp only
      rw [Contents.mark]
      split_ifs <;> simp [Contents.given]
    · rw [vendorTypes_of_several hk hmany, getElem?_vendorPrepare, List.getElem?_map,
        getElem?_vendorPrepare, Option.map_map, Option.map_map]
      refine congrArg (cs[c]?.map ·) (funext fun o => ?_)
      cases o <;> rfl

@[simp]
theorem layer_giveBack (ds : List (Option ℕ)) (ks : List (Option Contents)) (s : Sys F) :
    (s.giveBack env ds ks).layer = s.layer :=
  rel_giveBack (R := fun s t => t.layer = s.layer) (fun _ => rfl) (fun h h' => h'.trans h)
    (fun _ _ _ => rfl) ds ks s

theorem contents_giveBack (ds : List (Option ℕ)) (ks : List (Option Contents)) (s : Sys F) :
    (s.giveBack env ds ks).contents = s.contents :=
  rel_giveBack (R := fun s t => t.contents = s.contents) (fun _ => rfl) (fun h h' => h'.trans h)
    (fun _ _ _ => rfl) ds ks s

theorem display_giveBack_of_not_mem {d : ℕ} {ds : List (Option ℕ)} (h : some d ∉ ds)
    (ks : List (Option Contents)) (s : Sys F) :
    (s.giveBack env ds ks).display d = s.display d := by
  induction ds generalizing s ks with
  | nil => rfl
  | cons o ds ih =>
    obtain ⟨hne, hds⟩ := List.ne_and_not_mem_of_not_mem_cons h
    rcases ks with _ | ⟨_ | k, ks⟩
    · cases o <;> rfl
    · cases o <;> exact ih hds ks s
    · cases o with
      | none => exact ih hds ks s
      | some d' =>
        refine (ih hds ks _).trans (display_modifyDisplay_of_ne s ?_ _)
        exact fun heq => hne (congrArg some heq)

/-- **A display that stands in one place** gets the contents of that place. -/
theorem display_giveBack {c d : ℕ} {k : Contents} {ds : List (Option ℕ)}
    {ks : List (Option Contents)} (hd : ds[c]? = some (some d)) (hk : ks[c]? = some (some k))
    (honce : ∀ c' : ℕ, ds[c']? = some (some d) → c' = c) (s : Sys F) :
    (s.giveBack env ds ks).display d = (s.display d).map (.receive env s.layer k) := by
  induction ds generalizing s ks c with
  | nil => simp at hd
  | cons o ds ih =>
    cases ks with
    | nil => simp at hk
    | cons k' ks =>
      cases c with
      | zero =>
        simp only [List.getElem?_cons_zero, Option.some.injEq] at hd hk
        subst hd hk
        have hnot : some d ∉ ds := by
          intro hmem
          obtain ⟨c', hc'⟩ := List.mem_iff_getElem?.mp hmem
          exact absurd (honce (c' + 1) hc') (Nat.succ_ne_zero c')
        exact (display_giveBack_of_not_mem hnot ks _).trans (display_modifyDisplay_self s d _)
      | succ c =>
        simp only [List.getElem?_cons_succ] at hd hk
        have honce' : ∀ c' : ℕ, ds[c']? = some (some d) → c' = c :=
          fun c' hc' => Nat.succ_injective (honce (c' + 1) hc')
        cases o with
        | none => exact ih hd hk honce' s
        | some d' =>
          cases k' with
          | none => exact ih hd hk honce' s
          | some k' =>
            have hne : d ≠ d' := by
              rintro rfl
              exact absurd (honce 0 rfl) (Nat.succ_ne_zero c).symm
            refine (ih hd hk honce' _).trans ?_
            rw [display_modifyDisplay_of_ne s hne]
            rfl

theorem getElem?_slots {c : ℕ} {o : Option ℕ} (h : (s.slots env)[c]? = some o) :
    o = s.displayMap c := by
  rw [Sys.slots] at h
  split_ifs at h <;> rcases c with _ | _ | _ | c <;> simp_all [hwcDisplayPrimary,
    hwcDisplayExternal, hwcDisplayVirtual]

theorem getElem?_slots_of_lt {c : ℕ} (h : c < (s.slots env).length) :
    (s.slots env)[c]? = some (s.displayMap c) := by
  rw [List.getElem?_eq_getElem h, ← getElem?_slots (List.getElem?_eq_getElem h)]

/-- A display stands in one slot at most. -/
theorem Consistent.slot_unique (hs : Consistent s) {c d : ℕ} {x : Display F}
    (h : (s.slots env)[c]? = some (some d)) (hx : s.display d = some x) : c = x.hwc1Id := by
  obtain ⟨y, hy, rfl⟩ := hs.display_of_map c d (getElem?_slots h).symm
  rw [hx] at hy
  cases hy
  rfl

/-- **What `prepareAllDisplays` makes of a display** that HWC 1 is asked about. -/
theorem display_prepareAllDisplays (hs : Consistent s) {a₁ a₂ : Answers} {calls : List (Call F)}
    (h : prepareAllDisplays env s a₁ a₂ = some (t, true, calls)) {d : ℕ} {x : Display F}
    (hx : s.display d = some x) (hslot : x.hwc1Id < (s.slots env).length) :
    ∃ k, k.layers.length = x.layers.length ∧
      t.display d = some ((x.prepare env s.layer).receive env s.layer k) := by
  obtain ⟨rfl, -⟩ := prepareAllDisplays_cases h rfl
  obtain ⟨g, hg, hvendor⟩ := exists_vendorTypes a₁ a₂ ((s.slots env).map
    (Option.bind · fun d => ((s.prepareEach env).display d).bind (·.contents)))
  have hc : (s.slots env)[x.hwc1Id]? = some (some d) := by
    rw [getElem?_slots_of_lt hslot, hs.map_of_display d x hx]
  have hprepared : (s.prepareEach env).display d = some (x.prepare env s.layer) := by
    rw [display_prepareEach, hx]
    rfl
  refine ⟨g x.hwc1Id ⟨(x.written env s.layer).map (·.type), ⟨⟨hwcFramebufferTarget, 0⟩, 0⟩⟩,
    ?_, ?_⟩
  · rw [(hg _ _).1]
    simp [Display.written]
  · rw [display_giveBack hc (k := g x.hwc1Id _) ?_ fun c' hc' => hs.slot_unique hc' hx]
    · exact congrArg (Option.map _) hprepared
    · rw [hvendor, List.getElem?_map, hc]
      simp only [Option.map_some, Option.bind_some, hprepared]
      rfl

/-! ### Displays are removed when none is validated -/

/-- No display is validated. -/
def Sys.Idle (s : Sys F) : Prop := ∀ d < s.nextDisplay, ∀ x ∈ s.display d, x.changes = none

instance (s : Sys F) : Decidable s.Idle := inferInstanceAs (Decidable (∀ d < s.nextDisplay, _))

/-- What is asked of the outside: there are virtual displays only if HWC 1 knows them, displays are
removed only when none is validated, and nothing is called on a layer of a display that is gone. -/
def Proper (env : Env F) (s : Sys F) : Input F → Prop
  | .createVirtualDisplay => 3 ≤ env.minorVersion
  | .destroyVirtualDisplay _ => s.Idle
  | .hwc1Hotplug _ there => there = 0 → s.Idle
  | .callLayer _ l _ => s.known l = true → (s.display (s.layer l).display).isSome
  | _ => True

instance (s : Sys F) : ∀ i, Decidable (Proper env s i)
  | .createVirtualDisplay => inferInstanceAs (Decidable (3 ≤ env.minorVersion))
  | .destroyVirtualDisplay _ => inferInstanceAs (Decidable s.Idle)
  | .hwc1Hotplug _ there => inferInstanceAs (Decidable (there = 0 → s.Idle))
  | .callLayer _ l _ =>
    inferInstanceAs (Decidable (s.known l = true → (s.display (s.layer l).display).isSome))
  | .registerCallback .. | .createLayer .. | .destroyLayer .. | .updateLayerZ ..
  | .setColorTransform .. | .setClientTarget .. | .setOutputBuffer .. | .validate ..
  | .acceptChanges .. | .present .. | .hwc1Invalidate | .hwc1Vsync .. =>
    inferInstanceAs (Decidable True)

/-- What `mHwc1Contents` points to is still there as long as a display is validated. -/
structure Pushed (env : Env F) (s : Sys F) : Prop where
  there : ¬ s.Idle → ∀ c d, s.contents[c]? = some (some d) → s.displayMap c = some d
  /-- HWC 1 is asked about every display. -/
  slot : ∀ d x, s.display d = some x → x.hwc1Id < (s.slots env).length

theorem Consistent.idle_iff (hs : Consistent s) :
    s.Idle ↔ ∀ d x, s.display d = some x → x.changes = none :=
  ⟨fun h d x hx => h d (hs.display_lt d x hx) x hx, fun h d _ x hx => h d x hx⟩

theorem Follows.idle (h : Follows s t) (hs : Consistent s) (hidle : s.Idle) : t.Idle := by
  rw [(hs.of_same h.toSameDisplays).idle_iff]
  intro d y hy
  obtain ⟨x, hx, -⟩ := h.exists_of_some hy
  exact h.free d x y hx hy (hs.idle_iff.mp hidle d x hx)

theorem slots_congr (h : t.displayMap = s.displayMap) : t.slots env = s.slots env := by
  rw [Sys.slots, Sys.slots, h]

theorem Pushed.follows (hp : Pushed env s) (hs : Consistent s) (h : Follows s t) :
    Pushed env t := by
  constructor
  · intro hbusy c d hcd
    rw [h.contents] at hcd
    rw [h.displayMap]
    exact hp.there (fun hidle => hbusy (h.idle hs hidle)) c d hcd
  · intro d y hy
    obtain ⟨x, hx, hid⟩ := h.exists_of_some hy
    rw [slots_congr h.displayMap, hid]
    exact hp.slot d x hx

theorem length_slots (s : Sys F) (t : Sys F) :
    (t.slots env).length = (s.slots env).length := by
  rw [Sys.slots, Sys.slots]
  split_ifs <;> rfl

/-- A display is added where there was none. -/
theorem Pushed.addDisplay (hp : Pushed env s) (hs : Consistent s) {c : ℕ}
    (free : s.displayMap c = none) (hc : c < (s.slots env).length) {v : Option ℕ}
    (ht : Consistent { s.addDisplay c with virtualDisplay := v }) :
    Pushed env { s.addDisplay c with virtualDisplay := v } := by
  constructor
  · intro hbusy k d hd
    have hbusy' : ¬ s.Idle := by
      intro hidle
      refine hbusy (ht.idle_iff.mpr fun d x hx => ?_)
      rcases addDisplay_cases hx with ⟨-, rfl⟩ | hx
      · rfl
      · exact hs.idle_iff.mp hidle d x hx
    have hmap := hp.there hbusy' k d hd
    have hne : k ≠ c := by
      rintro rfl
      rw [free] at hmap
      cases hmap
    exact ((displayMap_addDisplay s c k).trans (if_neg hne)).trans hmap
  · intro d x hx
    rw [length_slots s]
    rcases addDisplay_cases hx with ⟨-, rfl⟩ | hx
    · exact hc
    · exact hp.slot d x hx

/-- A display is removed when none is validated. -/
theorem Pushed.removeDisplay (hp : Pushed env s) (hs : Consistent s) {c d : ℕ} (hidle : s.Idle)
    {v : Option ℕ} (ht : Consistent { s.removeDisplay c d with virtualDisplay := v }) :
    Pushed env { s.removeDisplay c d with virtualDisplay := v } := by
  constructor
  · intro hbusy
    refine absurd (ht.idle_iff.mpr fun k x hx => ?_) hbusy
    exact hs.idle_iff.mp hidle k x (removeDisplay_cases (c := c) hx).2
  · intro k x hx
    rw [length_slots s]
    exact hp.slot k x (removeDisplay_cases (c := c) hx).2

theorem pushed_start (env : Env F) : Pushed env (start env) := by
  constructor
  · intro _ c d hd
    simp [start] at hd
  · intro d x hx
    simp only [start] at hx
    split_ifs at hx
    cases hx
    exact Nat.succ_pos _

theorem Pushed.step (hp : Pushed env s) (hs : Consistent s) {i : Input F} {o : Output F}
    (hproper : Proper env s i) (h : Happens env s i t o) : Pushed env t := by
  have ht := hs.step h
  cases h with
  | quiet same => exact hp.follows hs same.follows
  | addedVirtual free =>
    refine hp.addDisplay hs ?_ ?_ ht
    · rw [← hs.virtualDisplay, free]
    · have hversion : 3 ≤ env.minorVersion := hproper
      rw [Sys.slots, if_pos hversion]
      exact Nat.lt_succ_self 2
  | addedExternal _ free =>
    refine hp.addDisplay hs free ?_ ht
    rw [Sys.slots, List.length_append]
    exact Nat.lt_add_right _ (Nat.lt_succ_self 1)
  | removedVirtual => exact hp.removeDisplay hs hproper ht
  | removedExternal => exact hp.removeDisplay hs (hproper rfl) ht
  | createdLayer => exact hp.follows hs (follows_createLayer s _)
  | destroyedLayer => exact hp.follows hs (follows_destroyLayer s _ _)
  | movedLayer => exact hp.follows hs (follows_updateLayerZ s _ _ _ _)
  | calledLayer => exact hp.follows hs (follows_callLayer s _ _)
  | setDisplay there rest =>
    exact hp.follows hs (follows_modifyDisplay (fun x => (rest x).hwc1Id)
      fun x hch => (rest x).changes.trans hch)
  | validated _ _ prepared =>
    have hsame := sameDisplays_prepareAllDisplays prepared
    obtain ⟨rfl, -⟩ := prepareAllDisplays_cases prepared rfl
    constructor
    · intro _ c d hcd
      rw [contents_giveBack] at hcd
      rw [hsame.displayMap]
      exact (getElem?_slots hcd).symm
    · intro d y hy
      obtain ⟨x, hx, hid⟩ := hsame.exists_of_some hy
      rw [length_slots s, hid]
      exact hp.slot d x hx
  | notPrepared => exact hp.follows hs (follows_prepareEach s)
  | accepted => exact hp.follows hs (follows_acceptChanges s _ _)
  | notSet _ _ failed => exact hp.follows hs (follows_setEach failed)
  | set _ _ done => exact hp.follows hs ((follows_setEach done).trans (follows_addEach ..))

theorem pushed_of_run {tr : List (Input F × Output F)}
    (h : StepSystem.RunWhere (step env) (Proper env) (start env) tr s) : Pushed env s := by
  refine (StepSystem.RunWhere.invariant (P := fun _ s => Consistent s ∧ Pushed env s)
    ⟨consistent_start env, pushed_start env⟩ (fun hs hproper hstep => ?_) h).2
  have hhappens := happens_of_step hstep
  exact ⟨hs.1.step hhappens, hs.2.step hs.1 hproper hhappens⟩

/-- `prepareAllDisplays` finds every display. -/
theorem isSome_prepareAllDisplays (hs : Consistent s) (a₁ a₂ : Answers) :
    ∃ t calls, prepareAllDisplays env s a₁ a₂ = some (t, true, calls) := by
  have hthere : ¬ ((s.prepareEach env).slots env).any
      (fun o => o.any fun d => ((s.prepareEach env).display d).isNone) = true := by
    rw [Bool.not_eq_true, List.any_eq_false]
    intro o ho
    obtain ⟨c, hc⟩ := List.mem_iff_getElem?.mp ho
    rw [getElem?_slots hc]
    cases hmap : (s.prepareEach env).displayMap c with
    | none => simp
    | some d =>
      obtain ⟨x, hx, -⟩ := hs.display_of_map c d hmap
      simp [display_prepareEach, hx]
  have hprimary : (s.prepareEach env).displayMap hwcDisplayPrimary ≠ none := hs.primary
  rw [prepareAllDisplays]
  dsimp only
  rw [if_neg hprimary, if_neg hthere]
  exact ⟨_, _, rfl⟩

/-- The loop of `setAllDisplays` finds every display. -/
theorem isSome_setEach {c : ℕ} {pushed : List (Option ℕ)}
    (h : ∀ (i d : ℕ), pushed[i]? = some (some d) →
      s.displayMap (c + i) = some d ∧ (s.display d).isSome) :
    ∃ r, setEach s c pushed = some r := by
  induction pushed generalizing s c with
  | nil => exact ⟨_, rfl⟩
  | cons o pushed ih =>
    have hrest : ∀ (i d : ℕ), pushed[i]? = some (some d) →
        s.displayMap (c + 1 + i) = some d ∧ (s.display d).isSome := by
      intro i d hi
      rw [Nat.add_right_comm, Nat.add_assoc]
      exact h (i + 1) d hi
    cases o with
    | none => exact ih hrest
    | some d =>
      obtain ⟨hmap, hsome⟩ := h 0 d rfl
      obtain ⟨x, hx⟩ := Option.isSome_iff_exists.mp hsome
      rw [setEach, show s.displayMap c = some d from hmap, Option.bind_some, hx, Option.bind_some]
      split
      · exact ⟨_, rfl⟩
      · split_ifs with htypes hne
        · exact absurd rfl hne
        · have hfollows : Follows s (s.modifyDisplay d Display.set) :=
            follows_modifyDisplay (fun _ => rfl) fun _ _ => rfl
          obtain ⟨r, hr⟩ := ih (s := s.modifyDisplay d Display.set) (c := c + 1) fun i d' hi => by
            obtain ⟨hmap', hsome'⟩ := hrest i d' hi
            obtain ⟨y, hy⟩ := Option.isSome_iff_exists.mp hsome'
            obtain ⟨y', hy', -⟩ := hfollows.there d' y hy
            exact ⟨hmap', Option.isSome_iff_exists.mpr ⟨y', hy'⟩⟩
          exact ⟨_, by rw [hr]; rfl⟩
        · exact ⟨_, rfl⟩

/-- **No step of a proper run goes through a null pointer** or to memory that was freed. -/
theorem step_of_proper {tr : List (Input F × Output F)} {i : Input F}
    (h : StepSystem.RunWhere (step env) (Proper env) (start env) tr s) (hi : Proper env s i) :
    ∃ t o, step env s i = some (t, o) := by
  have hs := consistent_of_run h.run
  have hp := pushed_of_run h
  suffices hsome : (step env s i).isSome by
    obtain ⟨⟨t, o⟩, ht⟩ := Option.isSome_iff_exists.mp hsome
    exact ⟨t, o, ht⟩
  have honDisplay : ∀ {d : ℕ} {f : Display F → Option (Sys F × Output F)},
      (∀ x, s.display d = some x → (f x).isSome) → (onDisplay s d f).isSome := by
    intro d f hf
    rw [onDisplay]
    cases hx : s.display d with
    | none => rfl
    | some x => exact hf x hx
  cases i with
  | createVirtualDisplay =>
    rw [step]
    split_ifs <;> rfl
  | destroyVirtualDisplay d =>
    rw [step]
    split_ifs <;> rfl
  | callLayer d l call =>
    refine honDisplay fun x hx => ?_
    by_cases hknown : s.known l = true
    · obtain ⟨y, hy⟩ := Option.isSome_iff_exists.mp (hi hknown)
      rw [if_neg (not_not.mpr hknown), hy, Option.bind_some]
      split_ifs <;> rfl
    · rw [if_pos hknown]
      rfl
  | validate d a₁ a₂ =>
    refine honDisplay fun x hx => ?_
    rw [validate]
    split
    · rfl
    · have hsome : ∃ t calls, prepareAllDisplays env s a₁ a₂ = some (t, true, calls) :=
        isSome_prepareAllDisplays hs a₁ a₂
      obtain ⟨t, calls, hprepared⟩ := hsome
      obtain ⟨k, -, ht⟩ := display_prepareAllDisplays hs hprepared hx (hp.slot d x hx)
      rw [hprepared, Option.bind_some, if_pos rfl, ht]
      rfl
  | present d fences =>
    refine honDisplay fun x hx => ?_
    rw [present]
    split
    · rfl
    · rename_i ch hch
      have hbusy : ¬ s.Idle := by
        intro hidle
        rw [hs.idle_iff.mp hidle d x hx] at hch
        cases hch
      have hthere : ∀ (c d' : ℕ), s.contents[c]? = some (some d') →
          s.displayMap (0 + c) = some d' ∧ (s.display d').isSome := by
        intro c d' hd'
        have hmap := hp.there hbusy c d' hd'
        obtain ⟨y, hy, -⟩ := hs.display_of_map c d' hmap
        exact ⟨(Nat.zero_add c).symm ▸ hmap, Option.isSome_iff_exists.mpr ⟨y, hy⟩⟩
      obtain ⟨r, hr⟩ := isSome_setEach hthere
      rw [setAllDisplays, hr]
      rfl
  | createLayer d => exact honDisplay fun x hx => rfl
  | destroyLayer d l => exact honDisplay fun x hx => rfl
  | updateLayerZ d l z => exact honDisplay fun x hx => rfl
  | setColorTransform d identity => exact honDisplay fun x hx => rfl
  | setClientTarget d target acquireFence => exact honDisplay fun x hx => rfl
  | setOutputBuffer d buffer releaseFence => exact honDisplay fun x hx => rfl
  | acceptChanges d => exact honDisplay fun x hx => rfl
  | registerCallback | hwc1Invalidate | hwc1Vsync | hwc1Hotplug => rfl

/-- HWC 1.4, with whole numbers for floats. -/
def plainEnv : Env ℕ where
  minorVersion := 4
  zero := 0
  minusOne := 0
  lessThanOne := (· < 1)
  toByte := fun alpha => if alpha < 1 then 0 else 255
  ceil := fun a => a
  floor := fun a => a
  hasUnsupportedBackgroundColor := fun _ => false

/-- HWC 1 takes the lowest layer. -/
def lowestTaken : Answers := fun _ l => ⟨if l = 0 then some .overlay else none, 0⟩

def numbered : ℕ → Fences := fun c => ⟨10 * c, fun l => 10 * c + l⟩

/-- A display is plugged in, another is made, and all are validated. -/
def pluggedInputs : List (Input ℕ) :=
  [.registerCallback .hotplug true, .hwc1Hotplug 1 1, .createVirtualDisplay, .createLayer 2,
    .callLayer 2 1 (.setCompositionType .device), .validate 2 lowestTaken lowestTaken]

theorem step_of_proper_plugged : ∃ (tr : List (Input ℕ × Output ℕ)) (s : Sys ℕ),
    StepSystem.RunWhere (step plainEnv) (Proper plainEnv) (start plainEnv) tr s ∧ ¬ s.Idle ∧
      ∃ t o, step plainEnv s (.present 2 numbered) = some (t, o) := by
  have hexec : StepSystem.exec (step plainEnv) (Proper plainEnv) (start plainEnv) pluggedInputs =
      some _ := rfl
  have hrun := StepSystem.run_of_exec hexec
  exact ⟨_, _, hrun, by decide, step_of_proper hrun trivial⟩

end Device

end Adapter

end A1000

import A1000.Composer.Fences

/-!
# The geometry marker

HWC 1 is told with `HWC_GEOMETRY_CHANGED` that the layers of a display are not those it was last
asked about. Without the flag it goes by what it knows of them, and takes only their buffers from
what it is given. `mGeometryChanged` is set by the calls that change anything else, on the display
of the layer, and reset when the layers of all displays have been written down.

Whether a layer may be shown by HWC 1 at all also depends on the colour transform of the display,
which may be set without the marker.

## Main definitions

* `Adapter.Device.Requested.geometry` — a layer as written down, without its buffer
* `Adapter.Device.lastAsked` — what HWC 1 knows of a display

## Main results

* `Adapter.Device.geometry_of_asked` — without the flag, HWC 1 knows the layers
-/

namespace A1000

namespace Adapter

namespace Device

open Composer

variable {F : Type*} {env : Env F} {s t : Sys F}

/-! ### What HWC 1 knows -/

/-- A layer as it is written down, without its buffer and the fence of that. -/
def Requested.geometry (r : Requested F) : Requested F :=
  { r with
    content :=
      match r.content with
      | .handle _ => .handle 0
      | c => c
    acquireFence := -1 }

def Asked.geometry (k : Asked F) : List (ℕ × Requested F) :=
  k.layers.map (Prod.map id Requested.geometry)

/-- What HWC 1 is asked about the display. -/
def Call.about (d : ℕ) : Call F → Option (Asked F)
  | .prepare asked => asked.findSome? (Option.filter fun k => k.display = d)
  | _ => none

/-- What HWC 1 was last asked about the display. -/
def lastAsked (d : ℕ) (calls : List (Call F)) : Option (Asked F) :=
  (calls.filterMap (Call.about d)).getLast?

theorem lastAsked_append (d : ℕ) (calls calls' : List (Call F)) :
    lastAsked d (calls ++ calls') = (lastAsked d calls').or (lastAsked d calls) := by
  rw [lastAsked, List.filterMap_append, List.getLast?_append]
  rfl

theorem lastAsked_of_silent {d : ℕ} {calls : List (Call F)} (h : ∀ c ∈ calls, c.Silent) :
    lastAsked d calls = none := by
  rw [lastAsked, List.getLast?_eq_none_iff, List.filterMap_eq_nil_iff]
  intro c hc
  have hsilent := h c hc
  cases c with
  | prepare => exact hsilent.elim
  | _ => rfl

theorem lastAsked_set {d : ℕ} {calls calls' : List (Call F)} (h : ∀ c ∈ calls, c.Silent)
    (h' : ∀ c ∈ calls', c.Silent) (shown : List (Option Shown)) (fences : ℕ → Fences) :
    lastAsked d (calls ++ [.set shown fences] ++ calls') = none := by
  rw [lastAsked_append, lastAsked_append, lastAsked_of_silent h, lastAsked_of_silent h']
  rfl

/-- **Each display is asked about once.** -/
theorem about_asked (hs : Consistent s) {d : ℕ} {x : Display F} (hx : s.display d = some x)
    (hslot : x.hwc1Id < (s.slots env).length) :
    Call.about d (.prepare (s.asked env)) = some (x.asked env s.layer d) := by
  have hget : (s.asked env)[x.hwc1Id]? = some (some (x.asked env s.layer d)) := by
    rw [Sys.asked, List.getElem?_map, getElem?_slots_of_lt hslot, hs.map_of_display d x hx]
    simp [hx]
  rw [Call.about]
  cases hfind : (s.asked env).findSome? (Option.filter fun k => k.display = d) with
  | none =>
    have hnone := List.findSome?_eq_none_iff.mp hfind _ (List.mem_of_getElem? hget)
    simp [Display.asked] at hnone
  | some k =>
    obtain ⟨o, ho, hk⟩ := List.exists_of_findSome?_eq_some hfind
    obtain ⟨rfl, hd⟩ := Option.filter_eq_some_iff.mp hk
    obtain ⟨o', -, ho⟩ := List.mem_map.mp ho
    obtain ⟨d', rfl, hk⟩ := Option.bind_eq_some_iff.mp ho
    obtain ⟨x', hx', rfl⟩ := Option.map_eq_some_iff.mp hk
    obtain rfl : d' = d := of_decide_eq_true hd
    rw [hx] at hx'
    cases hx'
    rfl

/-- Only displays that are there are asked about. -/
theorem about_asked_of_none {d : ℕ} (hx : s.display d = none) :
    Call.about d (.prepare (s.asked env)) = none := by
  rw [Call.about, List.findSome?_eq_none_iff]
  intro o ho
  obtain ⟨o', -, rfl⟩ := List.mem_map.mp ho
  rw [Option.filter_eq_none_iff]
  rintro k hk hd
  obtain ⟨d', rfl, hk⟩ := Option.bind_eq_some_iff.mp hk
  obtain ⟨x', hx', rfl⟩ := Option.map_eq_some_iff.mp hk
  obtain rfl : d' = d := of_decide_eq_true hd
  rw [hx] at hx'
  cases hx'

/-! ### What changes it -/

def LayerState.geometry (env : Env F) (b : Bool) (x : LayerState F) (l : ℕ) : Requested F :=
  (x.applyState env b l).geometry

def Display.geometry (env : Env F) (layer : ℕ → Layer F) (b : Bool) (x : Display F) :
    List (ℕ × Requested F) :=
  x.layers.map fun l => (l, (layer l).state.geometry env b l)

theorem geometry_asked (layer : ℕ → Layer F) (d : ℕ) (x : Display F) :
    (x.asked env layer d).geometry = x.geometry env layer x.hasColorTransform := by
  simp only [Asked.geometry, Display.asked, Display.written, Display.geometry]
  induction x.layers with
  | nil => rfl
  | cons l ls ih =>
    rw [List.map_cons, List.zip_cons_cons, List.map_cons, ih]
    rfl

/-- **A setter that does not mark the display changes the buffer alone.** -/
theorem geometry_call {x : LayerState F} {call : LayerCall F} (h : call.marks x = false)
    (m : ℕ) (b : Bool) (l : ℕ) : (x.call m call).geometry env b l = x.geometry env b l := by
  cases call with
  | setBuffer buffer acquireFence =>
    simp only [LayerState.geometry, LayerState.applyState, LayerState.call, Requested.geometry,
      LayerState.toLayer, LayerState.content]
    cases x.compositionType <;> rfl
  | setSurfaceDamage damage =>
    rw [LayerState.call]
    split_ifs <;> rfl
  | setDataspace => rfl
  | setVisibleRegion visible =>
    have hsame : ¬ x.visibleRegion ≠ visible := of_decide_eq_false h
    rw [LayerState.call, if_neg hsame]
  | _ => cases h

/-- The displays that are not marked were not marked before, and have the layers they had. -/
def SameGeometry (env : Env F) (s t : Sys F) : Prop :=
  ∀ d y, t.display d = some y → y.geometryChanged = false → ∃ x, s.display d = some x ∧
    x.geometryChanged = false ∧ y.hwc1Id = x.hwc1Id ∧ y.layers = x.layers ∧
      ∀ l ∈ x.layers, ∀ b, (t.layer l).state.geometry env b l = (s.layer l).state.geometry env b l

theorem SameGeometry.refl (s : Sys F) : SameGeometry env s s :=
  fun _ y hy hmark => ⟨y, hy, hmark, rfl, rfl, fun _ _ _ => rfl⟩

theorem SameGeometry.trans {u : Sys F} (h : SameGeometry env s t) (h' : SameGeometry env t u) :
    SameGeometry env s u := by
  intro d z hz hmark
  obtain ⟨y, hy, hmark, hid, hlayers, hsame⟩ := h' d z hz hmark
  obtain ⟨x, hx, hmark, hid', hlayers', hsame'⟩ := h d y hy hmark
  refine ⟨x, hx, hmark, hid.trans hid', hlayers.trans hlayers', fun l hl b => ?_⟩
  exact (hsame l (hlayers' ▸ hl) b).trans (hsame' l hl b)

theorem SameGeometry.geometry {x y : Display F} (hlayers : y.layers = x.layers) {b : Bool}
    (hsame : ∀ l ∈ x.layers, ∀ b, (t.layer l).state.geometry env b l =
      (s.layer l).state.geometry env b l) :
    y.geometry env t.layer b = x.geometry env s.layer b := by
  rw [Display.geometry, hlayers]
  exact List.map_congr_left fun l hl => by rw [hsame l hl]

theorem sameGeometry_of_state (hdisplay : t.display = s.display)
    (hstate : ∀ l, (t.layer l).state = (s.layer l).state) : SameGeometry env s t := by
  intro d y hy hmark
  exact ⟨y, hdisplay ▸ hy, hmark, rfl, rfl, fun l _ _ => by rw [hstate]⟩

/-- A display is written to, and not what the marker is about. -/
theorem sameGeometry_modifyDisplay {d : ℕ} {f : Display F → Display F}
    (hf : ∀ x, (f x).hwc1Id = x.hwc1Id ∧ (f x).layers = x.layers ∧
      (f x).geometryChanged = x.geometryChanged) : SameGeometry env s (s.modifyDisplay d f) := by
  intro k y hy hmark
  obtain ⟨x, hx, ⟨-, rfl⟩ | ⟨-, rfl⟩⟩ := exists_of_modifyDisplay hy
  · obtain ⟨hid, hlayers, hsame⟩ := hf x
    exact ⟨x, hx, hsame ▸ hmark, hid, hlayers, fun _ _ _ => rfl⟩
  · exact ⟨_, hx, hmark, rfl, rfl, fun _ _ _ => rfl⟩

/-- A display is marked, and layers have changed on that display only. -/
theorem sameGeometry_of_marked {u : Sys F} {d : ℕ} {f : Display F → Display F}
    (hdisplay : u.display = s.display) (hf : ∀ x, (f x).geometryChanged = true)
    (hstate : ∀ k x l, k ≠ d → s.display k = some x → l ∈ x.layers →
      (u.layer l).state = (s.layer l).state) : SameGeometry env s (u.modifyDisplay d f) := by
  intro k y hy hmark
  obtain ⟨x, hx, ⟨-, rfl⟩ | ⟨hk, rfl⟩⟩ := exists_of_modifyDisplay hy
  · rw [hf] at hmark
    cases hmark
  · rw [hdisplay] at hx
    refine ⟨_, hx, hmark, rfl, rfl, fun l hl b => ?_⟩
    rw [layer_modifyDisplay, hstate k _ l hk hx hl]

theorem sameGeometry_callLayer (ho : Owned s) (l : ℕ) (call : LayerCall F) :
    SameGeometry env s (callLayer env s l call) := by
  rw [callLayer]
  split_ifs with hmarks
  · refine sameGeometry_of_marked rfl (fun _ => rfl) fun k x l' hk hx hl' => ?_
    have hne : l' ≠ l := by
      rintro rfl
      have howner : (s.layer l').display = k := ((ho.layers k x hx).2 l' hl').2
      rw [layer_modifyLayer, if_pos rfl] at hk
      exact hk howner.symm
    rw [layer_modifyLayer, if_neg hne]
  · intro k y hy hmark
    refine ⟨y, hy, hmark, rfl, rfl, fun l' _ b => ?_⟩
    rw [layer_modifyLayer]
    split_ifs with hl
    · subst hl
      exact geometry_call (Bool.eq_false_of_not_eq_true hmarks) _ _ _
    · rfl

theorem Owned.of_same (env : Env F) (ho : Owned s) (same : SameStack s t)
    (next : t.nextDisplay = s.nextDisplay) : Owned t :=
  ho.step (.still same next trivial : Shifts env s .hwc1Invalidate t .ok)

theorem sameGeometry_acceptChanges (ho : Owned s) (d : ℕ) (x : Display F) :
    SameGeometry env s (acceptChanges env s d x).1 := by
  rw [acceptChanges]
  split
  · exact .refl s
  · rename_i ch _
    refine SameGeometry.trans ?_ (sameGeometry_modifyDisplay fun _ => ⟨rfl, rfl, rfl⟩)
    generalize ch.types = types
    induction types generalizing s with
    | nil => exact .refl s
    | cons p types ih =>
      rw [List.foldl_cons, acceptChange]
      split_ifs
      · exact (sameGeometry_callLayer ho _ _).trans
          (ih (ho.of_same env (sameStack_callLayer s _ _) (follows_callLayer s _ _).nextDisplay))
      · exact ih ho

theorem sameGeometry_setEach {c : ℕ} {pushed : List (Option ℕ)} {b : Bool} {closed : List ℤ}
    (h : setEach s c pushed = some (t, b, closed)) : SameGeometry env s t :=
  rel_setEach SameGeometry.refl SameGeometry.trans
    (fun _ _ => sameGeometry_modifyDisplay fun _ => ⟨rfl, rfl, rfl⟩) h

theorem sameGeometry_addFences (s : Sys F) (d : ℕ) (x : Display F) (r : Fences) :
    SameGeometry env s (addFences s d x r).1 :=
  rel_addFences SameGeometry.refl SameGeometry.trans
    (fun _ _ _ => sameGeometry_modifyDisplay fun _ => ⟨rfl, rfl, rfl⟩)
    (fun release s p => sameGeometry_of_state rfl fun l => state_addReleaseFence release s p l)
    s d x r

theorem sameGeometry_addEach (fences : ℕ → Fences) (c : ℕ) (pushed : List (Option ℕ))
    (s : Sys F) : SameGeometry env s (addEach s fences c pushed).1 :=
  rel_addEach SameGeometry.refl SameGeometry.trans sameGeometry_addFences fences c pushed s

/-! ### Every run -/

/-- **HWC 1 knows the layers of the displays that are not marked**, if it is asked about them. -/
structure Marked (env : Env F) (tr : List (Input F × Output F)) (s : Sys F) : Prop where
  unmarked : ∀ d x, s.display d = some x → x.geometryChanged = false →
    x.hwc1Id < (s.slots env).length → (lastAsked d (callsOf tr) = none → x.layers = []) ∧
      ∀ k, lastAsked d (callsOf tr) = some k →
        x.geometry env s.layer k.hasColorTransform = k.geometry
  unmade : ∀ d, s.nextDisplay ≤ d → lastAsked d (callsOf tr) = none

/-- A step in which HWC 1 is not asked. -/
theorem Marked.unasked {tr : List (Input F × Output F)} (hm : Marked env tr s) {i : Input F}
    {o : Output F} (hcalls : ∀ d, lastAsked d o.calls = none) (hsame : SameGeometry env s t)
    (hnext : s.nextDisplay ≤ t.nextDisplay) : Marked env (tr ++ [(i, o)]) t := by
  have hlast : ∀ d, lastAsked d (callsOf (tr ++ [(i, o)])) = lastAsked d (callsOf tr) := by
    intro d
    rw [callsOf_snoc, lastAsked_append, hcalls, Option.none_or]
  constructor
  · intro d y hy hmark hslot
    obtain ⟨x, hx, hmark, hid, hlayers, hstate⟩ := hsame d y hy hmark
    rw [length_slots s, hid] at hslot
    obtain ⟨hnone, hsome⟩ := hm.unmarked d x hx hmark hslot
    rw [hlast]
    exact ⟨fun h => hlayers.trans (hnone h),
      fun k hk => (SameGeometry.geometry hlayers hstate).trans (hsome k hk)⟩
  · intro d hd
    rw [hlast]
    exact hm.unmade d (hnext.trans hd)

/-- A display is added. -/
theorem Marked.added {tr : List (Input F × Output F)} (hm : Marked env tr s) {i : Input F}
    {o : Output F} (hcalls : ∀ c ∈ o.calls, c.Silent) (c : ℕ) (v : Option ℕ) :
    Marked env (tr ++ [(i, o)]) { s.addDisplay c with virtualDisplay := v } := by
  have hlast : ∀ d, lastAsked d (callsOf (tr ++ [(i, o)])) = lastAsked d (callsOf tr) := by
    intro d
    rw [callsOf_snoc, lastAsked_append, lastAsked_of_silent hcalls, Option.none_or]
  constructor
  · intro d x hx hmark hslot
    rw [length_slots s] at hslot
    rw [hlast]
    rcases addDisplay_cases hx with ⟨rfl, rfl⟩ | hx
    · refine ⟨fun _ => rfl, fun k hk => ?_⟩
      rw [hm.unmade _ le_rfl] at hk
      cases hk
    · exact hm.unmarked d x hx hmark hslot
  · intro d hd
    rw [hlast]
    exact hm.unmade d (Nat.le_of_succ_le hd)

/-- HWC 1 is asked. -/
theorem Marked.prepared {tr : List (Input F × Output F)} (hm : Marked env tr s)
    (hs : Consistent s) {a₁ a₂ : Answers} {i : Input F} {e : Error} {calls : List (Call F)}
    (h : prepareAllDisplays env s a₁ a₂ = some (t, true, calls)) :
    Marked env (tr ++ [(i, ⟨e, none, calls⟩)]) t := by
  have hsame := sameDisplays_prepareAllDisplays h
  obtain ⟨ht, rfl⟩ := prepareAllDisplays_cases h rfl
  have hlayer : t.layer = s.layer := by
    rw [ht]
    exact layer_giveBack _ _ _
  have hlast : ∀ d, lastAsked d (callsOf (tr ++ [(i, ⟨e, none, [.prepare (s.asked env)]⟩)])) =
      (Call.about d (.prepare (s.asked env))).or (lastAsked d (callsOf tr)) := by
    intro d
    rw [callsOf_snoc, lastAsked_append]
    refine congrArg (Option.or · _) ?_
    rw [lastAsked, List.filterMap_cons]
    cases Call.about d (.prepare (s.asked env)) <;> rfl
  constructor
  · intro d y hy _ hslot
    obtain ⟨x, hx, hid⟩ := hsame.exists_of_some hy
    rw [length_slots s, hid] at hslot
    obtain ⟨k, -, hy'⟩ := display_prepareAllDisplays hs h hx hslot
    rw [hy] at hy'
    cases hy'
    rw [hlast, about_asked hs hx hslot, Option.some_or]
    refine ⟨fun hnone => (Option.some_ne_none _ hnone).elim, fun k hk => ?_⟩
    cases hk
    rw [geometry_asked, hlayer]
    rfl
  · intro d hd
    have hgone : s.display d = none := by
      cases hx : s.display d with
      | none => rfl
      | some x => exact absurd (hs.display_lt d x hx) (Nat.not_lt.mpr (hsame.nextDisplay ▸ hd))
    rw [hlast, about_asked_of_none hgone, Option.none_or]
    exact hm.unmade d (hsame.nextDisplay ▸ hd)

theorem Marked.step {tr : List (Input F × Output F)} (hm : Marked env tr s) (hs : Consistent s)
    (ho : Owned s) {i : Input F} {o : Output F} (h : Happens env s i t o) :
    Marked env (tr ++ [(i, o)]) t := by
  have hnone : ∀ d, lastAsked d ([] : List (Call F)) = none := fun _ => rfl
  cases h with
  | quiet same _ tells =>
    exact hm.unasked (fun _ => lastAsked_of_silent fun c hc => (tells c hc).silent)
      (sameGeometry_of_state same.display fun _ => by rw [same.layer]) same.nextDisplay.ge
  | addedVirtual => exact hm.added (fun _ hc => absurd hc List.not_mem_nil) _ _
  | addedExternal => exact hm.added silent_hotplug _ s.virtualDisplay
  | removedVirtual =>
    exact hm.unasked hnone (fun d y hy hmark =>
      ⟨y, (removeDisplay_cases (c := hwcDisplayVirtual) hy).2, hmark, rfl, rfl,
        fun _ _ _ => rfl⟩) le_rfl
  | removedExternal =>
    exact hm.unasked (fun _ => lastAsked_of_silent silent_hotplug) (fun d y hy hmark =>
      ⟨y, (removeDisplay_cases (c := hwcDisplayExternal) hy).2, hmark, rfl, rfl,
        fun _ _ _ => rfl⟩) le_rfl
  | createdLayer =>
    refine hm.unasked hnone (sameGeometry_of_marked rfl (fun _ => rfl) fun k x l _ hx hl => ?_)
      le_rfl
    have hne := Nat.ne_of_lt ((ho.layers k x hx).2 l hl).1
    exact congrArg Layer.state (Function.update_of_ne hne _ _)
  | destroyedLayer there known =>
    rw [destroyLayer, if_neg (not_not.mpr known)]
    exact hm.unasked hnone (sameGeometry_of_marked rfl (fun _ => rfl) fun _ _ _ _ _ _ => rfl)
      le_rfl
  | movedLayer there known mem hz =>
    rw [updateLayerZ_of_ne known mem hz]
    refine hm.unasked hnone (sameGeometry_of_marked rfl (fun _ => rfl) fun k x l _ _ _ => ?_) le_rfl
    rw [layer_modifyLayer]
    split_ifs <;> rfl
  | calledLayer =>
    exact hm.unasked hnone (sameGeometry_callLayer ho _ _) (follows_callLayer s _ _).nextDisplay.ge
  | setDisplay _ rest =>
    exact hm.unasked hnone (sameGeometry_modifyDisplay fun x =>
      ⟨(rest x).hwc1Id, (rest x).layers, (rest x).geometryChanged⟩) le_rfl
  | validated _ _ prepared => exact hm.prepared hs prepared
  | notPrepared free => exact absurd free hs.primary
  | accepted =>
    exact hm.unasked hnone (sameGeometry_acceptChanges ho _ _)
      (follows_acceptChanges s _ _).nextDisplay.ge
  | notSet _ _ failed =>
    exact hm.unasked (fun _ => lastAsked_of_silent fun c hc => silent_close hc)
      (sameGeometry_setEach failed) (follows_setEach failed).nextDisplay.ge
  | set _ _ done =>
    exact hm.unasked
      (fun _ => lastAsked_set (fun c hc => silent_close hc) (fun c hc => silent_close hc) _ _)
      ((sameGeometry_setEach done).trans (sameGeometry_addEach _ _ _ _))
      ((follows_setEach done).trans (follows_addEach ..)).nextDisplay.ge

end Device

end Adapter

end A1000

import A1000.Composer.Stacking

/-!
# Who draws a layer

When HWC 1 has been asked, each layer is told through the changes whether HWC 1 takes it or the
client has to draw it, and the client accepts. Then HWC 1 is set. It must be set with layers whose
types are what the client believes: a layer that is left to the client by both, or drawn by both,
is missing from the screen, or there twice.

In between the client goes on to create, move and destroy layers and to set their state; it may not
change the type of a layer of a display that is validated.

## Main definitions

* `Adapter.Device.Held` — a validated display holds its contents
* `Adapter.Device.Agreeing` — the types agree, once the changes are accepted
* `Adapter.Device.Settled` — the type of a layer is set before its display is validated

## Main results

* `Adapter.Device.types_of_set` — the types agree when HWC 1 is set
-/

namespace A1000

namespace Adapter

namespace Device

open Composer

variable {F : Type*} {env : Env F} {s t : Sys F}

/-! ### What HWC 1 is set with -/

/-- **Every display is set once**: it was validated, and no change was left. -/
theorem setEach_done {c : ℕ} {pushed : List (Option ℕ)} {closed : List ℤ}
    (h : setEach s c pushed = some (t, true, closed)) :
    (∀ d, some d ∈ pushed → ∃ x ch, s.display d = some x ∧ x.changes = some ch ∧ ch.types = [] ∧
      t.display d = some x.set) ∧ (∀ d, some d ∉ pushed → t.display d = s.display d) ∧
      ∀ (i d : ℕ), pushed[i]? = some (some d) → s.displayMap (c + i) = some d := by
  induction pushed generalizing s c closed with
  | nil =>
    cases h
    exact ⟨fun d hd => absurd hd List.not_mem_nil, fun _ _ => rfl, fun i d hd => by simp at hd⟩
  | cons o pushed ih =>
    cases o with
    | none =>
      obtain ⟨hset, hkeep, hmap⟩ := ih (s := s) (c := c + 1) h
      refine ⟨fun d hd => hset d ?_, fun d hd => hkeep d fun hmem => ?_, fun i d hi => ?_⟩
      · exact (List.mem_cons.mp hd).resolve_left (Option.some_ne_none d)
      · exact hd (List.mem_cons_of_mem _ hmem)
      · cases i with
        | zero => cases hi
        | succ i =>
          rw [← Nat.add_assoc, Nat.add_right_comm]
          exact hmap i d hi
    | some d₀ =>
      obtain ⟨-, hfalse⟩ | ⟨x, ch, closed', hd₀, hx, hch, htypes, hrest, -⟩ := setEach_cons h
      · cases hfalse
      obtain ⟨hset, hkeep, hmap⟩ := ih hrest
      have hx' : (s.modifyDisplay d₀ Display.set).display d₀ = some x.set := by
        rw [display_modifyDisplay_self, hx]
        rfl
      -- a display that has been set would not be set again
      have hnot : some d₀ ∉ pushed := by
        intro hmem
        obtain ⟨y, ch', hy, hch', -⟩ := hset d₀ hmem
        rw [hx'] at hy
        cases hy
        cases hch'
      refine ⟨fun d hd => ?_, fun d hd => ?_, fun i d hi => ?_⟩
      · rcases List.mem_cons.mp hd with heq | hd
        · cases heq
          exact ⟨x, ch, hx, hch, htypes, (hkeep _ hnot).trans hx'⟩
        · have hne : d ≠ d₀ := fun heq => hnot (heq ▸ hd)
          obtain ⟨y, ch', hy, hch', htypes', ht⟩ := hset d hd
          rw [display_modifyDisplay_of_ne s hne] at hy
          exact ⟨y, ch', hy, hch', htypes', ht⟩
      · obtain ⟨hne, hd⟩ := List.ne_and_not_mem_of_not_mem_cons hd
        rw [hkeep d hd, display_modifyDisplay_of_ne s fun heq => hne (congrArg some heq)]
      · cases i with
        | zero =>
          cases hi
          exact hd₀
        | succ i =>
          rw [← Nat.add_assoc, Nat.add_right_comm]
          exact hmap i d hi

theorem layer_setEach {c : ℕ} {pushed : List (Option ℕ)} {b : Bool} {closed : List ℤ}
    (h : setEach s c pushed = some (t, b, closed)) : t.layer = s.layer ∧ t.known = s.known :=
  rel_setEach (R := fun s t => t.layer = s.layer ∧ t.known = s.known) (fun _ => ⟨rfl, rfl⟩)
    (fun h h' => ⟨h'.1.trans h.1, h'.2.trans h.2⟩) (fun _ _ => ⟨rfl, rfl⟩) h

/-- **HWC 1 is set with the displays that were validated.** -/
theorem Happens.of_set {i : Input F} {o : Output F} (h : Happens env s i t o)
    {shown : List (Option Shown)} {fences : ℕ → Fences} (hcall : .set shown fences ∈ o.calls) :
    ∃ d t' closed, i = .present d fences ∧ setEach s 0 s.contents = some (t', true, closed) ∧
      shown = t'.shown ∧ t = (addEach t' fences 0 t'.contents).1 := by
  have hclose : ∀ {fds : List ℤ}, (.set shown fences : Call F) ∉ fds.map .close := by simp
  cases h with
  | quiet _ _ tells => exact (tells _ hcall).elim
  | addedExternal => simp at hcall
  | removedExternal => simp at hcall
  | validated _ _ prepared =>
    obtain ⟨-, hcalls⟩ := prepareAllDisplays_cases prepared rfl
    rw [hcalls] at hcall
    simp at hcall
  | notSet => exact absurd hcall hclose
  | set _ _ done =>
    rcases List.mem_append.mp hcall with hcall | hcall
    · rcases List.mem_append.mp hcall with hcall | hcall
      · exact absurd hcall hclose
      · cases List.mem_singleton.mp hcall
        exact ⟨_, _, _, rfl, done, rfl, rfl⟩
    · exact absurd hcall hclose
  | _ => exact absurd hcall List.not_mem_nil

/-! ### What a validated display holds -/

/-- A validated display is one that HWC 1 was asked about, and its changes are for layers that were
written down. -/
def Held (env : Env F) (s : Sys F) : Prop :=
  ∀ d x ch, s.display d = some x → x.changes = some ch →
    x.hwc1Id < (s.slots env).length ∧ ∀ p ∈ ch.types, p.1 ∈ x.layerMap

/-- Nothing happens to what the displays hold that are still validated. -/
def SameHeld (s t : Sys F) : Prop :=
  ∀ d y ch, t.display d = some y → y.changes = some ch → ∃ x, s.display d = some x ∧
    x.changes = some ch ∧ y.hwc1Id = x.hwc1Id ∧ y.contents = x.contents ∧ y.layerMap = x.layerMap

theorem SameHeld.refl (s : Sys F) : SameHeld s s :=
  fun _ y _ hy hch => ⟨y, hy, hch, rfl, rfl, rfl⟩

theorem SameHeld.trans {u : Sys F} (h : SameHeld s t) (h' : SameHeld t u) : SameHeld s u := by
  intro d z ch hz hch
  obtain ⟨y, hy, hch, hid, hcontents, hmap⟩ := h' d z ch hz hch
  obtain ⟨x, hx, hch, hid', hcontents', hmap'⟩ := h d y ch hy hch
  exact ⟨x, hx, hch, hid.trans hid', hcontents.trans hcontents', hmap.trans hmap'⟩

theorem sameHeld_of_display (h : t.display = s.display) : SameHeld s t :=
  fun _ y _ hy hch => ⟨y, h ▸ hy, hch, rfl, rfl, rfl⟩

/-- A display is written to that stays validated as it was, or does not stay validated. -/
theorem sameHeld_modifyDisplay {d : ℕ} {f : Display F → Display F}
    (hid : ∀ x, (f x).hwc1Id = x.hwc1Id) (hcontents : ∀ x, (f x).contents = x.contents)
    (hmap : ∀ x, (f x).layerMap = x.layerMap)
    (hch : ∀ x, (f x).changes = x.changes ∨ (f x).changes = none) :
    SameHeld s (s.modifyDisplay d f) := by
  intro k y ch hy hych
  obtain ⟨x, hx, ⟨-, rfl⟩ | ⟨-, rfl⟩⟩ := exists_of_modifyDisplay hy
  · rcases hch x with heq | heq
    · exact ⟨x, hx, heq ▸ hych, hid x, hcontents x, hmap x⟩
    · rw [heq] at hych
      cases hych
  · exact ⟨_, hx, hych, rfl, rfl, rfl⟩

theorem sameHeld_callLayer (s : Sys F) (l : ℕ) (call : LayerCall F) :
    SameHeld s (callLayer env s l call) := by
  have hlayer : SameHeld s (s.modifyLayer l fun y =>
      { y with state := y.state.call env.minorVersion call }) := sameHeld_of_display rfl
  rw [callLayer]
  split_ifs
  · exact hlayer.trans (sameHeld_modifyDisplay (fun _ => rfl) (fun _ => rfl) (fun _ => rfl)
      fun _ => .inl rfl)
  · exact hlayer

theorem sameHeld_setEach {c : ℕ} {pushed : List (Option ℕ)} {b : Bool} {closed : List ℤ}
    (h : setEach s c pushed = some (t, b, closed)) : SameHeld s t :=
  rel_setEach SameHeld.refl SameHeld.trans (fun _ _ => sameHeld_modifyDisplay (fun _ => rfl)
    (fun _ => rfl) (fun _ => rfl) fun _ => .inr rfl) h

theorem display_addReleaseFences (release : ℕ → ℤ) (ts : List (ℕ × ℕ)) (s : Sys F) :
    (ts.foldl (addReleaseFence release) s).display = s.display :=
  rel_foldl (R := fun s t => t.display = s.display) (f := addReleaseFence release) (fun _ => rfl)
    (fun h h' => h'.trans h) (fun _ _ => rfl) ts s

theorem sameHeld_addFences (s : Sys F) (d : ℕ) (x : Display F) (r : Fences) :
    SameHeld s (addFences s d x r).1 :=
  rel_addFences SameHeld.refl SameHeld.trans (fun _ _ _ => sameHeld_modifyDisplay (fun _ => rfl)
    (fun _ => rfl) (fun _ => rfl) fun _ => .inl rfl) (fun _ _ _ => sameHeld_of_display rfl) s d x r

theorem sameHeld_addEach (fences : ℕ → Fences) (c : ℕ) (pushed : List (Option ℕ)) (s : Sys F) :
    SameHeld s (addEach s fences c pushed).1 :=
  rel_addEach SameHeld.refl SameHeld.trans sameHeld_addFences fences c pushed s

theorem Held.of_same (hs : Held env s) (h : SameHeld s t) : Held env t := by
  intro d y ch hy hch
  obtain ⟨x, hx, hch, hid, -, hmap⟩ := h d y ch hy hch
  rw [length_slots s, hid, hmap]
  exact hs d x ch hx hch

/-- **What `prepareAllDisplays` makes of a display**: it is validated, with the changes that were
generated for what was written down. -/
theorem display_of_prepareAllDisplays (hs : Consistent s) (hheld : Held env s) {a₁ a₂ : Answers}
    {calls : List (Call F)} (h : prepareAllDisplays env s a₁ a₂ = some (t, true, calls)) {d : ℕ}
    {y : Display F} {ch : Changes} (hy : t.display d = some y) (hch : y.changes = some ch) :
    ∃ x k, s.display d = some x ∧ x.hwc1Id < (s.slots env).length ∧
      k.layers.length = x.layers.length ∧
        y = (x.prepare env s.layer).receive env s.layer k := by
  obtain ⟨x, hx, hid⟩ := (sameDisplays_prepareAllDisplays h).exists_of_some hy
  by_cases hslot : x.hwc1Id < (s.slots env).length
  · obtain ⟨k, hk, ht⟩ := display_prepareAllDisplays hs h hx hslot
    rw [hy] at ht
    exact ⟨x, k, hx, hslot, hk, Option.some.inj ht⟩
  · -- a display that HWC 1 was not asked about was not validated before either
    obtain ⟨rfl, -⟩ := prepareAllDisplays_cases h rfl
    have hnot : some d ∉ s.slots env := by
      intro hmem
      obtain ⟨c, hc⟩ := List.mem_iff_getElem?.mp hmem
      rw [hs.slot_unique hc hx] at hc
      exact hslot (List.getElem?_eq_some_iff.mp hc).1
    rw [display_giveBack_of_not_mem hnot] at hy
    replace hy : (s.prepareEach env).display d = some y := hy
    rw [display_prepareEach, hx] at hy
    cases hy
    exact absurd (hheld d x ch hx hch).1 hslot

theorem mem_of_generateChanges {layers : List Adapter.Layer} {k : Contents} {p : ℕ × Composition}
    (h : p ∈ (generateChanges layers k).types) : p.1 ∈ layers.map Adapter.Layer.id := by
  obtain ⟨q, hq, hp⟩ := List.mem_flatMap.mp h
  rw [fst_of_mem_updateTypeChanges hp]
  exact List.mem_map.mpr ⟨q.1, (List.of_mem_zip hq).1, rfl⟩

theorem map_id_mapped (layer : ℕ → Layer F) (x : Display F) :
    (x.mapped env layer).map Adapter.Layer.id = x.layerMap := by
  rw [Display.mapped, List.map_map]
  exact List.map_id _

/-- The changes are accepted, and there are none left. -/
theorem exists_of_acceptChanges {d : ℕ} {x : Display F} {ch : Changes}
    (hch : x.changes = some ch) {k : ℕ} {y : Display F} {ch' : Changes}
    (hy : (acceptChanges env s d x).1.display k = some y) (hych : y.changes = some ch') :
    ∃ z ch₀, s.display k = some z ∧ z.changes = some ch₀ ∧ y.hwc1Id = z.hwc1Id ∧
      y.contents = z.contents ∧ y.layerMap = z.layerMap ∧
        (k = d ∧ ch'.types = [] ∨ k ≠ d ∧ ch' = ch₀) := by
  have hfold : SameHeld s (ch.types.foldl (acceptChange env) s) := by
    have hone : ∀ (s : Sys F) (p : ℕ × Composition), SameHeld s (acceptChange env s p) := by
      intro s p
      rw [acceptChange]
      split_ifs
      · exact sameHeld_callLayer s _ _
      · exact .refl s
    exact rel_foldl SameHeld.refl SameHeld.trans hone _ s
  rw [acceptChanges, hch] at hy
  obtain ⟨y', hy', ⟨hk, rfl⟩ | ⟨hk, rfl⟩⟩ := exists_of_modifyDisplay hy
  · obtain ⟨ch₀, hch₀, rfl⟩ := Option.map_eq_some_iff.mp hych
    obtain ⟨z, hz, hzch, hid, hcontents, hmap⟩ := hfold k y' ch₀ hy' hch₀
    exact ⟨z, ch₀, hz, hzch, hid, hcontents, hmap, .inl ⟨hk, rfl⟩⟩
  · obtain ⟨z, hz, hzch, hid, hcontents, hmap⟩ := hfold k _ ch' hy' hych
    exact ⟨z, ch', hz, hzch, hid, hcontents, hmap, .inr ⟨hk, rfl⟩⟩

/-- All displays are validated. -/
def Prepares (env : Env F) (s t : Sys F) : Prop :=
  ∃ a₁ a₂ calls, prepareAllDisplays env s a₁ a₂ = some (t, true, calls)

/-- The changes of a display are accepted. -/
def Accepts (env : Env F) (s t : Sys F) : Prop :=
  ∃ d x ch, s.display d = some x ∧ x.changes = some ch ∧ t = (acceptChanges env s d x).1

theorem sameHeld_addDisplay (s : Sys F) (c : ℕ) (v : Option ℕ) :
    SameHeld s { s.addDisplay c with virtualDisplay := v } := by
  intro d y ch hy hch
  rcases addDisplay_cases hy with ⟨-, rfl⟩ | hx
  · cases hch
  · exact ⟨y, hx, hch, rfl, rfl, rfl⟩

theorem sameHeld_removeDisplay (s : Sys F) (c d : ℕ) (v : Option ℕ) :
    SameHeld s { s.removeDisplay c d with virtualDisplay := v } :=
  fun _ y _ hy hch => ⟨y, (removeDisplay_cases (c := c) hy).2, hch, rfl, rfl, rfl⟩

/-- A display is written to that stays validated as it was. -/
theorem sameHeld_of_modifyDisplay {u : Sys F} {d : ℕ} {f : Display F → Display F}
    (h : u.display = s.display) (hrest : ∀ x, (f x).hwc1Id = x.hwc1Id ∧
      (f x).contents = x.contents ∧ (f x).layerMap = x.layerMap ∧ (f x).changes = x.changes) :
    SameHeld s (u.modifyDisplay d f) :=
  (sameHeld_of_display h).trans (sameHeld_modifyDisplay (fun x => (hrest x).1)
    (fun x => (hrest x).2.1) (fun x => (hrest x).2.2.1) fun x => .inl (hrest x).2.2.2)

theorem sameHeld_createLayer (s : Sys F) (d : ℕ) : SameHeld s (createLayer env s d) :=
  sameHeld_of_modifyDisplay rfl fun _ => ⟨rfl, rfl, rfl, rfl⟩

theorem sameHeld_destroyLayer (s : Sys F) (d l : ℕ) : SameHeld s (destroyLayer s d l).1 := by
  rw [destroyLayer]
  split_ifs
  · exact sameHeld_of_modifyDisplay rfl fun _ => ⟨rfl, rfl, rfl, rfl⟩
  · exact .refl s

theorem sameHeld_updateLayerZ (s : Sys F) (d l : ℕ) (x : Display F) (z : ℕ) :
    SameHeld s (updateLayerZ s d l x z).1 := by
  rw [updateLayerZ]
  split_ifs
  · exact .refl s
  · exact sameHeld_of_modifyDisplay rfl fun _ => ⟨rfl, rfl, rfl, rfl⟩
  · exact .refl s
  · exact .refl s

theorem sameHeld_of_rest (s : Sys F) (d : ℕ) {f : Display F → Display F}
    (rest : ∀ x : Display F, x.Rest (f x)) : SameHeld s (s.modifyDisplay d f) :=
  sameHeld_of_modifyDisplay rfl fun x =>
    ⟨(rest x).hwc1Id, (rest x).contents, (rest x).layerMap, (rest x).changes⟩

/-- **What a step does to what the displays hold.** -/
theorem Happens.sameHeld {i : Input F} {o : Output F} (h : Happens env s i t o)
    (hs : Consistent s) : SameHeld s t ∨ Prepares env s t ∨ Accepts env s t := by
  cases h with
  | quiet same => exact .inl (sameHeld_of_display same.display)
  | addedVirtual => exact .inl (sameHeld_addDisplay s _ _)
  | addedExternal => exact .inl (sameHeld_addDisplay s _ s.virtualDisplay)
  | removedVirtual => exact .inl (sameHeld_removeDisplay s _ _ none)
  | removedExternal => exact .inl (sameHeld_removeDisplay s _ _ s.virtualDisplay)
  | createdLayer => exact .inl (sameHeld_createLayer s _)
  | destroyedLayer => exact .inl (sameHeld_destroyLayer s _ _)
  | movedLayer => exact .inl (sameHeld_updateLayerZ s _ _ _ _)
  | calledLayer => exact .inl (sameHeld_callLayer s _ _)
  | setDisplay _ rest => exact .inl (sameHeld_of_rest s _ rest)
  | validated _ _ prepared => exact .inr (.inl ⟨_, _, _, prepared⟩)
  | notPrepared free => exact absurd free hs.primary
  | accepted there changes => exact .inr (.inr ⟨_, _, _, there, changes, rfl⟩)
  | notSet _ _ failed => exact .inl (sameHeld_setEach failed)
  | set _ _ done => exact .inl ((sameHeld_setEach done).trans (sameHeld_addEach _ _ _ _))

theorem Held.step (hheld : Held env s) (hs : Consistent s) {i : Input F} {o : Output F}
    (h : Happens env s i t o) : Held env t := by
  obtain hsame | ⟨a₁, a₂, calls, hprepared⟩ | ⟨d, x, ch, -, hch, rfl⟩ := h.sameHeld hs
  · exact hheld.of_same hsame
  · intro k y ch hy hch
    obtain ⟨x, k', hx, hslot, -, rfl⟩ := display_of_prepareAllDisplays hs hheld hprepared hy hch
    rw [length_slots s]
    refine ⟨hslot, fun p hp => ?_⟩
    cases hch
    have hmem := mem_of_generateChanges hp
    rwa [map_id_mapped] at hmem
  · intro k y ch' hy hych
    obtain ⟨z, ch₀, hz, hzch, hid, -, hmap, hcase⟩ := exists_of_acceptChanges hch hy hych
    rw [length_slots s, hid, hmap]
    refine ⟨(hheld k z ch₀ hz hzch).1, fun p hp => ?_⟩
    rcases hcase with ⟨-, htypes⟩ | ⟨-, rfl⟩
    · rw [htypes] at hp
      cases hp
    · exact (hheld k z ch' hz hzch).2 p hp

theorem held_start (env : Env F) : Held env (start env) := by
  intro d x ch hx hch
  simp only [start] at hx
  split_ifs at hx
  cases hx
  cases hch

/-! ### The types agree -/

/-- What is said of a layer by its type under HWC 1: the client draws it, or the device. -/
def Says (env : Env F) (s : Sys F) (ch : Changes) (l : ℕ) (y : Hwc1Layer) : Prop :=
  (y.compositionType = hwcFramebuffer → Listed ch ((s.layer l).state.toLayer env l) .client) ∧
    (y.IsOverlay → Listed ch ((s.layer l).state.toLayer env l) .device)

/-- **The types agree** on every validated display, once its changes are accepted. -/
def Agreeing (env : Env F) (s : Sys F) : Prop :=
  ∀ d x ch k, s.display d = some x → x.changes = some ch → x.contents = some k →
    ∀ (i l : ℕ) (y : Hwc1Layer), x.layerMap[i]? = some l → k.layers[i]? = some y →
      s.known l = true → Says env s ch l y

/-- The display of a layer whose type is set. -/
def Input.typed : Input F → Option ℕ
  | .callLayer d _ (.setCompositionType _) => some d
  | _ => none

/-- The type of a layer is set before its display is validated. -/
def Settled (s : Sys F) (i : Input F) : Prop := ∀ d ∈ i.typed, ∀ x ∈ s.display d, x.changes = none

instance (s : Sys F) (i : Input F) : Decidable (Settled s i) :=
  inferInstanceAs (Decidable (∀ d ∈ i.typed, ∀ x ∈ s.display d, x.changes = none))

theorem Says.congr {ch : Changes} {l : ℕ} {y : Hwc1Layer} (h : Says env s ch l y)
    (htype : (t.layer l).state.compositionType = (s.layer l).state.compositionType) :
    Says env t ch l y := by
  simp only [Says, Listed, LayerState.toLayer, htype] at h ⊢
  exact h

/-- The types of the layers that were written down are left alone. -/
def SameTypes (s t : Sys F) : Prop :=
  ∀ d x ch l, s.display d = some x → x.changes = some ch → l ∈ x.layerMap → t.known l = true →
    s.known l = true ∧ (t.layer l).state.compositionType = (s.layer l).state.compositionType

theorem Agreeing.of_same (hs : Agreeing env s) (h : SameHeld s t) (htypes : SameTypes s t) :
    Agreeing env t := by
  intro d y ch k hy hch hk i l y' hl hy' hknown
  obtain ⟨x, hx, hxch, -, hcontents, hmap⟩ := h d y ch hy hch
  rw [hmap] at hl
  obtain ⟨hknown', htype⟩ := htypes d x ch l hx hxch (List.mem_of_getElem? hl) hknown
  exact (hs d x ch k hx hxch (hcontents ▸ hk) i l y' hl hy' hknown').congr htype

/-- What a setter does to the type of a layer. -/
theorem compositionType_callLayer (s : Sys F) (l k : ℕ) (call : LayerCall F) :
    ((callLayer env s l call).layer k).state.compositionType =
      if k = l then ((s.layer k).state.call env.minorVersion call).compositionType
      else (s.layer k).state.compositionType := by
  have hlayer : (callLayer env s l call).layer k = if k = l then
      { s.layer k with state := (s.layer k).state.call env.minorVersion call } else s.layer k := by
    rw [callLayer]
    split_ifs <;> first | rfl | (exact if_pos ‹_›) | (exact if_neg ‹_›)
  rw [hlayer]
  split_ifs <;> rfl

theorem known_callLayer (s : Sys F) (l : ℕ) (call : LayerCall F) :
    (callLayer env s l call).known = s.known := by
  rw [callLayer]
  split_ifs <;> rfl

/-- Only one setter writes the type. -/
theorem compositionType_call (m : ℕ) (x : LayerState F) (call : LayerCall F) :
    (∃ type, call = .setCompositionType type) ∨
      (x.call m call).compositionType = x.compositionType := by
  cases call with
  | setCompositionType type => exact .inl ⟨type, rfl⟩
  | setSurfaceDamage damage =>
    refine .inr ?_
    rw [LayerState.call]
    split_ifs <;> rfl
  | setVisibleRegion visible =>
    refine .inr ?_
    rw [LayerState.call]
    split_ifs <;> rfl
  | _ => exact .inr rfl

/-- **The changes are accepted**: a layer with one change gets its type, one with none keeps it. -/
theorem compositionType_acceptChanges {l : ℕ} {types : List (ℕ × Composition)}
    {ty : Composition} (hknown : s.known l = true)
    (h : (s.layer l).state.compositionType = ty ∧ types.filter (·.1 = l) = [] ∨
      types.filter (·.1 = l) = [(l, ty)]) :
    ((types.foldl (acceptChange env) s).layer l).state.compositionType = ty := by
  have hone : ∀ (s : Sys F) (p : ℕ × Composition), s.known l = true →
      (acceptChange env s p).known l = true ∧
        ((acceptChange env s p).layer l).state.compositionType =
          if p.1 = l then p.2 else (s.layer l).state.compositionType := by
    intro s p hknown
    rw [acceptChange]
    split_ifs with hp hpl hpl
    · rw [known_callLayer, compositionType_callLayer, if_pos hpl.symm]
      exact ⟨hknown, rfl⟩
    · rw [known_callLayer, compositionType_callLayer, if_neg (Ne.symm hpl)]
      exact ⟨hknown, rfl⟩
    · exact absurd (hpl ▸ hknown) hp
    · exact ⟨hknown, rfl⟩
  induction types generalizing s with
  | nil =>
    rcases h with ⟨h, -⟩ | h
    · exact h
    · cases h
  | cons p types ih =>
    obtain ⟨hknown', htype⟩ := hone s p hknown
    refine ih hknown' ?_
    rw [htype]
    rw [List.filter_cons] at h
    by_cases hp : p.1 = l
    · rw [if_pos (decide_eq_true hp)] at h
      rcases h with ⟨-, h⟩ | h
      · cases h
      · obtain ⟨rfl, hrest⟩ := List.cons.inj h
        exact .inl ⟨if_pos rfl, hrest⟩
    · rw [if_neg (by simpa using hp)] at h
      rwa [if_neg hp]

theorem state_addReleaseFence (release : ℕ → ℤ) (s : Sys F) (p : ℕ × ℕ) (l : ℕ) :
    ((addReleaseFence release s p).layer l).state = (s.layer l).state := by
  rw [addReleaseFence, layer_modifyLayer]
  split_ifs <;> rfl

theorem state_addEach (fences : ℕ → Fences) (c : ℕ) (pushed : List (Option ℕ)) (s : Sys F)
    (l : ℕ) : ((addEach s fences c pushed).1.layer l).state = (s.layer l).state := by
  let R := fun s t : Sys F => (t.layer l).state = (s.layer l).state
  have hone : ∀ s d x r, R s (addFences s d x r).1 :=
    rel_addFences (R := R) (fun _ => rfl) (fun h h' => h'.trans h) (fun _ _ _ => rfl)
      fun release s p => state_addReleaseFence release s p l
  exact rel_addEach (R := R) (fun _ => rfl) (fun h h' => h'.trans h) hone fences c pushed s

theorem sameTypes_of_layer (hlayer : ∀ l, (t.layer l).state = (s.layer l).state)
    (hknown : ∀ l, t.known l = true → s.known l = true) : SameTypes s t :=
  fun _ _ _ l _ _ _ hl => ⟨hknown l hl, by rw [hlayer]⟩

theorem Happens.sameTypes {i : Input F} {o : Output F} (h : Happens env s i t o) (ho : Owned s)
    (hs : Consistent s) (hi : Settled s i) :
    SameTypes s t ∨ Prepares env s t ∨ Accepts env s t := by
  cases h with
  | quiet same =>
    exact .inl (sameTypes_of_layer (fun _ => by rw [same.layer]) fun _ hl => same.known ▸ hl)
  | addedVirtual => exact .inl (sameTypes_of_layer (fun _ => rfl) fun _ => id)
  | addedExternal => exact .inl (sameTypes_of_layer (fun _ => rfl) fun _ => id)
  | removedVirtual => exact .inl (sameTypes_of_layer (fun _ => rfl) fun _ => id)
  | removedExternal => exact .inl (sameTypes_of_layer (fun _ => rfl) fun _ => id)
  | createdLayer =>
    refine .inl fun d x ch l hx hch hl hknown => ?_
    have hne := Nat.ne_of_lt ((ho.layerMap d x hx).2 l hl).1
    rw [known_createLayer, if_neg hne] at hknown
    rw [layer_createLayer, if_neg hne]
    exact ⟨hknown, rfl⟩
  | destroyedLayer =>
    exact .inl (sameTypes_of_layer (fun _ => by rw [layer_destroyLayer])
      fun _ hl => known_of_destroyLayer hl)
  | movedLayer there known mem hz =>
    rw [updateLayerZ_of_ne known mem hz]
    refine .inl (sameTypes_of_layer (fun k => ?_) fun _ hl => hl)
    rw [layer_modifyDisplay, layer_modifyLayer]
    split_ifs <;> rfl
  | @calledLayer d l call x there known own =>
    refine .inl fun d' x' ch k hx' hch hk hknown => ?_
    rw [known_callLayer] at hknown
    rw [compositionType_callLayer]
    refine ⟨hknown, ?_⟩
    split_ifs with hkl
    · subst hkl
      rcases compositionType_call env.minorVersion (s.layer k).state call with ⟨ty, rfl⟩ | h
      · -- the display of the layer is validated
        obtain rfl : d' = d := ((ho.layerMap d' x' hx').2 k hk).2.symm.trans own
        rw [hi d' rfl x' hx'] at hch
        cases hch
      · exact h
    · rfl
  | setDisplay => exact .inl (sameTypes_of_layer (fun _ => rfl) fun _ => id)
  | validated _ _ prepared => exact .inr (.inl ⟨_, _, _, prepared⟩)
  | notPrepared free => exact absurd free hs.primary
  | accepted there changes => exact .inr (.inr ⟨_, _, _, there, changes, rfl⟩)
  | notSet _ _ failed =>
    obtain ⟨hlayer, hknown⟩ := layer_setEach failed
    exact .inl (sameTypes_of_layer (fun _ => by rw [hlayer]) fun _ hl => hknown ▸ hl)
  | set _ _ done =>
    obtain ⟨hlayer, hknown⟩ := layer_setEach done
    refine .inl (sameTypes_of_layer (fun l => ?_) fun l hl => ?_)
    · rw [state_addEach, hlayer]
    · rwa [(sameStack_addEach _ _ _ _).known, hknown] at hl

/-- The changes that are generated agree with the types. -/
theorem says_of_generateChanges {x : Display F} {k : Contents}
    (hnodup : x.layers.Nodup) (hk : k.layers.length = x.layers.length) {i l : ℕ} {y : Hwc1Layer}
    (hl : x.layers[i]? = some l) (hy : k.layers[i]? = some y) :
    Says env s (generateChanges ((x.prepare env s.layer).mapped env s.layer) k) l y := by
  have hids : (((x.prepare env s.layer).mapped env s.layer).map Adapter.Layer.id).Nodup := by
    rw [map_id_mapped]
    exact hnodup
  have hlayer : ((x.prepare env s.layer).mapped env s.layer)[i]? =
      some ((s.layer l).state.toLayer env l) := by
    simp [Display.mapped, Display.prepare, hl]
  have hagrees : Agrees ⟨true, x.hasColorTransform, _, hids, none, none⟩ k
      (generateChanges ((x.prepare env s.layer).mapped env s.layer) k) :=
    generated_agrees (by simp [Display.mapped, Display.prepare, hk])
  exact ⟨hagrees.client i _ y hlayer hy, hagrees.device i _ y hlayer hy⟩

theorem Agreeing.prepared (hs : Consistent s) (ho : Owned s) (hheld : Held env s)
    (h : Prepares env s t) : Agreeing env t := by
  obtain ⟨a₁, a₂, calls, h⟩ := h
  intro d y ch k hy hch hk i l z hl hz _
  obtain ⟨x, k₀, hx, -, hlength, rfl⟩ := display_of_prepareAllDisplays hs hheld h hy hch
  cases hch
  cases hk
  have hlayer : t.layer = s.layer := by
    obtain ⟨rfl, -⟩ := prepareAllDisplays_cases h rfl
    exact layer_giveBack _ _ _
  exact (says_of_generateChanges (s := s) (ho.layers d x hx).1 hlength hl hz).congr
    (by rw [hlayer])

theorem Agreeing.accepted (hagree : Agreeing env s) (ho : Owned s) (hheld : Held env s)
    (h : Accepts env s t) : Agreeing env t := by
  obtain ⟨d, x, ch, hx, hch, rfl⟩ := h
  intro k y ch' k' hy hych hk i l z hl hz hknown
  obtain ⟨w, ch₀, hw, hwch, -, hcontents, hmap, hcase⟩ := exists_of_acceptChanges hch hy hych
  rw [(sameStack_acceptChanges s d x).known] at hknown
  rw [hcontents] at hk
  rw [hmap] at hl
  have hsaid := hagree k w ch₀ k' hw hwch hk i l z hl hz hknown
  have hlayer : (acceptChanges env s d x).1.layer =
      (ch.types.foldl (acceptChange env) s).layer := by
    rw [acceptChanges, hch]
    rfl
  rcases hcase with ⟨rfl, htypes⟩ | ⟨hne, rfl⟩
  · -- the layer has got the type it was listed with
    obtain rfl : w = x := Option.some.inj (hw.symm.trans hx)
    obtain rfl : ch₀ = ch := Option.some.inj (hwch.symm.trans hch)
    have hlisted : ∀ ty, Listed ch₀ ((s.layer l).state.toLayer env l) ty →
        Listed ch' (((acceptChanges env s k w).1.layer l).state.toLayer env l) ty := by
      intro ty h
      refine .inl ⟨?_, by rw [htypes]; rfl⟩
      rw [hlayer]
      exact compositionType_acceptChanges hknown h
    exact ⟨fun h => hlisted _ (hsaid.1 h), fun h => hlisted _ (hsaid.2 h)⟩
  · -- the changes are for layers of another display
    refine hsaid.congr ?_
    rw [hlayer]
    refine compositionType_acceptChanges hknown (.inl ⟨rfl, ?_⟩)
    refine List.filter_eq_nil_iff.mpr fun p hp heq => hne ?_
    have hpl : p.1 = l := of_decide_eq_true heq
    have hd := ((ho.layerMap d x hx).2 p.1 ((hheld d x ch hx hch).2 p hp)).2
    rw [hpl, ((ho.layerMap k w hw).2 l (List.mem_of_getElem? hl)).2] at hd
    exact hd

theorem Agreeing.step (hagree : Agreeing env s) (hs : Consistent s) (ho : Owned s)
    (hheld : Held env s) {i : Input F} {o : Output F} (hi : Settled s i)
    (h : Happens env s i t o) : Agreeing env t := by
  rcases h.sameHeld hs with hsame | hprepares | haccepts
  · rcases h.sameTypes ho hs hi with htypes | hprepares | haccepts
    · exact hagree.of_same hsame htypes
    · exact .prepared hs ho hheld hprepares
    · exact hagree.accepted ho hheld haccepts
  · exact .prepared hs ho hheld hprepares
  · exact hagree.accepted ho hheld haccepts

theorem agreeing_of_run {tr : List (Input F × Output F)}
    (h : StepSystem.RunWhere (step env) Settled (start env) tr s) : Agreeing env s := by
  refine (StepSystem.RunWhere.invariant
    (P := fun _ s => (Consistent s ∧ Owned s ∧ Held env s) ∧ Agreeing env s)
    ⟨⟨consistent_start env, owned_start env, held_start env⟩, ?_⟩ (fun hs hi hstep => ?_) h).2
  · intro d x ch k hx hch
    simp only [start] at hx
    split_ifs at hx
    cases hx
    cases hch
  · obtain ⟨⟨hcons, ho, hheld⟩, hagree⟩ := hs
    have hhappens := happens_of_step hstep
    exact ⟨⟨hcons.step hhappens, ho.step hhappens.shifts, hheld.step hcons hhappens⟩,
      hagree.step hcons ho hheld hi hhappens⟩

/-- **When HWC 1 is set, each layer is drawn by the one who should**: what HWC 1 leaves to the
framebuffer the client believes to be its own, and what is an overlay the client leaves to the
device. -/
theorem types_of_set {tr : List (Input F × Output F)} {i : Input F} {o : Output F}
    (hrun : StepSystem.RunWhere (step env) Settled (start env) tr s)
    (hstep : step env s i = some (t, o)) {shown : List (Option Shown)} {fences : ℕ → Fences}
    (hcall : .set shown fences ∈ o.calls) {c : ℕ} {k : Shown} (hk : shown[c]? = some (some k))
    {l : ℕ} {y : Hwc1Layer} {fd : ℤ} (hl : (l, y, fd) ∈ k.layers) (hknown : s.known l = true) :
    (y.compositionType = hwcFramebuffer → (s.layer l).state.compositionType = .client) ∧
      (y.IsOverlay → (s.layer l).state.compositionType = .device) := by
  obtain ⟨d₀, t', closed, -, hset, rfl, -⟩ := (happens_of_step hstep).of_set hcall
  obtain ⟨hdone, -, -⟩ := setEach_done hset
  rw [Sys.shown, (follows_setEach hset).contents, List.getElem?_map, Option.map_eq_some_iff] at hk
  obtain ⟨o', ho', hk⟩ := hk
  obtain ⟨d, rfl, hk⟩ := Option.bind_eq_some_iff.mp hk
  obtain ⟨x, ch, hx, hch, htypes, hx'⟩ := hdone d (List.mem_of_getElem? ho')
  rw [Option.bind_some, hx'] at hk
  cases hk
  obtain ⟨n, hn⟩ := List.mem_iff_getElem?.mp hl
  obtain ⟨hmap, htype, -⟩ : x.layerMap[n]? = some l ∧ x.types[n]? = some y ∧ _ := by
    simpa [Display.shown, Display.set, Display.types, List.getElem?_zip_eq_some] using hn
  cases hcontents : x.contents with
  | none => simp [Display.types, hcontents] at htype
  | some k' =>
    have hsaid := agreeing_of_run hrun d x ch k' hx hch hcontents n l y hmap
      (by simpa [Display.types, hcontents] using htype) hknown
    have hlisted : ∀ ty, Listed ch ((s.layer l).state.toLayer env l) ty →
        (s.layer l).state.compositionType = ty := by
      rintro ty (⟨h, -⟩ | h)
      · exact h
      · rw [htypes] at h
        cases h
    exact ⟨fun h => hlisted _ (hsaid.1 h), fun h => hlisted _ (hsaid.2 h)⟩

theorem types_of_set_raised : ∃ (tr : List (Input ℕ × Output ℕ)) (s : Sys ℕ),
    StepSystem.RunWhere (step plainEnv) Settled (start plainEnv) tr s ∧
      (s.layer 1).state.compositionType = .client ∧
        (s.layer 2).state.compositionType = .device := by
  have hexec : StepSystem.exec (step plainEnv) Settled (start plainEnv)
      (raisedInputs ++ [.validate 1 lowestTaken lowestTaken, .acceptChanges 1]) = some _ := rfl
  have hrun := StepSystem.run_of_exec hexec
  have hupper := types_of_set hrun (i := .present 1 numbered) rfl
    (List.mem_append_left _ (List.mem_append_right _ (List.mem_singleton_self _))) (c := 0) rfl
      (List.mem_cons_of_mem _ List.mem_cons_self) rfl
  have hlower := types_of_set hrun (i := .present 1 numbered) rfl
    (List.mem_append_left _ (List.mem_append_right _ (List.mem_singleton_self _))) (c := 0) rfl
      List.mem_cons_self rfl
  exact ⟨_, _, hrun, hupper.1 rfl, hlower.2 rfl⟩

end Device

end Adapter

end A1000

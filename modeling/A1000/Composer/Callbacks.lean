import A1000.Composer.Geometry

/-!
# What the client is told

HWC 1 reports displays that are plugged in, and the moments of vsync, under its own numbers and at
any time; the client is told of them by callbacks, under the numbers of HWC 2. What comes before the
callback is registered is held back, and told when it is.

The callbacks are called when `mStateMutex` has been given up. Here no call or event comes between
the two: what is told in a step has been told before the next one.

A display that is plugged in before is not made, so what was held back for it is lost: the client
learns of a display when it is made, and once.

## Main definitions

* `Adapter.Device.Speaks` — what a step tells, or holds back
* `Adapter.Device.Once` — the client registers for displays once
* `Adapter.Device.Announced`, `Adapter.Device.Relayed` — what has been told

## Main results

* `Adapter.Device.hotplugs_of_run` — each display is announced while it is there
* `Adapter.Device.vsyncs_of_run` — no vsync of the primary display is lost or told twice
-/

namespace A1000

namespace Adapter

namespace Device

open Composer

variable {F : Type*} {env : Env F} {s t : Sys F}

/-! ### What does not listen -/

/-- Nothing has been registered or held back. -/
structure SameEars (s t : Sys F) : Prop where
  callbacks : t.callbacks = s.callbacks
  pendingVsyncs : t.pendingVsyncs = s.pendingVsyncs
  pendingHotplugs : t.pendingHotplugs = s.pendingHotplugs

theorem SameEars.refl (s : Sys F) : SameEars s s := ⟨rfl, rfl, rfl⟩

theorem SameEars.trans {u : Sys F} (h : SameEars s t) (h' : SameEars t u) : SameEars s u :=
  ⟨h'.callbacks.trans h.callbacks, h'.pendingVsyncs.trans h.pendingVsyncs,
    h'.pendingHotplugs.trans h.pendingHotplugs⟩

theorem sameEars_modifyDisplay (s : Sys F) (d : ℕ) (f : Display F → Display F) :
    SameEars s (s.modifyDisplay d f) := ⟨rfl, rfl, rfl⟩

theorem sameEars_destroyLayer (s : Sys F) (d l : ℕ) : SameEars s (destroyLayer s d l).1 := by
  rw [destroyLayer]
  split_ifs <;> exact ⟨rfl, rfl, rfl⟩

theorem sameEars_updateLayerZ (s : Sys F) (d l : ℕ) (x : Display F) (z : ℕ) :
    SameEars s (updateLayerZ s d l x z).1 := by
  rw [updateLayerZ]
  split_ifs <;> exact ⟨rfl, rfl, rfl⟩

theorem sameEars_callLayer (s : Sys F) (l : ℕ) (call : LayerCall F) :
    SameEars s (callLayer env s l call) := by
  rw [callLayer]
  split_ifs <;> exact ⟨rfl, rfl, rfl⟩

theorem sameEars_acceptChanges (s : Sys F) (d : ℕ) (x : Display F) :
    SameEars s (acceptChanges env s d x).1 :=
  rel_acceptChanges SameEars.refl SameEars.trans sameEars_callLayer
    (fun s d => sameEars_modifyDisplay s d _) s d x

theorem sameEars_giveBack (ds : List (Option ℕ)) (ks : List (Option Contents)) (s : Sys F) :
    SameEars s (s.giveBack env ds ks) :=
  rel_giveBack SameEars.refl SameEars.trans (fun s d _ => sameEars_modifyDisplay s d _) ds ks s

theorem sameEars_prepareAllDisplays {a₁ a₂ : Answers} {calls : List (Call F)}
    (h : prepareAllDisplays env s a₁ a₂ = some (t, true, calls)) : SameEars s t := by
  obtain ⟨rfl, -⟩ := prepareAllDisplays_cases h rfl
  have hprepare : SameEars s { s.prepareEach env with contents := s.slots env } := ⟨rfl, rfl, rfl⟩
  exact hprepare.trans (sameEars_giveBack _ _ _)

theorem sameEars_setEach {c : ℕ} {pushed : List (Option ℕ)} {b : Bool} {closed : List ℤ}
    (h : setEach s c pushed = some (t, b, closed)) : SameEars s t :=
  rel_setEach SameEars.refl SameEars.trans (fun s d => sameEars_modifyDisplay s d _) h

theorem sameEars_addFences (s : Sys F) (d : ℕ) (x : Display F) (r : Fences) :
    SameEars s (addFences s d x r).1 :=
  rel_addFences SameEars.refl SameEars.trans (fun s d _ => sameEars_modifyDisplay s d _)
    (fun _ _ _ => ⟨rfl, rfl, rfl⟩) s d x r

theorem sameEars_addEach (fences : ℕ → Fences) (c : ℕ) (pushed : List (Option ℕ)) (s : Sys F) :
    SameEars s (addEach s fences c pushed).1 :=
  rel_addEach SameEars.refl SameEars.trans sameEars_addFences fences c pushed s

/-- **What a step tells, or holds back**, and what becomes of the displays. -/
inductive Speaks (s : Sys F) : Input F → Sys F → List (Call F) → Prop
  | silent {i : Input F} {t : Sys F} {calls : List (Call F)} (same : SameDisplays s t)
      (ears : SameEars s t) (silent : ∀ c ∈ calls, ¬ c.Tells) : Speaks s i t calls
  | addedVirtual (free : s.displayMap hwcDisplayVirtual = none) :
      Speaks s .createVirtualDisplay
        { s.addDisplay hwcDisplayVirtual with virtualDisplay := some s.nextDisplay } []
  | addedExternal {there : ℤ} (free : s.displayMap hwcDisplayExternal = none)
      (registered : s.callbacks .hotplug = true) :
      Speaks s (.hwc1Hotplug hwcDisplayExternal there) (s.addDisplay hwcDisplayExternal)
        [.hotplug s.nextDisplay connected]
  | removedVirtual {d : ℕ} (hd : s.displayMap hwcDisplayVirtual = some d) :
      Speaks s (.destroyVirtualDisplay d)
        { s.removeDisplay hwcDisplayVirtual d with virtualDisplay := none } []
  | removedExternal {d : ℕ} (hd : s.displayMap hwcDisplayExternal = some d)
      (registered : s.callbacks .hotplug = true) :
      Speaks s (.hwc1Hotplug hwcDisplayExternal 0) (s.removeDisplay hwcDisplayExternal d)
        [.hotplug d disconnected]
  | heard {i : Input F} {t : Sys F} {calls : List (Call F)} (same : s.Same t)
      (hears : Hears s i t calls) : Speaks s i t calls

theorem Happens.speaks {i : Input F} {o : Output F} (h : Happens env s i t o)
    (hs : Consistent s) : Speaks s i t o.calls := by
  have hnone : ∀ c ∈ ([] : List (Call F)), ¬ c.Tells := fun _ hc => absurd hc List.not_mem_nil
  have hclose : ∀ {fds : List ℤ}, ∀ c ∈ fds.map (Call.close (F := F)), ¬ c.Tells := by
    intro fds c hc
    obtain ⟨fd, -, rfl⟩ := List.mem_map.mp hc
    exact id
  cases h with
  | quiet same _ _ hears => exact .heard same hears
  | addedVirtual free => exact .addedVirtual (hs.virtualDisplay.symm.trans free)
  | addedExternal _ free registered => exact .addedExternal free registered
  | removedVirtual hd => exact .removedVirtual (hs.virtualDisplay.symm.trans hd)
  | removedExternal hd registered => exact .removedExternal hd registered
  | createdLayer =>
    exact .silent (follows_createLayer s _).toSameDisplays ⟨rfl, rfl, rfl⟩ hnone
  | destroyedLayer =>
    exact .silent (follows_destroyLayer s _ _).toSameDisplays (sameEars_destroyLayer s _ _) hnone
  | movedLayer =>
    exact .silent (follows_updateLayerZ s _ _ _ _).toSameDisplays (sameEars_updateLayerZ s _ _ _ _)
      hnone
  | calledLayer =>
    exact .silent (follows_callLayer s _ _).toSameDisplays (sameEars_callLayer s _ _) hnone
  | setDisplay _ rest =>
    exact .silent (sameDisplays_modifyDisplay fun x => (rest x).hwc1Id) ⟨rfl, rfl, rfl⟩ hnone
  | validated _ _ prepared =>
    refine .silent (sameDisplays_prepareAllDisplays prepared)
      (sameEars_prepareAllDisplays prepared) fun c hc => ?_
    obtain ⟨-, rfl⟩ := prepareAllDisplays_cases prepared rfl
    cases List.mem_singleton.mp hc
    exact id
  | notPrepared => exact .silent (follows_prepareEach s).toSameDisplays ⟨rfl, rfl, rfl⟩ hnone
  | accepted =>
    exact .silent (follows_acceptChanges s _ _).toSameDisplays (sameEars_acceptChanges s _ _) hnone
  | notSet _ _ failed =>
    exact .silent (follows_setEach failed).toSameDisplays (sameEars_setEach failed) hclose
  | set _ _ done =>
    refine .silent ((follows_setEach done).trans (follows_addEach ..)).toSameDisplays
      ((sameEars_setEach done).trans (sameEars_addEach ..)) fun c hc => ?_
    rcases List.mem_append.mp hc with hc | hc
    · rcases List.mem_append.mp hc with hc | hc
      · exact hclose c hc
      · cases List.mem_singleton.mp hc
        exact id
    · exact hclose c hc

/-! ### What has been told -/

/-- The connection that is told for the display. -/
def Call.connection (d : ℕ) : Call F → Option ℤ
  | .hotplug d' connection => if d' = d then some connection else none
  | _ => none

/-- The vsync that is told for the display. -/
def Call.timestamp (d : ℕ) : Call F → Option ℤ
  | .vsync d' timestamp => if d' = d then some timestamp else none
  | _ => none

/-- The vsync that comes from HWC 1. -/
def Input.timestamp (c : ℕ) : Input F → Option ℤ
  | .hwc1Vsync c' timestamp => if c' = c then some timestamp else none
  | _ => none

/-- What the client has been told of the display. -/
def hotplugs (d : ℕ) (calls : List (Call F)) : List ℤ := calls.filterMap (Call.connection d)

def vsyncs (d : ℕ) (calls : List (Call F)) : List ℤ := calls.filterMap (Call.timestamp d)

/-- The vsyncs HWC 1 has reported under the number `c`. -/
def received (c : ℕ) (tr : List (Input F × Output F)) : List ℤ :=
  tr.filterMap fun e => e.1.timestamp c

theorem hotplugs_snoc (d : ℕ) (tr : List (Input F × Output F)) (i : Input F) (o : Output F) :
    hotplugs d (callsOf (tr ++ [(i, o)])) = hotplugs d (callsOf tr) ++ hotplugs d o.calls := by
  rw [callsOf_snoc, hotplugs, List.filterMap_append]
  rfl

theorem vsyncs_snoc (d : ℕ) (tr : List (Input F × Output F)) (i : Input F) (o : Output F) :
    vsyncs d (callsOf (tr ++ [(i, o)])) = vsyncs d (callsOf tr) ++ vsyncs d o.calls := by
  rw [callsOf_snoc, vsyncs, List.filterMap_append]
  rfl

theorem received_snoc (c : ℕ) (tr : List (Input F × Output F)) (i : Input F) (o : Output F) :
    received c (tr ++ [(i, o)]) = received c tr ++ (i.timestamp c).toList := by
  rw [received, List.filterMap_append]
  refine congrArg (received c tr ++ ·) ?_
  rw [List.filterMap_cons]
  cases i.timestamp c <;> rfl

theorem hotplugs_of_silent {calls : List (Call F)} (h : ∀ c ∈ calls, ¬ c.Tells) (d : ℕ) :
    hotplugs d calls = [] := by
  rw [hotplugs, List.filterMap_eq_nil_iff]
  intro c hc
  cases c with
  | hotplug => exact absurd trivial (h _ hc)
  | _ => rfl

theorem vsyncs_of_silent {calls : List (Call F)} (h : ∀ c ∈ calls, ¬ c.Tells) (d : ℕ) :
    vsyncs d calls = [] := by
  rw [vsyncs, List.filterMap_eq_nil_iff]
  intro c hc
  cases c with
  | vsync => exact absurd trivial (h _ hc)
  | _ => rfl

theorem filterMap_const_none {α β : Type*} (as : List α) {f : α → Option β}
    (h : ∀ a, f a = none) : as.filterMap f = [] :=
  List.filterMap_eq_nil_iff.mpr fun a _ => h a

/-- What was held back is told for the display that is under the number now. -/
theorem filterMap_translate (s : Sys F) (d : ℕ) (pending : List (ℕ × ℤ)) :
    (s.translate pending).filterMap (fun t => if t.1 = d then some t.2 else none) =
      pending.filterMap fun p => if s.displayMap p.1 = some d then some p.2 else none := by
  rw [Sys.translate, List.filterMap_filterMap]
  refine List.filterMap_congr fun p _ => ?_
  cases s.displayMap p.1 <;> simp

theorem hotplugs_translate (s : Sys F) (d : ℕ) (pending : List (ℕ × ℤ)) :
    hotplugs d ((s.translate pending).map fun t => (.hotplug t.1 t.2 : Call F)) =
      pending.filterMap fun p => if s.displayMap p.1 = some d then some p.2 else none := by
  rw [← filterMap_translate, hotplugs, List.filterMap_map]
  rfl

theorem vsyncs_translate (s : Sys F) (d : ℕ) (pending : List (ℕ × ℤ)) :
    vsyncs d ((s.translate pending).map fun t => (.vsync t.1 t.2 : Call F)) =
      pending.filterMap fun p => if s.displayMap p.1 = some d then some p.2 else none := by
  rw [← filterMap_translate, vsyncs, List.filterMap_map]
  rfl

/-! ### Displays -/

/-- The client registers for displays, or gives it up. -/
def Input.Registers : Input F → Bool
  | .registerCallback .hotplug _ => true
  | _ => false

/-- The client registers for displays once, and does not give it up. -/
def Once (s : Sys F) (i : Input F) : Prop := i.Registers = true → s.callbacks .hotplug = false

instance (s : Sys F) (i : Input F) : Decidable (Once s i) :=
  inferInstanceAs (Decidable (i.Registers = true → s.callbacks .hotplug = false))

/-- **Each display has been announced** while it was there; virtual displays the client makes
itself. -/
structure Announced (tr : List (Input F × Output F)) (s : Sys F) : Prop where
  there : ∀ d x, s.display d = some x → hotplugs d (callsOf tr) =
    if s.callbacks .hotplug = true ∧ x.hwc1Id ≠ hwcDisplayVirtual then [connected] else []
  gone : ∀ d, s.display d = none →
    hotplugs d (callsOf tr) = [] ∨ hotplugs d (callsOf tr) = [connected, disconnected]
  unmade : ∀ d, s.nextDisplay ≤ d → hotplugs d (callsOf tr) = []
  unplugged : s.callbacks .hotplug = false → s.displayMap hwcDisplayExternal = none
  pending : ∀ p ∈ s.pendingHotplugs, p.1 = hwcDisplayExternal

/-- A step that tells of no display. -/
theorem Announced.quiet {tr : List (Input F × Output F)} (ha : Announced tr s) {i : Input F}
    {o : Output F} (hcalls : ∀ d, hotplugs d o.calls = []) (same : SameDisplays s t)
    (hcallback : t.callbacks .hotplug = s.callbacks .hotplug)
    (hpending : ∀ p ∈ t.pendingHotplugs, p.1 = hwcDisplayExternal) :
    Announced (tr ++ [(i, o)]) t := by
  have htold : ∀ d, hotplugs d (callsOf (tr ++ [(i, o)])) = hotplugs d (callsOf tr) := by
    intro d
    rw [hotplugs_snoc, hcalls, List.append_nil]
  constructor
  · intro d y hy
    obtain ⟨x, hx, hid⟩ := same.exists_of_some hy
    rw [htold, hcallback, hid]
    exact ha.there d x hx
  · intro d hd
    have hnone : s.display d = none := by
      cases hx : s.display d with
      | none => rfl
      | some x =>
        obtain ⟨y, hy, -⟩ := same.there d x hx
        rw [hd] at hy
        cases hy
    rw [htold]
    exact ha.gone d hnone
  · intro d hd
    rw [htold]
    exact ha.unmade d (same.nextDisplay ▸ hd)
  · intro h
    rw [same.displayMap]
    exact ha.unplugged (hcallback ▸ h)
  · exact hpending

/-- A display is added, and announced unless the client has made it. -/
theorem Announced.added {tr : List (Input F × Output F)} (ha : Announced tr s) {i : Input F}
    {o : Output F} {c : ℕ} {v : Option ℕ}
    (hnew : hotplugs s.nextDisplay o.calls =
      if s.callbacks .hotplug = true ∧ c ≠ hwcDisplayVirtual then [connected] else [])
    (hother : ∀ d, d ≠ s.nextDisplay → hotplugs d o.calls = [])
    (hc : c = hwcDisplayExternal → s.callbacks .hotplug = true) :
    Announced (tr ++ [(i, o)]) { s.addDisplay c with virtualDisplay := v } := by
  constructor
  · intro d x hx
    rw [hotplugs_snoc]
    by_cases hd : d = s.nextDisplay
    · subst hd
      have hx' : (s.addDisplay c).display s.nextDisplay = some x := hx
      rw [display_addDisplay, if_pos rfl] at hx'
      cases hx'
      rw [ha.unmade _ le_rfl, hnew]
      rfl
    · have hx' : (s.addDisplay c).display d = some x := hx
      rw [display_addDisplay, if_neg hd] at hx'
      rw [hother d hd, List.append_nil]
      exact ha.there d x hx'
  · intro d hd
    have hd' : (s.addDisplay c).display d = none := hd
    rw [display_addDisplay] at hd'
    split_ifs at hd' with hnext
    rw [hotplugs_snoc, hother d hnext, List.append_nil]
    exact ha.gone d hd'
  · intro d hd
    rw [hotplugs_snoc, hother d (Nat.ne_of_gt hd), List.append_nil]
    exact ha.unmade d (Nat.le_of_succ_le hd)
  · intro h
    have hne : hwcDisplayExternal ≠ c := by
      rintro rfl
      rw [show s.callbacks .hotplug = false from h] at hc
      cases hc rfl
    exact ((displayMap_addDisplay s c _).trans (if_neg hne)).trans (ha.unplugged h)
  · exact ha.pending

/-- A display is removed, and the client is told unless it has made it. -/
theorem Announced.removed {tr : List (Input F × Output F)} (ha : Announced tr s)
    (hs : Consistent s) {i : Input F} {o : Output F} {c d : ℕ} {v : Option ℕ}
    (hd : s.displayMap c = some d)
    (hself : hotplugs d o.calls =
      if s.callbacks .hotplug = true ∧ c ≠ hwcDisplayVirtual then [disconnected] else [])
    (hother : ∀ k, k ≠ d → hotplugs k o.calls = []) :
    Announced (tr ++ [(i, o)]) { s.removeDisplay c d with virtualDisplay := v } := by
  obtain ⟨x, hx, hid⟩ := hs.display_of_map c d hd
  constructor
  · intro k y hy
    obtain ⟨hk, hy⟩ := removeDisplay_cases (c := c) hy
    rw [hotplugs_snoc, hother k hk, List.append_nil]
    exact ha.there k y hy
  · intro k hk
    rw [hotplugs_snoc]
    by_cases hkd : k = d
    · subst hkd
      rw [ha.there k x hx, hself, hid]
      split_ifs
      · exact .inr rfl
      · exact .inl rfl
    · have hk' : (s.removeDisplay c d).display k = none := hk
      rw [display_removeDisplay, if_neg hkd] at hk'
      rw [hother k hkd, List.append_nil]
      exact ha.gone k hk'
  · intro k hk
    have hne : k ≠ d := by
      rintro rfl
      exact absurd (hs.display_lt k x hx) (Nat.not_lt.mpr hk)
    rw [hotplugs_snoc, hother k hne, List.append_nil]
    exact ha.unmade k hk
  · intro h
    have hmap : (s.removeDisplay c d).displayMap hwcDisplayExternal = none := by
      rw [displayMap_removeDisplay]
      split_ifs
      · rfl
      · exact ha.unplugged h
    exact hmap
  · exact ha.pending

/-- When no external display is there, the primary display is the one the client has not made. -/
theorem Consistent.primary_iff (hs : Consistent s)
    (hexternal : s.displayMap hwcDisplayExternal = none) {d : ℕ} {x : Display F}
    (hx : s.display d = some x) :
    s.displayMap hwcDisplayPrimary = some d ↔ x.hwc1Id ≠ hwcDisplayVirtual := by
  have hmap := hs.map_of_display d x hx
  constructor
  · intro h heq
    obtain ⟨y, hy, hid⟩ := hs.display_of_map _ d h
    rw [hx] at hy
    cases hy
    rw [heq] at hid
    cases hid
  · intro hvirtual
    have hlt := hs.hwc1Id_lt d x hx
    have hne : x.hwc1Id ≠ hwcDisplayExternal := by
      intro heq
      rw [heq, hexternal] at hmap
      cases hmap
    have hid : x.hwc1Id = hwcDisplayPrimary := by
      simp only [hwcDisplayExternal, hwcDisplayVirtual, hwcDisplayPrimary] at *
      omega
    exact hid ▸ hmap

/-- **The client registers**, and is told of the primary display alone: the others it has made
itself, and what was held back is for displays that were not made. -/
theorem Announced.registered {tr : List (Input F × Output F)} (ha : Announced tr s)
    (hs : Consistent s) (hfree : s.callbacks .hotplug = false) {e : Error} {out : Option ℕ} :
    Announced (tr ++ [(.registerCallback .hotplug true,
      ⟨e, out, (registerCallback s .hotplug true).2⟩)]) (registerCallback s .hotplug true).1 := by
  have hlost : ∀ d, (s.pendingHotplugs.filterMap fun p =>
      if s.displayMap p.1 = some d then some p.2 else none) = [] := by
    intro d
    refine List.filterMap_eq_nil_iff.mpr fun p hp => ?_
    rw [ha.pending p hp, ha.unplugged hfree, if_neg (Option.some_ne_none d).symm]
  have hcalls : ∀ d, hotplugs d (registerCallback s .hotplug true).2 =
      if s.displayMap hwcDisplayPrimary = some d then [connected] else [] := by
    intro d
    refine (hotplugs_translate s d ((hwcDisplayPrimary, connected) :: s.pendingHotplugs)).trans ?_
    rw [List.filterMap_cons, hlost]
    split_ifs <;> rfl
  constructor
  · intro d x hx
    have hx' : s.display d = some x := hx
    have hcallback : (registerCallback s .hotplug true).1.callbacks .hotplug = true := rfl
    have hbefore : hotplugs d (callsOf tr) = [] := by
      rw [ha.there d x hx', hfree]
      exact if_neg fun h => by cases h.1
    rw [hotplugs_snoc, hbefore, hcalls, hcallback, List.nil_append]
    simp only [hs.primary_iff (ha.unplugged hfree) hx', true_and]
  · intro d hd
    have hd' : s.display d = none := hd
    have hne : s.displayMap hwcDisplayPrimary ≠ some d := by
      intro h
      obtain ⟨y, hy, -⟩ := hs.display_of_map _ d h
      rw [hd'] at hy
      cases hy
    rw [hotplugs_snoc, hcalls, if_neg hne, List.append_nil]
    exact ha.gone d hd'
  · intro d hd
    have hne : s.displayMap hwcDisplayPrimary ≠ some d := by
      intro h
      obtain ⟨y, hy, -⟩ := hs.display_of_map _ d h
      exact absurd (hs.display_lt d y hy) (Nat.not_lt.mpr hd)
    rw [hotplugs_snoc, hcalls, if_neg hne, List.append_nil]
    exact ha.unmade d hd
  · intro h
    cases h
  · exact ha.pending

theorem hotplugs_map {α : Type*} (as : List α) (f : α → Call F)
    (h : ∀ d a, (f a).connection d = none) (d : ℕ) : hotplugs d (as.map f) = [] := by
  rw [hotplugs, List.filterMap_map]
  exact filterMap_const_none as fun a => h d a

theorem Announced.heard {tr : List (Input F × Output F)} (ha : Announced tr s)
    (hs : Consistent s) {i : Input F} (hi : Once s i) {e : Error} {out : Option ℕ}
    {calls : List (Call F)} (same : s.Same t) (hears : Hears s i t calls) :
    Announced (tr ++ [(i, ⟨e, out, calls⟩)]) t := by
  have hsame := same.follows.toSameDisplays
  cases hears with
  | nothing => exact ha.quiet (fun _ => rfl) hsame rfl ha.pending
  | registered c pointer =>
    cases pointer with
    | false =>
      refine ha.quiet (fun _ => rfl) hsame ?_ ha.pending
      cases c with
      | hotplug => exact (hi rfl).symm
      | refresh => rfl
      | vsync => rfl
    | true =>
      cases c with
      | hotplug => exact ha.registered hs (hi rfl)
      | refresh =>
        refine ha.quiet (fun d => ?_) hsame rfl ha.pending
        rw [registerCallback, if_neg (not_not.mpr rfl)]
        dsimp only
        split_ifs
        · exact hotplugs_map _ _ (fun _ _ => rfl) d
        · rfl
      | vsync => exact ha.quiet (hotplugs_map _ _ fun _ _ => rfl) hsame rfl ha.pending
  | invalidate =>
    rw [hwc1Invalidate] at hsame ⊢
    split_ifs at hsame ⊢
    · exact ha.quiet (hotplugs_map _ _ fun _ _ => rfl) hsame rfl ha.pending
    · exact ha.quiet (fun _ => rfl) hsame rfl ha.pending
  | vsync c timestamp =>
    rw [hwc1Vsync] at hsame ⊢
    split_ifs at hsame ⊢
    · refine ha.quiet (fun d => ?_) hsame rfl ha.pending
      cases s.displayMap c <;> rfl
    · exact ha.quiet (fun _ => rfl) hsame rfl ha.pending
  | kept =>
    refine ha.quiet (fun _ => rfl) hsame rfl fun p hp => ?_
    rcases List.mem_append.mp hp with hp | hp
    · exact ha.pending p hp
    · rw [List.mem_singleton.mp hp]

theorem Announced.step {tr : List (Input F × Output F)} (ha : Announced tr s)
    (hs : Consistent s) {i : Input F} (hi : Once s i) {e : Error} {out : Option ℕ}
    {calls : List (Call F)} (h : Speaks s i t calls) :
    Announced (tr ++ [(i, ⟨e, out, calls⟩)]) t := by
  cases h with
  | silent same ears silent =>
    refine ha.quiet (hotplugs_of_silent silent) same (by rw [ears.callbacks]) ?_
    rw [ears.pendingHotplugs]
    exact ha.pending
  | addedVirtual =>
    exact ha.added (if_neg fun h => h.2 rfl).symm (fun _ _ => rfl) fun h => by cases h
  | addedExternal free registered =>
    refine ha.added (v := s.virtualDisplay) ?_ (fun d hd => ?_) fun _ => registered
    · rw [if_pos ⟨registered, by decide⟩]
      simp [hotplugs, Call.connection]
    · simp [hotplugs, Call.connection, Ne.symm hd]
  | removedVirtual hd => exact ha.removed hs hd (if_neg fun h => h.2 rfl).symm fun _ _ => rfl
  | removedExternal hd registered =>
    refine ha.removed hs (v := s.virtualDisplay) hd ?_ fun k hk => ?_
    · rw [if_pos ⟨registered, by decide⟩]
      simp [hotplugs, Call.connection]
    · simp [hotplugs, Call.connection, Ne.symm hk]
  | heard same hears => exact ha.heard hs hi same hears

theorem announced_start (env : Env F) : Announced [] (start env) := by
  refine ⟨fun d x _ => ?_, fun _ _ => .inl rfl, fun _ _ => rfl, fun _ => rfl, fun p hp => ?_⟩
  · exact (if_neg fun h => by cases h.1).symm
  · cases hp

/-- **The client learns of each display that is there, once**, if HWC 1 has made it, and of its end:
in every run in which it registers for displays once. -/
theorem hotplugs_of_run {tr : List (Input F × Output F)}
    (h : StepSystem.RunWhere (step env) Once (start env) tr s) (d : ℕ) :
    (∀ x, s.display d = some x → hotplugs d (callsOf tr) =
      if s.callbacks .hotplug = true ∧ x.hwc1Id ≠ hwcDisplayVirtual then [connected] else []) ∧
      (s.display d = none →
        hotplugs d (callsOf tr) = [] ∨ hotplugs d (callsOf tr) = [connected, disconnected]) := by
  have hannounced : Consistent s ∧ Announced tr s := by
    refine StepSystem.RunWhere.invariant (P := fun tr s => Consistent s ∧ Announced tr s)
      ⟨consistent_start env, announced_start env⟩ (fun hinv hi hstep => ?_) h
    have hhappens := happens_of_step hstep
    exact ⟨hinv.1.step hhappens, hinv.2.step hinv.1 hi (hhappens.speaks hinv.1)⟩
  exact ⟨hannounced.2.there d, hannounced.2.gone d⟩

/-- A display that is plugged in before the client registers, and again after it. -/
def replugged : List (Input ℕ) :=
  [.hwc1Hotplug 1 1, .registerCallback .hotplug true, .hwc1Hotplug 1 1, .hwc1Hotplug 1 0]

theorem hotplugs_of_run_replugged : ∃ (tr : List (Input ℕ × Output ℕ)) (s : Sys ℕ),
    StepSystem.RunWhere (step plainEnv) Once (start plainEnv) tr s ∧
      hotplugs 2 (callsOf tr) = [connected, disconnected] := by
  have hexec : StepSystem.exec (step plainEnv) Once (start plainEnv) replugged = some _ := rfl
  have hrun := StepSystem.run_of_exec hexec
  exact ⟨_, _, hrun, ((hotplugs_of_run hrun 2).2 rfl).resolve_left (by decide)⟩

/-! ### Vsyncs -/

/-- **The vsyncs of the primary display have been told**, or are held back. -/
structure Relayed (tr : List (Input F × Output F)) (s : Sys F) : Prop where
  primary : s.displayMap hwcDisplayPrimary = some 1
  drained : s.callbacks .vsync = true → s.pendingVsyncs = []
  relayed : vsyncs 1 (callsOf tr) ++ (s.pendingVsyncs.filterMap fun p =>
    if p.1 = hwcDisplayPrimary then some p.2 else none) = received hwcDisplayPrimary tr

theorem Relayed.map_iff {tr : List (Input F × Output F)} (hr : Relayed tr s) (hs : Consistent s)
    (c : ℕ) : s.displayMap c = some 1 ↔ c = hwcDisplayPrimary := by
  constructor
  · intro h
    obtain ⟨x, hx, rfl⟩ := hs.display_of_map c 1 h
    obtain ⟨y, hy, hid⟩ := hs.display_of_map _ 1 hr.primary
    rw [hx] at hy
    cases hy
    exact hid
  · rintro rfl
    exact hr.primary

/-- A step that has nothing to do with vsyncs. -/
theorem Relayed.quiet {tr : List (Input F × Output F)} (hr : Relayed tr s) {i : Input F}
    {o : Output F} (hi : i.timestamp hwcDisplayPrimary = none) (hcalls : vsyncs 1 o.calls = [])
    (hprimary : t.displayMap hwcDisplayPrimary = s.displayMap hwcDisplayPrimary)
    (hcallback : t.callbacks .vsync = true → s.callbacks .vsync = true)
    (hpending : t.pendingVsyncs = s.pendingVsyncs) : Relayed (tr ++ [(i, o)]) t := by
  refine ⟨hprimary.trans hr.primary, fun h => hpending.trans (hr.drained (hcallback h)), ?_⟩
  rw [vsyncs_snoc, hcalls, List.append_nil, hpending, received_snoc, hi, Option.toList_none,
    List.append_nil]
  exact hr.relayed

/-- The client registers, and is told what was held back. -/
theorem Relayed.registered {tr : List (Input F × Output F)} (hr : Relayed tr s)
    (hs : Consistent s) {e : Error} {out : Option ℕ} :
    Relayed (tr ++ [(.registerCallback .vsync true,
      ⟨e, out, (registerCallback s .vsync true).2⟩)]) (registerCallback s .vsync true).1 := by
  refine ⟨hr.primary, fun _ => rfl, ?_⟩
  have hcalls : vsyncs 1 (registerCallback s .vsync true).2 = s.pendingVsyncs.filterMap fun p =>
      if p.1 = hwcDisplayPrimary then some p.2 else none := by
    refine (vsyncs_translate s 1 s.pendingVsyncs).trans ?_
    simp only [hr.map_iff hs]
  rw [vsyncs_snoc, hcalls, received_snoc]
  refine (List.append_nil _).trans ?_
  rw [hr.relayed]
  exact (List.append_nil _).symm

/-- A vsync is told, or held back. -/
theorem Relayed.vsync {tr : List (Input F × Output F)} (hr : Relayed tr s) (hs : Consistent s)
    (c : ℕ) (timestamp : ℤ) {e : Error} {out : Option ℕ} :
    Relayed (tr ++ [(.hwc1Vsync c timestamp, ⟨e, out, (hwc1Vsync s c timestamp).2⟩)])
      (hwc1Vsync s c timestamp).1 := by
  have hreceived : received hwcDisplayPrimary (tr ++ [(.hwc1Vsync c timestamp,
      (⟨e, out, (hwc1Vsync s c timestamp).2⟩ : Output F))]) = received hwcDisplayPrimary tr ++
        if c = hwcDisplayPrimary then [timestamp] else [] := by
    rw [received_snoc, Input.timestamp]
    split_ifs <;> rfl
  by_cases hregistered : s.callbacks .vsync = true
  · have hvsync : hwc1Vsync s c timestamp =
        (s, ((s.displayMap c).map fun d => .vsync d timestamp).toList) := by
      rw [hwc1Vsync, if_neg (not_not.mpr hregistered)]
    have hcalls : vsyncs 1 (hwc1Vsync s c timestamp).2 =
        if c = hwcDisplayPrimary then [timestamp] else [] := by
      rw [hvsync]
      simp only [← hr.map_iff hs c]
      cases s.displayMap c with
      | none => rfl
      | some d => by_cases hd : d = 1 <;> simp [vsyncs, Call.timestamp, hd]
    have hrelayed := hr.relayed
    rw [hr.drained hregistered, List.filterMap_nil, List.append_nil] at hrelayed
    refine ⟨?_, fun _ => ?_, ?_⟩
    · rw [hvsync]
      exact hr.primary
    · rw [hvsync]
      exact hr.drained hregistered
    · rw [hreceived, vsyncs_snoc, hcalls, hrelayed, hvsync, hr.drained hregistered,
        List.filterMap_nil, List.append_nil]
  · have hvsync : hwc1Vsync s c timestamp =
        ({ s with pendingVsyncs := s.pendingVsyncs ++ [(c, timestamp)] }, []) := by
      rw [hwc1Vsync, if_pos hregistered]
    refine ⟨?_, fun h => ?_, ?_⟩
    · rw [hvsync]
      exact hr.primary
    · rw [hvsync] at h
      exact absurd h hregistered
    · rw [hreceived, vsyncs_snoc, hvsync, ← hr.relayed, List.filterMap_append,
        ← List.append_assoc]
      simp only [vsyncs, List.filterMap_nil, List.append_nil, List.filterMap_cons]
      split_ifs <;> rfl

theorem vsyncs_map {α : Type*} (as : List α) (f : α → Call F)
    (h : ∀ d a, (f a).timestamp d = none) (d : ℕ) : vsyncs d (as.map f) = [] := by
  rw [vsyncs, List.filterMap_map]
  exact filterMap_const_none as fun a => h d a

theorem Relayed.heard {tr : List (Input F × Output F)} (hr : Relayed tr s) (hs : Consistent s)
    {i : Input F} (hi : i.timestamp hwcDisplayPrimary = none) {e : Error} {out : Option ℕ}
    {calls : List (Call F)} (hears : Hears s i t calls) :
    Relayed (tr ++ [(i, ⟨e, out, calls⟩)]) t := by
  cases hears with
  | nothing => exact hr.quiet hi rfl rfl id rfl
  | registered c pointer =>
    cases pointer with
    | false =>
      refine hr.quiet rfl rfl rfl (fun h => ?_) rfl
      cases c with
      | hotplug => exact h
      | refresh => exact h
      | vsync => cases h
    | true =>
      cases c with
      | hotplug => exact hr.quiet rfl (vsyncs_map _ _ (fun _ _ => rfl) 1) rfl id rfl
      | refresh =>
        refine hr.quiet rfl ?_ rfl id rfl
        rw [registerCallback, if_neg (not_not.mpr rfl)]
        dsimp only
        split_ifs
        · exact vsyncs_map _ _ (fun _ _ => rfl) 1
        · rfl
      | vsync => exact hr.registered hs
  | invalidate =>
    rw [hwc1Invalidate]
    split_ifs
    · exact hr.quiet rfl (vsyncs_map _ _ (fun _ _ => rfl) 1) rfl id rfl
    · exact hr.quiet rfl rfl rfl id rfl
  | vsync c timestamp => exact hr.vsync hs c timestamp
  | kept => exact hr.quiet rfl rfl rfl id rfl

theorem Relayed.step {tr : List (Input F × Output F)} (hr : Relayed tr s) (hs : Consistent s)
    {i : Input F} (hi : i.timestamp hwcDisplayPrimary = none) {e : Error} {out : Option ℕ}
    {calls : List (Call F)} (h : Speaks s i t calls) :
    Relayed (tr ++ [(i, ⟨e, out, calls⟩)]) t := by
  cases h with
  | silent same ears silent =>
    exact hr.quiet hi (vsyncs_of_silent silent 1) (by rw [same.displayMap])
      (fun h => ears.callbacks ▸ h) ears.pendingVsyncs
  | addedVirtual => exact hr.quiet rfl rfl rfl id rfl
  | addedExternal => exact hr.quiet rfl rfl rfl id rfl
  | removedVirtual => exact hr.quiet rfl rfl rfl id rfl
  | removedExternal => exact hr.quiet rfl rfl rfl id rfl
  | heard _ hears => exact hr.heard hs hi hears

/-- **No vsync of the primary display is lost, or told twice, or out of order**, in every run,
however often the client registers for them and gives it up: what it has been told, and then what is
held back, is what HWC 1 has reported. -/
theorem vsyncs_of_run {tr : List (Input F × Output F)}
    (h : StepSystem.Run (step env) (start env) tr s) :
    vsyncs 1 (callsOf tr) ++ (s.pendingVsyncs.filterMap fun p =>
      if p.1 = hwcDisplayPrimary then some p.2 else none) = received hwcDisplayPrimary tr ∧
      (s.callbacks .vsync = true → s.pendingVsyncs = []) := by
  have hrelayed : Consistent s ∧ Relayed tr s := by
    refine StepSystem.RunWhere.invariant (P := fun tr s => Consistent s ∧ Relayed tr s)
      ⟨consistent_start env, rfl, fun _ => rfl, rfl⟩ (fun {_ _ i _ _} hinv _ hstep => ?_) h
    have hhappens := happens_of_step hstep
    refine ⟨hinv.1.step hhappens, ?_⟩
    cases hi : i.timestamp hwcDisplayPrimary with
    | none => exact hinv.2.step hinv.1 hi (hhappens.speaks hinv.1)
    | some timestamp =>
      cases i with
      | hwc1Vsync c z =>
        cases hstep
        exact hinv.2.vsync hinv.1 c z
      | _ => cases hi
  exact ⟨hrelayed.2.relayed, hrelayed.2.drained⟩

/-- Two vsyncs come before the client registers, one after it, and one when it has given it up. -/
def ticking : List (Input ℕ) :=
  [.hwc1Vsync 0 16, .hwc1Vsync 0 33, .registerCallback .vsync true, .hwc1Vsync 0 50,
    .registerCallback .vsync false, .hwc1Vsync 0 66]

theorem vsyncs_of_run_ticking : ∃ (tr : List (Input ℕ × Output ℕ)) (s : Sys ℕ),
    StepSystem.Run (step plainEnv) (start plainEnv) tr s ∧ vsyncs 1 (callsOf tr) = [16, 33, 50] ∧
      vsyncs 1 (callsOf tr) ++ [66] = received hwcDisplayPrimary tr := by
  have hexec : StepSystem.exec (step plainEnv) (fun _ _ => True) (start plainEnv) ticking =
      some _ := rfl
  have hrun := StepSystem.run_of_exec hexec
  exact ⟨_, _, hrun, rfl, (vsyncs_of_run hrun).1⟩

end Device

end Adapter

end A1000

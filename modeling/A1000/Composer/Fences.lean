import A1000.Composer.Agreement

/-!
# Release fences

When HWC 1 has been set, it returns a release fence for each of its layers, and the client asks for
that of a layer of HWC 2 before it writes to its buffer again. HWC 1 knows the layers by their
places only; the adapter finds them in `mHwc1LayerMap`, although the client has gone on to create,
move and destroy layers since HWC 1 was asked.

What should come to a layer is told from the calls between the adapter and HWC 1 alone: when HWC 1
is asked, the layers line up in their places, and when it is set, the fence for each place belongs
to the layer that stood there.

## Main definitions

* `Adapter.Device.heard` — who has got which fences, told from the calls

## Main results

* `Adapter.Device.releaseFences_of_run` — every layer gets the fences of its places
-/

namespace A1000

namespace Adapter

namespace Device

open Composer

variable {F : Type*} {env : Env F} {s t : Sys F}

/-! ### Told from the calls -/

/-- The layers in the places of each display, and the fences of each layer. -/
structure Post where
  lineup : ℕ → List ℕ
  fences : ℕ → List ℤ

/-- The fences for the places where the layer stands. -/
def shares (places : List ℕ) (release : ℕ → ℤ) (l : ℕ) : List ℤ :=
  (places.zipIdx.filter (·.1 = l)).map fun p => release p.2

theorem shares_of_not_mem {places : List ℕ} {release : ℕ → ℤ} {l : ℕ} (h : l ∉ places) :
    shares places release l = [] := by
  rw [shares, List.map_eq_nil_iff, List.filter_eq_nil_iff]
  intro p hp heq
  exact h (of_decide_eq_true heq ▸ List.fst_mem_of_mem_zipIdx hp)

/-- One call: the layers line up, or the fences are handed out. -/
def hear (p : Post) : Call F → Post
  | .prepare asked =>
    { p with lineup := fun c => ((asked[c]?.join).map (·.layers.map Prod.fst)).getD [] }
  | .set shown fences =>
    { p with
      fences := fun l => p.fences l ++ shown.zipIdx.flatMap fun t =>
        if t.1.isSome then shares (p.lineup t.2) (fences t.2).release l else [] }
  | _ => p

def heard (calls : List (Call F)) : Post := calls.foldl hear ⟨fun _ => [], fun _ => []⟩

/-- What the adapter has called. -/
def callsOf (tr : List (Input F × Output F)) : List (Call F) := tr.flatMap (·.2.calls)

theorem callsOf_snoc (tr : List (Input F × Output F)) (i : Input F) (o : Output F) :
    callsOf (tr ++ [(i, o)]) = callsOf tr ++ o.calls := by
  rw [callsOf, List.flatMap_append]
  simp [callsOf]

/-- HWC 1 is not called. -/
def Call.Silent : Call F → Prop
  | .prepare _ => False
  | .set _ _ => False
  | _ => True

theorem Call.Tells.silent {c : Call F} (h : c.Tells) : c.Silent := by
  cases c with
  | prepare => exact h
  | set => exact h
  | _ => trivial

theorem silent_close {fds : List ℤ} {c : Call F} (h : c ∈ fds.map .close) : c.Silent := by
  obtain ⟨fd, -, rfl⟩ := List.mem_map.mp h
  trivial

theorem silent_hotplug {d : ℕ} {z : ℤ} : ∀ c ∈ [(.hotplug d z : Call F)], c.Silent := by
  intro c hc
  cases List.mem_singleton.mp hc
  trivial

theorem foldl_hear_of_silent {calls : List (Call F)} (h : ∀ c ∈ calls, c.Silent) (p : Post) :
    calls.foldl hear p = p := by
  induction calls generalizing p with
  | nil => rfl
  | cons c calls ih =>
    have hc : hear p c = p := by
      have hsilent := h c List.mem_cons_self
      cases c with
      | prepare => exact hsilent.elim
      | set => exact hsilent.elim
      | _ => rfl
    rw [List.foldl_cons, hc]
    exact ih (fun c' hc' => h c' (List.mem_cons_of_mem _ hc')) p

theorem heard_snoc (tr : List (Input F × Output F)) (i : Input F) (o : Output F) :
    heard (callsOf (tr ++ [(i, o)])) = o.calls.foldl hear (heard (callsOf tr)) := by
  rw [callsOf_snoc, heard, List.foldl_append]
  rfl

/-! ### What the adapter does with the fences -/

theorem releaseFences_addReleaseFences (release : ℕ → ℤ) (ts : List (ℕ × ℕ)) (s : Sys F) (l : ℕ) :
    ((ts.foldl (addReleaseFence release) s).layer l).releaseFences =
      (s.layer l).releaseFences ++ (ts.filter (·.1 = l)).map fun p => release p.2 := by
  induction ts generalizing s with
  | nil => simp
  | cons p ts ih =>
    rw [List.foldl_cons, ih, addReleaseFence, layer_modifyLayer, List.filter_cons]
    by_cases hp : p.1 = l
    · rw [if_pos hp.symm, if_pos (decide_eq_true hp), List.map_cons, List.append_assoc]
      rfl
    · rw [if_neg (Ne.symm hp), if_neg (by simpa using hp)]

theorem releaseFences_addFences (s : Sys F) (d : ℕ) (x : Display F) (r : Fences) (l : ℕ) :
    ((addFences s d x r).1.layer l).releaseFences =
      (s.layer l).releaseFences ++ shares x.layerMap r.release l :=
  releaseFences_addReleaseFences r.release x.layerMap.zipIdx _ l

/-- What a layer gets of the display under the number `t.2`. -/
def share (s : Sys F) (fences : ℕ → Fences) (l : ℕ) (t : Option ℕ × ℕ) : List ℤ :=
  match t.1, (s.displayMap t.2).bind s.display with
  | some _, some x => shares x.layerMap (fences t.2).release l
  | _, _ => []

/-- The displays are found as before, with the same layers in their places. -/
theorem share_addFences (s : Sys F) (d : ℕ) (x : Display F) (r : Fences) :
    share (addFences s d x r).1 = share s := by
  have hfollows := follows_addFences s d x r
  funext fences l t
  rw [share, share, hfollows.displayMap]
  cases t.1 with
  | none => rfl
  | some d₀ =>
    cases hmap : s.displayMap t.2 with
    | none => rfl
    | some d' =>
      have hdisplay : (addFences s d x r).1.display d' = if d' = d then
          (s.display d').map (fun x => { x with retireFences := x.retireFences ++ [r.retire] })
          else s.display d' := by
        rw [addFences, display_addReleaseFences]
        rfl
      rw [Option.bind_some, Option.bind_some, hdisplay]
      cases s.display d' with
      | none => simp
      | some y => split_ifs <;> rfl

theorem releaseFences_addEach (fences : ℕ → Fences) (c : ℕ) (pushed : List (Option ℕ))
    (s : Sys F) (l : ℕ) : ((addEach s fences c pushed).1.layer l).releaseFences =
      (s.layer l).releaseFences ++ (pushed.zipIdx c).flatMap (share s fences l) := by
  induction pushed generalizing s c with
  | nil => simp [addEach]
  | cons o pushed ih =>
    rw [List.zipIdx_cons, List.flatMap_cons]
    cases o with
    | none => exact ih (c + 1) s
    | some d₀ =>
      rw [addEach]
      cases hmap : s.displayMap c with
      | none =>
        have hshare : share s fences l (some d₀, c) = [] := by simp [share, hmap]
        rw [hshare]
        exact ih (c + 1) s
      | some d =>
        cases hx : s.display d with
        | none =>
          have hshare : share s fences l (some d₀, c) = [] := by simp [share, hmap, hx]
          rw [hshare]
          simp only [Option.bind_some, hx, Option.map_none]
          exact ih (c + 1) s
        | some x =>
          have hshare : share s fences l (some d₀, c) =
              shares x.layerMap (fences c).release l := by simp [share, hmap, hx]
          simp only [Option.bind_some, hx, Option.map_some]
          rw [ih, releaseFences_addFences, share_addFences, hshare, List.append_assoc]

/-! ### Every run -/

/-- **The fences have been handed out as they should**, and the layers of a validated display stand
in their places. -/
structure Delivered (tr : List (Input F × Output F)) (s : Sys F) : Prop where
  fences : ∀ l, (s.layer l).releaseFences = (heard (callsOf tr)).fences l
  lineup : ∀ d x ch, s.display d = some x → x.changes = some ch →
    (heard (callsOf tr)).lineup x.hwc1Id = x.layerMap
  unmade : ∀ l, s.nextLayer ≤ l → (s.layer l).releaseFences = []

/-- The displays that are validated were so before. -/
def SameLineup (s t : Sys F) : Prop :=
  ∀ d y ch, t.display d = some y → y.changes = some ch → ∃ x ch', s.display d = some x ∧
    x.changes = some ch' ∧ y.hwc1Id = x.hwc1Id ∧ y.layerMap = x.layerMap

theorem SameHeld.sameLineup (h : SameHeld s t) : SameLineup s t := by
  intro d y ch hy hch
  obtain ⟨x, hx, hxch, hid, -, hmap⟩ := h d y ch hy hch
  exact ⟨x, ch, hx, hxch, hid, hmap⟩

/-- A step that does not call HWC 1. -/
theorem Delivered.silent {tr : List (Input F × Output F)} (hp : Delivered tr s) {i : Input F}
    {o : Output F} (hcalls : ∀ c ∈ o.calls, c.Silent) (hlineup : SameLineup s t)
    (hfences : ∀ l, (t.layer l).releaseFences = (s.layer l).releaseFences)
    (hnext : s.nextLayer ≤ t.nextLayer) : Delivered (tr ++ [(i, o)]) t := by
  have hheard : heard (callsOf (tr ++ [(i, o)])) = heard (callsOf tr) := by
    rw [heard_snoc, foldl_hear_of_silent hcalls]
  constructor
  · intro l
    rw [hheard, hfences]
    exact hp.fences l
  · intro d y ch hy hch
    obtain ⟨x, ch', hx, hxch, hid, hmap⟩ := hlineup d y ch hy hch
    rw [hheard, hid, hmap]
    exact hp.lineup d x ch' hx hxch
  · intro l hl
    rw [hfences]
    exact hp.unmade l (hnext.trans hl)

/-- HWC 1 is asked. -/
theorem Delivered.prepared {tr : List (Input F × Output F)} (hp : Delivered tr s)
    (hs : Consistent s) (hheld : Held env s) {a₁ a₂ : Answers} {i : Input F} {e : Error}
    {calls : List (Call F)} (h : prepareAllDisplays env s a₁ a₂ = some (t, true, calls)) :
    Delivered (tr ++ [(i, ⟨e, none, calls⟩)]) t := by
  have hsame := sameStack_prepareAllDisplays h
  obtain ⟨ht, rfl⟩ := prepareAllDisplays_cases h rfl
  have hlayer : t.layer = s.layer := by
    rw [ht]
    exact layer_giveBack _ _ _
  constructor
  · intro l
    rw [heard_snoc, hlayer]
    exact hp.fences l
  · intro d y ch hy hch
    obtain ⟨x, k, hx, hslot, -, rfl⟩ := display_of_prepareAllDisplays hs hheld h hy hch
    have hasked : (s.asked env)[x.hwc1Id]? = some (some (x.asked env s.layer d)) := by
      rw [Sys.asked, List.getElem?_map, getElem?_slots_of_lt hslot, hs.map_of_display d x hx]
      simp [hx]
    have hlineup : (x.asked env s.layer d).layers.map Prod.fst = x.layers :=
      List.map_fst_zip (by simp [Display.written])
    rw [heard_snoc]
    simp only [List.foldl_cons, List.foldl_nil, hear]
    rw [show ((x.prepare env s.layer).receive env s.layer k).hwc1Id = x.hwc1Id from rfl, hasked]
    exact hlineup
  · intro l hl
    rw [hlayer]
    exact hp.unmade l (hsame.nextLayer ▸ hl)

/-- HWC 1 is set. -/
theorem Delivered.set {tr : List (Input F × Output F)} (hp : Delivered tr s) (hs : Consistent s)
    (ho : Owned s) {i : Input F} {fences : ℕ → Fences} {closed : List ℤ}
    (h : setEach s 0 s.contents = some (t, true, closed)) :
    Delivered (tr ++ [(i, ⟨.none, none, closed.map .close ++ [.set t.shown fences] ++
      (addEach t fences 0 t.contents).2.map .close⟩)]) (addEach t fences 0 t.contents).1 := by
  obtain ⟨hdone, -, hmap⟩ := setEach_done h
  obtain ⟨hlayer, -⟩ := layer_setEach h
  have hfollows := follows_setEach h
  have hheard : heard (callsOf (tr ++ [(i, ⟨.none, none, closed.map .close ++
      [.set t.shown fences] ++ (addEach t fences 0 t.contents).2.map .close⟩)])) =
        hear (heard (callsOf tr)) (.set t.shown fences : Call F) := by
    rw [heard_snoc, List.foldl_append, List.foldl_append,
      foldl_hear_of_silent fun c hc => silent_close hc,
      foldl_hear_of_silent fun c hc => silent_close hc]
    rfl
  constructor
  · intro l
    rw [hheard, releaseFences_addEach, hlayer, hp.fences l]
    refine congrArg ((heard (callsOf tr)).fences l ++ ·) ?_
    rw [Sys.shown, hfollows.contents, List.zipIdx_map, List.flatMap_map]
    refine List.flatMap_congr fun p hp' => ?_
    have hget := List.mem_zipIdx_iff_getElem?.mp hp'
    obtain ⟨o, c⟩ := p
    cases o with
    | none => rfl
    | some d =>
      obtain ⟨x, ch, hx, hch, -, hx'⟩ := hdone d (List.mem_of_getElem? hget)
      have hmap' : s.displayMap c = some d := Nat.zero_add c ▸ hmap c d hget
      obtain ⟨y, hy, hid⟩ := hs.display_of_map c d hmap'
      obtain rfl : y = x := Option.some.inj (hy.symm.trans hx)
      have hlineup := hp.lineup d y ch hx hch
      rw [hid] at hlineup
      have hshare : share t fences l (some d, c) = shares y.layerMap (fences c).release l := by
        simp only [share, hfollows.displayMap, hmap', Option.bind_some, hx']
        rfl
      rw [hshare]
      simp [Prod.map, hx', hlineup]
  · intro d y ch hy hch
    obtain ⟨x, ch', hx, hxch, hid, hmap'⟩ :=
      (sameHeld_addEach fences 0 t.contents t).sameLineup d y ch hy hch
    obtain ⟨x', hx', hxch', hid', -, hmap''⟩ := sameHeld_setEach h d x ch' hx hxch
    rw [hheard, hid, hid', hmap', hmap'']
    exact hp.lineup d x' ch' hx' hxch'
  · intro l hl
    have hset := sameStack_setEach h
    rw [(sameStack_addEach _ _ _ _).nextLayer, hset.nextLayer] at hl
    rw [releaseFences_addEach, hlayer, hp.unmade l hl, List.nil_append, List.flatMap_eq_nil_iff]
    intro p _
    rw [share]
    split
    · rename_i y _ hy
      obtain ⟨d, -, hy⟩ := Option.bind_eq_some_iff.mp hy
      obtain ⟨x, hx, -, hmap' | hmap'⟩ := hset.display d y hy
      · rw [hmap']
        exact shares_of_not_mem fun hmem =>
          absurd ((ho.layerMap d x hx).2 l hmem).1 (Nat.not_lt.mpr hl)
      · rw [hmap']
        exact shares_of_not_mem fun hmem =>
          absurd ((ho.layers d x hx).2 l hmem).1 (Nat.not_lt.mpr hl)
    · rfl

/-- No setter writes fences. -/
theorem releaseFences_callLayer (s : Sys F) (l k : ℕ) (call : LayerCall F) :
    ((callLayer env s l call).layer k).releaseFences = (s.layer k).releaseFences := by
  have hlayer : ((s.modifyLayer l fun y =>
      { y with state := y.state.call env.minorVersion call }).layer k).releaseFences =
        (s.layer k).releaseFences := by
    rw [layer_modifyLayer]
    split_ifs <;> rfl
  rw [callLayer]
  split_ifs
  · exact hlayer
  · exact hlayer

theorem releaseFences_acceptChanges (s : Sys F) (d k : ℕ) (x : Display F) :
    ((acceptChanges env s d x).1.layer k).releaseFences = (s.layer k).releaseFences := by
  rw [acceptChanges]
  split
  · rfl
  · rename_i ch _
    rw [layer_modifyDisplay]
    generalize ch.types = types
    induction types generalizing s with
    | nil => rfl
    | cons p types ih =>
      refine (ih (acceptChange env s p)).trans ?_
      rw [acceptChange]
      split_ifs
      · exact releaseFences_callLayer ..
      · rfl

theorem Delivered.step {tr : List (Input F × Output F)} (hp : Delivered tr s) (hs : Consistent s)
    (ho : Owned s) (hheld : Held env s) {i : Input F} {o : Output F} (h : Happens env s i t o) :
    Delivered (tr ++ [(i, o)]) t := by
  have hnone : ∀ c ∈ ([] : List (Call F)), c.Silent := fun _ hc => absurd hc List.not_mem_nil
  cases h with
  | quiet same _ tells =>
    exact hp.silent (fun c hc => (tells c hc).silent) (sameHeld_of_display same.display).sameLineup
      (fun _ => by rw [same.layer]) same.nextLayer.ge
  | addedVirtual =>
    exact hp.silent hnone (sameHeld_addDisplay s _ _).sameLineup (fun _ => rfl) le_rfl
  | addedExternal =>
    exact hp.silent silent_hotplug (sameHeld_addDisplay s _ s.virtualDisplay).sameLineup
      (fun _ => rfl) le_rfl
  | removedVirtual =>
    exact hp.silent hnone (sameHeld_removeDisplay s _ _ none).sameLineup (fun _ => rfl) le_rfl
  | removedExternal =>
    exact hp.silent silent_hotplug (sameHeld_removeDisplay s _ _ s.virtualDisplay).sameLineup
      (fun _ => rfl) le_rfl
  | createdLayer =>
    refine hp.silent hnone (sameHeld_createLayer s _).sameLineup (fun l => ?_) (Nat.le_succ _)
    rw [layer_createLayer]
    split_ifs with hl
    · exact (hp.unmade l hl.ge).symm
    · rfl
  | destroyedLayer =>
    exact hp.silent hnone (sameHeld_destroyLayer s _ _).sameLineup
      (fun _ => by rw [layer_destroyLayer]) (nextLayer_destroyLayer s _ _).ge
  | movedLayer there known mem hz =>
    refine hp.silent hnone (sameHeld_updateLayerZ s _ _ _ _).sameLineup (fun l => ?_) ?_
    · rw [updateLayerZ_of_ne known mem hz, layer_modifyDisplay, layer_modifyLayer]
      split_ifs <;> rfl
    · rw [updateLayerZ_of_ne known mem hz]
      exact le_rfl
  | calledLayer =>
    exact hp.silent hnone (sameHeld_callLayer s _ _).sameLineup
      (fun l => releaseFences_callLayer s _ l _) (sameStack_callLayer s _ _).nextLayer.ge
  | setDisplay _ rest =>
    exact hp.silent hnone (sameHeld_of_rest s _ rest).sameLineup (fun _ => rfl) le_rfl
  | validated _ _ prepared => exact hp.prepared hs hheld prepared
  | notPrepared free => exact absurd free hs.primary
  | accepted _ changes =>
    refine hp.silent hnone (fun k y ch hy hch => ?_) (fun l => releaseFences_acceptChanges s _ l _)
      (sameStack_acceptChanges s _ _).nextLayer.ge
    obtain ⟨z, ch₀, hz, hzch, hid, -, hmap, -⟩ := exists_of_acceptChanges changes hy hch
    exact ⟨z, ch₀, hz, hzch, hid, hmap⟩
  | notSet _ _ failed =>
    exact hp.silent (fun c hc => silent_close hc) (sameHeld_setEach failed).sameLineup
      (fun l => by rw [(layer_setEach failed).1]) (sameStack_setEach failed).nextLayer.ge
  | set _ _ done => exact hp.set hs ho done

theorem delivered_start (env : Env F) : Delivered [] (start env) := by
  refine ⟨fun _ => rfl, fun d x ch hx hch => ?_, fun _ _ => rfl⟩
  simp only [start] at hx
  split_ifs at hx
  cases hx
  cases hch

theorem delivered_of_run {tr : List (Input F × Output F)}
    (h : StepSystem.Run (step env) (start env) tr s) : Delivered tr s := by
  refine (StepSystem.RunWhere.invariant
    (P := fun tr s => Consistent s ∧ Owned s ∧ Held env s ∧ Delivered tr s)
    ⟨consistent_start env, owned_start env, held_start env, delivered_start env⟩
    (fun hinv _ hstep => ?_) h).2.2.2
  obtain ⟨hs, ho, hheld, hp⟩ := hinv
  have hhappens := happens_of_step hstep
  exact ⟨hs.step hhappens, ho.step hhappens.shifts, hheld.step hs hhappens,
    hp.step hs ho hheld hhappens⟩

/-- **Every layer gets the fences of its places**: for each display that was shown, those for the
places where it stood when HWC 1 was last asked, although the client has moved and destroyed layers
since. -/
theorem releaseFences_of_run {tr : List (Input F × Output F)}
    (h : StepSystem.Run (step env) (start env) tr s) (l : ℕ) :
    (s.layer l).releaseFences = (heard (callsOf tr)).fences l :=
  (delivered_of_run h).fences l

/-- The layers change places after HWC 1 was asked. -/
theorem releaseFences_of_run_raised : ∃ (tr : List (Input ℕ × Output ℕ)) (s : Sys ℕ),
    StepSystem.Run (step plainEnv) (start plainEnv) tr s ∧ (s.layer 1).releaseFences = [1] ∧
      (s.layer 1).releaseFences = (heard (callsOf tr)).fences 1 := by
  have hexec : StepSystem.exec (step plainEnv) (fun _ _ => True) (start plainEnv)
      (raisedInputs ++ [.validate 1 lowestTaken lowestTaken, .acceptChanges 1,
        .updateLayerZ 1 2 9, .present 1 numbered]) = some _ := rfl
  have hrun := StepSystem.run_of_exec hexec
  exact ⟨_, _, hrun, rfl, releaseFences_of_run hrun 1⟩

end Device

end Adapter

end A1000

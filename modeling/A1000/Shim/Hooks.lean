import A1000.Lib.Run
import Mathlib.Logic.Function.Basic

/-!
# The hooks that are put into gralloc

`libsprdshim_fbpost.cpp` replaces two function pointers: `methods->open` of the gralloc module, so
that it sees every framebuffer device, and `post` of each of these devices. What was there before
is kept in `g_real_hw_open` and `g_real_post` and called from the replacement.

The hooks are put in from within `ioctl`, which the whole process goes through, the loader and the
constructors of the vendor's libraries included. Where `a1000_hook_gralloc_factory` waits for
`hw_get_module`, or `a1000_patch_post` for its own `ioctl`, other calls may come in. The calls that
wait stand on a stack; a step is whatever happens until foreign code is entered again.

Left out: the size of the frame, the address of the module and the two other properties, which the
hooks do not look at.

## Main definitions

* `Hooks.patchPost`, `Hooks.hookGrallocFactory`, `Hooks.zcHookFb` — the functions, up to the call
  in which they wait
* `Hooks.step` — what can happen: a call comes in, or foreign code returns to the one on top
* `Hooks.Kept.Safe` — no hook keeps itself, and none is put in twice
* `Hooks.StillUnhooked` — what was tested before a call still holds after it

## Main results

* `Hooks.effect_of_step` — what a step does to the pointers
* `Hooks.never_captured_iff` — in which runs the hooks are safe
-/

namespace A1000

namespace Hooks

open StepSystem

/-! ### The pointers -/

/-- A value of `methods->open`. -/
inductive HwOpen
  | a1000GrallocOpen
  | stock (n : ℕ)
  deriving DecidableEq, Repr

/-- A value of `post`. -/
inductive Post
  | a1000OverlayPost
  | stock (n : ℕ)
  deriving DecidableEq, Repr

/-- The address of a framebuffer device. -/
abbrev Dev := ℕ

/-- What the hooks keep, and how often they have been put in: into the module, and into a device
since it is there. -/
structure Kept where
  gRealHwOpen : Option HwOpen
  gRealPost : Option Post
  factory : ℕ
  posts : Dev → ℕ

/-- A call that waits for foreign code to return. -/
inductive Frame
  /-- `a1000_patch_post` in its `ioctl`; whether it was called by `a1000_zc_hook_fb`. -/
  | patchPost (dev : Dev) (thenHook : Bool)
  /-- `a1000_hook_gralloc_factory` in `hw_get_module`. -/
  | hookGrallocFactory
  /-- `a1000_gralloc_open` in `g_real_hw_open`; whether it opens `fb0`. -/
  | grallocOpen (fb0 : Bool)
  deriving DecidableEq, Repr

/-- What the process is set up with: the property `debug.sf.a1000_zerocopy`, and whether
`/dev/graphics/fb0` can be opened. -/
structure Config where
  zerocopy : Bool
  fbOpens : Bool

/-- The variables of the file, the module and the devices, and the calls that wait, innermost
first. Variables that start at -1 or -2 for "unknown" are `none` then. -/
structure State where
  zc : Option Bool
  /-- Whether `g_fbfd` is a descriptor. -/
  gFbfd : Option Bool
  methodsOpen : HwOpen
  post : Dev → Option Post
  stack : List Frame
  kept : Kept

/-- The process before its first ioctl. -/
def start (n : ℕ) : State where
  zc := none
  gFbfd := none
  methodsOpen := .stock n
  post _ := none
  stack := []
  kept := ⟨none, none, 0, fun _ => 0⟩

/-! ### The functions -/

/-- `a1000_fbopen`. -/
def fbopen (c : Config) (s : State) : State := { s with gFbfd := some (s.gFbfd.getD c.fbOpens) }

/-- `a1000_hook_gralloc_factory`, up to `hw_get_module`. -/
def hookGrallocFactory (s : State) : State :=
  if s.kept.gRealHwOpen.isSome then s else { s with stack := .hookGrallocFactory :: s.stack }

/-- What `a1000_zc_hook_fb` does after `a1000_patch_post`. -/
def afterPatch (thenHook : Bool) (s : State) : State :=
  if thenHook then hookGrallocFactory s else s

/-- `a1000_patch_post`, up to its `ioctl`. -/
def patchPost (c : Config) (ioctl : State → State) (dev : Option Dev) (thenHook : Bool)
    (s : State) : State :=
  let s := fbopen c s
  match dev with
  | none => afterPatch thenHook s
  | some d =>
    if s.post d = some .a1000OverlayPost ∨ s.gFbfd ≠ some true then afterPatch thenHook s
    else ioctl { s with stack := .patchPost d thenHook :: s.stack }

/-- `a1000_zc_hook_fb`. -/
def zcHookFb (c : Config) (ioctl : State → State) (dev : Option Dev) (s : State) : State :=
  if s.zc = some false ∨ s.zc = some true ∧ s.kept.gRealHwOpen.isSome ∧ dev = none then s
  else
    let s := { s with zc := some (s.zc.getD c.zerocopy) }
    if s.zc = some false then s else patchPost c ioctl dev true s

/-- `ioctl`, before it comes to the real one: without a device, no further `ioctl` is made. -/
def ioctl (c : Config) (s : State) : State := zcHookFb c id none s

/-- The end of `a1000_patch_post`, when its `ioctl` has succeeded. -/
def replacePost (d : Dev) (old : Post) (s : State) : State :=
  { s with
    post := Function.update s.post d (some .a1000OverlayPost)
    kept := { s.kept with
      gRealPost := some old
      posts := Function.update s.kept.posts d (s.kept.posts d + 1) } }

/-- The end of `a1000_hook_gralloc_factory`, when it has the module and may write to it. -/
def replaceOpen (s : State) : State :=
  { s with
    methodsOpen := .a1000GrallocOpen
    kept := { s.kept with
      gRealHwOpen := some s.methodsOpen
      factory := s.kept.factory + 1 } }

/-! ### What can happen -/

inductive Label
  | ioctl
  | compositionComplete (d : Dev)
  /-- `methods->open` is called, after it has been replaced. -/
  | openDevice (fb0 : Bool)
  /-- The `ioctl` of `a1000_patch_post` returns. -/
  | vscreeninfo (ok : Bool)
  /-- `hw_get_module` returns; whether there is a module, with a page that can be written. -/
  | gotModule (ok : Bool)
  /-- `g_real_hw_open` returns, with a device and its `post`. -/
  | opened (dev : Option (Dev × ℕ))
  /-- A device has been opened past the hook. -/
  | direct (d : Dev) (n : ℕ)
  | closeDevice (d : Dev)
  deriving DecidableEq, Repr

/-- A device appears, with a `post` of its own. -/
def addDevice (d : Dev) (n : ℕ) (s : State) : State :=
  { s with post := Function.update s.post d (some (.stock n)) }

/-- A device goes. -/
def removeDevice (d : Dev) (s : State) : State :=
  { s with
    post := Function.update s.post d none
    kept := { s.kept with posts := Function.update s.kept.posts d 0 } }

/-- Whether a call that waits is about the device. -/
def Frame.about (d : Dev) : Frame → Bool
  | .patchPost e _ => e = d
  | _ => false

/-- The state after a step; `none` where it cannot happen. A device is not closed, nor its address
given out again, while a call is about it. -/
def next (c : Config) (s : State) : Label → Option State
  | .ioctl => some (ioctl c s)
  | .compositionComplete d =>
    if s.post d ≠ none then some (zcHookFb c (ioctl c) (some d) s) else none
  | .openDevice fb0 =>
    match s.methodsOpen, s.kept.gRealHwOpen with
    | .stock _, _ => none
    | .a1000GrallocOpen, none => some s
    | .a1000GrallocOpen, some (.stock _) => some { s with stack := .grallocOpen fb0 :: s.stack }
    -- it calls itself and never comes to an end
    | .a1000GrallocOpen, some .a1000GrallocOpen => none
  | .vscreeninfo ok =>
    match s.stack with
    | .patchPost d thenHook :: rest =>
      (s.post d).map fun old =>
        let s := { s with stack := rest }
        afterPatch thenHook (if ok then replacePost d old s else s)
    | _ => none
  | .gotModule ok =>
    match s.stack with
    | .hookGrallocFactory :: rest =>
      let s := { s with stack := rest }
      some (if ok then replaceOpen s else s)
    | _ => none
  | .opened dev =>
    match s.stack with
    | .grallocOpen fb0 :: rest =>
      let s := { s with stack := rest }
      match fb0, dev with
      | true, some (d, n) =>
        if s.post d = none then some (patchPost c (ioctl c) (some d) false (addDevice d n s))
        else none
      | _, _ => some s
    | _ => none
  | .direct d n => if s.post d = none then some (addDevice d n s) else none
  | .closeDevice d =>
    if s.post d ≠ none ∧ ∀ f ∈ s.stack, Frame.about d f = false then some (removeDevice d s)
    else none

/-- One step, and what the hooks keep after it. -/
def step (c : Config) (s : State) (l : Label) : Option (State × Kept) :=
  (next c s l).map fun t => (t, t.kept)

/-! ### The property and the condition -/

/-- **The hooks are safe**: none calls itself, and none has been put in twice. -/
structure Kept.Safe (k : Kept) : Prop where
  hwOpen : k.gRealHwOpen ≠ some .a1000GrallocOpen
  post : k.gRealPost ≠ some .a1000OverlayPost
  factory : k.factory ≤ 1
  posts : ∀ d, k.posts d ≤ 1

/-- The device whose `post` is about to be replaced. -/
def State.patching (s : State) : Option Dev :=
  match s.stack with
  | .patchPost d _ :: _ => some d
  | _ => none

/-- **What was tested still holds**: when `hw_get_module` returns, nobody has put the hook into the
module in the meantime, and when the `ioctl` of `a1000_patch_post` returns, nobody has put the
other one into this device. -/
def StillUnhooked (s : State) : Label → Prop
  | .gotModule true => s.kept.gRealHwOpen = none
  | .vscreeninfo true => s.patching.bind s.post ≠ some .a1000OverlayPost
  | _ => True

instance (s : State) : DecidablePred (StillUnhooked s)
  | .gotModule true => inferInstanceAs (Decidable (_ = none))
  | .vscreeninfo true => inferInstanceAs (Decidable (_ ≠ some _))
  | .gotModule false | .vscreeninfo false | .ioctl | .compositionComplete _ | .openDevice _
  | .opened _ | .direct _ _ | .closeDevice _ => inferInstanceAs (Decidable True)

/-! ### What a step does to the pointers -/

/-- The pointers are as they were. -/
structure Same (s t : State) : Prop where
  methodsOpen : t.methodsOpen = s.methodsOpen
  post : t.post = s.post
  kept : t.kept = s.kept

theorem Same.refl (s : State) : Same s s := ⟨rfl, rfl, rfl⟩

theorem Same.trans {s t u : State} (h : Same s t) (h' : Same t u) : Same s u :=
  ⟨h'.methodsOpen.trans h.methodsOpen, h'.post.trans h.post, h'.kept.trans h.kept⟩

theorem same_afterPatch (thenHook : Bool) (s : State) : Same s (afterPatch thenHook s) := by
  rw [afterPatch, hookGrallocFactory]
  repeat' split
  all_goals exact ⟨rfl, rfl, rfl⟩

theorem same_patchPost {c : Config} {f : State → State} (hf : ∀ s, Same s (f s))
    (dev : Option Dev) (thenHook : Bool) (s : State) : Same s (patchPost c f dev thenHook s) := by
  have hopen : Same s (fbopen c s) := ⟨rfl, rfl, rfl⟩
  cases dev with
  | none => exact hopen.trans (same_afterPatch _ _)
  | some d =>
    simp only [patchPost]
    split
    · exact hopen.trans (same_afterPatch _ _)
    · refine Same.trans ?_ (hf _)
      exact ⟨rfl, rfl, rfl⟩

theorem same_zcHookFb {c : Config} {f : State → State} (hf : ∀ s, Same s (f s))
    (dev : Option Dev) (s : State) : Same s (zcHookFb c f dev s) := by
  simp only [zcHookFb]
  split_ifs
  · exact .refl s
  · exact ⟨rfl, rfl, rfl⟩
  · refine Same.trans ?_ (same_patchPost hf _ _ _)
    exact ⟨rfl, rfl, rfl⟩

theorem same_ioctl (c : Config) (s : State) : Same s (ioctl c s) :=
  same_zcHookFb Same.refl none s

/-- What a step does to the pointers, and when what was tested still holds. -/
inductive Effect (s : State) : Label → State → Prop
  | quiet {l : Label} {t : State} (same : Same s t) (still : StillUnhooked s l) : Effect s l t
  | replaceOpen {t : State} (same : Same (replaceOpen s) t) : Effect s (.gotModule true) t
  | replacePost {t : State} {d : Dev} {old : Post} (top : s.patching = some d)
      (had : s.post d = some old) (same : Same (replacePost d old s) t) :
      Effect s (.vscreeninfo true) t
  | add {l : Label} {t : State} {d : Dev} {n : ℕ} (new : s.post d = none)
      (same : Same (addDevice d n s) t) (still : StillUnhooked s l) : Effect s l t
  | remove {t : State} {d : Dev} (same : Same (removeDevice d s) t) : Effect s (.closeDevice d) t

/-- **What a step does to the pointers.** -/
theorem effect_of_step {c : Config} {s t : State} {l : Label} (h : next c s l = some t) :
    Effect s l t := by
  cases l with
  | ioctl =>
    cases h
    exact .quiet (same_ioctl c s) trivial
  | compositionComplete d =>
    simp only [next] at h
    split at h <;> cases h
    exact .quiet (same_zcHookFb (same_ioctl c) _ s) trivial
  | openDevice fb0 =>
    simp only [next] at h
    split at h <;> cases h
    · exact .quiet (.refl s) trivial
    · exact .quiet ⟨rfl, rfl, rfl⟩ trivial
  | vscreeninfo ok =>
    simp only [next] at h
    split at h
    · rename_i d b rest htop
      obtain ⟨old, hold, rfl⟩ := Option.map_eq_some_iff.mp h
      cases ok with
      | true =>
        have hpatching : s.patching = some d := by rw [State.patching, htop]
        refine .replacePost hpatching hold (.trans ?_ (same_afterPatch b _))
        exact ⟨rfl, rfl, rfl⟩
      | false =>
        refine .quiet (.trans ?_ (same_afterPatch b _)) trivial
        exact ⟨rfl, rfl, rfl⟩
    · cases h
  | gotModule ok =>
    simp only [next] at h
    split at h <;> cases h
    cases ok with
    | true => exact .replaceOpen ⟨rfl, rfl, rfl⟩
    | false => exact .quiet ⟨rfl, rfl, rfl⟩ trivial
  | opened dev =>
    simp only [next] at h
    split at h
    · split at h
      · rename_i d n _
        split at h <;> cases h
        refine .add (d := d) (n := n) ‹_› (.trans ?_ (same_patchPost (same_ioctl c) _ _ _)) trivial
        exact ⟨rfl, rfl, rfl⟩
      · cases h
        exact .quiet ⟨rfl, rfl, rfl⟩ trivial
    · cases h
  | direct d n =>
    simp only [next] at h
    split at h <;> cases h
    exact .add ‹_› (.refl _) trivial
  | closeDevice d =>
    simp only [next] at h
    split at h <;> cases h
    exact .remove (.refl _)

/-! ### The invariant -/

/-- The pointers, as long as nothing that was tested has changed during a call: what is kept is not
the hook itself, and every hook is counted where it is. -/
structure Inv (s : State) : Prop where
  unhooked : s.kept.gRealHwOpen = none → s.methodsOpen ≠ .a1000GrallocOpen ∧ s.kept.factory = 0
  hooked : s.kept.gRealHwOpen ≠ none →
    s.kept.gRealHwOpen ≠ some .a1000GrallocOpen ∧ s.methodsOpen = .a1000GrallocOpen ∧
      s.kept.factory = 1
  realPost : s.kept.gRealPost ≠ some .a1000OverlayPost
  posts : ∀ d, s.kept.posts d = if s.post d = some .a1000OverlayPost then 1 else 0

theorem inv_start (n : ℕ) : Inv (start n) where
  unhooked _ := ⟨by rintro ⟨⟩, rfl⟩
  hooked h := absurd rfl h
  realPost := by rintro ⟨⟩
  posts _ := rfl

theorem Inv.safe {s : State} (h : Inv s) : s.kept.Safe where
  hwOpen := by
    intro heq
    exact (h.hooked (by rw [heq]; rintro ⟨⟩)).1 heq
  post := h.realPost
  factory := by
    by_cases hnone : s.kept.gRealHwOpen = none
    · exact Nat.le_succ_of_le (Nat.le_of_eq (h.unhooked hnone).2)
    · exact Nat.le_of_eq (h.hooked hnone).2.2
  posts d := by
    rw [h.posts d]
    split <;> decide

theorem Inv.same {s t : State} (h : Inv s) (hst : Same s t) : Inv t := by
  obtain ⟨h₁, h₂, h₃⟩ := hst
  refine ⟨?_, ?_, ?_, ?_⟩
  · rw [h₃, h₁]
    exact h.unhooked
  · rw [h₃, h₁]
    exact h.hooked
  · rw [h₃]
    exact h.realPost
  · rw [h₃, h₂]
    exact h.posts

/-- The hook is put into the module. -/
theorem Inv.replaceOpen {s : State} (h : Inv s) (hnone : s.kept.gRealHwOpen = none) :
    Inv (replaceOpen s) where
  unhooked heq := by cases heq
  hooked _ := ⟨fun heq => (h.unhooked hnone).1 (Option.some.inj heq), rfl,
    congrArg (· + 1) (h.unhooked hnone).2⟩
  realPost := h.realPost
  posts := h.posts

/-- The other one is put into a device. -/
theorem Inv.replacePost {s : State} (h : Inv s) {d : Dev} {old : Post}
    (hold : s.post d = some old) (hne : s.post d ≠ some .a1000OverlayPost) :
    Inv (replacePost d old s) where
  unhooked := h.unhooked
  hooked := h.hooked
  realPost heq := hne (hold.trans heq)
  posts e := by
    by_cases he : e = d
    · subst he
      have hzero := h.posts e
      rw [if_neg hne] at hzero
      simp [Hooks.replacePost, hzero]
    · simpa [Hooks.replacePost, he] using h.posts e

theorem Inv.step {s t : State} {l : Label} (h : Inv s) (he : Effect s l t)
    (still : StillUnhooked s l) : Inv t := by
  cases he with
  | quiet same => exact h.same same
  | replaceOpen same => exact (h.replaceOpen still).same same
  | replacePost top had same =>
    rw [StillUnhooked, top] at still
    exact (h.replacePost had still).same same
  | @add _ _ d n new same =>
    refine Inv.same (s := addDevice d n s) ⟨h.unhooked, h.hooked, h.realPost, fun e => ?_⟩ same
    by_cases he : e = d
    · subst he
      have hzero := h.posts e
      rw [new, if_neg (by rintro ⟨⟩)] at hzero
      simpa [addDevice] using hzero
    · simpa [addDevice, he] using h.posts e
  | @remove _ d same =>
    refine Inv.same (s := removeDevice d s) ⟨h.unhooked, h.hooked, h.realPost, fun e => ?_⟩ same
    by_cases he : e = d
    · subst he
      simp [removeDevice]
    · simpa [removeDevice, he] using h.posts e

/-- Where what was tested no longer holds, the hook keeps itself. -/
theorem still_of_safe {s t : State} {l : Label} (h : Inv s) (he : Effect s l t)
    (safe : t.kept.Safe) : StillUnhooked s l := by
  cases he with
  | quiet _ still => exact still
  | replaceOpen same =>
    by_contra hsome
    refine safe.hwOpen ?_
    rw [same.kept, ← (h.hooked hsome).2.1]
    rfl
  | replacePost top had same =>
    intro hown
    rw [top, Option.bind_some, had] at hown
    refine safe.post ?_
    rw [same.kept, ← hown]
    rfl
  | add _ _ still => exact still
  | remove _ => trivial

/-! ### Every run -/

/-- **In which runs the hooks are safe**: in those in which, whenever a call that puts a hook in
comes back to it, nobody else has put it in during the call. -/
theorem never_captured_iff {c : Config} {n : ℕ} {tr : List (Label × Kept)} {s : State}
    (h : Run (step c) (start n) tr s) :
    Always (fun _ _ kept => kept.Safe) tr ↔ RunWhere (step c) StillUnhooked (start n) tr s := by
  refine h.always_iff_of_good ?_
  intro tr s l t kept hrun hstep
  have hinv : Inv s := by
    refine hrun.invariant (P := fun _ s => Inv s) (inv_start n) fun h still hnext => ?_
    obtain ⟨u, hu, heq⟩ := Option.map_eq_some_iff.mp hnext
    obtain ⟨rfl, -⟩ := Prod.mk.inj heq
    exact h.step (effect_of_step hu) still
  obtain ⟨u, hu, heq⟩ := Option.map_eq_some_iff.mp hstep
  obtain ⟨rfl, rfl⟩ := Prod.mk.inj heq
  have heffect := effect_of_step hu
  exact ⟨still_of_safe hinv heffect, fun still => (hinv.step heffect still).safe⟩

/-- A process with the property, in which `fb0` can be opened. -/
def zerocopy : Config := ⟨true, true⟩

/-- An `ioctl` from within `hw_get_module` finds no module yet; the hook is put in after it, and
into the `post` of the device that is opened then. -/
theorem never_captured_iff_nested :
    ∃ tr s, Run (step zerocopy) (start 7) tr s ∧ s.kept.gRealHwOpen = some (.stock 7) ∧
      s.kept.gRealPost = some (.stock 9) ∧ Always (fun _ _ kept => kept.Safe) tr := by
  have hexec : (exec (step zerocopy) StillUnhooked (start 7)
      [.ioctl, .ioctl, .gotModule false, .gotModule true, .openDevice true, .ioctl,
        .opened (some (1, 9)), .vscreeninfo true]).map
          (fun r => (r.2.kept.gRealHwOpen, r.2.kept.gRealPost)) =
      some (some (.stock 7), some (.stock 9)) := by decide +kernel
  obtain ⟨⟨tr, s⟩, hs, heq⟩ := Option.map_eq_some_iff.mp hexec
  obtain ⟨hopen, hpost⟩ := Prod.mk.inj heq
  have hrun := run_of_exec hs
  exact ⟨tr, s, hrun.run, hopen, hpost, (never_captured_iff hrun.run).mpr hrun⟩

/-- An `ioctl` from within `hw_get_module` puts the hook in, and the call outside puts it in once
more: it keeps itself. -/
theorem never_captured_not_always :
    ¬ ∀ (c : Config) (n : ℕ) (tr : List (Label × Kept)) (s : State),
      Run (step c) (start n) tr s → Always (fun _ _ kept => kept.Safe) tr := by
  intro hall
  have hexec : (exec (step zerocopy) (fun _ _ => True) (start 7)
      [.ioctl, .ioctl, .gotModule true, .gotModule true]).map
        (fun r => r.1.getLast?.map fun e => e.2.gRealHwOpen) =
      some (some (some .a1000GrallocOpen)) := by decide +kernel
  obtain ⟨⟨tr, s⟩, hs, heq⟩ := Option.map_eq_some_iff.mp hexec
  have hsafe := hall _ _ tr s (run_of_exec hs)
  obtain ⟨⟨l, kept⟩, hlast, hown⟩ := Option.map_eq_some_iff.mp heq
  obtain ⟨tr', rfl⟩ := List.getLast?_eq_some_iff.mp hlast
  exact (always_snoc.mp hsafe).2.hwOpen hown

end Hooks

end A1000

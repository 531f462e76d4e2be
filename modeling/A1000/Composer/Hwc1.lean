import Mathlib.Data.List.Basic
import Mathlib.Data.List.Indexes
import Mathlib.Tactic.SplitIfs

/-!
# Preparing a frame

`HWComposer::prepare` of the build for HWC 1. Before the vendor's `prepare` is called, every window
layer of a display with two or more of them is marked with `HWC_SKIP_LAYER`, which by contract
keeps it on the GPU; after the call the marks are taken off again, and then the types of the layers
that carry the flag are forced to `HWC_FRAMEBUFFER`, and the types are counted.

What the vendor's `prepare` answers is an input: an error code, and a type for each layer of each
display.

## Main definitions

* `Composer.prepare` — `HWComposer::prepare`
* `Composer.prepareUnmarked` — the same without the marks
* `Composer.KeepsOnGpu` — flags kept, displays with several windows on the GPU, others as before

## Main results

* `Composer.prepare_eq` — for one and the same answer, the marks make no difference
* `Composer.told_skip` — what they change is what the vendor is told
* `Composer.keepsOnGpu_iff` — the GPU is used exactly when the vendor honours the marks
-/

namespace A1000

namespace Composer

/-! ### Displays -/

def hwcFramebuffer : Int := 0

def hwcOverlay : Int := 1

def hwcFramebufferTarget : Int := 3

def hwcCursorOverlay : Int := 5

def hwcSkipLayer : UInt32 := 1

/-- What `prepare` reads and writes of a layer. -/
structure Layer where
  compositionType : Int
  flags : UInt32
  deriving DecidableEq, Repr

/-- What it reads and writes of a display. `framebufferTarget` says whether the last layer of the
list is the target. -/
structure DisplayData where
  list : Option (List Layer)
  framebufferTarget : Bool
  hasFbComp : Bool
  hasOvComp : Bool
  deriving DecidableEq, Repr

/-- What the vendor's `prepare` answers: an error code, and the type of each layer of each
display. -/
structure Answer where
  err : Int
  types : ℕ → ℕ → Int

def Layer.Skipped (x : Layer) : Prop := x.flags &&& hwcSkipLayer ≠ 0

instance (x : Layer) : Decidable x.Skipped := inferInstanceAs (Decidable (_ ≠ _))

/-- The number of window layers. -/
def DisplayData.windowLayers (d : DisplayData) (ls : List Layer) : ℕ :=
  if d.framebufferTarget ∧ 0 < ls.length then ls.length - 1 else ls.length

theorem windowLayers_le (d : DisplayData) (ls : List Layer) : d.windowLayers ls ≤ ls.length := by
  rw [DisplayData.windowLayers]
  split_ifs <;> omega

/-! ### The passes -/

/-- The type of the target, reset. -/
def DisplayData.reset (d : DisplayData) : DisplayData :=
  if d.framebufferTarget then
    { d with list := d.list.map fun ls =>
        ls.modify (ls.length - 1) fun x => { x with compositionType := hwcFramebufferTarget } }
  else d

/-- Change one layer of one display. -/
def atLayer (f : Layer → Layer) (ds : List DisplayData) (p : ℕ × ℕ) : List DisplayData :=
  ds.modify p.1 fun d => { d with list := d.list.map fun ls => ls.modify p.2 f }

def Layer.setSkip (x : Layer) : Layer := { x with flags := x.flags ||| hwcSkipLayer }

def Layer.clearSkip (x : Layer) : Layer := { x with flags := x.flags &&& ~~~hwcSkipLayer }

/-- The layers of a display that get a mark: all window layers without one, when there are two. -/
def DisplayData.forced (d : DisplayData) (ls : List Layer) : List ℕ :=
  if d.windowLayers ls < 2 then []
  else (List.range (d.windowLayers ls)).filter fun l => ls[l]?.any fun x => ¬ x.Skipped

/-- `forcedToGles`: displays and layers. -/
def forcedToGles (ds : List DisplayData) : List (ℕ × ℕ) :=
  ds.zipIdx.flatMap fun t =>
    match t.1.list with
    | none => []
    | some ls => (t.1.forced ls).map fun l => (t.2, l)

/-- The vendor writes its types for a display. -/
def DisplayData.answered (types : ℕ → Int) (d : DisplayData) : DisplayData :=
  { d with
    list := d.list.map fun ls => ls.mapIdx fun l x => { x with compositionType := types l } }

/-- A layer with the flag goes to the GPU. -/
def Layer.settle (x : Layer) : Layer :=
  if x.Skipped then { x with compositionType := hwcFramebuffer } else x

/-- The last loop, for one display. -/
def DisplayData.count (d : DisplayData) : DisplayData :=
  match d.list with
  | none => { d with hasFbComp := true, hasOvComp := false }
  | some ls =>
    let ls := ls.map Layer.settle
    { d with
      list := some ls
      hasFbComp := ls.any (·.compositionType = hwcFramebuffer) ||
        ls.length = if d.framebufferTarget then 1 else 0
      hasOvComp := ls.any fun x =>
        x.compositionType = hwcOverlay ∨ x.compositionType = hwcCursorOverlay }

/-- What the vendor is called with. -/
def told (ds : List DisplayData) : List DisplayData :=
  let ds := ds.map DisplayData.reset
  (forcedToGles ds).foldl (atLayer Layer.setSkip) ds

/-- `HWComposer::prepare`. -/
def prepare (ds : List DisplayData) (a : Answer) : List DisplayData × Int :=
  let forced := forcedToGles (ds.map DisplayData.reset)
  let ds := (told ds).mapIdx fun i d => d.answered (a.types i)
  let ds := forced.foldl (atLayer Layer.clearSkip) ds
  (if a.err = 0 then ds.map DisplayData.count else ds, a.err)

/-- `HWComposer::prepare` as it was without the marks. -/
def prepareUnmarked (ds : List DisplayData) (a : Answer) : List DisplayData × Int :=
  let ds := (ds.map DisplayData.reset).mapIdx fun i d => d.answered (a.types i)
  (if a.err = 0 then ds.map DisplayData.count else ds, a.err)

/-! ### The passes, layer by layer -/

/-- Change every layer of every display, by its place. -/
def mapLayers (f : ℕ → ℕ → Layer → Layer) (ds : List DisplayData) : List DisplayData :=
  ds.mapIdx fun i d => { d with list := d.list.map fun ls => ls.mapIdx (f i) }

theorem getElem?_mapLayers (f : ℕ → ℕ → Layer → Layer) (ds : List DisplayData) (i : ℕ) :
    (mapLayers f ds)[i]? =
      ds[i]?.map fun d => { d with list := d.list.map fun ls => ls.mapIdx (f i) } :=
  List.getElem?_mapIdx

theorem mapLayers_mapLayers (f g : ℕ → ℕ → Layer → Layer) (ds : List DisplayData) :
    mapLayers f (mapLayers g ds) = mapLayers (fun i l x => f i l (g i l x)) ds := by
  refine List.ext_getElem? fun i => ?_
  rw [getElem?_mapLayers, getElem?_mapLayers, getElem?_mapLayers, Option.map_map]
  refine congrArg (ds[i]?.map ·) (funext fun d => ?_)
  simp [Function.comp_def, List.mapIdx_mapIdx]

theorem mapLayers_congr {f g : ℕ → ℕ → Layer → Layer} {ds : List DisplayData}
    (h : ∀ i l d ls x, ds[i]? = some d → d.list = some ls → ls[l]? = some x → f i l x = g i l x) :
    mapLayers f ds = mapLayers g ds := by
  refine List.ext_getElem? fun i => ?_
  rw [getElem?_mapLayers, getElem?_mapLayers]
  cases hd : ds[i]? with
  | none => rfl
  | some d =>
    cases hls : d.list with
    | none => simp [hls]
    | some ls =>
      simp only [Option.map_some, hls, Option.some.injEq, DisplayData.mk.injEq, and_true]
      refine List.ext_getElem? fun l => ?_
      rw [List.getElem?_mapIdx, List.getElem?_mapIdx]
      cases hx : ls[l]? with
      | none => rfl
      | some x => rw [Option.map_some, Option.map_some, h i l d ls x hd hls hx]

@[simp]
theorem mapIdx_self (ls : List Layer) : (ls.mapIdx fun _ x => x) = ls :=
  List.ext_getElem? fun l => by rw [List.getElem?_mapIdx, Option.map_id']

@[simp]
theorem mapLayers_id (ds : List DisplayData) : mapLayers (fun _ _ x => x) ds = ds := by
  refine List.ext_getElem? fun i => ?_
  rw [getElem?_mapLayers]
  simp only [mapIdx_self, Option.map_id']

theorem mapIdx_answered (types : ℕ → ℕ → Int) (ds : List DisplayData) :
    (ds.mapIdx fun i d => d.answered (types i)) =
      mapLayers (fun i l x => { x with compositionType := types i l }) ds := rfl

theorem atLayer_eq (f : Layer → Layer) (ds : List DisplayData) (p : ℕ × ℕ) :
    atLayer f ds p = mapLayers (fun i l x => if (i, l) = p then f x else x) ds := by
  obtain ⟨j, m⟩ := p
  refine List.ext_getElem? fun i => ?_
  rw [getElem?_mapLayers, atLayer, List.getElem?_modify]
  refine congrArg (ds[i]?.map ·) (funext fun d => ?_)
  by_cases hij : j = i
  · subst hij
    simp only [if_true, Prod.mk.injEq, true_and]
    refine congrArg (fun x => { d with list := d.list.map x }) (funext fun ls => ?_)
    refine List.ext_getElem? fun l => ?_
    rw [List.getElem?_modify, List.getElem?_mapIdx]
    simp only [eq_comm]
    rfl
  · simp [hij, Ne.symm hij]

/-- Changes at some places, for which making them twice is making them once. -/
theorem foldl_atLayer {f : Layer → Layer} (hf : ∀ x, f (f x) = f x) (ps : List (ℕ × ℕ))
    (ds : List DisplayData) :
    ps.foldl (atLayer f) ds = mapLayers (fun i l x => if (i, l) ∈ ps then f x else x) ds := by
  induction ps generalizing ds with
  | nil => simp [mapLayers_id]
  | cons p ps ih =>
    rw [List.foldl_cons, ih, atLayer_eq, mapLayers_mapLayers]
    refine mapLayers_congr fun i l _ _ x _ _ _ => ?_
    by_cases hp : (i, l) = p <;> by_cases hps : (i, l) ∈ ps <;> simp [hp, hps, hf]

/-! ### Marks -/

theorem setSkip_setSkip (x : Layer) : x.setSkip.setSkip = x.setSkip := by
  simp [Layer.setSkip, UInt32.or_assoc]

theorem clearSkip_clearSkip (x : Layer) : x.clearSkip.clearSkip = x.clearSkip := by
  simp [Layer.clearSkip, UInt32.and_assoc]

/-- A mark put on and taken off. -/
theorem or_and_not {flags mark : UInt32} (h : flags &&& mark = 0) :
    (flags ||| mark) &&& ~~~mark = flags := by
  refine UInt32.toBitVec_inj.mp (BitVec.eq_of_getLsbD_eq fun i hi => ?_)
  have hbit : (flags.toBitVec.getLsbD i && mark.toBitVec.getLsbD i) = false := by
    rw [← BitVec.getLsbD_and, ← UInt32.toBitVec_and, h]
    exact BitVec.getLsbD_zero
  simp only [UInt32.toBitVec_and, UInt32.toBitVec_or, UInt32.toBitVec_not, BitVec.getLsbD_and,
    BitVec.getLsbD_or, BitVec.getLsbD_not, hi, decide_true, Bool.true_and]
  cases hf : flags.toBitVec.getLsbD i <;> simp_all

theorem mem_forcedToGles {ds : List DisplayData} {i l : ℕ} :
    (i, l) ∈ forcedToGles ds ↔
      ∃ d ls x, ds[i]? = some d ∧ d.list = some ls ∧ 2 ≤ d.windowLayers ls ∧
        l < d.windowLayers ls ∧ ls[l]? = some x ∧ ¬ x.Skipped := by
  simp only [forcedToGles, List.mem_flatMap, List.mem_zipIdx_iff_getElem?]
  constructor
  · rintro ⟨⟨d, j⟩, hd, hmem⟩
    cases hls : d.list with
    | none => simp [hls] at hmem
    | some ls =>
      simp only [hls, List.mem_map, Prod.mk.injEq, DisplayData.forced] at hmem
      obtain ⟨m, hm, rfl, rfl⟩ := hmem
      split_ifs at hm with hfew
      · cases hm
      · simp only [List.mem_filter, List.mem_range, Option.any_eq_true, decide_eq_true_eq] at hm
        obtain ⟨hlt, x, hx, hskip⟩ := hm
        exact ⟨d, ls, x, hd, hls, Nat.not_lt.mp hfew, hlt, hx, hskip⟩
  · rintro ⟨d, ls, x, hd, hls, hmany, hlt, hx, hskip⟩
    refine ⟨(d, i), hd, ?_⟩
    simp only [hls, List.mem_map, Prod.mk.injEq, true_and, exists_eq_right, DisplayData.forced]
    rw [if_neg (Nat.not_lt.mpr hmany)]
    simp [hlt, hx, hskip]

theorem told_eq (ds : List DisplayData) :
    told ds = mapLayers
      (fun i l x => if (i, l) ∈ forcedToGles (ds.map DisplayData.reset) then x.setSkip else x)
      (ds.map DisplayData.reset) :=
  foldl_atLayer setSkip_setSkip ..

/-- **The marks make no difference** to what is done with an answer. -/
theorem prepare_eq (ds : List DisplayData) (a : Answer) : prepare ds a = prepareUnmarked ds a := by
  have hmarks : (forcedToGles (ds.map DisplayData.reset)).foldl (atLayer Layer.clearSkip)
      ((told ds).mapIdx fun i d => d.answered (a.types i)) =
        (ds.map DisplayData.reset).mapIdx fun i d => d.answered (a.types i) := by
    rw [foldl_atLayer clearSkip_clearSkip, mapIdx_answered, mapIdx_answered, told_eq,
      mapLayers_mapLayers, mapLayers_mapLayers]
    refine mapLayers_congr fun i l d ls x hd hls hx => ?_
    by_cases hmem : (i, l) ∈ forcedToGles (ds.map DisplayData.reset)
    · obtain ⟨d', ls', x', hd', hls', -, -, hx', hskip⟩ := mem_forcedToGles.mp hmem
      obtain rfl := Option.some.inj (hd.symm.trans hd')
      obtain rfl := Option.some.inj (hls.symm.trans hls')
      obtain rfl := Option.some.inj (hx.symm.trans hx')
      simp only [if_pos hmem, Layer.clearSkip, Layer.setSkip, or_and_not (not_not.mp hskip)]
    · simp only [if_neg hmem]
  simp only [prepare, prepareUnmarked, hmarks]

/-! ### What the vendor is told -/

theorem skipped_setSkip (x : Layer) : x.setSkip.Skipped := by
  intro h
  have hbit := congrArg (fun flags : UInt32 => flags.toBitVec.getLsbD 0) h
  simp [Layer.setSkip, hwcSkipLayer] at hbit

/-- **Every window layer of a display with several is marked** when the vendor sees it. -/
theorem told_skip {ds : List DisplayData} {i l : ℕ} {d : DisplayData} {ls : List Layer} {x : Layer}
    (hd : (told ds)[i]? = some d) (hls : d.list = some ls) (hmany : 2 ≤ d.windowLayers ls)
    (hlt : l < d.windowLayers ls) (hx : ls[l]? = some x) : x.Skipped := by
  rw [told_eq, getElem?_mapLayers] at hd
  obtain ⟨d₀, hd₀, rfl⟩ := Option.map_eq_some_iff.mp hd
  obtain ⟨ls₀, hls₀, rfl⟩ := Option.map_eq_some_iff.mp hls
  rw [List.getElem?_mapIdx] at hx
  obtain ⟨x₀, hx₀, rfl⟩ := Option.map_eq_some_iff.mp hx
  simp only [DisplayData.windowLayers, List.length_mapIdx] at hmany hlt
  split_ifs with hmem
  · exact skipped_setSkip x₀
  · exact not_not.mp fun hskip =>
      hmem (mem_forcedToGles.mpr ⟨d₀, ls₀, x₀, hd₀, hls₀, hmany, hlt, hx₀, hskip⟩)

/-! ### The result -/

/-- The flags of the layers. -/
def DisplayData.flags (d : DisplayData) : Option (List UInt32) := d.list.map (List.map Layer.flags)

/-- The windows are left to the GPU, and the counts say so. -/
structure DisplayData.OnGpu (d : DisplayData) (ls : List Layer) : Prop where
  windows : ∀ x ∈ ls.take (d.windowLayers ls), x.compositionType = hwcFramebuffer
  hasFbComp : d.hasFbComp = true
  hasOvComp : d.hasOvComp = false

/-- **What the marks are for.** -/
structure KeepsOnGpu (ds : List DisplayData) (a : Answer) : Prop where
  flags : (prepare ds a).1.map DisplayData.flags = ds.map DisplayData.flags
  several : (prepare ds a).2 = 0 → ∀ (i : ℕ) (d : DisplayData), (prepare ds a).1[i]? = some d →
    ∀ ls, d.list = some ls → 2 ≤ d.windowLayers ls → d.OnGpu ls
  few : ∀ (i : ℕ) (d : DisplayData), ds[i]? = some d →
    (∀ ls, d.list = some ls → d.windowLayers ls < 2) →
      (prepare ds a).1[i]? = (prepareUnmarked ds a).1[i]?

/-- The vendor leaves the windows of a display to the GPU, those apart that its caller has flagged,
and does not make an overlay of the target. -/
structure Honours (types : ℕ → Int) (d : DisplayData) (ls : List Layer) : Prop where
  windows : ∀ (l : ℕ) (x : Layer), ls[l]? = some x → l < d.windowLayers ls → ¬ x.Skipped →
    types l = hwcFramebuffer
  target : ∀ (l : ℕ) (x : Layer), ls[l]? = some x → d.windowLayers ls ≤ l → ¬ x.Skipped →
    types l ≠ hwcOverlay ∧ types l ≠ hwcCursorOverlay

/-! ### One display -/

/-- The layers of a display, with the types they end with. -/
def settled (types : ℕ → Int) (ls : List Layer) : List Layer :=
  ls.mapIdx fun l x => Layer.settle { x with compositionType := types l }

theorem settle_answer (x : Layer) (type : Int) :
    Layer.settle { x with compositionType := type } =
      { x with compositionType := if x.Skipped then hwcFramebuffer else type } := by
  have hsame : ({ x with compositionType := type } : Layer).Skipped ↔ x.Skipped := Iff.rfl
  simp only [Layer.settle, hsame]
  split_ifs <;> rfl

theorem getElem?_settled {types : ℕ → Int} {ls : List Layer} {l : ℕ} :
    (settled types ls)[l]? = ls[l]?.map fun x =>
      { x with compositionType := if x.Skipped then hwcFramebuffer else types l } := by
  rw [settled, List.getElem?_mapIdx]
  simp only [settle_answer]

/-- The type of the target does not matter, as the vendor sets it anyway. -/
theorem answered_reset (types : ℕ → Int) (d : DisplayData) :
    d.reset.answered types = d.answered types := by
  rw [DisplayData.reset]
  split_ifs
  · simp only [DisplayData.answered, Option.map_map, DisplayData.mk.injEq, and_true]
    refine congrArg (d.list.map ·) (funext fun ls => List.ext_getElem? fun l => ?_)
    simp only [Function.comp_apply, List.getElem?_mapIdx, List.getElem?_modify,
      Option.map_eq_map, Option.map_map]
    refine congrArg (ls[l]?.map ·) (funext fun x => ?_)
    split_ifs <;> rfl
  · rfl

theorem list_reset {d : DisplayData} {ls : List Layer} (hls : d.list = some ls) :
    ∃ ls', d.reset.list = some ls' ∧ ls'.length = ls.length ∧
      d.reset.framebufferTarget = d.framebufferTarget := by
  rw [DisplayData.reset]
  split_ifs with htarget
  · exact ⟨_, congrArg (Option.map _) hls, by simp, rfl⟩
  · exact ⟨ls, hls, rfl, rfl⟩

theorem flags_answered (types : ℕ → Int) (d : DisplayData) :
    (d.answered types).flags = d.flags := by
  simp only [DisplayData.flags, DisplayData.answered, Option.map_map]
  refine congrArg (d.list.map ·) (funext fun ls => List.ext_getElem? fun l => ?_)
  simp [Function.comp_def]

theorem flags_count (d : DisplayData) : d.count.flags = d.flags := by
  rw [DisplayData.count]
  cases hls : d.list with
  | none => simp [DisplayData.flags, hls]
  | some ls =>
    have hflags : ∀ x : Layer, x.settle.flags = x.flags := fun x => by
      rw [Layer.settle]
      split_ifs <;> rfl
    simp [DisplayData.flags, hls, hflags]

theorem count_answered {types : ℕ → Int} {d : DisplayData} {ls : List Layer}
    (hls : d.list = some ls) :
    (d.answered types).count =
      { d with
        list := some (settled types ls)
        hasFbComp := (settled types ls).any (·.compositionType = hwcFramebuffer) ||
          (settled types ls).length = if d.framebufferTarget then 1 else 0
        hasOvComp := (settled types ls).any fun x =>
          x.compositionType = hwcOverlay ∨ x.compositionType = hwcCursorOverlay } := by
  have hsettled : (ls.mapIdx fun l x => { x with compositionType := types l }).map Layer.settle =
      settled types ls := by
    exact List.ext_getElem? fun l => by simp [settled, Function.comp_def]
  simp only [DisplayData.count, DisplayData.answered, hls, Option.map_some, hsettled]

/-- **One display is left to the GPU** exactly when the vendor leaves it there. -/
theorem onGpu_count_iff {types : ℕ → Int} {d : DisplayData} {ls : List Layer}
    (hls : d.list = some ls) (hmany : 2 ≤ d.windowLayers ls) :
    (d.answered types).count.OnGpu (settled types ls) ↔ Honours types d ls := by
  have hlen : (settled types ls).length = ls.length := by simp [settled]
  have hwin : (d.answered types).count.windowLayers (settled types ls) = d.windowLayers ls := by
    simp only [count_answered hls, DisplayData.windowLayers, hlen]
  constructor
  · rintro ⟨hwindows, -, hov⟩
    rw [hwin] at hwindows
    simp only [count_answered hls, List.any_eq_false, decide_eq_true_eq, not_or] at hov
    constructor
    · intro l x hx hlt hskip
      refine (hwindows { x with compositionType := types l } ?_)
      refine List.mem_of_getElem? (i := l) ?_
      rw [List.getElem?_take_of_lt hlt, getElem?_settled, hx, Option.map_some, if_neg hskip]
    · intro l x hx _ hskip
      refine hov { x with compositionType := types l } (List.mem_of_getElem? (i := l) ?_)
      rw [getElem?_settled, hx, Option.map_some, if_neg hskip]
  · rintro ⟨hwindows, htarget⟩
    have hfb : ∀ x ∈ (settled types ls).take (d.windowLayers ls),
        x.compositionType = hwcFramebuffer := by
      intro y hy
      obtain ⟨l, hy⟩ := List.mem_iff_getElem?.mp hy
      rw [List.getElem?_take, getElem?_settled] at hy
      split_ifs at hy with hlt
      obtain ⟨x, hx, rfl⟩ := Option.map_eq_some_iff.mp hy
      simp only
      split_ifs with hskip
      · rfl
      · exact hwindows l x hx hlt hskip
    refine ⟨by rwa [hwin], ?_, ?_⟩
    · -- the first window
      have hfirst : 0 < ((settled types ls).take (d.windowLayers ls)).length := by
        rw [List.length_take, hlen]
        have : d.windowLayers ls ≤ ls.length := windowLayers_le d ls
        omega
      obtain ⟨x, hx⟩ := List.exists_mem_of_length_pos hfirst
      simp only [count_answered hls, Bool.or_eq_true, List.any_eq_true, decide_eq_true_eq]
      exact .inl ⟨x, List.mem_of_mem_take hx, hfb x hx⟩
    · simp only [count_answered hls, List.any_eq_false, decide_eq_true_eq, not_or]
      intro y hy
      obtain ⟨l, hy⟩ := List.mem_iff_getElem?.mp hy
      rw [getElem?_settled] at hy
      obtain ⟨x, hx, rfl⟩ := Option.map_eq_some_iff.mp hy
      simp only
      split_ifs with hskip
      · decide
      · rcases Nat.lt_or_ge l (d.windowLayers ls) with hlt | hge
        · rw [hwindows l x hx hlt hskip]
          decide
        · exact htarget l x hx hge hskip

/-! ### The result -/

theorem getElem?_prepare (ds : List DisplayData) (a : Answer) (i : ℕ) :
    (prepare ds a).1[i]? = ds[i]?.map fun d =>
      if a.err = 0 then (d.answered (a.types i)).count else d.answered (a.types i) := by
  rw [prepare_eq, prepareUnmarked]
  split_ifs <;> simp [answered_reset, Function.comp_def]

theorem flags_prepare (ds : List DisplayData) (a : Answer) :
    (prepare ds a).1.map DisplayData.flags = ds.map DisplayData.flags := by
  refine List.ext_getElem? fun i => ?_
  rw [List.getElem?_map, List.getElem?_map, getElem?_prepare, Option.map_map]
  refine congrArg (ds[i]?.map ·) (funext fun d => ?_)
  rw [Function.comp_apply]
  split_ifs
  · rw [flags_count, flags_answered]
  · exact flags_answered ..

theorem list_count_answered (types : ℕ → Int) {d : DisplayData} {ls : List Layer}
    (hls : d.list = some ls) :
    (d.answered types).count.list = some (settled types ls) ∧
      (d.answered types).count.windowLayers (settled types ls) = d.windowLayers ls := by
  rw [count_answered hls]
  exact ⟨rfl, by simp [DisplayData.windowLayers, settled]⟩

theorem KeepsOnGpu.honours {ds : List DisplayData} {a : Answer} (h : KeepsOnGpu ds a)
    (herr : a.err = 0) {i : ℕ} {d : DisplayData} (hd : ds[i]? = some d) {ls : List Layer}
    (hls : d.list = some ls) (hmany : 2 ≤ d.windowLayers ls) : Honours (a.types i) d ls := by
  obtain ⟨hls', hwin⟩ := list_count_answered (a.types i) hls
  refine (onGpu_count_iff hls hmany).mp (h.several herr i _ ?_ _ hls' (hwin ▸ hmany))
  rw [getElem?_prepare, hd, Option.map_some, if_pos herr]

theorem keepsOnGpu_of_honours {ds : List DisplayData} {a : Answer}
    (h : a.err = 0 → ∀ (i : ℕ) (d : DisplayData), ds[i]? = some d →
      ∀ ls, d.list = some ls → 2 ≤ d.windowLayers ls → Honours (a.types i) d ls) :
    KeepsOnGpu ds a := by
  refine ⟨flags_prepare ds a, fun (herr : a.err = 0) i d' hd' ls' hls' hmany' => ?_,
    fun i d _ _ => ?_⟩
  · rw [getElem?_prepare] at hd'
    obtain ⟨d, hd, rfl⟩ := Option.map_eq_some_iff.mp hd'
    rw [if_pos herr] at hls' hmany' ⊢
    cases hls : d.list with
    | none => simp [DisplayData.count, DisplayData.answered, hls] at hls'
    | some ls =>
      obtain ⟨hlist', hwin⟩ := list_count_answered (a.types i) hls
      obtain rfl := Option.some.inj (hls'.symm.trans hlist')
      rw [hwin] at hmany'
      exact (onGpu_count_iff hls hmany').mpr (h herr i d hd ls hls hmany')
  · rw [prepare_eq]

/-- **Displays with several windows are kept on the GPU exactly by the answers that honour the
marks**: an error, or the type `HWC_FRAMEBUFFER` for every window that `prepare` has marked, and no
overlay for the target. -/
theorem keepsOnGpu_iff (ds : List DisplayData) (a : Answer) :
    KeepsOnGpu ds a ↔ (a.err = 0 → ∀ (i : ℕ) (d : DisplayData), ds[i]? = some d →
      ∀ ls, d.list = some ls → 2 ≤ d.windowLayers ls → Honours (a.types i) d ls) :=
  ⟨fun h herr _ _ hd _ hls hmany => h.honours herr hd hls hmany, keepsOnGpu_of_honours⟩

/-- A vendor that leaves every layer with the flag to the GPU, and the target alone, keeps the
displays with several windows there. -/
theorem keepsOnGpu_of_contract {ds : List DisplayData} {a : Answer}
    (skip : ∀ (i l : ℕ) (d : DisplayData) (ls : List Layer) (x : Layer), (told ds)[i]? = some d →
      d.list = some ls → ls[l]? = some x → x.Skipped → a.types i l = hwcFramebuffer)
    (target : ∀ (i l : ℕ) (d : DisplayData) (ls : List Layer), (told ds)[i]? = some d →
      d.list = some ls → d.windowLayers ls ≤ l → a.types i l = hwcFramebufferTarget) :
    KeepsOnGpu ds a := by
  refine keepsOnGpu_of_honours fun _ i d hd ls hls hmany => ?_
  obtain ⟨d', ls', hd', hls', hlen, hwin⟩ : ∃ d' ls', (told ds)[i]? = some d' ∧
      d'.list = some ls' ∧ ls'.length = ls.length ∧ d'.windowLayers ls' = d.windowLayers ls := by
    obtain ⟨ls₀, hls₀, hlen, htarget⟩ := list_reset hls
    rw [told_eq, getElem?_mapLayers, List.getElem?_map, hd]
    simp only [Option.map_some, Option.some.injEq, exists_and_left, exists_eq_left', hls₀,
      List.length_mapIdx, hlen, DisplayData.windowLayers, htarget, and_self]
  constructor
  · intro l x hx hlt _
    have hl : l < ls'.length := hlen ▸ (List.getElem?_eq_some_iff.mp hx).1
    have hx' := List.getElem?_eq_getElem hl
    exact skip i l d' ls' _ hd' hls' hx'
      (told_skip hd' hls' (hwin ▸ hmany) (hwin ▸ hlt) hx')
  · intro l x _ hge _
    rw [target i l d' ls' hd' hls' (hwin ▸ hge)]
    decide

/-- Two windows, and a vendor that makes overlays of both of them whatever their flags. -/
def twoWindows : List DisplayData :=
  [⟨some [⟨hwcFramebuffer, 0⟩, ⟨hwcFramebuffer, 0⟩, ⟨hwcFramebufferTarget, 0⟩], true, false, false⟩]

/-- The marks are gone before the types are settled. -/
theorem keepsOnGpu_not_always : ¬ ∀ (ds : List DisplayData) (a : Answer), KeepsOnGpu ds a := by
  intro hall
  have h := (hall twoWindows ⟨0, fun _ l => if l < 2 then 1 else 3⟩).honours rfl (i := 0) rfl rfl
    (by decide)
  have htwo := h.windows 0 _ rfl (by decide) (by decide)
  revert htwo
  decide

end Composer

end A1000

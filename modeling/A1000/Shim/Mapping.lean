import A1000.Shim.Osd

/-!
# What the pass touches of a mapping

`handle_layer` and `handle_osd` map a picture and hand `process` a number of pixels. How many bytes
are mapped and how many pixels there are come from different places: the recorded length of a
buffer and the rectangle of the overlay in one, pitch times height in 32-bit arithmetic in the
other.

`process` is modelled on bytes in `A1000.Shim.Color`; here are its two loops once more, with the
unsigned counter they run on and the places they touch. Offsets from the start of the mapping do
not wrap: what lies past its end is not the picture.

## Main definitions

* `Shim.touches` — the places in the order in which they are read, and written when turning
* `Shim.StaysInside` — nothing past the mapped length is touched
* `Shim.osdPicture` — the picture that `handle_osd` maps
* `Shim.OsdFits`, `Shim.LayerFits` — the bytes of the pixels are no more than are mapped

## Main results

* `Shim.staysInside_iff` — how many pixels stay inside of how many bytes
* `Shim.handleOsd_picture` — `handle_osd` goes over the picture `osdPicture`
* `Shim.rotation_inside_iff` — when the passes stay inside
-/

namespace A1000

namespace Shim

/-! ### The loops -/

/-- The loop over single pixels, from the pixel `i` at `b` on, for at most so many rounds: where
each access starts and how long it is. -/
def tailTouches (npix : UInt32) : ℕ → UInt32 → ℕ → List (ℕ × ℕ)
  | 0, _, _ => []
  | n + 1, i, b => if i < npix then (b, 4) :: tailTouches npix n (i + 1) (b + 4) else []

/-- The loop over groups of sixteen pixels, and the other one after it. -/
def touches (npix : UInt32) : ℕ → UInt32 → ℕ → List (ℕ × ℕ)
  | 0, _, _ => []
  | n + 1, i, b =>
    if i + 16 ≤ npix then (b, 64) :: touches npix n (i + 16) (b + 64)
    else tailTouches npix (n + 1) i b

/-- The byte at `off` is accessed, in some round. -/
def Touched (npix : UInt32) (off : ℕ) : Prop :=
  ∃ n, ∃ a ∈ touches npix n 0 0, a.1 ≤ off ∧ off < a.1 + a.2

/-- **The pass over a picture stays inside its mapping.** -/
def StaysInside (p : Picture) : Prop := ∀ off, Touched (.ofNat p.npix) off → off < p.len

theorem tailTouches_le {npix : UInt32} {n : ℕ} {i : UInt32} {b : ℕ} (hb : b = 4 * i.toNat)
    {a : ℕ × ℕ} (h : a ∈ tailTouches npix n i b) : a.1 + a.2 ≤ 4 * npix.toNat := by
  induction n generalizing i b with
  | zero => cases h
  | succ n ih =>
    rw [tailTouches] at h
    split at h
    case isFalse => cases h
    case isTrue hlt =>
      have hlt' := UInt32.lt_iff_toNat_lt.mp hlt
      have hnpix := npix.toNat_lt
      rcases List.mem_cons.mp h with rfl | h
      · simp only
        omega
      · refine ih ?_ h
        rw [UInt32.toNat_add, UInt32.toNat_one]
        omega

/-- No access ends after the last pixel, unless the counter wraps. -/
theorem touches_le {npix : UInt32} (hnpix : npix.toNat + 16 < 2 ^ 32) {n : ℕ} {i : UInt32} {b : ℕ}
    (hi : i ≤ npix) (hb : b = 4 * i.toNat) {a : ℕ × ℕ} (h : a ∈ touches npix n i b) :
    a.1 + a.2 ≤ 4 * npix.toNat := by
  induction n generalizing i b with
  | zero => cases h
  | succ n ih =>
    have hi' := UInt32.le_iff_toNat_le.mp hi
    rw [touches] at h
    split at h
    case isFalse => exact tailTouches_le hb h
    case isTrue hle =>
      have hadd : (i + 16).toNat = (i.toNat + 16) % 2 ^ 32 := UInt32.toNat_add i 16
      have hle' := UInt32.le_iff_toNat_le.mp hle
      rw [hadd] at hle'
      rcases List.mem_cons.mp h with rfl | h
      · simp only
        omega
      · exact ih hle (by rw [hadd]; omega) h

/-- The pixel `p` is touched by the loop over single pixels. -/
theorem exists_mem_tailTouches {npix : UInt32} {p : ℕ} (hp : p < npix.toNat) (k : ℕ) :
    ∀ {i : UInt32} {b : ℕ}, b = 4 * i.toNat → i.toNat + k = p →
      ∃ a ∈ tailTouches npix (k + 1) i b, a.1 ≤ 4 * p + 3 ∧ 4 * p + 3 < a.1 + a.2 := by
  induction k with
  | zero =>
    intro i b hb hi
    have hlt : i < npix := UInt32.lt_iff_toNat_lt.mpr (by omega)
    rw [tailTouches, if_pos hlt]
    exact ⟨_, List.mem_cons_self, by simp only; omega, by simp only; omega⟩
  | succ k ih =>
    intro i b hb hi
    have hlt : i < npix := UInt32.lt_iff_toNat_lt.mpr (by omega)
    have hnpix := npix.toNat_lt
    have hadd : (i + 1).toNat = i.toNat + 1 := by
      rw [UInt32.toNat_add, UInt32.toNat_one]
      omega
    rw [tailTouches, if_pos hlt]
    obtain ⟨a, ha, h⟩ := ih (i := i + 1) (b := b + 4) (by omega) (by omega)
    exact ⟨a, List.mem_cons_of_mem _ ha, h⟩

/-- A pixel is touched, by one loop or the other. Up to this one the counter does not wrap. -/
theorem exists_mem_touches {npix : UInt32} {p : ℕ} (hp : p < npix.toNat) (hsmall : p < 2 ^ 31)
    (k : ℕ) : ∀ {i : UInt32} {b : ℕ}, b = 4 * i.toNat → i.toNat + k = p →
      ∃ n, ∃ a ∈ touches npix n i b, a.1 ≤ 4 * p + 3 ∧ 4 * p + 3 < a.1 + a.2 := by
  induction k using Nat.strong_induction_on with
  | _ k ih =>
    intro i b hb hi
    by_cases hle : i + 16 ≤ npix
    · have hadd : (i + 16).toNat = i.toNat + 16 := by
        have h := UInt32.toNat_add i 16
        have h16 : (16 : UInt32).toNat = 16 := rfl
        omega
      rcases Nat.lt_or_ge k 16 with hin | hout
      · refine ⟨1, (b, 64), ?_, by simp only; omega, by simp only; omega⟩
        rw [touches, if_pos hle]
        exact List.mem_cons_self
      · obtain ⟨n, a, ha, h⟩ := ih (k - 16) (by omega) (i := i + 16) (b := b + 64) (by omega)
          (by omega)
        refine ⟨n + 1, a, ?_, h⟩
        rw [touches, if_pos hle]
        exact List.mem_cons_of_mem _ ha
    · obtain ⟨a, ha, h⟩ := exists_mem_tailTouches hp k hb hi
      refine ⟨k + 1, a, ?_, h⟩
      rwa [touches, if_neg hle]

theorem touched_pixel {npix : UInt32} {p : ℕ} (hp : p < npix.toNat) (hsmall : p < 2 ^ 31) :
    Touched npix (4 * p + 3) :=
  exists_mem_touches hp hsmall p rfl (Nat.zero_add p)

/-- **How many pixels stay inside.** A mapping is not longer than the address space, and where the
counter wraps the pass has left it long before. -/
theorem touched_lt_iff {npix : UInt32} {len : ℕ} (hlen : len < 2 ^ 32) :
    (∀ off, Touched npix off → off < len) ↔ 4 * npix.toNat ≤ len := by
  constructor
  · intro h
    by_contra hover
    -- the last pixel, or one that lies past every mapping
    obtain ⟨p, hp, hsmall, hpast⟩ : ∃ p < npix.toNat, p < 2 ^ 31 ∧ len ≤ 4 * p + 3 := by
      rcases Nat.lt_or_ge npix.toNat (2 ^ 31) with hlt | hge
      · exact ⟨npix.toNat - 1, by omega, by omega, by omega⟩
      · exact ⟨2 ^ 31 - 1, by omega, by omega, by omega⟩
    have hin := h _ (touched_pixel hp hsmall)
    omega
  · rintro hle off ⟨n, a, ha, -, hoff⟩
    have hend := touches_le (by omega) (UInt32.le_iff_toNat_le.mpr (Nat.zero_le _)) rfl ha
    omega

/-! ### The pictures that are mapped -/

/-- The picture `handle_osd` maps, when it comes to that. -/
def osdPicture (files : Files) (granted : Bool) (o : OvSetting) (s : State) : Option Picture :=
  if ¬ o.ForOsd then none
  else
    let r := pinOsd files o s
    let s := readSweep files r.2
    if s.gSweep = some true then none
    else if s.gCpucolor.getD (!files.nocpucolor) = false then none
    else mapOsd granted r.1 s

/-- **`handle_osd` goes over that picture** and no other. -/
theorem handleOsd_picture (files : Files) (granted : Bool) (o : OvSetting) (s : State) :
    ∃ o' s', handleOsd files granted o s =
      (turnMapped (osdPicture files granted o s) s').map fun t => (o', t) := by
  have hnone : ∀ (o' : OvSetting) (s' : State),
      some (o', (none : Option Picture), s') = (turnMapped none s').map fun t => (o', t) :=
    fun _ _ => rfl
  rw [handleOsd, osdPicture]
  by_cases ho : o.ForOsd
  · simp only [ho, not_true_eq_false, if_false]
    generalize pinOsd files o s = r
    generalize readSweep files r.2 = u
    by_cases hsweep : u.gSweep = some true
    · simp only [hsweep, if_true]
      exact ⟨_, _, hnone _ _⟩
    · simp only [hsweep, if_false, Option.some.injEq]
      by_cases hcolour : u.gCpucolor.getD (!files.nocpucolor) = false
      · simp only [hcolour, if_true]
        exact ⟨_, _, hnone _ _⟩
      · rw [if_neg hcolour]
        refine ⟨r.1, { u with gCpucolor := some (u.gCpucolor.getD !files.nocpucolor) }, ?_⟩
        rw [if_neg hcolour]
        rfl
  · simp only [ho, not_false_eq_true, if_true]
    exact ⟨_, _, hnone _ _⟩

/-- **The rectangle fits**: its bytes are no more than were recorded for the buffer or, when no
length is recorded, fewer than 4 GiB. -/
def OsdFits (o : OvSetting) (s : State) : Prop :=
  ∀ e, s.gPhys.find? (fun e => e.phys = o.buffer) = some e →
    4 * (o.rect.w.toNat * o.rect.h.toNat) ≤ if e.len ≠ 0 then e.len.toNat else 2 ^ 32 - 1

/-- **The layer fits**: its pixels, which are counted in 32 bits, have fewer than 4 GiB. -/
def LayerFits (l : GspLayer) : Prop := 4 * (l.pitch.toNat * l.rectH.toNat % 2 ^ 32) < 2 ^ 32

theorem staysInside_iff {p : Picture} (hnpix : p.npix < 2 ^ 32) (hlen : p.len < 2 ^ 32) :
    StaysInside p ↔ 4 * p.npix ≤ p.len := by
  rw [StaysInside, touched_lt_iff hlen, UInt32.toNat_ofNat_of_lt' hnpix]

/-- The bytes of so many pixels, counted in 32 bits. -/
theorem le_mod_iff (n : ℕ) : 4 * n ≤ n * 4 % 2 ^ 32 ↔ 4 * n < 2 ^ 32 := by
  omega

theorem mmap_eq_some {granted : Bool} {fd : Int} {npix len : ℕ} {s : State} {p : Picture}
    (h : mmap granted fd npix len s = some p) : p.npix = npix ∧ p.len = len := by
  rw [mmap] at h
  split at h
  · obtain ⟨x, -, rfl⟩ := Option.map_eq_some_iff.mp h
    exact ⟨rfl, rfl⟩
  · cases h

/-- The picture at an address of the table. -/
theorem mapOsd_inside_iff {granted : Bool} {o : OvSetting} {s : State} {p : Picture}
    (h : mapOsd granted o s = some p) : StaysInside p ↔ OsdFits o s := by
  have hw := o.rect.w.toNat_lt
  have hh := o.rect.h.toNat_lt
  have hnpix : o.rect.w.toNat * o.rect.h.toNat < 2 ^ 32 := by
    calc o.rect.w.toNat * o.rect.h.toNat ≤ 65535 * 65535 := Nat.mul_le_mul (by omega) (by omega)
      _ < 2 ^ 32 := by decide
  rw [mapOsd] at h
  cases he : s.gPhys.find? fun e => e.phys = o.buffer with
  | none => simp [he] at h
  | some e =>
    simp only [he] at h
    split at h
    · cases h
    · obtain ⟨hp, hl⟩ := mmap_eq_some h
      have hlen := e.len.toNat_lt
      rw [staysInside_iff (by omega) (by rw [hl]; split_ifs <;> omega), hp, hl]
      simp only [OsdFits, he, Option.some.injEq, forall_eq']
      split_ifs
      · exact Iff.rfl
      · rw [le_mod_iff]
        omega

/-- The picture of a layer. -/
theorem mapLayer_inside_iff {granted : Bool} {l : GspLayer} {s : State} {p : Picture}
    (h : mapLayer granted l s = some p) : StaysInside p ↔ LayerFits l := by
  rw [mapLayer] at h
  split at h
  · cases h
  · obtain ⟨hp, hl⟩ := mmap_eq_some h
    have hnpix : (l.pitch * l.rectH.toUInt32).toNat =
        l.pitch.toNat * l.rectH.toNat % 2 ^ 32 := by
      rw [UInt32.toNat_mul, UInt16.toNat_toUInt32]
    have hlen : (l.pitch * l.rectH.toUInt32 * 4).toNat =
        l.pitch.toNat * l.rectH.toNat % 2 ^ 32 * 4 % 2 ^ 32 := by
      rw [UInt32.toNat_mul, hnpix]
      rfl
    rw [hnpix] at hp
    rw [hlen] at hl
    rw [staysInside_iff (by omega) (by omega), hp, hl, le_mod_iff, LayerFits]

/-- **When the passes stay inside**, once `mmap` has succeeded: the rectangle of the overlay fits
into what was recorded of its buffer, and the pixels of the layer are counted without a wrap. -/
theorem rotation_inside_iff (files : Files) (granted : Bool) (o : OvSetting) (l : GspLayer)
    (s : State) :
    (∀ p, osdPicture files granted o s = some p →
        (StaysInside p ↔ OsdFits (pinOsd files o s).1 s)) ∧
      ∀ p, mapLayer granted l s = some p → (StaysInside p ↔ LayerFits l) := by
  refine ⟨fun p h => ?_, fun p h => mapLayer_inside_iff h⟩
  have hphys : (readSweep files (pinOsd files o s).2).gPhys = s.gPhys := by
    rw [readSweep, pinOsd]
    repeat' split
    all_goals rfl
  rw [osdPicture] at h
  split at h
  · cases h
  · simp only at h
    split at h
    · cases h
    · split at h
      · cases h
      · rw [mapOsd_inside_iff h, OsdFits, OsdFits, hphys]

/-- A buffer of one page, and a rectangle of two. -/
def shortBuffer : State :=
  sprdcolorRecord 0x9ffcc000 3 4096 4
    (loaded (fun fd => if fd = 3 then some 0 else none) fun _ => [])

def twoPages : OvSetting :=
  ⟨sprdLayerOsd, sprdDataFormatRgb888, 0, 0, 0, ⟨0, 0, 64, 32⟩, 0x9ffcc000⟩

/-- The passes over two pictures of one page, through the table and of a layer. -/
theorem rotation_inside_iff_page :
    ∃ p q, osdPicture ⟨true, none, false⟩ true { twoPages with rect := ⟨0, 0, 32, 32⟩ }
        shortBuffer = some p ∧
      mapLayer true ⟨true, 3, 32, 32⟩ shortBuffer = some q ∧ StaysInside p ∧ StaysInside q := by
  obtain ⟨hosd, hlayer⟩ := rotation_inside_iff ⟨true, none, false⟩ true
    { twoPages with rect := ⟨0, 0, 32, 32⟩ } ⟨true, 3, 32, 32⟩ shortBuffer
  have hp : osdPicture ⟨true, none, false⟩ true { twoPages with rect := ⟨0, 0, 32, 32⟩ }
      shortBuffer = some ⟨4, 0, 1024, 4096⟩ := by decide +kernel
  have hq : mapLayer true ⟨true, 3, 32, 32⟩ shortBuffer = some ⟨3, 0, 1024, 4096⟩ := by
    decide +kernel
  refine ⟨_, _, hp, hq, (hosd _ hp).mpr ?_, (hlayer _ hq).mpr (by unfold LayerFits; decide)⟩
  have hfind : shortBuffer.gPhys.find? (fun e => e.phys =
      (pinOsd ⟨true, none, false⟩ { twoPages with rect := ⟨0, 0, 32, 32⟩ } shortBuffer).1.buffer) =
        some ⟨0x9ffcc000, 4, 4096⟩ := by decide +kernel
  intro e he
  rw [hfind] at he
  cases he
  decide

/-- The rectangle of two pages runs over the buffer of one. -/
theorem rotation_inside_not_always :
    ¬ ∀ (files : Files) (granted : Bool) (o : OvSetting) (s : State) (p : Picture),
      osdPicture files granted o s = some p → StaysInside p := by
  intro hall
  have hp : osdPicture ⟨true, none, false⟩ true twoPages shortBuffer =
      some ⟨4, 0, 2048, 4096⟩ := by decide +kernel
  have hin := hall _ _ _ _ _ hp
  rw [staysInside_iff (by decide) (by decide)] at hin
  revert hin
  decide

end Shim

end A1000

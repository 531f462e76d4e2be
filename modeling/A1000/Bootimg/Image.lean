import A1000.Lib.Bytes
import A1000.Lib.Fallible

/-!
# Boot images

The part of `a1000_bootimg_tool.py` that lays out an image: a header of one page, then the kernel,
the ramdisk, the second stage and the device tree, each padded to whole pages. `split` finds the
sections from the sizes in the header; `assemble` puts a new kernel and a new ramdisk into an image
of the same length.

`assemble` keeps the second stage's size in the header and leaves the second stage out. What it
writes where the header announces one is the device tree, and the device tree is looked for behind
it. Nothing is lost only where there is no second stage, or nothing but zeros to lose.

## Main definitions

* `Bootimg.parseHdr`, `Bootimg.split`, `Bootimg.assemble`
* `Bootimg.Paged` — an image with its header page
* `Bootimg.WellFormed` — an image that holds everything its header announces
* `Bootimg.Kept` — everything but kernel and ramdisk is as it was

## Main results

* `Bootimg.split_assemble` — kernel and ramdisk are found again
* `Bootimg.assemble_kept_iff` — when everything else is
-/

namespace A1000

namespace Bootimg

open Bytes Fallible

/-! ### Laying out and finding again -/

/-- How the tool stops without a result. -/
inductive Failure
  /-- `sys.exit`, with what it prints. -/
  | exit (message : String)
  | structError
  | zeroDivisionError
  | valueError
  | zlibError
  deriving DecidableEq, Repr

/-- `b'ANDROID!'`. -/
def magicAndroid : Bytes := [0x41, 0x4E, 0x44, 0x52, 0x4F, 0x49, 0x44, 0x21]

/-- What `parse_hdr` returns: the sizes of kernel, ramdisk and second stage, the page size, and the
size of the device tree. -/
structure Hdr where
  ks : ℕ
  rs : ℕ
  ss : ℕ
  ps : ℕ
  dts : ℕ
  deriving DecidableEq, Repr

/-- One of the nine words of `struct.unpack('<9I', d[8:44])`. -/
def word (d : Bytes) (i : ℕ) : ℕ := u32 (slice d (8 + 4 * i) (12 + 4 * i))

/-- `parse_hdr`. -/
def parseHdr (d : Bytes) : Except Failure Hdr :=
  if slice d 0 8 ≠ magicAndroid then .error (.exit "это не boot.img (нет ANDROID!)")
  else if (slice d 8 44).length ≠ 36 then .error .structError
  else .ok ⟨word d 0, word d 2, word d 4, word d 7, word d 8⟩

/-- `pad_to`. -/
def padTo (n ps : ℕ) : Except Failure ℕ :=
  if ps = 0 then .error .zeroDivisionError else .ok (alignUp n ps)

/-- Where the ramdisk starts: `off_r` of `split`. -/
def Hdr.offR (h : Hdr) : ℕ := h.ps + alignUp h.ks h.ps

/-- Where the second stage starts: `off_s` of `split`. -/
def Hdr.offS (h : Hdr) : ℕ := h.offR + alignUp h.rs h.ps

/-- Where the device tree starts: `off_d` of `split`. -/
def Hdr.offD (h : Hdr) : ℕ := h.offS + alignUp h.ss h.ps

/-- `split`. -/
def split (d : Bytes) : Except Failure (Hdr × Bytes × Bytes × Bytes) := do
  let h ← parseHdr d
  let offK := h.ps
  let offR := offK + (← padTo h.ks h.ps)
  let offS := offR + (← padTo h.rs h.ps)
  let offD := offS + (← padTo h.ss h.ps)
  return (h, slice d offK (offK + h.ks), slice d offR (offR + h.rs), slice d offD (offD + h.dts))

/-- `struct.pack('<I', n)`. -/
def pack (n : ℕ) : Except Failure Bytes :=
  if 2 ^ 32 ≤ n then .error .structError else .ok (packU32 n)

/-- A section and the zeros behind it: `b + b'\x00' * (pad_to(len(b), ps) - len(b))`. -/
def withPadding (b : Bytes) (ps : ℕ) : Except Failure Bytes := do
  return b ++ zeros ((← padTo b.length ps) - b.length)

/-- `assemble`. -/
def assemble (orig kernel rdGz dt : Bytes) : Except Failure Bytes := do
  let h ← parseHdr orig
  let hdr := setSlice (slice orig 0 h.ps) 8 12 (← pack kernel.length)
  let hdr := setSlice hdr 16 20 (← pack rdGz.length)
  let out := hdr ++ (← withPadding kernel h.ps) ++ (← withPadding rdGz h.ps)
  let out := out ++ (← withPadding dt h.ps)
  if orig.length < out.length then
    .error (.exit s!"не влезает в раздел: {out.length} > {orig.length}")
  else return out ++ zeros (orig.length - out.length)

theorem pack_eq_ok {n : ℕ} {b : Bytes} : pack n = .ok b ↔ n < 2 ^ 32 ∧ packU32 n = b := by
  rw [pack]
  split_ifs with h
  · simp only [false_iff]
    omega
  · simp only [Except.ok.injEq, iff_and_self]
    omega

theorem withPadding_eq_ok {b c : Bytes} {ps : ℕ} :
    withPadding b ps = .ok c ↔ 0 < ps ∧ padded b ps = c := by
  by_cases hps : ps = 0
  · simp [withPadding, padTo, hps, bind, Except.bind]
  · simp [withPadding, padTo, hps, bind, Except.bind, pure, Except.pure, padded,
      Nat.pos_of_ne_zero hps]

/-! ### Images and what they hold -/

/-- The second stage, which `split` steps over. -/
def secondStage (d : Bytes) : Bytes :=
  match parseHdr d with
  | .ok h => slice d h.offS (h.offS + h.ss)
  | .error _ => []

/-- A section of `size` bytes at `off` lies inside the image. -/
def Inside (d : Bytes) (off size : ℕ) : Prop := size = 0 ∨ off + size ≤ d.length

/-- An image with the header `h`, which lies in its first page. -/
structure Paged (d : Bytes) (h : Hdr) : Prop where
  hdr : parseHdr d = .ok h
  page : 44 ≤ h.ps
  header : h.ps ≤ d.length

/-- An image with the header `h` that holds everything it announces. -/
structure WellFormed (d : Bytes) (h : Hdr) : Prop where
  hdr : parseHdr d = .ok h
  powerOfTwo : ∃ n, h.ps = 2 ^ n
  pageSize : 2048 ≤ h.ps
  header : h.ps ≤ d.length
  kernel : Inside d h.ps h.ks
  ramdisk : Inside d h.offR h.rs
  second : Inside d h.offS h.ss
  dt : Inside d h.offD h.dts

theorem WellFormed.paged {d : Bytes} {h : Hdr} (wf : WellFormed d h) : Paged d h :=
  ⟨wf.hdr, le_trans (by decide) wf.pageSize, wf.header⟩

theorem Paged.ps_pos {d : Bytes} {h : Hdr} (pg : Paged d h) : 0 < h.ps :=
  lt_of_lt_of_le (by decide) pg.page

theorem length_slice_of_inside {d : Bytes} {off size : ℕ} (h : Inside d off size) :
    (slice d off (off + size)).length = size := by
  rw [length_slice]
  rcases h with h | h <;> omega

/-- What `split` finds, once the header has been read. -/
theorem split_eq {d : Bytes} {h : Hdr} (hdr : parseHdr d = .ok h) (hps : 0 < h.ps) :
    split d = .ok (h, slice d h.ps (h.ps + h.ks), slice d h.offR (h.offR + h.rs),
      slice d h.offD (h.offD + h.dts)) := by
  simp [split, hdr, padTo, hps.ne', bind, Except.bind, pure, Except.pure, Hdr.offR, Hdr.offS,
    Hdr.offD]

/-- An image with a ramdisk has a header page. -/
theorem paged_of_split {d k rd dt : Bytes} {h : Hdr} (hpage : 44 ≤ h.ps)
    (hsplit : split d = .ok (h, k, rd, dt)) (hrd : rd ≠ []) : Paged d h := by
  have hhdr : parseHdr d = .ok h := by
    obtain ⟨h', hhdr, hrest⟩ := bind_eq_ok.mp hsplit
    obtain ⟨_, -, hrest⟩ := bind_eq_ok.mp hrest
    obtain ⟨_, -, hrest⟩ := bind_eq_ok.mp hrest
    obtain ⟨_, -, hrest⟩ := bind_eq_ok.mp hrest
    cases hrest
    exact hhdr
  refine ⟨hhdr, hpage, ?_⟩
  rw [split_eq hhdr (by omega)] at hsplit
  simp only [Except.ok.injEq, Prod.mk.injEq] at hsplit
  obtain ⟨-, -, rfl, -⟩ := hsplit
  have hpos := List.length_pos_iff.mpr hrd
  rw [length_slice] at hpos
  simp only [Hdr.offR] at hpos
  omega

/-- **Everything else is kept**: the three sections are where `split` looks for them, the second
stage and the rest of the header are what they were, and the image is as long as before. -/
structure Kept (d k r dt out : Bytes) (ps : ℕ) : Prop where
  sections : ∃ h, split out = .ok (h, k, r, dt)
  second : secondStage out = secondStage d
  header : ∀ i < ps, ¬ (8 ≤ i ∧ i < 12) → ¬ (16 ≤ i ∧ i < 20) → out[i]? = d[i]?
  length : out.length = d.length

/-! ### What `assemble` writes -/

/-- The header with the two new sizes. -/
def newHeader (d k r : Bytes) (ps : ℕ) : Bytes :=
  setSlice (setSlice (slice d 0 ps) 8 12 (packU32 k.length)) 16 20 (packU32 r.length)

/-- What stands behind kernel and ramdisk. -/
def rest (d k r dt : Bytes) (ps : ℕ) : Bytes :=
  padded dt ps ++ zeros (d.length -
    (ps + alignUp k.length ps + alignUp r.length ps + alignUp dt.length ps))

theorem length_newHeader {d : Bytes} (k r : Bytes) {ps : ℕ} (h20 : 20 ≤ ps) (hd : ps ≤ d.length) :
    (newHeader d k r ps).length = ps := by
  have h0 : (slice d 0 ps).length = ps := by rw [length_slice]; omega
  have h1 : (setSlice (slice d 0 ps) 8 12 (packU32 k.length)).length = ps := by
    rw [length_setSlice _ (by omega) (by omega) (by simp), h0]
  rw [newHeader, length_setSlice _ (by omega) (by omega) (by simp), h1]

/-- The header byte by byte. -/
theorem getElem?_newHeader {d : Bytes} (k r : Bytes) {ps : ℕ} (h20 : 20 ≤ ps) (hd : ps ≤ d.length)
    (i : ℕ) :
    (newHeader d k r ps)[i]? =
      if 8 ≤ i ∧ i < 12 then (packU32 k.length)[i - 8]?
      else if 16 ≤ i ∧ i < 20 then (packU32 r.length)[i - 16]?
      else if i < ps then d[i]? else none := by
  have h0 : (slice d 0 ps).length = ps := by rw [length_slice]; omega
  have h1 : (setSlice (slice d 0 ps) 8 12 (packU32 k.length)).length = ps := by
    rw [length_setSlice _ (by omega) (by omega) (by simp), h0]
  rw [newHeader, getElem?_setSlice (by omega) (by omega) (by simp),
    getElem?_setSlice (by omega) (by omega) (by simp), getElem?_slice]
  simp only [Nat.zero_add]
  split_ifs <;> first | rfl | omega

/-- The bytes of the header that are not the two sizes. -/
theorem getElem?_header {d : Bytes} (k r t : Bytes) {ps i : ℕ} (h20 : 20 ≤ ps)
    (hd : ps ≤ d.length) (hi : i < ps) (h₁ : ¬ (8 ≤ i ∧ i < 12)) (h₂ : ¬ (16 ≤ i ∧ i < 20)) :
    (newHeader d k r ps ++ t)[i]? = d[i]? := by
  rw [List.getElem?_append_left (by rw [length_newHeader k r h20 hd]; exact hi),
    getElem?_newHeader k r h20 hd, if_neg h₁, if_neg h₂, if_pos hi]

/-- Reading the header `assemble` has written. -/
theorem parseHdr_newHeader {d k r : Bytes} {h : Hdr} (pg : Paged d h) (hk : k.length < 2 ^ 32)
    (hr : r.length < 2 ^ 32) (t : Bytes) :
    parseHdr (newHeader d k r h.ps ++ t) = .ok { h with ks := k.length, rs := r.length } := by
  have h44 := pg.page
  have hd := pg.header
  have hlen := length_newHeader k r (by omega) hd
  -- a slice that misses both sizes is what it was
  have hsame : ∀ a b, b ≤ 44 → (b ≤ 8 ∨ 12 ≤ a) → (b ≤ 16 ∨ 20 ≤ a) →
      slice (newHeader d k r h.ps ++ t) a b = slice d a b := fun a b hb h₁ h₂ =>
    slice_congr fun i hai hib =>
      getElem?_header k r t (by omega) hd (by omega) (by omega) (by omega)
  have hsize : ∀ a n, (∀ i < 4, (newHeader d k r h.ps)[a + i]? = (packU32 n)[i]?) → a + 4 ≤ 44 →
      slice (newHeader d k r h.ps ++ t) a (a + 4) = packU32 n := by
    intro a n hbytes ha
    refine List.ext_getElem? fun i => ?_
    rw [getElem?_slice]
    split_ifs with hi
    · rw [List.getElem?_append_left (by omega)]
      exact hbytes i (by omega)
    · rw [List.getElem?_eq_none (by simp; omega)]
  have hks : word (newHeader d k r h.ps ++ t) 0 = k.length := by
    rw [word, hsize 8 k.length (fun i hi => ?_) (by omega), u32_packU32 hk]
    rw [getElem?_newHeader k r (by omega) hd, if_pos (by omega), Nat.add_sub_cancel_left]
  have hrs : word (newHeader d k r h.ps ++ t) 2 = r.length := by
    rw [word, hsize 16 r.length (fun i hi => ?_) (by omega), u32_packU32 hr]
    rw [getElem?_newHeader k r (by omega) hd, if_neg (by omega), if_pos (by omega),
      Nat.add_sub_cancel_left]
  have hother : ∀ i, 4 ≤ i → i ≤ 8 → word (newHeader d k r h.ps ++ t) i = word d i :=
    fun i h₁ h₂ => by rw [word, word, hsame _ _ (by omega) (by omega) (by omega)]
  have hlen44 : (slice (newHeader d k r h.ps ++ t) 8 44).length = 36 := by
    rw [length_slice, List.length_append]
    omega
  have hparsed := pg.hdr
  rw [parseHdr] at hparsed ⊢
  split_ifs at hparsed with hmagic hshort
  rw [Except.ok.injEq] at hparsed
  rw [hsame 0 8 (by omega) (by omega) (by omega), if_neg hmagic, if_neg (not_not.mpr hlen44), hks,
    hrs, hother 4 (by omega) (by omega), hother 7 (by omega) (by omega),
    hother 8 (by omega) (by omega), ← hparsed]

/-- The sizes fit into the header, and the sections into the image. -/
def Fits (d k r dt : Bytes) (ps : ℕ) : Prop :=
  (k.length < 2 ^ 32 ∧ r.length < 2 ^ 32) ∧
    ps + alignUp k.length ps + alignUp r.length ps + alignUp dt.length ps ≤ d.length

/-- **What `assemble` returns**, and when. -/
theorem assemble_eq_ok {d k r dt out : Bytes} {h : Hdr} (pg : Paged d h) :
    assemble d k r dt = .ok out ↔ Fits d k r dt h.ps ∧
      newHeader d k r h.ps ++ padded k h.ps ++ padded r h.ps ++ rest d k r dt h.ps = out := by
  have hps := pg.ps_pos
  have hlen : (newHeader d k r h.ps).length = h.ps :=
    length_newHeader k r (le_trans (by decide) pg.page) pg.header
  have htotal : (newHeader d k r h.ps ++ padded k h.ps ++ padded r h.ps ++ padded dt h.ps).length =
      h.ps + alignUp k.length h.ps + alignUp r.length h.ps + alignUp dt.length h.ps := by
    simp only [List.length_append, hlen, length_padded _ hps]
  -- the end of `assemble`, once the sizes have been packed
  have hend : (if d.length < (newHeader d k r h.ps ++ padded k h.ps ++ padded r h.ps ++
      padded dt h.ps).length then
        Except.error (Failure.exit s!"не влезает в раздел: {(newHeader d k r h.ps ++
          padded k h.ps ++ padded r h.ps ++ padded dt h.ps).length} > {d.length}")
      else Except.ok (newHeader d k r h.ps ++ padded k h.ps ++ padded r h.ps ++ padded dt h.ps ++
        zeros (d.length - (newHeader d k r h.ps ++ padded k h.ps ++ padded r h.ps ++
          padded dt h.ps).length))) = .ok out ↔
      h.ps + alignUp k.length h.ps + alignUp r.length h.ps + alignUp dt.length h.ps ≤ d.length ∧
      newHeader d k r h.ps ++ padded k h.ps ++ padded r h.ps ++ rest d k r dt h.ps = out := by
    rw [htotal, rest, ← List.append_assoc]
    split_ifs with hfit
    · simp only [false_iff, not_and]
      omega
    · simp only [Except.ok.injEq, iff_and_self]
      omega
  rw [Fits, and_assoc, ← hend]
  constructor
  · intro ha
    obtain ⟨h', hhdr, ha⟩ := bind_eq_ok.mp ha
    rw [pg.hdr, Except.ok.injEq] at hhdr
    subst hhdr
    obtain ⟨_, hk, ha⟩ := bind_eq_ok.mp ha
    obtain ⟨_, hr, ha⟩ := bind_eq_ok.mp ha
    obtain ⟨_, hks, ha⟩ := bind_eq_ok.mp ha
    obtain ⟨_, hrs, ha⟩ := bind_eq_ok.mp ha
    obtain ⟨_, hds, ha⟩ := bind_eq_ok.mp ha
    obtain ⟨hklt, rfl⟩ := pack_eq_ok.mp hk
    obtain ⟨hrlt, rfl⟩ := pack_eq_ok.mp hr
    obtain ⟨-, rfl⟩ := withPadding_eq_ok.mp hks
    obtain ⟨-, rfl⟩ := withPadding_eq_ok.mp hrs
    obtain ⟨-, rfl⟩ := withPadding_eq_ok.mp hds
    exact ⟨⟨hklt, hrlt⟩, ha⟩
  · rintro ⟨⟨hk, hr⟩, ha⟩
    refine bind_eq_ok.mpr ⟨h, pg.hdr, bind_eq_ok.mpr ⟨_, pack_eq_ok.mpr ⟨hk, rfl⟩, ?_⟩⟩
    refine bind_eq_ok.mpr ⟨_, pack_eq_ok.mpr ⟨hr, rfl⟩, bind_eq_ok.mpr ⟨_,
      withPadding_eq_ok.mpr ⟨hps, rfl⟩, ?_⟩⟩
    exact bind_eq_ok.mpr ⟨_, withPadding_eq_ok.mpr ⟨hps, rfl⟩, bind_eq_ok.mpr ⟨_,
      withPadding_eq_ok.mpr ⟨hps, rfl⟩, ha⟩⟩

/-- What is found in an image that is laid out like this: a page for the header, the kernel, the
ramdisk, and what stands behind them. -/
theorem split_sections {hd k r x : Bytes} {h : Hdr} (hps : 0 < h.ps) (hlen : hd.length = h.ps)
    (hk : k.length = h.ks) (hr : r.length = h.rs)
    (hhdr : parseHdr (hd ++ padded k h.ps ++ padded r h.ps ++ x) = .ok h) :
    split (hd ++ padded k h.ps ++ padded r h.ps ++ x) =
        .ok (h, k, r, (x.drop (alignUp h.ss h.ps)).take h.dts) ∧
      secondStage (hd ++ padded k h.ps ++ padded r h.ps ++ x) = x.take h.ss := by
  have hlenk : (hd ++ padded k h.ps).length = h.offR := by
    rw [List.length_append, hlen, length_padded k hps, hk]
    rfl
  have hlenr : (hd ++ padded k h.ps ++ padded r h.ps).length = h.offS := by
    rw [List.length_append, hlenk, length_padded r hps, hr]
    rfl
  have hkernel := slice_append_add hlen (padded k h.ps ++ (padded r h.ps ++ x)) 0 k.length
  have hramdisk := slice_append_add hlenk (padded r h.ps ++ x) 0 r.length
  have hsecond := slice_append_add hlenr x 0 h.ss
  have hdt := slice_append_add hlenr x (alignUp h.ss h.ps) h.dts
  rw [List.drop_zero, take_padded_append, Nat.add_zero, ← List.append_assoc,
    ← List.append_assoc, hk] at hkernel
  rw [List.drop_zero, take_padded_append, Nat.add_zero, ← List.append_assoc, hr] at hramdisk
  refine ⟨(split_eq hhdr hps).trans ?_, ?_⟩
  · exact congrArg Except.ok (Prod.ext rfl (Prod.ext hkernel (Prod.ext hramdisk hdt)))
  · rw [secondStage, hhdr]
    exact hsecond

/-- The header of the new image. -/
def Hdr.resized (h : Hdr) (k r : Bytes) : Hdr := { h with ks := k.length, rs := r.length }

/-- **What is found in the new image**: the new kernel, the new ramdisk, and what stands behind
them, from where the second stage and the device tree are announced to be. -/
theorem split_assemble {d k r dt out : Bytes} {h : Hdr} (pg : Paged d h)
    (ha : assemble d k r dt = .ok out) :
    split out = .ok (h.resized k r, k, r,
        ((rest d k r dt h.ps).drop (alignUp h.ss h.ps)).take h.dts) ∧
      secondStage out = (rest d k r dt h.ps).take h.ss := by
  obtain ⟨⟨⟨hk, hr⟩, hfit⟩, rfl⟩ := (assemble_eq_ok pg).mp ha
  have hlen : (newHeader d k r h.ps).length = h.ps :=
    length_newHeader k r (le_trans (by decide) pg.page) pg.header
  have hhdr : parseHdr (newHeader d k r h.ps ++ padded k h.ps ++ padded r h.ps ++
      rest d k r dt h.ps) = .ok (h.resized k r) := by
    rw [List.append_assoc, List.append_assoc]
    exact parseHdr_newHeader pg hk hr _
  exact split_sections (h := h.resized k r) pg.ps_pos hlen rfl rfl hhdr

/-! ### What is kept -/

/-- The room behind kernel and ramdisk. -/
def room (d k r : Bytes) (ps : ℕ) : ℕ := d.length - (ps + alignUp k.length ps + alignUp r.length ps)

/-- Behind kernel and ramdisk there are the device tree and zeros, up to the end of the image. -/
theorem rest_eq {d k r dt : Bytes} {ps : ℕ} (hps : 0 < ps)
    (hfit : ps + alignUp k.length ps + alignUp r.length ps + alignUp dt.length ps ≤ d.length) :
    rest d k r dt ps = dt ++ zeros (room d k r ps - dt.length) := by
  have hle := le_alignUp dt.length hps
  rw [rest, padded, List.append_assoc, ← zeros_add, room]
  congr 2
  omega

/-- Sections found in a device tree that is followed by zeros. -/
theorem rest_sections_iff {s dt : Bytes} {n p : ℕ} (hp : s = [] → p = 0) (hs : s.length ≤ p) :
    ((dt ++ zeros n).take s.length = s ∧ ((dt ++ zeros n).drop p).take dt.length = dt) ↔
      s = [] ∨ (AllZero s ∧ AllZero dt) ∧ s.length ≤ dt.length + n ∧
        (dt = [] ∨ p + dt.length ≤ dt.length + n) := by
  constructor
  · rintro ⟨hsecond, hdt⟩
    rcases List.eq_nil_or_concat s with hnil | ⟨s', b, hcons⟩
    · exact .inl hnil
    · have hpos : 0 < s.length := by simp [hcons]
      have hzero : AllZero dt := allZero_of_shift (by omega) hdt
      have hlen := congrArg List.length hsecond
      have hlen' := congrArg List.length hdt
      simp only [List.length_take, List.length_append, length_zeros, List.length_drop] at hlen hlen'
      refine .inr ⟨⟨fun b hb => ?_, hzero⟩, by omega, ?_⟩
      · rw [← hsecond] at hb
        exact hzero.append (allZero_zeros n) b (List.mem_of_mem_take hb)
      · rcases Nat.eq_zero_or_pos dt.length with h0 | h0
        · exact .inl (List.length_eq_zero_iff.mp h0)
        · exact .inr (by omega)
  · rintro (hnil | ⟨⟨hs0, hd0⟩, hfits, hfitd⟩)
    · subst hnil
      simp [hp rfl]
    · obtain ⟨a, rfl⟩ : ∃ a, s = zeros a := ⟨_, allZero_iff.mp hs0⟩
      obtain ⟨c, rfl⟩ : ∃ c, dt = zeros c := ⟨_, allZero_iff.mp hd0⟩
      simp only [length_zeros] at hfits hfitd ⊢
      rw [← zeros_add, take_zeros, drop_zeros, take_zeros, Nat.min_eq_left hfits]
      refine ⟨rfl, congrArg zeros ?_⟩
      rcases hfitd with hnil | hfitd
      · rw [zeros, List.replicate_eq_nil_iff] at hnil
        omega
      · omega

/-- **When boot image surgery keeps everything else**: where there is no second stage, or where
the second stage and the device tree are nothing but zeros and there is room left for them. -/
theorem assemble_kept_iff {d k r dt out k₀ r₀ : Bytes} {h : Hdr} (wf : WellFormed d h)
    (hsplit : split d = .ok (h, k₀, r₀, dt)) (ha : assemble d k r dt = .ok out) :
    Kept d k r dt out h.ps ↔
      h.ss = 0 ∨ (AllZero (secondStage d) ∧ AllZero dt) ∧ h.ss ≤ room d k r h.ps ∧
        (h.dts = 0 ∨ alignUp h.ss h.ps + h.dts ≤ room d k r h.ps) := by
  have hps := wf.paged.ps_pos
  have h20 : 20 ≤ h.ps := le_trans (by decide) wf.pageSize
  obtain ⟨hfound, hsecond⟩ := split_assemble wf.paged ha
  obtain ⟨⟨-, hfit⟩, hout⟩ := (assemble_eq_ok wf.paged).mp ha
  -- the old sections have the sizes the header announces
  have hdt : dt.length = h.dts := by
    rw [split_eq wf.hdr hps] at hsplit
    simp only [Except.ok.injEq, Prod.mk.injEq, true_and] at hsplit
    rw [← hsplit.2.2, length_slice_of_inside wf.dt]
  have hss : (secondStage d).length = h.ss := by
    rw [secondStage, wf.hdr]
    exact length_slice_of_inside wf.second
  have hroom : dt.length + (room d k r h.ps - dt.length) = room d k r h.ps := by
    have := le_alignUp dt.length hps
    rw [room]
    omega
  have hkept : Kept d k r dt out h.ps ↔ (rest d k r dt h.ps).take h.ss = secondStage d ∧
      ((rest d k r dt h.ps).drop (alignUp h.ss h.ps)).take h.dts = dt := by
    constructor
    · intro hk
      obtain ⟨h', hh'⟩ := hk.sections
      rw [hfound] at hh'
      simp only [Except.ok.injEq, Prod.mk.injEq, true_and] at hh'
      exact ⟨hsecond ▸ hk.second, hh'.2⟩
    · rintro ⟨h₁, h₂⟩
      refine ⟨⟨h.resized k r, by rw [hfound, h₂]⟩, by rw [hsecond, h₁], fun i hi h₃ h₄ => ?_, ?_⟩
      · rw [← hout, List.append_assoc, List.append_assoc]
        exact getElem?_header k r _ h20 wf.header hi h₃ h₄
      · rw [← hout, rest_eq hps hfit]
        simp only [List.length_append, length_newHeader k r h20 wf.header, length_padded _ hps,
          length_zeros, hroom]
        rw [room]
        omega
  rw [hkept, rest_eq hps hfit, ← hss, ← hdt, rest_sections_iff, hroom,
    List.length_eq_zero_iff, List.length_eq_zero_iff]
  · intro hnil
    rw [hnil]
    exact alignUp_zero hps
  · exact le_alignUp _ hps

/-- The first bytes of an image: the name, and the nine words with addresses of 0. -/
def startOf (h : Hdr) : Bytes :=
  magicAndroid ++ [h.ks, 0, h.rs, 0, h.ss, 0, 0, h.ps, h.dts].flatMap packU32

/-- A small image: a page for the header, one for the kernel, one for the ramdisk, and the first
byte of the next. -/
def smallImage (ss : ℕ) : Bytes :=
  startOf ⟨1, 1, ss, 2048, 0⟩ ++ zeros 2004 ++ (7 :: zeros 2047) ++ (8 :: zeros 2047) ++ [9]

theorem padded_singleton (b : UInt8) : padded [b] 2048 = b :: zeros 2047 := by
  have hpad : alignUp 1 2048 - 1 = 2047 := by decide
  rw [padded, List.length_singleton, hpad, List.singleton_append]

theorem length_smallImage (ss : ℕ) : (smallImage ss).length = 6145 := by
  have hstart : (startOf ⟨1, 1, ss, 2048, 0⟩).length = 44 := rfl
  simp only [smallImage, List.length_append, List.length_cons, length_zeros, hstart,
    List.length_nil]

/-- A header is read from its first bytes, if the sizes fit into words. -/
theorem parseHdr_startOf {h : Hdr} (hks : h.ks < 2 ^ 32) (hrs : h.rs < 2 ^ 32)
    (hss : h.ss < 2 ^ 32) (hps : h.ps < 2 ^ 32) (hdts : h.dts < 2 ^ 32) (x : Bytes) :
    parseHdr (startOf h ++ x) = .ok h := by
  have hmagic : slice (startOf h ++ x) 0 8 = magicAndroid := rfl
  have hlen : (slice (startOf h ++ x) 8 44).length = 36 := rfl
  have hwords : word (startOf h ++ x) 0 = h.ks ∧ word (startOf h ++ x) 2 = h.rs ∧
      word (startOf h ++ x) 4 = h.ss ∧ word (startOf h ++ x) 7 = h.ps ∧
        word (startOf h ++ x) 8 = h.dts :=
    ⟨u32_packU32 hks, u32_packU32 hrs, u32_packU32 hss, u32_packU32 hps, u32_packU32 hdts⟩
  obtain ⟨h₀, h₂, h₄, h₇, h₈⟩ := hwords
  rw [parseHdr, if_neg (not_not.mpr hmagic), if_neg (not_not.mpr hlen), h₀, h₂, h₄, h₇, h₈]

theorem parseHdr_smallImage {ss : ℕ} (hss : ss < 2) :
    parseHdr (smallImage ss) = .ok ⟨1, 1, ss, 2048, 0⟩ := by
  simp only [smallImage, List.append_assoc]
  exact parseHdr_startOf (by simp) (by simp) (hss.trans (by decide)) (by simp) (by simp) _

theorem wellFormed_smallImage : ∀ ss < 2, WellFormed (smallImage ss) ⟨1, 1, ss, 2048, 0⟩ := by
  intro ss hss
  exact ⟨parseHdr_smallImage hss, ⟨11, rfl⟩, le_rfl, by simp [length_smallImage],
    .inr (by simp [length_smallImage]), .inr (by simp [length_smallImage, Hdr.offR, alignUp]),
    .inr (by simp [length_smallImage, Hdr.offS, Hdr.offR, alignUp]; omega), .inl rfl⟩

/-- What is found in it. -/
theorem split_smallImage {ss : ℕ} (hss : ss < 2) :
    split (smallImage ss) = .ok (⟨1, 1, ss, 2048, 0⟩, [7], [8], []) ∧
      secondStage (smallImage ss) = [9].take ss := by
  have hlen : (startOf ⟨1, 1, ss, 2048, 0⟩ ++ zeros 2004).length = 2048 := by
    rw [List.length_append, length_zeros]
    rfl
  have hhdr := parseHdr_smallImage hss
  rw [smallImage, ← padded_singleton, ← padded_singleton] at hhdr ⊢
  exact split_sections (h := ⟨1, 1, ss, 2048, 0⟩) (by simp) hlen rfl rfl hhdr

/-- Without a second stage everything else is kept. -/
theorem assemble_kept_iff_small :
    ∃ out, assemble (smallImage 0) [5] [6] [] = .ok out ∧
      Kept (smallImage 0) [5] [6] [] out 2048 := by
  have wf := wellFormed_smallImage 0 (by decide)
  have hout : assemble (smallImage 0) [5] [6] [] = .ok _ := (assemble_eq_ok wf.paged).mpr
    ⟨⟨by decide, by rw [length_smallImage]; decide⟩, rfl⟩
  exact ⟨_, hout, (assemble_kept_iff wf (split_smallImage (by decide)).1 hout).mpr (.inl rfl)⟩

/-- A second stage of one byte is lost. -/
theorem assemble_kept_not_always :
    ¬ ∀ (d k r dt out k₀ r₀ : Bytes) (h : Hdr), WellFormed d h →
      split d = .ok (h, k₀, r₀, dt) → assemble d k r dt = .ok out → Kept d k r dt out h.ps := by
  intro hall
  have wf := wellFormed_smallImage 1 (by decide)
  have hout : assemble (smallImage 1) [5] [6] [] = .ok _ := (assemble_eq_ok wf.paged).mpr
    ⟨⟨by decide, by rw [length_smallImage]; decide⟩, rfl⟩
  have hsecond : secondStage (smallImage 1) = [9] := (split_smallImage (by decide)).2
  have hkept := (hall _ _ _ _ _ _ _ _ wf (split_smallImage (by decide)).1 hout).second
  rw [(split_assemble wf.paged hout).2, hsecond, rest, length_smallImage] at hkept
  revert hkept
  decide

end Bootimg

end A1000

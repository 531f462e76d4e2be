import A1000.Bootimg.Cpio

/-!
# Replacing a file in the ramdisk

`ramdisk_open` and `cmd_replace` of `a1000_bootimg_tool.py`. "An old ramdisk held two gzip streams,
and naive repacking lost the second": the tool unpacks the ramdisk, builds it anew unchanged and
stops if the result differs. But it compares with what was unpacked, and only the first stream is.

So a replacement that no other check refuses keeps the rest of the ramdisk exactly when the streams
behind the first hold nothing.

zlib is a parameter. A stream ("member") ends by itself, so the beginning of a string determines
which one it starts with.

## Main definitions

* `Bootimg.Zlib`, `Bootimg.Zlib.Lawful` — zlib, and what is documented of it
* `Bootimg.cmdReplace` — the command up to the write
* `Bootimg.SameBut` — two ramdisks differ in the data of one file only
* `Bootimg.Safe` — nothing is written, or a ramdisk that differs in the data of one file only

## Main results

* `Bootimg.replace_safe_iff` — when the command is safe
-/

namespace A1000

namespace Bootimg

open Bytes

/-! ### The command -/

/-- What is used of zlib and of Python's gzip module. -/
structure Zlib where
  /-- A gzip stream, complete with its trailer, and what it inflates to. -/
  Member : Bytes → Bytes → Prop
  /-- `zlib.decompressobj(16 + zlib.MAX_WBITS).decompress`: what it returns and what it leaves in
  `unused_data`. -/
  decompress : Bytes → Option (Bytes × Bytes)
  /-- What `gzip.GzipFile` writes. -/
  gzip : Bytes → Bytes

/-- What is documented of it. -/
structure Zlib.Lawful (Z : Zlib) : Prop where
  /-- The first stream is inflated, the rest is left. -/
  decompress : ∀ {z x : Bytes}, Z.Member z x → ∀ s, Z.decompress (z ++ s) = some (x, s)
  /-- What is written is one stream. -/
  gzip : ∀ x, Z.Member (Z.gzip x) x
  /-- A stream has a header. -/
  ne_nil : ∀ {z x : Bytes}, Z.Member z x → z ≠ []

/-- `name.encode()`. -/
def encode (name : String) : Bytes := name.toUTF8.data.toList

/-- `ramdisk_open`. -/
def ramdiskOpen (Z : Zlib) (fuel : ℕ) (rd : Bytes) :
    Option (Except Failure (List Item × Bytes)) :=
  match Z.decompress rd with
  | none => some (.error .zlibError)
  | some (cpio, _) => (cpioParse fuel cpio).map fun r => r.bind fun t =>
    if cpioBuild t.1 t.2 ≠ cpio then
      .error (.exit "перепаковка НЕ воспроизводит оригинал — работать нельзя")
    else .ok t

/-- The loop of `cmd_replace` over the items. -/
def replaceData (file new : Bytes) (items : List Item) : List Item :=
  items.map fun it => if it.name = file then { it with data := new } else it

/-- `cmd_replace`: the image it writes. What comes after the write rereads it and prints. -/
def cmdReplace (Z : Zlib) (fuel : ℕ) (d : Bytes) (name : String) (new : Bytes) :
    Option (Except Failure Bytes) :=
  match split d with
  | .error e => some (.error e)
  | .ok (_, kernel, rd, dt) => (ramdiskOpen Z fuel rd).map fun r => r.bind fun t =>
    if ∀ it ∈ t.1, it.name ≠ encode name then .error (.exit s!"в ramdisk нет файла {name}")
    else assemble d kernel (Z.gzip (cpioBuild (replaceData (encode name) new t.1) t.2)) dt

/-! ### What should be kept -/

/-- A string of streams, one after the other, and what they inflate to together. -/
def Zlib.Inflates (Z : Zlib) (rd a : Bytes) : Prop :=
  ∃ ms : List (Bytes × Bytes), (∀ m ∈ ms, Z.Member m.1 m.2) ∧ rd = ms.flatMap Prod.fst ∧
    a = ms.flatMap Prod.snd

/-- An entry of the name `file` has the new data and their size; any other is what it was. -/
structure Replaced (file new : Bytes) (e e' : Entry) : Prop where
  hdr : ∀ i, ¬ (54 ≤ i ∧ i < 62) → e'.hdr[i]? = e.hdr[i]?
  name : e'.name = e.name
  data : e'.data = if e.name = file then new else e.data

/-- Two archives that differ in the entries of one name only, and there only in the data, their
size and the padding behind them. -/
def SameBut (file new a b : Bytes) : Prop :=
  ∃ es es' tail, Newc a es tail ∧ List.Forall₂ (Replaced file new) es es' ∧
    b = cpioBuild (es'.map Entry.toItem) tail

/-- The command ends, and if it writes an image, then the ramdisk in there inflates to what the
old one inflates to, `a`, but for the data of the file. -/
def Safe (Z : Zlib) (d : Bytes) (name : String) (new a : Bytes) : Prop :=
  ∃ fuel r, cmdReplace Z fuel d name new = some r ∧ ∀ out, r = .ok out →
    ∃ h k rd dt b, split out = .ok (h, k, rd, dt) ∧ Z.Inflates rd b ∧
      SameBut (encode name) new a b

/-! ### Streams -/

/-- What was written inflates to what was given, and to nothing else. -/
theorem Zlib.Lawful.inflates_gzip_iff {Z : Zlib} (hZ : Z.Lawful) {x a : Bytes} :
    Z.Inflates (Z.gzip x) a ↔ a = x := by
  constructor
  · rintro ⟨ms, hms, hraw, rfl⟩
    have hall := hZ.decompress (hZ.gzip x) []
    rw [List.append_nil] at hall
    cases ms with
    | nil => exact absurd hraw (hZ.ne_nil (hZ.gzip x))
    | cons m ms =>
      have hfirst := hZ.decompress (hms m (by simp)) (ms.flatMap Prod.fst)
      rw [hraw, List.flatMap_cons] at hall
      rw [hall, Option.some.injEq, Prod.mk.injEq] at hfirst
      -- nothing is left for a second stream
      have hnil : ms = [] := by
        cases ms with
        | nil => rfl
        | cons m' ms =>
          have hempty := hfirst.2
          rw [List.flatMap_cons, eq_comm, List.append_eq_nil_iff] at hempty
          exact absurd hempty.1 (hZ.ne_nil (hms m' (by simp)))
      simp [hnil, hfirst.1]
  · rintro rfl
    exact ⟨[(Z.gzip a, a)], by simpa using hZ.gzip a, by simp, by simp⟩

/-! ### Replacing data -/

/-- An entry with other data. -/
def Entry.withData (e : Entry) (new : Bytes) (h : new.length < 16 ^ 8) : Entry where
  hdr := setSlice e.hdr 54 62 (Hex.format 8 new.length)
  name := e.name
  data := new
  length := by
    rw [length_setSlice _ (by rw [e.length]; decide) (by decide) (Hex.length_format h), e.length]
  magic := by rw [slice_setSlice_of_le (by decide) (by rw [e.length]; decide), e.magic]
  filesize := slice_setSlice (by rw [e.length]; decide) (by decide) (Hex.length_format h)
  namesize := by
    rw [← e.namesize]
    refine slice_congr fun i hi _ => ?_
    rw [getElem?_setSlice (by rw [e.length]; decide) (by decide) (Hex.length_format h),
      if_neg (by omega), if_neg (by omega)]

theorem Entry.withData_hdr (e : Entry) {new : Bytes} (h : new.length < 16 ^ 8) :
    (e.withData new h).hdr = setSlice e.hdr 54 62 (Hex.format 8 new.length) := rfl

theorem Entry.withData_name (e : Entry) {new : Bytes} (h : new.length < 16 ^ 8) :
    (e.withData new h).name = e.name := rfl

theorem Entry.withData_data (e : Entry) {new : Bytes} (h : new.length < 16 ^ 8) :
    (e.withData new h).data = new := rfl

/-- Building an entry puts the size of its data into the header. -/
theorem Entry.bytes_withData (e : Entry) {new : Bytes} (h : new.length < 16 ^ 8) :
    (e.withData new h).bytes = ({ e.toItem with data := new } : Item).bytes := by
  have hsize : setSlice (e.withData new h).hdr 54 62 (Hex.format 8 new.length) =
      (e.withData new h).hdr := by
    have hslice := setSlice_slice (e.withData new h).hdr (show 54 ≤ 62 by decide)
    rwa [(e.withData new h).filesize, e.withData_data h] at hslice
  simp only [Item.bytes, buildItem, e.withData_data h, e.withData_name h, hsize]
  rw [e.withData_hdr h]

/-- An entry after the loop of `cmd_replace`. -/
def Entry.replaced (file new : Bytes) (h : new.length < 16 ^ 8) (e : Entry) : Entry :=
  if e.name = file then e.withData new h else e

theorem replaced_replaced (file : Bytes) {new : Bytes} (h : new.length < 16 ^ 8) (e : Entry) :
    Replaced file new e (e.replaced file new h) := by
  rw [Entry.replaced]
  split_ifs with hfile
  · refine ⟨fun i hi => ?_, e.withData_name h, by rw [if_pos hfile, e.withData_data h]⟩
    rw [e.withData_hdr h, getElem?_setSlice (by rw [e.length]; decide) (by decide)
      (Hex.length_format h)]
    split_ifs <;> first | rfl | omega
  · exact ⟨fun _ _ => rfl, rfl, by rw [if_neg hfile]⟩

/-- **The archive that is built** is the archive of the replaced entries. -/
theorem cpioBuild_replaceData (file : Bytes) {new : Bytes} (h : new.length < 16 ^ 8)
    (es : List Entry) (tail : Bytes) :
    cpioBuild (replaceData file new (es.map Entry.toItem)) tail =
      cpioBuild ((es.map (Entry.replaced file new h)).map Entry.toItem) tail := by
  rw [cpioBuild_eq, cpioBuild_eq, replaceData, List.map_map, List.map_map, List.flatMap_map,
    List.flatMap_map]
  refine congrArg (fun bytes => es.flatMap bytes ++ tail) ?_
  funext e
  simp only [Function.comp, Entry.replaced]
  split_ifs with hfile
  · exact (e.bytes_withData h).symm
  · rfl

/-! ### Archives in front of other bytes -/

/-- What an archive consists of that starts with an entry. -/
theorem newc_entry_cases {e : Entry} {b tail : Bytes} {fs : List Entry}
    (h : Newc (e.bytes ++ b) fs tail) :
    (e.name = trailerName ∧ fs = [e] ∧ tail = b) ∨
      (e.name ≠ trailerName ∧ ∃ fs', fs = e :: fs' ∧ Newc b fs' tail) := by
  generalize hx : e.bytes ++ b = x at h
  cases h with
  | tail no => exact absurd (hx ▸ e.startsHeader b) no
  | trailer last =>
    obtain ⟨rfl, rfl⟩ := Entry.bytes_append_inj hx
    exact .inl ⟨last, rfl, rfl⟩
  | entry more rest =>
    obtain ⟨rfl, rfl⟩ := Entry.bytes_append_inj hx
    exact .inr ⟨more, _, rfl, rest⟩

/-- The entries of an archive are entries of every string that begins with it. -/
theorem Newc.subset_of_append {x t s T : Bytes} {es : List Entry} (h : Newc x es t) :
    ∀ {fs : List Entry}, Newc (x ++ s) fs T → es ⊆ fs := by
  induction h with
  | tail no =>
    intro fs _
    exact List.nil_subset fs
  | trailer last =>
    intro fs hfs
    rw [List.append_assoc] at hfs
    obtain ⟨-, rfl, -⟩ | ⟨more, -⟩ := newc_entry_cases hfs
    · exact List.Subset.refl _
    · exact absurd last more
  | entry more rest ih =>
    intro fs hfs
    rw [List.append_assoc] at hfs
    obtain ⟨last, -⟩ | ⟨-, fs, rfl, hrest⟩ := newc_entry_cases hfs
    · exact absurd last more
    · exact List.cons_subset_cons _ (ih hrest)

/-- **Nothing stands behind an archive that can be taken for all of it**: if the archive `x`, entry
by entry, becomes the same string as `x ++ s` does, then `s` is empty. -/
theorem Newc.eq_nil_of_append {R : Entry → Entry → Prop} {x t s T : Bytes} {es : List Entry}
    (h : Newc x es t) :
    ∀ {es' fs fs' : List Entry}, Newc (x ++ s) fs T → List.Forall₂ R es es' →
      List.Forall₂ R fs fs' →
      cpioBuild (es'.map Entry.toItem) t = cpioBuild (fs'.map Entry.toItem) T → s = [] := by
  simp only [cpioBuild_eq]
  induction h with
  | tail no =>
    intro es' fs fs' hfs hes' hfs' heq
    cases hes'
    cases hfs' with
    | nil =>
      have hbytes := hfs.bytes_eq
      rw [cpioBuild_eq, ← heq] at hbytes
      exact List.append_right_eq_self.mp hbytes.symm
    | @cons _ f' _ _ hf hfs' =>
      rw [List.map_nil, List.flatMap_nil, List.nil_append, List.map_cons, List.flatMap_cons,
        List.append_assoc] at heq
      exact absurd (heq ▸ f'.startsHeader _) no
  | trailer last =>
    intro es' fs fs' hfs hes' hfs' heq
    rw [List.append_assoc] at hfs
    obtain ⟨-, rfl, rfl⟩ | ⟨more, -⟩ := newc_entry_cases hfs
    · cases hes' with | cons he hes' =>
      cases hes'
      cases hfs' with | cons hf hfs' =>
      cases hfs'
      simp only [List.map_cons, List.flatMap_cons, List.append_assoc] at heq
      exact List.append_right_eq_self.mp (Entry.bytes_append_inj heq).2.symm
    · exact absurd last more
  | entry more rest ih =>
    intro es' fs fs' hfs hes' hfs' heq
    rw [List.append_assoc] at hfs
    obtain ⟨last, -⟩ | ⟨-, fs, rfl, hrest⟩ := newc_entry_cases hfs
    · exact absurd last more
    · cases hes' with | cons he hes' =>
      cases hfs' with | cons hf hfs' =>
      simp only [List.map_cons, List.flatMap_cons, List.append_assoc] at heq
      exact ih hrest hes' hfs' (Entry.bytes_append_inj heq).2

/-! ### When the command is safe -/

/-- **A replacement keeps the rest only if there is no rest**: what stands behind the archive of
the first stream is not in the new one, and a size of 2 ^ 32 does not fit into the field. -/
theorem sameBut_iff {file new x s tail : Bytes} {es : List Entry} (h : Newc x es tail)
    (hfile : ∃ e ∈ es, e.name = file) :
    SameBut file new (x ++ s) (cpioBuild (replaceData file new (es.map Entry.toItem)) tail) ↔
      s = [] ∧ new.length < 2 ^ 32 := by
  constructor
  · rintro ⟨fs, fs', T, hfs, hfs', hbuild⟩
    have hlt : new.length < 2 ^ 32 := by
      obtain ⟨e, he, hname⟩ := hfile
      obtain ⟨i, hi, rfl⟩ := List.getElem_of_mem (h.subset_of_append hfs he)
      have hi' : i < fs'.length := hfs'.length_eq ▸ hi
      have hdata := (fs'.get ⟨i, hi'⟩).data_lt
      rwa [(hfs'.get hi hi').data, List.get_eq_getElem, if_pos hname] at hdata
    have hes' : List.Forall₂ (Replaced file new) es (es.map (Entry.replaced file new hlt)) :=
      List.forall₂_map_right_iff.mpr (List.forall₂_same.mpr fun e _ => replaced_replaced file hlt e)
    rw [cpioBuild_replaceData file hlt] at hbuild
    exact ⟨h.eq_nil_of_append hfs hes' hfs' hbuild, hlt⟩
  · rintro ⟨rfl, hlt⟩
    rw [List.append_nil]
    exact ⟨es, _, tail, h, List.forall₂_map_right_iff.mpr
      (List.forall₂_same.mpr fun e _ => replaced_replaced file hlt e),
      cpioBuild_replaceData file hlt es tail⟩

section

variable {Z : Zlib} {d k rd dt x s : Bytes} {h : Hdr}

/-- What the command does once the ramdisk has been inflated. -/
theorem cmdReplace_eq (hsplit : split d = .ok (h, k, rd, dt)) (hrd : Z.decompress rd = some (x, s))
    (fuel : ℕ) (name : String) (new : Bytes) :
    cmdReplace Z fuel d name new = (cpioParse fuel x).map fun r => r.bind fun t =>
      if cpioBuild t.1 t.2 ≠ x then
        .error (.exit "перепаковка НЕ воспроизводит оригинал — работать нельзя")
      else if ∀ it ∈ t.1, it.name ≠ encode name then .error (.exit s!"в ramdisk нет файла {name}")
      else assemble d k (Z.gzip (cpioBuild (replaceData (encode name) new t.1) t.2)) dt := by
  rw [cmdReplace, hsplit]
  simp only [ramdiskOpen, hrd, Option.map_map]
  refine congrArg₂ Option.map ?_ rfl
  funext r
  cases r with
  | error f => rfl
  | ok t =>
    simp only [Function.comp, Except.bind]
    by_cases hbuild : cpioBuild t.1 t.2 ≠ x
    · rw [if_pos hbuild, if_pos hbuild]
    · rw [if_neg hbuild, if_neg hbuild]

/-- **An image is written** when the first stream is an archive with such a file, and the new
ramdisk fits. -/
theorem cmdReplace_eq_ok (hsplit : split d = .ok (h, k, rd, dt))
    (hrd : Z.decompress rd = some (x, s)) {fuel : ℕ} {name : String} {new out : Bytes} :
    cmdReplace Z fuel d name new = some (.ok out) ↔
      ∃ es tail, Newc x es tail ∧ (∃ e ∈ es, e.name = encode name) ∧
        (cpioParse fuel x).isSome ∧
        assemble d k (Z.gzip (cpioBuild (replaceData (encode name) new (es.map Entry.toItem)) tail))
          dt = .ok out := by
  rw [cmdReplace_eq hsplit hrd]
  constructor
  · intro hout
    obtain ⟨r, hr, hout⟩ := Option.map_eq_some_iff.mp hout
    cases r with
    | error f => cases hout
    | ok t =>
      obtain ⟨items, tail⟩ := t
      simp only [Except.bind] at hout
      split_ifs at hout with hbuild hnone
      obtain ⟨es, rfl, hes⟩ := newc_of_parse hr (not_not.mp hbuild)
      push Not at hnone
      obtain ⟨it, hit, hname⟩ := hnone
      obtain ⟨e, he, rfl⟩ := List.mem_map.mp hit
      exact ⟨es, tail, hes, ⟨e, he, hname⟩, by rw [hr]; rfl, hout⟩
  · rintro ⟨es, tail, hes, ⟨e, he, hname⟩, hsome, hout⟩
    obtain ⟨r, hr⟩ := Option.isSome_iff_exists.mp hsome
    rw [hr, cpioParse_unique hr (parse_of_newc hes)]
    have hhit : ¬ ∀ it ∈ es.map Entry.toItem, it.name ≠ encode name :=
      fun hnone => hnone e.toItem (List.mem_map_of_mem he) hname
    simp only [Option.map_some, Except.bind, hes.bytes_eq, ne_eq, not_true_eq_false, if_false]
    rw [if_neg hhit, hout]

variable {name : String} {new y : Bytes}

/-- A safe command comes to an end. -/
theorem Safe.parse_isSome (hsplit : split d = .ok (h, k, rd, dt))
    (hrd : Z.decompress rd = some (x, s)) (hsafe : Safe Z d name new y) :
    ∃ fuel, (cpioParse fuel x).isSome := by
  obtain ⟨fuel, r, hr, -⟩ := hsafe
  rw [cmdReplace_eq hsplit hrd] at hr
  obtain ⟨r', hr', -⟩ := Option.map_eq_some_iff.mp hr
  exact ⟨fuel, by rw [hr']; rfl⟩

/-- **A safe command that writes has nothing to lose.** -/
theorem Safe.eq_nil (hZ : Z.Lawful) (pg : Paged d h) (hsplit : split d = .ok (h, k, rd, dt))
    (hrd : Z.decompress rd = some (x, s)) (hsafe : Safe Z d name new (x ++ y)) {es : List Entry}
    {tail : Bytes} (hes : Newc x es tail) (hfile : ∃ e ∈ es, e.name = encode name)
    (hfits : Fits d k
      (Z.gzip (cpioBuild (replaceData (encode name) new (es.map Entry.toItem)) tail)) dt h.ps) :
    y = [] ∧ new.length < 2 ^ 32 := by
  obtain ⟨fuel, r, hr, hsafe⟩ := hsafe
  have hsome : (cpioParse fuel x).isSome := by
    rw [cmdReplace_eq hsplit hrd] at hr
    obtain ⟨r', hr', -⟩ := Option.map_eq_some_iff.mp hr
    rw [hr']
    rfl
  have hout := (assemble_eq_ok pg).mpr ⟨hfits, rfl⟩
  have hwritten := (cmdReplace_eq_ok hsplit hrd).mpr ⟨es, tail, hes, hfile, hsome, hout⟩
  rw [hr, Option.some.injEq] at hwritten
  obtain ⟨h', k', rd', dt', b, hsplit', hinfl, hsame⟩ := hsafe _ hwritten
  -- the new ramdisk is the one stream that was written
  rw [(split_assemble pg hout).1] at hsplit'
  simp only [Except.ok.injEq, Prod.mk.injEq] at hsplit'
  obtain ⟨-, -, rfl, -⟩ := hsplit'
  rw [hZ.inflates_gzip_iff] at hinfl
  rw [hinfl] at hsame
  exact (sameBut_iff hes hfile).mp hsame

/-- **Where there is nothing to lose, the command is safe.** -/
theorem safe_of_eq_nil (hZ : Z.Lawful) (pg : Paged d h) (hsplit : split d = .ok (h, k, rd, dt))
    (hrd : Z.decompress rd = some (x, s)) {fuel : ℕ} (hsome : (cpioParse fuel x).isSome)
    (hnil : ∀ es tail, Newc x es tail → (∃ e ∈ es, e.name = encode name) →
      Fits d k (Z.gzip (cpioBuild (replaceData (encode name) new (es.map Entry.toItem)) tail)) dt
        h.ps →
      y = [] ∧ new.length < 2 ^ 32) :
    Safe Z d name new (x ++ y) := by
  obtain ⟨r, hr⟩ := Option.isSome_iff_exists.mp hsome
  refine ⟨fuel, _, by rw [cmdReplace_eq hsplit hrd, hr, Option.map_some], fun out hout => ?_⟩
  have hwritten : cmdReplace Z fuel d name new = some (.ok out) := by
    rw [cmdReplace_eq hsplit hrd, hr, Option.map_some, hout]
  obtain ⟨es, tail, hes, hfile, -, ha⟩ := (cmdReplace_eq_ok hsplit hrd).mp hwritten
  have hkept := hnil es tail hes hfile ((assemble_eq_ok pg).mp ha).1
  exact ⟨_, _, _, _, _, (split_assemble pg ha).1, hZ.inflates_gzip_iff.mpr rfl,
    (sameBut_iff hes hfile).mpr hkept⟩

end

/-- **When replacing a file is safe**: `cpio_parse` must come to an end on what the first stream
inflates to; and if that is an archive with such a file, and the new ramdisk fits into the image,
then the other streams must hold nothing, and the size of the file must fit into its field. -/
theorem replace_safe_iff {Z : Zlib} (hZ : Z.Lawful) {d k rd dt : Bytes} {h : Hdr}
    (hpage : 44 ≤ h.ps) (hsplit : split d = .ok (h, k, rd, dt)) {m : Bytes × Bytes}
    {ms : List (Bytes × Bytes)} (hms : ∀ z ∈ m :: ms, Z.Member z.1 z.2)
    (hrd : rd = (m :: ms).flatMap Prod.fst) (name : String) (new : Bytes) :
    Safe Z d name new ((m :: ms).flatMap Prod.snd) ↔
      (∃ fuel, (cpioParse fuel m.2).isSome) ∧
      ∀ es tail, Newc m.2 es tail → (∃ e ∈ es, e.name = encode name) →
        Fits d k (Z.gzip (cpioBuild (replaceData (encode name) new (es.map Entry.toItem)) tail)) dt
          h.ps →
        ms.flatMap Prod.snd = [] ∧ new.length < 2 ^ 32 := by
  have hfirst : Z.decompress rd = some (m.2, ms.flatMap Prod.fst) := by
    rw [hrd]
    exact hZ.decompress (hms m List.mem_cons_self) _
  have pg : Paged d h := by
    refine paged_of_split hpage hsplit fun hnil => ?_
    rw [hnil, eq_comm, List.flatMap_cons, List.append_eq_nil_iff] at hrd
    exact hZ.ne_nil (hms m List.mem_cons_self) hrd.1
  rw [List.flatMap_cons]
  constructor
  · intro hsafe
    exact ⟨hsafe.parse_isSome hsplit hfirst, fun es tail hes hfile hfits =>
      hsafe.eq_nil hZ pg hsplit hfirst hes hfile hfits⟩
  · rintro ⟨⟨fuel, hsome⟩, hnil⟩
    exact safe_of_eq_nil hZ pg hsplit hfirst hsome hnil

/-! ### Two streams -/

/-- A self-delimiting code that no gzip stream is part of. -/
def plain (x : Bytes) : Bytes := List.replicate x.length 1 ++ 0 :: x

/-- Gzip streams of which only a few are known: what they are and what they inflate to. The others
are replaced by the code `plain`. -/
def Zlib.ofTable (T : List (Bytes × Bytes)) : Zlib where
  Member z x := (z, x) ∈ T ∨ z = plain x
  decompress raw := match T.find? fun p => p.1.isPrefixOf raw with
    | some p => some (p.2, raw.drop p.1.length)
    | none =>
      let n := (raw.takeWhile fun b => b = 1).length
      some ((raw.drop (n + 1)).take n, (raw.drop (n + 1)).drop n)
  gzip x := match T.find? fun p => p.2 = x with
    | some p => p.1
    | none => plain x

theorem Zlib.lawful_ofTable {T : List (Bytes × Bytes)} (hT : ∀ p ∈ T, p.1.head? = some 0x1F)
    (hpre : ∀ p ∈ T, ∀ q ∈ T, p.1 <+: q.1 → p = q) : (Zlib.ofTable T).Lawful where
  decompress := by
    rintro z x (hmem | rfl) s
    · cases hfind : T.find? fun p => p.1.isPrefixOf (z ++ s) with
      | none =>
        have hno := List.find?_eq_none.mp hfind (z, x) hmem
        simp at hno
      | some p =>
        have hp := List.find?_some hfind
        have hpmem := List.mem_of_find?_eq_some hfind
        have heq : p = (z, x) := by
          rcases List.prefix_or_prefix_of_prefix (List.isPrefixOf_iff_prefix.mp hp)
            (List.prefix_append z s) with hle | hle
          · exact hpre p hpmem _ hmem hle
          · exact (hpre _ hmem p hpmem hle).symm
        subst heq
        simp [ofTable, hfind]
    · have hfind : (T.find? fun p => p.1.isPrefixOf (plain x ++ s)) = none := by
        refine List.find?_eq_none.mpr fun p hp hpref => ?_
        obtain ⟨t, ht⟩ := List.isPrefixOf_iff_prefix.mp hpref
        have hhead := congrArg List.head? ht
        rw [List.head?_append, hT p hp] at hhead
        cases x <;> simp [plain, List.replicate_succ] at hhead
      have hones : ((plain x ++ s).takeWhile fun b => b = 1).length = x.length := by
        simp [plain]
      have hdrop : (plain x ++ s).drop (x.length + 1) = x ++ s := by
        rw [plain, List.append_assoc, ← List.drop_drop, List.drop_left' List.length_replicate]
        rfl
      simp only [ofTable, hfind, hones, hdrop, List.take_left, List.drop_left]
  gzip := by
    intro x
    simp only [ofTable]
    cases hfind : T.find? fun p => p.2 = x with
    | none => exact .inr rfl
    | some p =>
      have hp := List.find?_some hfind
      have hpmem := List.mem_of_find?_eq_some hfind
      refine .inl ?_
      simpa [← of_decide_eq_true hp] using hpmem
  ne_nil := by
    rintro z x (hmem | rfl) hnil
    · simpa [hnil] using hT _ hmem
    · simp [plain] at hnil

/-- The header of an entry with sizes that fit into their fields, and zeros elsewhere. -/
def plainHdr (filesize namesize : ℕ) : Bytes :=
  magicNewc ++ List.replicate 48 0x30 ++ Hex.format 8 filesize ++ List.replicate 32 0x30 ++
    Hex.format 8 namesize ++ List.replicate 8 0x30

/-- A file `a` that holds one byte. -/
def smallEntry (b : UInt8) : Entry where
  hdr := plainHdr 1 2
  name := encode "a"
  data := [b]
  length := by decide
  magic := by decide
  filesize := show slice (plainHdr 1 2) 54 62 = Hex.format 8 1 by decide
  namesize := by decide

def lastEntry : Entry where
  hdr := plainHdr 0 11
  name := trailerName
  data := []
  length := by decide
  magic := by decide
  filesize := by decide
  namesize := by decide

/-- The archive of that file. -/
def smallCpio (b : UInt8) : Bytes := (smallEntry b).bytes ++ (lastEntry.bytes ++ [])

theorem newc_smallCpio (b : UInt8) : Newc (smallCpio b) [smallEntry b, lastEntry] [] :=
  .entry (e := smallEntry b) (show encode "a" ≠ trailerName by decide) (.trailer rfl)

/-- What `gzip` makes of that archive with the bytes 1 and 2. -/
def smallGz (b : UInt8) : Bytes :=
  [31, 139, 8, 0, 0, 0, 0, 0, 2, 255, 51, 48, 55, 48, 55, 48, 52, 32, 15, 16, 171, 207, 8, 198, 72,
    100, 96] ++ (if b = 1 then [100] else [98]) ++
  [96, 96, 48, 160, 196, 78, 98, 129, 19, 140, 17, 18, 228, 232, 233, 227, 26, 164, 168, 168, 8,
    180, 154, 1, 0] ++ (if b = 1 then [60, 178, 2, 1] else [105, 173, 2, 85]) ++ [240, 0, 0, 0]

def smallZlib : Zlib := .ofTable [(smallGz 1, smallCpio 1), (smallGz 2, smallCpio 2)]

theorem lawful_smallZlib : smallZlib.Lawful :=
  Zlib.lawful_ofTable (by decide) (by decide +kernel)

theorem member_smallGz : smallZlib.Member (smallGz 1) (smallCpio 1) := .inl List.mem_cons_self

/-- The size of the new file is put into the field, and `gzip` is asked for a known stream. -/
theorem gzip_smallCpio :
    smallZlib.gzip (cpioBuild (replaceData (encode "a") [2]
      ([smallEntry 1, lastEntry].map Entry.toItem)) []) = smallGz 2 := by
  decide +kernel

/-- An image with a ramdisk of one page. -/
def imageOf (rd : Bytes) : Bytes :=
  startOf ⟨1, rd.length, 0, 2048, 0⟩ ++ zeros 2004 ++ (7 :: zeros 2047) ++ padded rd 2048

/-- What is found in it. -/
theorem split_imageOf {rd : Bytes} (hrd : rd.length < 2 ^ 32) :
    split (imageOf rd) = .ok (⟨1, rd.length, 0, 2048, 0⟩, [7], rd, []) := by
  have hlen : (startOf ⟨1, rd.length, 0, 2048, 0⟩ ++ zeros 2004).length = 2048 := by
    rw [List.length_append, length_zeros]
    rfl
  have hhdr : parseHdr (imageOf rd) = .ok ⟨1, rd.length, 0, 2048, 0⟩ := by
    simp only [imageOf, List.append_assoc]
    exact parseHdr_startOf (by simp) hrd (by simp) (by simp) (by simp) _
  rw [imageOf, ← padded_singleton, ← List.append_nil (_ ++ padded rd 2048)] at hhdr ⊢
  exact (split_sections (h := ⟨1, rd.length, 0, 2048, 0⟩) (by simp) hlen rfl rfl hhdr).1

theorem length_imageOf (rd : Bytes) : (imageOf rd).length = 4096 + alignUp rd.length 2048 := by
  have hstart : (startOf ⟨1, rd.length, 0, 2048, 0⟩).length = 44 := rfl
  simp only [imageOf, List.length_append, List.length_cons, length_zeros, hstart,
    length_padded rd (show 0 < 2048 by decide)]

/-- The new ramdisk fits, as it is no longer than a page. -/
theorem fits_imageOf {rd : Bytes} (hrd : alignUp rd.length 2048 = 2048) :
    Fits (imageOf rd) [7] (smallZlib.gzip (cpioBuild (replaceData (encode "a") [2]
      ([smallEntry 1, lastEntry].map Entry.toItem)) [])) [] 2048 := by
  rw [gzip_smallCpio, Fits, length_imageOf, hrd]
  decide

/-- A ramdisk of one stream: the file is replaced. -/
theorem replace_safe_iff_small :
    Safe smallZlib (imageOf (smallGz 1)) "a" [2] (smallCpio 1 ++ []) ∧
      ∃ fuel out, cmdReplace smallZlib fuel (imageOf (smallGz 1)) "a" [2] = some (.ok out) := by
  have hmem : ∀ z ∈ [(smallGz 1, smallCpio 1)], smallZlib.Member z.1 z.2 :=
    List.forall_mem_singleton.mpr member_smallGz
  obtain ⟨fuel, hsome⟩ : ∃ fuel, (cpioParse fuel (smallCpio 1)).isSome :=
    ⟨_, Option.isSome_of_eq_some (parse_of_newc (newc_smallCpio 1))⟩
  have hsplit := split_imageOf (show (smallGz 1).length < 2 ^ 32 by decide)
  have hiff := replace_safe_iff lawful_smallZlib (by decide) hsplit hmem
    (List.append_nil _).symm "a" [2]
  refine ⟨hiff.mpr ⟨⟨fuel, hsome⟩, fun _ _ _ _ _ => ⟨rfl, by decide⟩⟩, fuel, ?_⟩
  have hrd := lawful_smallZlib.decompress member_smallGz []
  have pg := paged_of_split (by decide) hsplit (by decide)
  rw [List.append_nil] at hrd
  have hout := (assemble_eq_ok pg).mpr ⟨fits_imageOf (by decide), rfl⟩
  exact ⟨_, (cmdReplace_eq_ok hsplit hrd).mpr ⟨_, _, newc_smallCpio 1,
    ⟨_, List.mem_cons_self, rfl⟩, hsome, hout⟩⟩

/-- A ramdisk of two streams: the second is lost. -/
theorem replace_not_always_safe :
    ¬ ∀ (Z : Zlib) (d k rd dt : Bytes) (h : Hdr) (ms : List (Bytes × Bytes)) (name : String)
      (new : Bytes), Z.Lawful → 44 ≤ h.ps → split d = .ok (h, k, rd, dt) → ms ≠ [] →
        (∀ z ∈ ms, Z.Member z.1 z.2) → rd = ms.flatMap Prod.fst →
        Safe Z d name new (ms.flatMap Prod.snd) := by
  intro hall
  have hmem : ∀ z ∈ [(smallGz 1, smallCpio 1), (smallGz 1, smallCpio 1)],
      smallZlib.Member z.1 z.2 :=
    List.forall_mem_cons.mpr ⟨member_smallGz, List.forall_mem_singleton.mpr member_smallGz⟩
  have hsize : (smallGz 1 ++ smallGz 1).length < 2 ^ 32 := by
    rw [List.length_append]
    decide
  have hsplit := split_imageOf hsize
  have hsafe := hall _ _ _ _ _ _ _ "a" [2] lawful_smallZlib (by decide) hsplit
    (List.cons_ne_nil _ _) hmem (by simp)
  rw [List.flatMap_cons, List.flatMap_singleton] at hsafe
  have pg := paged_of_split (by decide) hsplit
    (List.append_ne_nil_of_left_ne_nil (by decide) _)
  have hlost := hsafe.eq_nil lawful_smallZlib pg hsplit
    (lawful_smallZlib.decompress member_smallGz _) (newc_smallCpio 1)
    ⟨_, List.mem_cons_self, rfl⟩ (fits_imageOf (by decide +kernel))
  exact absurd hlost.1 (by decide)

end Bootimg

end A1000

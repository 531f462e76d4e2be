import A1000.Lib.Hex
import A1000.Bootimg.Image

/-!
# The archive in the ramdisk

`cpio_parse` and `cpio_build` of `a1000_bootimg_tool.py`. The parser is lenient: it reads size
fields with `int(.., 16)`, which also accepts signs and blanks, it cuts off what reaches past the
end, and a negative size can send it back or round for ever. The tool makes up for that by building
the archive anew from what was parsed and comparing.

An archive that passes that check is a *newc* archive in the strict sense: a sequence of entries
whose fields are what they should be, followed by something that is no entry.

The parser takes fuel: it returns nothing when its loop has not ended after so many rounds.

## Main definitions

* `Bootimg.cpioParse`, `Bootimg.cpioBuild`
* `Bootimg.Entry` — an entry with the fields it should have
* `Bootimg.Newc` — an archive, its entries and what follows them

## Main results

* `Bootimg.newc_of_parse` — what passes the check is an archive
* `Bootimg.parse_of_newc` — every archive is parsed into its entries, and passes the check
-/

namespace A1000

namespace Bootimg

open Bytes

/-! ### Parsing and building -/

/-- An element of `items`. -/
structure Item where
  hdr : Bytes
  name : Bytes
  data : Bytes
  deriving DecidableEq, Repr

/-- `b'070701'`. -/
def magicNewc : Bytes := [0x30, 0x37, 0x30, 0x37, 0x30, 0x31]

/-- `b'TRAILER!!!'`. -/
def trailerName : Bytes := [0x54, 0x52, 0x41, 0x49, 0x4C, 0x45, 0x52, 0x21, 0x21, 0x21]

/-- The loop of `cpio_parse` from `q` on: the items it appends, and where it stops. -/
def cpioLoop (buf : Bytes) : ℕ → Int → Option (Except Failure (List Item × Int))
  | 0, _ => none
  | fuel + 1, q =>
    if ¬ q + 110 ≤ buf.length then some (.ok ([], q))
    else if pySlice buf q (q + 6) ≠ magicNewc then some (.ok ([], q))
    else
      let hdr := pySlice buf q (q + 110)
      match Hex.parse (slice hdr 94 102), Hex.parse (slice hdr 54 62) with
      | some nsz, some fsz =>
        let name := pySlice buf (q + 110) (q + 110 + nsz - 1)
        let p := (q + 110 + nsz + 3) / 4 * 4
        let item := ⟨hdr, name, pySlice buf p (p + fsz)⟩
        let q := (p + fsz + 3) / 4 * 4
        if name = trailerName then some (.ok ([item], q))
        else (cpioLoop buf fuel q).map fun r => r.map fun t => (item :: t.1, t.2)
      | _, _ => some (.error .valueError)

/-- `cpio_parse`. -/
def cpioParse (fuel : ℕ) (buf : Bytes) : Option (Except Failure (List Item × Bytes)) :=
  (cpioLoop buf fuel 0).map fun r => r.map fun t => (t.1, pySlice buf t.2 buf.length)

/-- One round of the loop of `cpio_build`. -/
def buildItem (out : Bytes) (it : Item) : Bytes :=
  let h := setSlice it.hdr 54 62 (Hex.format 8 it.data.length)
  let h := setSlice h 94 102 (Hex.format 8 (it.name.length + 1))
  let out := padded (out ++ (h ++ it.name ++ [0])) 4
  padded (out ++ it.data) 4

/-- `cpio_build`. -/
def cpioBuild (items : List Item) (tail : Bytes) : Bytes := items.foldl buildItem [] ++ tail

/-- The bytes of one item at the beginning of an archive. -/
def Item.bytes (it : Item) : Bytes := buildItem [] it

/-! ### Building piece by piece -/

/-- Padding what follows a string of whole words. -/
theorem padded_append {x : Bytes} (hx : x.length % 4 = 0) (y : Bytes) :
    padded (x ++ y) 4 = x ++ padded y 4 := by
  rw [padded, padded, List.append_assoc, List.length_append]
  congr 3
  simp only [alignUp]
  omega

theorem length_bytes_mod (it : Item) : it.bytes.length % 4 = 0 := by
  simp only [Item.bytes, buildItem]
  rw [length_padded _ (by decide)]
  exact alignUp_mod _ 4

theorem buildItem_eq {out : Bytes} (hout : out.length % 4 = 0) (it : Item) :
    buildItem out it = out ++ it.bytes := by
  simp only [Item.bytes, buildItem]
  rw [padded_append hout, List.append_assoc, padded_append hout]
  rfl

/-- **An archive is its items one after the other**, and the tail. -/
theorem cpioBuild_eq (items : List Item) (tail : Bytes) :
    cpioBuild items tail = items.flatMap Item.bytes ++ tail := by
  have hfold : ∀ (items : List Item) (out : Bytes), out.length % 4 = 0 →
      items.foldl buildItem out = out ++ items.flatMap Item.bytes := by
    intro items
    induction items with
    | nil => simp
    | cons it items ih =>
      intro out hout
      have hmod := length_bytes_mod it
      rw [List.foldl_cons, buildItem_eq hout, ih _ (by rw [List.length_append]; omega),
        List.flatMap_cons, List.append_assoc]
  rw [cpioBuild, hfold items [] rfl, List.nil_append]

/-! ### Entries -/

/-- An entry: a header with its magic number and with the sizes of name and data. -/
structure Entry extends Item where
  length : hdr.length = 110
  magic : slice hdr 0 6 = magicNewc
  filesize : slice hdr 54 62 = Hex.format 8 data.length
  namesize : slice hdr 94 102 = Hex.format 8 (name.length + 1)

/-- The zeros behind the name. -/
def Entry.namePad (e : Entry) : Bytes :=
  zeros (alignUp (111 + e.name.length) 4 - (111 + e.name.length))

/-- The zeros behind the data. -/
def Entry.dataPad (e : Entry) : Bytes := zeros (alignUp e.data.length 4 - e.data.length)

/-- A slice of a string put back in its place. -/
theorem setSlice_slice (d : Bytes) {a b : ℕ} (hab : a ≤ b) : setSlice d a b (slice d a b) = d := by
  obtain ⟨n, rfl⟩ := Nat.exists_eq_add_of_le hab
  rw [setSlice, slice_eq_take_drop, ← List.take_add, List.take_append_drop]

/-- **The bytes of an entry.** -/
theorem Entry.bytes_eq (e : Entry) :
    e.bytes = e.hdr ++ (e.name ++ (0 :: (e.namePad ++ (e.data ++ e.dataPad)))) := by
  have hhdr : setSlice (setSlice e.hdr 54 62 (Hex.format 8 e.data.length)) 94 102
      (Hex.format 8 (e.name.length + 1)) = e.hdr := by
    rw [← e.filesize, setSlice_slice _ (by decide), ← e.namesize, setSlice_slice _ (by decide)]
  simp only [Item.bytes, buildItem, hhdr, List.nil_append]
  rw [padded_append (by rw [length_padded _ (by decide)]; exact alignUp_mod _ 4)]
  have hlen : (e.hdr ++ e.name ++ [0]).length = 111 + e.name.length := by
    simp [e.length]
    omega
  rw [padded, hlen]
  simp [namePad, dataPad, padded]

/-- The sizes fit into their fields. -/
theorem Entry.data_lt (e : Entry) : e.data.length < 16 ^ 8 := by
  refine Hex.lt_of_length_format ?_
  rw [← e.filesize, length_slice, e.length]
  rfl

theorem Entry.length_bytes (e : Entry) :
    e.bytes.length = alignUp (111 + e.name.length) 4 + alignUp e.data.length 4 := by
  have h₁ := le_alignUp (111 + e.name.length) (show 0 < 4 by decide)
  have h₂ := le_alignUp e.data.length (show 0 < 4 by decide)
  simp only [e.bytes_eq, namePad, dataPad, List.length_append, List.length_cons, length_zeros,
    e.length]
  omega

/-- **An entry can be told from its beginning**: two strings that start with entries and are equal
start with the same entry. -/
theorem Entry.bytes_append_inj {e f : Entry} {x y : Bytes} (h : e.bytes ++ x = f.bytes ++ y) :
    e = f ∧ x = y := by
  simp only [e.bytes_eq, f.bytes_eq, List.append_assoc, List.cons_append] at h
  obtain ⟨hhdr, h⟩ := List.append_inj h (e.length.trans f.length.symm)
  have hname : e.name.length = f.name.length := by
    have heq := e.namesize
    rw [hhdr, f.namesize] at heq
    have := Hex.format_inj (by decide) heq
    omega
  have hdata : e.data.length = f.data.length := by
    have heq := e.filesize
    rw [hhdr, f.filesize] at heq
    exact (Hex.format_inj (by decide) heq).symm
  obtain ⟨hn, h⟩ := List.append_inj h hname
  obtain ⟨-, h⟩ := List.append_inj (List.cons.inj h).2 (by simp [namePad, hname])
  obtain ⟨hd, h⟩ := List.append_inj h hdata
  obtain ⟨-, h⟩ := List.append_inj h (by simp [dataPad, hdata])
  refine ⟨?_, h⟩
  obtain ⟨⟨_, _, _⟩, _, _, _, _⟩ := e
  obtain ⟨⟨_, _, _⟩, _, _, _, _⟩ := f
  simp only at hhdr hn hd
  subst hhdr hn hd
  rfl

/-! ### Archives -/

/-- A header begins here. -/
def StartsHeader (b : Bytes) : Prop := 110 ≤ b.length ∧ slice b 0 6 = magicNewc

theorem Entry.startsHeader (e : Entry) (x : Bytes) : StartsHeader (e.bytes ++ x) := by
  constructor
  · rw [List.length_append, e.length_bytes]
    have := le_alignUp (111 + e.name.length) (show 0 < 4 by decide)
    omega
  · rw [← e.magic]
    refine slice_congr fun i _ hi => ?_
    rw [e.bytes_eq, List.append_assoc, List.getElem?_append_left (by rw [e.length]; omega)]

/-- `b` is an archive of the entries `es`, followed by `tail`. It ends with the trailer, or where
no header begins. -/
inductive Newc : Bytes → List Entry → Bytes → Prop
  | tail {b : Bytes} (no : ¬ StartsHeader b) : Newc b [] b
  | trailer {e : Entry} {b : Bytes} (last : e.name = trailerName) : Newc (e.bytes ++ b) [e] b
  | entry {e : Entry} {b tail : Bytes} {es : List Entry} (more : e.name ≠ trailerName)
      (rest : Newc b es tail) : Newc (e.bytes ++ b) (e :: es) tail

/-- The bytes of an archive. -/
theorem Newc.bytes_eq {b tail : Bytes} {es : List Entry} (h : Newc b es tail) :
    cpioBuild (es.map Entry.toItem) tail = b := by
  rw [cpioBuild_eq]
  induction h with
  | tail no => rfl
  | trailer last => simp
  | entry more rest ih => simp [ih]

/-! ### One round of the parser -/

/-- The loop goes into its body at `q`, and the magic number is there. -/
def HeaderAt (buf : Bytes) (q : Int) : Prop :=
  q + 110 ≤ buf.length ∧ pySlice buf q (q + 6) = magicNewc

instance (buf : Bytes) (q : Int) : Decidable (HeaderAt buf q) :=
  inferInstanceAs (Decidable (_ ∧ _))

/-- `nsz`, if the field is a number. -/
def nameSize? (buf : Bytes) (q : Int) : Option Int :=
  Hex.parse (slice (pySlice buf q (q + 110)) 94 102)

/-- `fsz`, if the field is a number. -/
def fileSize? (buf : Bytes) (q : Int) : Option Int :=
  Hex.parse (slice (pySlice buf q (q + 110)) 54 62)

/-- `name`. -/
def nameAt (buf : Bytes) (q nsz : Int) : Bytes := pySlice buf (q + 110) (q + 110 + nsz - 1)

/-- The next `q`. -/
def advance (q nsz fsz : Int) : Int := ((q + 110 + nsz + 3) / 4 * 4 + fsz + 3) / 4 * 4

/-- The item of a round. -/
def itemAt (buf : Bytes) (q nsz fsz : Int) : Item :=
  let p := (q + 110 + nsz + 3) / 4 * 4
  ⟨pySlice buf q (q + 110), nameAt buf q nsz, pySlice buf p (p + fsz)⟩

/-- What the parser finds at `q`. -/
theorem header_cases (buf : Bytes) (q : Int) :
    ¬HeaderAt buf q ∨
      (HeaderAt buf q ∧ (nameSize? buf q = none ∨ fileSize? buf q = none)) ∨
      ∃ nsz fsz, HeaderAt buf q ∧ nameSize? buf q = some nsz ∧ fileSize? buf q = some fsz := by
  by_cases hheader : HeaderAt buf q
  · cases hnsz : nameSize? buf q with
    | none => exact .inr (.inl ⟨hheader, .inl rfl⟩)
    | some nsz =>
      cases hfsz : fileSize? buf q with
      | none => exact .inr (.inl ⟨hheader, .inr rfl⟩)
      | some fsz => exact .inr (.inr ⟨nsz, fsz, hheader, rfl, rfl⟩)
  · exact .inl hheader

/-- The loop stops where no header is. -/
theorem cpioLoop_of_no_header {buf : Bytes} {q : Int} (h : ¬HeaderAt buf q) (fuel : ℕ) :
    cpioLoop buf (fuel + 1) q = some (.ok ([], q)) := by
  rw [cpioLoop]
  by_cases hfit : q + 110 ≤ (buf.length : Int)
  · rw [if_neg (not_not.mpr hfit), if_pos fun hmagic => h ⟨hfit, hmagic⟩]
  · rw [if_pos hfit]

/-- A round at a header with a field that is no number. -/
theorem cpioLoop_of_no_size {buf : Bytes} {q : Int} (hheader : HeaderAt buf q)
    (hsize : nameSize? buf q = none ∨ fileSize? buf q = none) (fuel : ℕ) :
    cpioLoop buf (fuel + 1) q = some (.error .valueError) := by
  rw [nameSize?, fileSize?] at hsize
  rw [cpioLoop, if_neg (not_not.mpr hheader.1), if_neg (not_not.mpr hheader.2)]
  cases hnsz : Hex.parse (slice (pySlice buf q (q + 110)) 94 102) with
  | none => simp only [hnsz]
  | some nsz =>
    have hfsz := hsize.resolve_left (by simp [hnsz])
    simp only [hnsz, hfsz]

/-- A round at a header with two sizes. -/
theorem cpioLoop_of_sizes {buf : Bytes} {q nsz fsz : Int} (hheader : HeaderAt buf q)
    (hnsz : nameSize? buf q = some nsz) (hfsz : fileSize? buf q = some fsz) (fuel : ℕ) :
    cpioLoop buf (fuel + 1) q =
      if nameAt buf q nsz = trailerName then
        some (.ok ([itemAt buf q nsz fsz], advance q nsz fsz))
      else (cpioLoop buf fuel (advance q nsz fsz)).map fun r =>
        r.map fun t => (itemAt buf q nsz fsz :: t.1, t.2) := by
  rw [nameSize?] at hnsz
  rw [fileSize?] at hfsz
  rw [cpioLoop, if_neg (not_not.mpr hheader.1), if_neg (not_not.mpr hheader.2)]
  simp only [hnsz, hfsz]
  rfl

/-- A string that was built from an item begins with its header, in which the sizes have been
replaced. -/
theorem Item.fields_bytes (it : Item) (hlen : it.hdr.length = 110) (x : Bytes) :
    slice (it.bytes ++ x) 54 62 = (Hex.format 8 it.data.length).take 8 ∧
      slice (it.bytes ++ x) 94 102 = (Hex.format 8 (it.name.length + 1)).take 8 := by
  have hf := Hex.le_length_format 8 it.data.length
  have hg := Hex.le_length_format 8 (it.name.length + 1)
  generalize hS : setSlice it.hdr 54 62 (Hex.format 8 it.data.length) = S
  generalize hH : setSlice S 94 102 (Hex.format 8 (it.name.length + 1)) = H
  have hSlen : 94 ≤ S.length := by
    rw [← hS, setSlice]
    simp [hlen]
    omega
  have hHlen : 102 ≤ H.length := by
    rw [← hH, setSlice]
    simp
    omega
  obtain ⟨y, hy⟩ : ∃ y, it.bytes ++ x = H ++ y := by
    simp only [Item.bytes, buildItem, hS, hH, padded, List.nil_append, List.append_assoc]
    exact ⟨_, rfl⟩
  rw [hy, slice_append_left (by omega), slice_append_left (by omega), ← hH]
  constructor
  · rw [slice_setSlice_of_le (by omega) hSlen, ← hS]
    exact slice_setSlice_take (by omega) hf 62
  · exact slice_setSlice_take hSlen hg 102

/-- Whether the parser finds a header depends on what stands at `q`. -/
theorem headerAt_iff {buf : Bytes} {q : ℕ} : HeaderAt buf q ↔ StartsHeader (buf.drop q) := by
  have hslice : pySlice buf q (q + 6) = slice (buf.drop q) 0 6 := pySlice_zero_add buf q 6
  rw [HeaderAt, hslice, StartsHeader, List.length_drop]
  refine and_congr_left fun _ => ?_
  omega

/-- **A round that is rebuilt as it was is a round over an entry.** If the item the parser makes at
`q` is built into what stands there, then its fields are what they should be, and the parser
continues behind it. -/
theorem entry_of_round {buf R : Bytes} {q : ℕ} {nsz fsz : Int} (hq : q % 4 = 0)
    (hheader : HeaderAt buf q) (hnsz : nameSize? buf q = some nsz)
    (hfsz : fileSize? buf q = some fsz)
    (hB : buf.drop q = (itemAt buf q nsz fsz).bytes ++ R) :
    ∃ e : Entry, e.toItem = itemAt buf q nsz fsz ∧
      advance q nsz fsz = (q + e.bytes.length : ℕ) := by
  have hstart := headerAt_iff.mp hheader
  have hhdr : pySlice buf q (q + 110) = slice (buf.drop q) 0 110 := pySlice_zero_add buf q 110
  generalize hit : itemAt buf q nsz fsz = it at hB ⊢
  have hithdr : it.hdr = slice (buf.drop q) 0 110 := by rw [← hit, ← hhdr]; rfl
  have hlen : it.hdr.length = 110 := by
    rw [hithdr, length_slice]
    have := hstart.1
    omega
  -- the fields were read from the sizes they are rebuilt from
  obtain ⟨hfield, hnfield⟩ := it.fields_bytes hlen R
  rw [← hB] at hfield hnfield
  rw [nameSize?, hhdr, slice_slice _ (by decide), hnfield] at hnsz
  rw [fileSize?, hhdr, slice_slice _ (by decide), hfield] at hfsz
  have hdata : fsz = it.data.length ∧ it.data.length < 16 ^ 8 := by
    refine Hex.eq_of_parse_take_format (by decide) hfsz fun v hv => ?_
    rw [← hit, hv]
    exact (length_pySlice_le buf _ v).trans (Nat.le_max_left _ _)
  have hnlen : nsz = (it.name.length + 1 : ℕ) ∧ it.name.length + 1 < 16 ^ 8 := by
    refine Hex.eq_of_parse_take_format (by decide) hnsz fun w hw => ?_
    rw [← hit, hw]
    show (pySlice buf (q + 110) (q + 110 + w - 1)).length + 1 ≤ max w 1
    cases w with
    | zero =>
      rw [pySlice, length_slice, bound, bound]
      split_ifs <;> omega
    | succ w =>
      have hend : (q + 110 + ((w + 1 : ℕ) : Int) - 1 : Int) = q + 110 + w := by push_cast; ring
      have hshort := length_pySlice_le buf (q + 110) w
      rw [hend]
      exact (Nat.succ_le_succ hshort).trans (Nat.le_max_left _ _)
  have hfield' : slice it.hdr 54 62 = Hex.format 8 it.data.length := by
    rw [hithdr, slice_slice _ (by decide), hfield,
      List.take_of_length_le (Hex.length_format hdata.2).le]
  have hnfield' : slice it.hdr 94 102 = Hex.format 8 (it.name.length + 1) := by
    rw [hithdr, slice_slice _ (by decide), hnfield,
      List.take_of_length_le (Hex.length_format hnlen.2).le]
  have hmagic : slice it.hdr 0 6 = magicNewc := by
    rw [hithdr, slice_slice _ (by decide)]
    exact hstart.2
  refine ⟨⟨it, hlen, hmagic, hfield', hnfield'⟩, rfl, ?_⟩
  rw [Entry.length_bytes, advance, hnlen.1, hdata.1]
  simp only [alignUp]
  omega

/-- **What passes the check is an archive**, from `q` on. -/
theorem newc_of_loop {buf : Bytes} (fuel : ℕ) :
    ∀ {q : ℕ} {items : List Item} {q' : Int}, q % 4 = 0 →
      cpioLoop buf fuel q = some (.ok (items, q')) →
      items.flatMap Item.bytes ++ pySlice buf q' buf.length = buf.drop q →
      ∃ es : List Entry, es.map Entry.toItem = items ∧
        Newc (buf.drop q) es (pySlice buf q' buf.length) := by
  induction fuel with
  | zero =>
    intro q items q' _ h
    cases h
  | succ fuel ih =>
    intro q items q' hq h hbuild
    rcases header_cases buf q with hno | ⟨hheader, hsize⟩ | ⟨nsz, fsz, hheader, hnsz, hfsz⟩
    · rw [cpioLoop_of_no_header hno] at h
      cases h
      rw [pySlice_length]
      exact ⟨[], rfl, .tail (headerAt_iff.not.mp hno)⟩
    · rw [cpioLoop_of_no_size hheader hsize] at h
      cases h
    rw [cpioLoop_of_sizes hheader hnsz hfsz] at h
    split_ifs at h with hlast
    · -- the trailer
      cases h
      rw [List.flatMap_singleton] at hbuild
      obtain ⟨e, he, -⟩ := entry_of_round hq hheader hnsz hfsz hbuild.symm
      rw [← hbuild, ← he]
      exact ⟨[e], rfl, .trailer (by rw [he]; exact hlast)⟩
    · obtain ⟨r, hr, h⟩ := Option.map_eq_some_iff.mp h
      cases r with
      | error f => cases h
      | ok r =>
      obtain ⟨items, q''⟩ := r
      cases h
      rw [List.flatMap_cons, List.append_assoc] at hbuild
      obtain ⟨e, he, hq'⟩ := entry_of_round hq hheader hnsz hfsz hbuild.symm
      rw [hq'] at hr
      -- what follows the entry is what the next rounds are about
      have hrest : items.flatMap Item.bytes ++ pySlice buf q'' buf.length =
          buf.drop (q + e.bytes.length) := by
        rw [← List.drop_drop, ← hbuild, ← he, List.drop_left' rfl]
      obtain ⟨es, hes, hnewc⟩ := ih (by have := length_bytes_mod e.toItem; omega) hr hrest
      refine ⟨e :: es, by rw [List.map_cons, he, hes], ?_⟩
      rw [← hbuild, hrest, ← he]
      exact .entry (by rw [he]; exact hlast) hnewc

/-- **What passes the check is an archive.** -/
theorem newc_of_parse {buf tail : Bytes} {fuel : ℕ} {items : List Item}
    (h : cpioParse fuel buf = some (.ok (items, tail))) (hbuild : cpioBuild items tail = buf) :
    ∃ es : List Entry, es.map Entry.toItem = items ∧ Newc buf es tail := by
  obtain ⟨r, hr, h⟩ := Option.map_eq_some_iff.mp h
  cases r with
  | error f => cases h
  | ok r =>
    obtain ⟨items, q⟩ := r
    cases h
    rw [cpioBuild_eq] at hbuild
    exact newc_of_loop fuel rfl hr hbuild

/-- The sections of an entry, as slices. -/
theorem Entry.slices (e : Entry) (x : Bytes) :
    slice (e.bytes ++ x) 0 110 = e.hdr ∧
      slice (e.bytes ++ x) 110 (110 + e.name.length) = e.name ∧
      slice (e.bytes ++ x) (alignUp (111 + e.name.length) 4)
        (alignUp (111 + e.name.length) 4 + e.data.length) = e.data := by
  have hle := le_alignUp (111 + e.name.length) (show 0 < 4 by decide)
  have hfront : (e.hdr ++ (e.name ++ 0 :: e.namePad)).length = alignUp (111 + e.name.length) 4 := by
    simp only [namePad, List.length_append, List.length_cons, length_zeros, e.length]
    omega
  have hname := slice_append_add e.length
    (e.name ++ (0 :: (e.namePad ++ (e.data ++ (e.dataPad ++ x))))) 0 e.name.length
  have hdata := slice_append_add hfront (e.data ++ (e.dataPad ++ x)) 0 e.data.length
  rw [List.drop_zero, List.take_left' rfl, Nat.add_zero] at hname hdata
  simp only [e.bytes_eq, List.append_assoc, List.cons_append] at hname hdata ⊢
  refine ⟨?_, hname, hdata⟩
  rw [slice_append_left e.length.ge, slice_self _ e.length.le]

/-- **A round over an entry.** -/
theorem cpioLoop_entry {buf b : Bytes} {q : ℕ} {e : Entry} (hq : q % 4 = 0)
    (hB : buf.drop q = e.bytes ++ b) (fuel : ℕ) :
    cpioLoop buf (fuel + 1) q =
      if e.name = trailerName then some (.ok ([e.toItem], ((q + e.bytes.length : ℕ) : Int)))
      else (cpioLoop buf fuel (q + e.bytes.length : ℕ)).map fun r =>
        r.map fun t => (e.toItem :: t.1, t.2) := by
  have hheader := headerAt_iff.mpr (hB ▸ e.startsHeader b)
  obtain ⟨hhdr, hname, hdata⟩ := e.slices b
  have hhdr' : pySlice buf q (q + 110) = e.hdr := by
    rw [← hhdr, ← hB]
    exact pySlice_zero_add buf q 110
  have hnsz : nameSize? buf q = some ((e.name.length + 1 : ℕ) : Int) := by
    rw [nameSize?, hhdr', e.namesize, Hex.parse_format (by decide)]
  have hfsz : fileSize? buf q = some (e.data.length : Int) := by
    rw [fileSize?, hhdr', e.filesize, Hex.parse_format (by decide)]
  have hname' : nameAt buf q ((e.name.length + 1 : ℕ) : Int) = e.name := by
    rw [nameAt, show (q + 110 + ((e.name.length + 1 : ℕ) : Int) - 1 : Int) =
      q + ((110 + e.name.length : ℕ) : Int) by omega]
    rw [← hB] at hname
    exact (pySlice_add buf q 110 _).trans hname
  have hp : (q + 110 + ((e.name.length + 1 : ℕ) : Int) + 3) / 4 * 4 =
      q + (alignUp (111 + e.name.length) 4 : ℕ) := by
    simp only [alignUp]
    omega
  have hdata' : pySlice buf (q + (alignUp (111 + e.name.length) 4 : ℕ))
      (q + (alignUp (111 + e.name.length) 4 : ℕ) + (e.data.length : Int)) = e.data := by
    have hslice := pySlice_add buf q (alignUp (111 + e.name.length) 4)
      (alignUp (111 + e.name.length) 4 + e.data.length)
    rw [Nat.cast_add, ← add_assoc, hB] at hslice
    exact hslice.trans hdata
  have hitem : itemAt buf q ((e.name.length + 1 : ℕ) : Int) (e.data.length : Int) = e.toItem := by
    simp only [itemAt, hhdr', hname', hp, hdata']
  have hnext : advance q ((e.name.length + 1 : ℕ) : Int) (e.data.length : Int) =
      (q + e.bytes.length : ℕ) := by
    rw [advance, hp, e.length_bytes]
    simp only [alignUp]
    omega
  rw [cpioLoop_of_sizes hheader hnsz hfsz, hname', hitem, hnext]

/-- **Every archive is parsed** into its entries and what follows them. -/
theorem loop_of_newc {buf b tail : Bytes} {es : List Entry} (h : Newc b es tail) :
    ∀ {q : ℕ}, q % 4 = 0 → buf.drop q = b →
      ∃ (q' : ℕ), cpioLoop buf (es.length + 1) q = some (.ok (es.map Entry.toItem, (q' : Int))) ∧
        buf.drop q' = tail := by
  induction h with
  | tail no =>
    intro q _ hB
    exact ⟨q, cpioLoop_of_no_header (headerAt_iff.not.mpr (hB ▸ no)) _, hB⟩
  | @trailer e b last =>
    intro q hq hB
    refine ⟨q + e.bytes.length, by rw [cpioLoop_entry hq hB, if_pos last]; rfl, ?_⟩
    rw [← List.drop_drop, hB, List.drop_left' rfl]
  | @entry e b tail es more rest ih =>
    intro q hq hB
    have hdrop : buf.drop (q + e.bytes.length) = b := by
      rw [← List.drop_drop, hB, List.drop_left' rfl]
    obtain ⟨q', hloop, htail⟩ := ih (by have := length_bytes_mod e.toItem; omega) hdrop
    refine ⟨q', ?_, htail⟩
    rw [List.length_cons, cpioLoop_entry hq hB, if_neg more, hloop]
    rfl

/-- More fuel changes nothing. -/
theorem cpioLoop_mono {buf : Bytes} {r : Except Failure (List Item × Int)} (n : ℕ) :
    ∀ {fuel : ℕ} {q : Int}, cpioLoop buf fuel q = some r → cpioLoop buf (fuel + n) q = some r := by
  intro fuel
  induction fuel generalizing r with
  | zero =>
    intro q h
    cases h
  | succ fuel ih =>
    intro q h
    rw [Nat.add_right_comm]
    rcases header_cases buf q with hno | ⟨hheader, hsize⟩ | ⟨nsz, fsz, hheader, hnsz, hfsz⟩
    · rwa [cpioLoop_of_no_header hno] at h ⊢
    · rwa [cpioLoop_of_no_size hheader hsize] at h ⊢
    · rw [cpioLoop_of_sizes hheader hnsz hfsz] at h ⊢
      split_ifs at h ⊢ with hlast
      · exact h
      · obtain ⟨r', hr', rfl⟩ := Option.map_eq_some_iff.mp h
        rw [ih hr']
        rfl

theorem cpioParse_unique {buf : Bytes} {m n : ℕ} {r r' : Except Failure (List Item × Bytes)}
    (h : cpioParse m buf = some r) (h' : cpioParse n buf = some r') : r = r' := by
  obtain ⟨s, hs, rfl⟩ := Option.map_eq_some_iff.mp h
  obtain ⟨s', hs', rfl⟩ := Option.map_eq_some_iff.mp h'
  have hmore := cpioLoop_mono n hs
  rw [Nat.add_comm, cpioLoop_mono m hs', Option.some.injEq] at hmore
  rw [hmore]

/-- **Every archive is parsed into its entries, and passes the check.** -/
theorem parse_of_newc {buf tail : Bytes} {es : List Entry} (h : Newc buf es tail) :
    cpioParse (es.length + 1) buf = some (.ok (es.map Entry.toItem, tail)) := by
  obtain ⟨q', hloop, htail⟩ := loop_of_newc h (q := 0) rfl List.drop_zero
  rw [cpioParse, show (0 : Int) = ((0 : ℕ) : Int) from rfl, hloop, ← htail, ← pySlice_length]
  rfl

end Bootimg

end A1000

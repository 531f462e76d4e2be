import A1000.Bootimg.Replace

/-!
# Replacing one file in an archive

What `cmd_replace` writes, read back. The builder and the parser both align to whole words from the
beginning of the archive, so a file of another length moves everything behind it; the parser still
finds every entry. It also stops where it stopped before: at the trailer, or in front of the same
rest.

## Main definitions

* `Bootimg.Accepted` — an archive that `ramdisk_open` accepts
* `Bootimg.Rewritten` — an item before and after

## Main results

* `Bootimg.replaced_accepted` — an accepted archive with a file replaced is accepted, and differs in
  the entries of that name only
-/

namespace A1000

namespace Bootimg

open Bytes

/-- `ramdisk_open` takes `b` apart into `items` and `tail`, and finds `b` again. -/
def Accepted (b : Bytes) (items : List Item) (tail : Bytes) : Prop :=
  ∃ fuel, cpioParse fuel b = some (.ok (items, tail)) ∧ cpioBuild items tail = b

/-- An item before and after: the name is the same, and so is everything else in an item of another
name than `file`. In one of that name the data are new, and the header has their size. -/
structure Rewritten (file new : Bytes) (it it' : Item) : Prop where
  name : it'.name = it.name
  other : it.name ≠ file → it'.hdr = it.hdr ∧ it'.data = it.data
  data : it.name = file → it'.data = new
  size : it.name = file → slice it'.hdr 54 62 = Hex.format 8 new.length
  hdr : ∀ i, ¬ (54 ≤ i ∧ i < 62) → it'.hdr[i]? = it.hdr[i]?

theorem rewritten_replaced (file : Bytes) {new : Bytes} (h : new.length < 16 ^ 8) (e : Entry) :
    Rewritten file new e.toItem (e.replaced file new h).toItem := by
  have hr := replaced_replaced file h e
  refine ⟨hr.name, fun hne => ?_, fun heq => ?_, fun heq => ?_, hr.hdr⟩
  · rw [Entry.replaced, if_neg hne]
    exact ⟨rfl, rfl⟩
  · rw [hr.data, if_pos heq]
  · rw [(e.replaced file new h).filesize, hr.data, if_pos heq]

/-- An archive stays one when its entries are changed but for their names. -/
theorem Newc.map {b tail : Bytes} {es : List Entry} (h : Newc b es tail) {f : Entry → Entry}
    (hf : ∀ e : Entry, (f e).name = e.name) :
    Newc (cpioBuild ((es.map f).map Entry.toItem) tail) (es.map f) tail := by
  rw [cpioBuild_eq]
  induction h with
  | tail no => exact .tail no
  | @trailer e b last =>
    simpa using Newc.trailer (e := f e) (b := b) (by rw [hf]; exact last)
  | @entry e b tail es more rest ih =>
    simpa using Newc.entry (e := f e) (by rw [hf]; exact more) ih

/-- **Replacing a file changes that file only**: the archive that is built is taken apart into as
many items, in the same order, with the same rest behind them. -/
theorem replaced_accepted {b tail file new : Bytes} {items : List Item}
    (h : Accepted b items tail) (hnew : new.length < 2 ^ 32) :
    ∃ items', Accepted (cpioBuild (replaceData file new items) tail) items' tail ∧
      List.Forall₂ (Rewritten file new) items items' := by
  obtain ⟨fuel, hparse, hbuild⟩ := h
  obtain ⟨es, rfl, hes⟩ := newc_of_parse hparse hbuild
  have hes' := hes.map (f := Entry.replaced file new hnew)
    fun e => (replaced_replaced file hnew e).name
  rw [cpioBuild_replaceData file hnew]
  refine ⟨_, ⟨_, parse_of_newc hes', rfl⟩, ?_⟩
  rw [List.forall₂_map_right_iff, List.forall₂_map_right_iff, List.forall₂_map_left_iff,
    List.forall₂_same]
  exact fun e _ => rewritten_replaced file hnew e

/-- One byte becomes two. -/
theorem replaced_accepted_small :
    ∃ items', Accepted
        (cpioBuild
          (replaceData (encode "a") [2, 3] ([smallEntry 1, lastEntry].map Entry.toItem)) [])
        items' [] ∧
      List.Forall₂ (Rewritten (encode "a") [2, 3]) ([smallEntry 1, lastEntry].map Entry.toItem)
        items' :=
  replaced_accepted ⟨_, parse_of_newc (newc_smallCpio 1), (newc_smallCpio 1).bytes_eq⟩ (by decide)

end Bootimg

end A1000

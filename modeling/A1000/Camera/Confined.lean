import A1000.Camera.Loader

/-!
# Where the loader reads and writes

`elfload_open` checks of a file that it is a 32-bit ELF file, and nothing else: the sizes and
addresses in it go into the arithmetic of pointers as they are. It stays in the block of the table
of segments, and in the mapping it has made, exactly when the file says nothing that leads out of
them.

## Main definitions

* `Camera.Loader.Confined` — the accesses stay inside
* `Camera.Loader.TableFits` — the last entry of the table is in its block, as far as it is read
* `Camera.Loader.WritesFit` — the segments and the slots of the relocations are in the mapping

## Main results

* `Camera.Loader.segmentsFit_of_sane` — headers that make sense keep the segments in the mapping
* `Camera.Loader.confined_iff` — when the accesses stay inside
-/

namespace A1000

namespace Camera

namespace Loader

open Bytes Fallible Traced

/-! ### What is promised -/

/-- `size` bytes at `a` are in the mapping. -/
def Inside (start span a : UInt32) (size : ℕ) : Prop :=
  size = 0 ∨ (a - start).toNat + size ≤ span.toNat

/-- **The accesses stay inside**: unless null is returned, everything is written to the mapping, and
the table of segments is read in its block only. -/
structure Confined (o : Load (Loaded × List UInt32)) : Prop where
  writes : ¬ ReturnsNull o.result → ∀ start span, .mapped start span ∈ o.events →
    ∀ a size, .written a size ∈ o.events → Inside start span a size
  table : ∀ block, .malloced block ∈ o.events →
    ∀ offset size, .phdr offset size ∈ o.events → offset + size ≤ block

/-! ### The table of segments -/

/-- How far the loops read in an entry: the first two, the third, and the last. -/
def extentReach (q : Phdr) : ℕ := if q.p_type = PT_LOAD then 24 else 4

def dynamicReach (q : Phdr) : ℕ := if q.p_type = PT_DYNAMIC then 12 else 4

def protectReach (q : Phdr) : ℕ := if q.p_type = PT_LOAD then 28 else 4

/-- The last entry of the table is in the block, as far as a loop reads it. -/
def LastFits (block : ℕ) (ph : List Phdr) (reach : Phdr → ℕ) : Prop :=
  ∀ q, ph.getLast? = some q → 32 * (ph.length - 1) + reach q ≤ block

/-- **The table fits** into its block, as far as the loader comes with it. -/
def TableFits (p : Process) (sur : Surroundings) (file : Bytes) : Prop :=
  ∀ block ph, HasTable sur file block ph →
    LastFits block ph extentReach ∧
      ∀ start span base mem, HasMapping p ph start span base →
        (readSegments sur file base ph (sur.memory start span)).result = .ok mem →
          LastFits block ph dynamicReach ∧
            ∀ d lo lo', dynamicInfo base ph mem = .ok (d, lo) →
              (relocations p sur d lo).result = .ok lo' → LastFits block ph protectReach

/-- What a loop reads of an entry lies within its reach. -/
def Reaches (fields : Phdr → List ℕ) (reach : Phdr → ℕ) : Prop :=
  ∀ q, 4 ≤ reach q ∧ reach q ≤ 32 ∧ (∀ offset ∈ fields q, offset + 4 ≤ reach q) ∧
    ∃ offset ∈ fields q, offset + 4 = reach q

theorem reaches_extent : Reaches extentFields extentReach := by
  intro q
  by_cases h : q.p_type = PT_LOAD <;> simp [extentFields, extentReach, h]

theorem reaches_dynamic : Reaches dynamicFields dynamicReach := by
  intro q
  by_cases h : q.p_type = PT_DYNAMIC <;> simp [dynamicFields, dynamicReach, h]

theorem reaches_protect : Reaches protectFields protectReach := by
  intro q
  by_cases h : q.p_type = PT_LOAD <;> simp [protectFields, protectReach, h]

/-- When the last entry fits, the others do: they are further in. -/
theorem LastFits.inside {block : ℕ} {ph : List Phdr} {reach : Phdr → ℕ}
    (h : LastFits block ph reach) (hreach : ∀ q, 4 ≤ reach q ∧ reach q ≤ 32) {i : ℕ} {q : Phdr}
    (hq : ph[i]? = some q) {offset : ℕ} (ho : offset + 4 ≤ reach q) :
    32 * i + offset + 4 ≤ block := by
  obtain ⟨hi, -⟩ := List.getElem?_eq_some_iff.mp hq
  by_cases hlast : i = ph.length - 1
  · have hfit := h q (by rw [List.getLast?_eq_getElem?, ← hlast]; exact hq)
    omega
  · obtain ⟨last, hl⟩ : ∃ last, ph.getLast? = some last := by
      rw [List.getLast?_eq_getElem?]
      exact ⟨_, List.getElem?_eq_getElem (by omega)⟩
    have hfit := h last hl
    have hlow := (hreach last).1
    have hup := (hreach q).2
    omega

/-- A loop stays in the block when its last turn does. -/
theorem touches_inside_iff {fields : Phdr → List ℕ} {reach : Phdr → ℕ}
    (h : Reaches fields reach) {block : ℕ} {ph : List Phdr} :
    (∀ offset size, .phdr offset size ∈ touches fields ph → offset + size ≤ block) ↔
      LastFits block ph reach := by
  constructor
  · intro hall q hq
    obtain ⟨offset, ho, hreach⟩ := (h q).2.2.2
    rw [List.getLast?_eq_getElem?] at hq
    have hin := hall (32 * (ph.length - 1) + offset) 4
      (mem_touches.mpr ⟨ph.length - 1, q, hq, offset, ho, rfl⟩)
    omega
  · intro hlast offset size hmem
    obtain ⟨i, q, hq, o, ho, heq⟩ := mem_touches.mp hmem
    cases heq
    exact hlast.inside (fun q => ⟨(h q).1, (h q).2.1⟩) hq ((h q).2.2.1 o ho)

/-- The second loop reads no further than the first. -/
theorem segmentFields_reach (q : Phdr) :
    ∀ offset ∈ segmentFields q, offset + 4 ≤ extentReach q := by
  rw [segmentFields, extentReach]
  by_cases h : q.p_type = PT_LOAD <;> by_cases hs : q.p_filesz = 0 <;> simp [h, hs]

theorem readSegments_inside {sur : Surroundings} {file : Bytes} {base : UInt32} {ph : List Phdr}
    {mem : Window} {block : ℕ} (h : LastFits block ph extentReach) {offset size : ℕ}
    (hmem : .phdr offset size ∈ (readSegments sur file base ph mem).events) :
    offset + size ≤ block := by
  obtain ⟨l₁, q, l₂, mem', hph, -, hq⟩ := mem_readSegments.mp hmem
  obtain hq | ⟨-, -, -, hq⟩ := mem_readSegment.mp hq
  · obtain ⟨o, ho, heq⟩ := List.mem_map.mp hq
    cases heq
    have hzip : (q.1, q.2) ∈ ph.zipIdx := by
      rw [hph]
      exact List.mem_append_right _ List.mem_cons_self
    exact h.inside (fun q => ⟨(reaches_extent q).1, (reaches_extent q).2.1⟩)
      (List.mem_zipIdx_iff_getElem?.mp hzip) (segmentFields_reach q.1 o ho)
  · cases hq

/-- **The accesses to the table.** -/
theorem table_inside_iff {p : Process} {sur : Surroundings} {file : Bytes} {want : List Name} :
    (∀ block, .malloced block ∈ (elfloadOpen p sur (some file) want).events →
        ∀ offset size, .phdr offset size ∈ (elfloadOpen p sur (some file) want).events →
          offset + size ≤ block) ↔
      TableFits p sur file := by
  have hmem : ∀ offset size, .phdr offset size ∈ (elfloadOpen p sur (some file) want).events ↔ _ :=
    fun offset size => mem_elfloadOpen (show Event.Inner (.phdr offset size) from trivial)
  constructor
  · intro hall block ph htable
    have hin : ∀ offset size, .phdr offset size ∈
        (elfloadOpen p sur (some file) want).events → offset + size ≤ block :=
      hall block ((malloced_mem htable).mpr rfl)
    have hlink : ∀ start span base mem, HasMapping p ph start span base →
        (readSegments sur file base ph (sur.memory start span)).result = .ok mem →
          ∀ offset size, .phdr offset size ∈ (linkImage p sur ph base mem).events →
            offset + size ≤ block := by
      intro start span base mem hmap hread offset size h
      refine hin offset size ((hmem offset size).mpr ⟨file, block, ph, rfl, htable, .inr ?_⟩)
      exact ⟨start, span, base, hmap, .inr <|
        (mem_loadImage_of_access (by rintro _ ⟨⟩) (by rintro _ _ ⟨⟩)).mpr (.inr ⟨mem, hread, h⟩)⟩
    refine ⟨(touches_inside_iff reaches_extent).mp fun offset size h => hin offset size
      ((hmem offset size).mpr ⟨file, block, ph, rfl, htable, .inl h⟩), ?_⟩
    intro start span base mem hmap hread
    refine ⟨(touches_inside_iff reaches_dynamic).mp fun offset size h =>
      hlink start span base mem hmap hread offset size (mem_linkImage.mpr (.inl h)), ?_⟩
    intro d lo lo' hd hrel
    exact (touches_inside_iff reaches_protect).mp fun offset size h =>
      hlink start span base mem hmap hread offset size
        (mem_linkImage.mpr (.inr ⟨d, lo, hd, .inr ⟨⟨lo', hrel⟩, h⟩⟩))
  · intro hfits block hblock offset size h
    obtain ⟨f, block', ph, hf, htable, h⟩ := (hmem offset size).mp h
    cases hf
    obtain rfl := (malloced_mem htable).mp hblock
    obtain ⟨hextent, hrest⟩ := hfits _ ph htable
    obtain h | ⟨start, span, base, hmap, h | h⟩ := h
    · exact (touches_inside_iff reaches_extent).mpr hextent offset size h
    · cases h
    · obtain h | ⟨mem, hread, h⟩ :=
        (mem_loadImage_of_access (by rintro _ ⟨⟩) (by rintro _ _ ⟨⟩)).mp h
      · exact readSegments_inside hextent h
      · obtain ⟨hdynamic, hprotect⟩ := hrest start span base mem hmap hread
        obtain h | ⟨d, lo, hd, h | ⟨⟨lo', hrel⟩, h⟩⟩ := mem_linkImage.mp h
        · exact (touches_inside_iff reaches_dynamic).mpr hdynamic offset size h
        · obtain ⟨_, _, h⟩ := kind_of_mem_relocations h
          cases h
        · exact (touches_inside_iff reaches_protect).mpr (hprotect d lo lo' hd hrel) offset size h

/-! ### The segments -/

/-- What is in the file of a segment ends in the mapping. A size from `2 ^ 31` on is negative for
`pread`, which then reads nothing. -/
def SegmentsFit (start span base : UInt32) (ph : List Phdr) : Prop :=
  ∀ q ∈ ph, q.p_type = PT_LOAD → q.p_filesz < 0x80000000 →
    Inside start span (base + q.p_vaddr) q.p_filesz.toNat

/-- What is read when it is as much as was asked for. -/
theorem length_pread {file : Bytes} {count offset : UInt32}
    (h : (pread file count offset).1 = ssize count) :
    (pread file count offset).2.length = if count < 0x80000000 then count.toNat else 0 := by
  rw [pread] at h ⊢
  by_cases hcount : count < 0x80000000
  · by_cases hoffset : offset < 0x80000000
    · simp only [hcount, hoffset, and_self, ↓reduceIte, ssize] at h ⊢
      exact Int.ofNat.inj h
    · simp only [hcount, hoffset, and_false, ↓reduceIte, ssize] at h
      omega
  · simp [hcount]

theorem readSegment_ne_undefined (sur : Surroundings) (file : Bytes) (base : UInt32) (mem : Window)
    (q : Phdr × ℕ) : (readSegment sur file base mem q).result ≠ .error .undefined := by
  rw [readSegment, result_bind, result_emit, ok_bind]
  split
  · rintro ⟨⟩
  · dsimp only
    split
    · rintro ⟨⟩
    · split
      · rintro ⟨⟩
      · rintro ⟨⟩

theorem pread_of_readSegment {sur : Surroundings} {file : Bytes} {base : UInt32}
    {mem mem' : Window} {q : Phdr × ℕ} (h : (readSegment sur file base mem q).result = .ok mem')
    (hload : q.1.p_type = PT_LOAD) (hsize : q.1.p_filesz ≠ 0) :
    (pread file q.1.p_filesz q.1.p_offset).1 = ssize q.1.p_filesz := by
  rw [readSegment, result_bind, result_emit, ok_bind, if_neg (by simp [hload, hsize])] at h
  dsimp only at h
  split at h
  · cases h
  · rename_i hread
    exact not_not.mp fun hne => hread (.inl hne)

/-- **The segments**, when all of them are read: they are written to the mapping exactly when they
fit. -/
theorem segments_inside_iff {sur : Surroundings} {file : Bytes} {base : UInt32} {ph : List Phdr}
    {mem mem' : Window} {start span : UInt32}
    (hread : (readSegments sur file base ph mem).result = .ok mem') :
    (∀ a size, .written a size ∈ (readSegments sur file base ph mem).events →
        Inside start span a size) ↔
      SegmentsFit start span base ph := by
  -- every turn is taken, and is taken successfully
  have hturn : ∀ l₁ q l₂, ph.zipIdx = l₁ ++ q :: l₂ →
      ∃ mem₁ mem₂,
        l₁.foldlM (fun mem q => (readSegment sur file base mem q).result) mem = .ok mem₁ ∧
          (readSegment sur file base mem₁ q).result = .ok mem₂ := by
    intro l₁ q l₂ hph
    rw [readSegments, result_foldlM, hph, List.foldlM_append] at hread
    obtain ⟨mem₁, h₁, hread⟩ := bind_eq_ok.mp hread
    rw [List.foldlM_cons] at hread
    obtain ⟨mem₂, h₂, -⟩ := bind_eq_ok.mp hread
    exact ⟨mem₁, mem₂, h₁, h₂⟩
  constructor
  · intro hall q hq hload hlt
    by_cases hsize : q.p_filesz = 0
    · exact .inl (by rw [hsize]; rfl)
    · obtain ⟨i, hi⟩ := List.getElem?_of_mem hq
      obtain ⟨l₁, l₂, hph⟩ := List.append_of_mem
        (show (q, i) ∈ ph.zipIdx from List.mem_zipIdx_iff_getElem?.mpr hi)
      obtain ⟨mem₁, mem₂, h₁, h₂⟩ := hturn l₁ (q, i) l₂ hph
      have hlen := length_pread (pread_of_readSegment h₂ hload hsize)
      rw [if_pos hlt] at hlen
      have hin := hall (base + q.p_vaddr) (pread file q.p_filesz q.p_offset).2.length
        (mem_readSegments.mpr ⟨l₁, (q, i), l₂, mem₁, hph, h₁,
          mem_readSegment.mpr (.inr ⟨⟨mem₂, h₂⟩, hload, hsize, rfl⟩)⟩)
      rwa [hlen] at hin
  · intro hfit a size hmem
    obtain ⟨l₁, q, l₂, mem₁, hph, -, hq⟩ := mem_readSegments.mp hmem
    obtain hq | ⟨⟨mem₂, h₂⟩, hload, hsize, heq⟩ := mem_readSegment.mp hq
    · obtain ⟨o, -, heq⟩ := List.mem_map.mp hq
      cases heq
    · have hlen := length_pread (pread_of_readSegment h₂ hload hsize)
      cases heq
      rw [hlen]
      split
      · rename_i hlt
        have hzip : (q.1, q.2) ∈ ph.zipIdx := by
          rw [hph]
          exact List.mem_append_right _ List.mem_cons_self
        have hget : ph[q.2]? = some q.1 := List.mem_zipIdx_iff_getElem?.mp hzip
        exact hfit q.1 (List.mem_of_getElem? hget) hload hlt
      · exact .inl rfl

/-! ### Headers that make sense -/

/-- What the loader does not check of a segment: that the file has no more of it than the memory,
and that it ends within the address space, a page before its end. -/
structure Sane (q : Phdr) : Prop where
  filesz_le : q.p_filesz ≤ q.p_memsz
  ends : q.p_vaddr.toNat + q.p_memsz.toNat + 4096 ≤ 2 ^ 32

theorem PAGE_DOWN_toNat (x : UInt32) : (PAGE_DOWN x).toNat = x.toNat - x.toNat % 4096 := by
  have hmask : ∀ i < 32, (0xfffff000 : ℕ).testBit i = decide (12 ≤ i) := by decide
  have hbits : x.toNat &&& 0xfffff000 = x.toNat >>> 12 <<< 12 := by
    refine Nat.eq_of_testBit_eq fun i => ?_
    rw [Nat.testBit_and, Nat.testBit_shiftLeft, Nat.testBit_shiftRight]
    by_cases hi : i < 32
    · rw [hmask i hi]
      by_cases h12 : 12 ≤ i <;> simp [h12]
    · have hx : x.toNat.testBit i = false :=
        Nat.testBit_lt_two_pow
          (lt_of_lt_of_le x.toNat_lt (Nat.pow_le_pow_right (by decide) (by omega)))
      simp [hx, show 12 + (i - 12) = i by omega]
  have hand : (PAGE_DOWN x).toNat = x.toNat &&& 0xfffff000 := UInt32.toNat_and x _
  rw [hand, hbits, Nat.shiftLeft_eq, Nat.shiftRight_eq_div_pow]
  omega

theorem le_PAGE_UP {x : UInt32} (h : x.toNat + 4096 ≤ 2 ^ 32) :
    x.toNat ≤ (PAGE_UP x).toNat := by
  have hadd : (x + 4096 - 1).toNat = x.toNat + 4095 := by
    have hx : x + 4096 - 1 = x + 4095 := by grind
    rw [hx, UInt32.toNat_add, Nat.mod_eq_of_lt (by simpa using by omega)]
    rfl
  have hdown := PAGE_DOWN_toNat (x + 4096 - 1)
  rw [hadd] at hdown
  rw [PAGE_UP, ← PAGE_DOWN, hdown]
  omega

/-- One more entry of the table. -/
theorem extent_concat (ph : List Phdr) (q : Phdr) :
    extent (ph ++ [q]) =
      if q.p_type ≠ PT_LOAD then extent ph
      else (if q.p_vaddr < (extent ph).1 then q.p_vaddr else (extent ph).1,
        if q.p_vaddr + q.p_memsz > (extent ph).2 then q.p_vaddr + q.p_memsz
        else (extent ph).2) := by
  rw [extent, List.foldl_append]
  rfl

/-- The extent takes in every segment. -/
theorem extent_spec {ph : List Phdr} (h : ∀ q ∈ ph, q.p_type = PT_LOAD → Sane q) :
    (extent ph).2.toNat + 4096 ≤ 2 ^ 32 ∧
      ∀ q ∈ ph, q.p_type = PT_LOAD → (extent ph).1.toNat ≤ q.p_vaddr.toNat ∧
        q.p_vaddr.toNat + q.p_memsz.toNat ≤ (extent ph).2.toNat := by
  induction ph using List.reverseRecOn with
  | nil => exact ⟨by decide, by simp⟩
  | append_singleton ph q ih =>
    obtain ⟨hhi, hall⟩ := ih fun q' hq' => h q' (List.mem_append_left _ hq')
    rw [extent_concat]
    by_cases hload : q.p_type = PT_LOAD
    · rw [if_neg (not_not.mpr hload)]
      have hsane : Sane q := h q (List.mem_append_right _ (List.mem_singleton_self q)) hload
      have hends := hsane.ends
      have hsum : (q.p_vaddr + q.p_memsz).toNat = q.p_vaddr.toNat + q.p_memsz.toNat := by
        rw [UInt32.toNat_add, Nat.mod_eq_of_lt (by omega)]
      have hlo : (if q.p_vaddr < (extent ph).1 then q.p_vaddr else (extent ph).1).toNat =
          min q.p_vaddr.toNat (extent ph).1.toNat := by
        split
        · rename_i hlt
          rw [min_eq_left (UInt32.lt_iff_toNat_lt.mp hlt).le]
        · rename_i hge
          rw [min_eq_right (not_lt.mp fun hlt => hge (UInt32.lt_iff_toNat_lt.mpr hlt))]
      have hmax : (if q.p_vaddr + q.p_memsz > (extent ph).2 then q.p_vaddr + q.p_memsz
          else (extent ph).2).toNat =
          max (q.p_vaddr.toNat + q.p_memsz.toNat) (extent ph).2.toNat := by
        rw [← hsum]
        split
        · rename_i hlt
          rw [max_eq_left (UInt32.lt_iff_toNat_lt.mp hlt).le]
        · rename_i hge
          rw [max_eq_right (not_lt.mp fun hlt => hge (UInt32.lt_iff_toNat_lt.mpr hlt))]
      rw [hlo, hmax]
      refine ⟨by omega, fun q' hq' hload' => ?_⟩
      rcases List.mem_append.mp hq' with hq' | hq'
      · obtain ⟨h₁, h₂⟩ := hall q' hq' hload'
        exact ⟨by omega, by omega⟩
      · rw [List.mem_singleton.mp hq']
        exact ⟨by omega, by omega⟩
    · rw [if_pos hload]
      refine ⟨hhi, fun q' hq' hload' => ?_⟩
      rcases List.mem_append.mp hq' with hq' | hq'
      · exact hall q' hq' hload'
      · rw [List.mem_singleton.mp hq'] at hload'
        exact absurd hload' hload

/-- **Headers that make sense** keep the segments in the mapping. -/
theorem segmentsFit_of_sane {p : Process} {ph : List Phdr} {start span base : UInt32}
    (h : ∀ q ∈ ph, q.p_type = PT_LOAD → Sane q) (hmap : HasMapping p ph start span base) :
    SegmentsFit start span base ph := by
  intro q hq hload _
  obtain ⟨-, rfl, -, rfl⟩ := hmap
  obtain ⟨hhi, hall⟩ := extent_spec h
  obtain ⟨hlo, hend⟩ := hall q hq hload
  have hsize : q.p_filesz.toNat ≤ q.p_memsz.toNat :=
    UInt32.le_iff_toNat_le.mp (h q hq hload).filesz_le
  have hdown := PAGE_DOWN_toNat (extent ph).1
  have hup := le_PAGE_UP hhi
  have haddr : start - PAGE_DOWN (extent ph).1 + q.p_vaddr - start =
      q.p_vaddr - PAGE_DOWN (extent ph).1 := by grind
  have hoff : (q.p_vaddr - PAGE_DOWN (extent ph).1).toNat =
      q.p_vaddr.toNat - (PAGE_DOWN (extent ph).1).toNat :=
    UInt32.toNat_sub_of_le _ _ (UInt32.le_iff_toNat_le.mpr (by omega))
  have hspan : (PAGE_UP (extent ph).2 - PAGE_DOWN (extent ph).1).toNat =
      (PAGE_UP (extent ph).2).toNat - (PAGE_DOWN (extent ph).1).toNat :=
    UInt32.toNat_sub_of_le _ _ (UInt32.le_iff_toNat_le.mpr (by omega))
  refine .inr ?_
  rw [haddr, hoff, hspan]
  omega

/-! ### The relocations -/

/-- The slot of the relocation at `r` is in the mapping, if the relocation is carried out. -/
def RelocationFits (p : Process) (sur : Surroundings) (start span : UInt32) (lo : Loaded)
    (r : UInt32) : Prop :=
  ∀ r_offset lo', lo.mem.read32 r = .ok r_offset → (applyRelocation p sur lo r).result = .ok lo' →
    Inside start span (lo.base + r_offset) 4

/-- **The relocations**, one after the other, each in the library as it is then. -/
def RelocationsFit (p : Process) (sur : Surroundings) (start span : UInt32) (d : Dynamic)
    (lo : Loaded) : Prop :=
  ∀ before r after lo₁,
    relEntries d.rel d.relsz ++ relEntries d.jmprel d.jmprelsz = before ++ r :: after →
      before.foldlM (fun lo r => (applyRelocation p sur lo r).result) lo = .ok lo₁ →
        RelocationFits p sur start span lo₁ r

theorem relocations_inside_iff {p : Process} {sur : Surroundings} {start span : UInt32}
    {d : Dynamic} {lo : Loaded} :
    (∀ a size, .written a size ∈ (relocations p sur d lo).events → Inside start span a size) ↔
      RelocationsFit p sur start span d lo := by
  constructor
  · intro hall before r after lo₁ hsplit hbefore r_offset lo' hoff hok
    exact hall _ _ (mem_foldlM.mpr ⟨before, r, after, lo₁, hsplit, hbefore,
      mem_applyRelocation.mpr ⟨r_offset, lo', hoff, hok, rfl⟩⟩)
  · intro hfit a size hmem
    obtain ⟨before, r, after, lo₁, hsplit, hbefore, h⟩ := mem_foldlM.mp hmem
    obtain ⟨r_offset, lo', hoff, hok, heq⟩ := mem_applyRelocation.mp h
    cases heq
    exact hfit before r after lo₁ hsplit hbefore r_offset lo' hoff hok

/-! ### Both -/

/-- **The writes fit**: the segments, and the relocations when it comes to them. -/
def WritesFit (p : Process) (sur : Surroundings) (file : Bytes) : Prop :=
  ∀ block ph start span base, HasTable sur file block ph → HasMapping p ph start span base →
    SegmentsFit start span base ph ∧
      ∀ mem d lo, (readSegments sur file base ph (sur.memory start span)).result = .ok mem →
        dynamicInfo base ph mem = .ok (d, lo) → RelocationsFit p sur start span d lo

/-- A load that does not return null has read the segments. -/
theorem readSegments_of_not_null {p : Process} {sur : Surroundings} {file : Bytes}
    {want : List Name} {block : ℕ} {ph : List Phdr} {start span base : UInt32}
    (hnull : ¬ ReturnsNull (elfloadOpen p sur (some file) want).result)
    (htable : HasTable sur file block ph) (hmap : HasMapping p ph start span base) :
    ∃ mem, (readSegments sur file base ph (sur.memory start span)).result = .ok mem := by
  rw [result_elfloadOpen htable hmap, loadImage, result_bind] at hnull
  cases hread : (readSegments sur file base ph (sur.memory start span)).result with
  | ok mem => exact ⟨mem, rfl⟩
  | error e =>
    rw [hread, error_bind] at hnull
    cases e with
    | failed => exact absurd (.inl rfl) hnull
    | undefined =>
      rw [readSegments, result_foldlM] at hread
      exact absurd hread (foldlM_ne_error (fun _ _ => readSegment_ne_undefined _ _ _ _ _) _ _)

/-- **What is written.** -/
theorem writes_inside_iff {p : Process} {sur : Surroundings} {file : Bytes} {want : List Name}
    (hnull : ¬ ReturnsNull (elfloadOpen p sur (some file) want).result) :
    (∀ start span, .mapped start span ∈ (elfloadOpen p sur (some file) want).events →
        ∀ a size, .written a size ∈ (elfloadOpen p sur (some file) want).events →
          Inside start span a size) ↔
      WritesFit p sur file := by
  have hmem : ∀ a size, .written a size ∈ (elfloadOpen p sur (some file) want).events ↔ _ :=
    fun a size => mem_elfloadOpen (show Event.Inner (.written a size) from trivial)
  constructor
  · intro hall block ph start span base htable hmap
    have hin : ∀ a size, .written a size ∈
        (loadImage p sur file want ph base (sur.memory start span)).events →
          Inside start span a size := fun a size h =>
      hall start span (mapped_mem.mpr ⟨file, block, ph, base, rfl, htable, hmap⟩) a size
        ((hmem a size).mpr ⟨file, block, ph, rfl, htable, .inr ⟨start, span, base, hmap, .inr h⟩⟩)
    obtain ⟨mem, hread⟩ := readSegments_of_not_null hnull htable hmap
    refine ⟨(segments_inside_iff hread).mp fun a size h => hin a size ?_, ?_⟩
    · exact (mem_loadImage_of_access (by rintro _ ⟨⟩) (by rintro _ _ ⟨⟩)).mpr (.inl h)
    · intro mem' d lo hread' hd
      exact relocations_inside_iff.mp fun a size h => hin a size <|
        (mem_loadImage_of_access (by rintro _ ⟨⟩) (by rintro _ _ ⟨⟩)).mpr
          (.inr ⟨mem', hread', mem_linkImage.mpr (.inr ⟨d, lo, hd, .inl h⟩)⟩)
  · intro hfit start span hmapped a size h
    obtain ⟨f, block, ph, base, hf, htable, hmap⟩ := mapped_mem.mp hmapped
    cases hf
    obtain ⟨f, block', ph', hf, htable', h⟩ := (hmem a size).mp h
    cases hf
    obtain ⟨rfl, rfl⟩ := htable.unique htable'
    obtain ⟨hsegments, hrest⟩ := hfit block ph start span base htable hmap
    obtain ⟨mem, hread⟩ := readSegments_of_not_null hnull htable hmap
    obtain h | ⟨start', span', base', hmap', h | h⟩ := h
    · obtain ⟨_, _, h⟩ := kind_of_mem_touches h
      cases h
    · cases h
    · obtain ⟨rfl, rfl, rfl⟩ := hmap.unique hmap'
      obtain h | ⟨mem', hread', h⟩ :=
        (mem_loadImage_of_access (by rintro _ ⟨⟩) (by rintro _ _ ⟨⟩)).mp h
      · exact (segments_inside_iff hread).mpr hsegments a size h
      · obtain h | ⟨d, lo, hd, h | ⟨-, h⟩⟩ := mem_linkImage.mp h
        · obtain ⟨_, _, h⟩ := kind_of_mem_touches h
          cases h
        · exact relocations_inside_iff.mpr (hrest mem' d lo hread' hd) a size h
        · obtain ⟨_, _, h⟩ := kind_of_mem_touches h
          cases h

/-- **The loader stays inside**, whatever the file is and whatever is around its mapping, exactly
when the table of segments fits into its block, and the writes into the mapping unless null is
returned. -/
theorem confined_iff (p : Process) (sur : Surroundings) (file : Option Bytes)
    (want : List Name) :
    Confined (elfloadOpen p sur file want) ↔
      ∀ f, file = some f → TableFits p sur f ∧
        (¬ ReturnsNull (elfloadOpen p sur file want).result → WritesFit p sur f) := by
  cases file with
  | none =>
    refine iff_of_true ⟨fun _ _ _ h => ?_, fun _ h => ?_⟩ (by rintro f ⟨⟩)
    · cases h
    · cases h
  | some file =>
    constructor
    · rintro ⟨hwrites, htable⟩ f hf
      cases hf
      exact ⟨table_inside_iff.mp htable,
        fun hnull => (writes_inside_iff hnull).mp (hwrites hnull)⟩
    · intro h
      obtain ⟨htable, hwrites⟩ := h file rfl
      exact ⟨fun hnull => (writes_inside_iff hnull).mpr (hwrites hnull),
        table_inside_iff.mpr htable⟩

/-! ### A stray relocation -/

/-- A library with one relocation, of type `R_ARM_RELATIVE`, for the slot at `slot`: the header, a
segment with everything, the table of `PT_DYNAMIC`, the hash table, the first symbol, no strings,
and the relocation. -/
def oneRelocation (slot : ℕ) : Bytes :=
  [0x7f, 0x45, 0x4c, 0x46, 1, 1, 1, 0, 0, 0, 0, 0, 0, 0, 0, 0] ++
    ([3 + 40 * 65536, 1, 0, 52, 0, 0x05000000, 52 + 32 * 65536, 2, 0,
      1, 0, 0, 0, 208, 208, 6, 4096,
      2, 116, 116, 116, 48, 48, 6, 4,
      4, 164, 6, 180, 5, 196, 17, 200, 18, 8, 0, 0,
      1, 1, 0, 0,
      0, 0, 0, 0,
      0,
      slot, 23] : List ℕ).flatMap packU32

/-- Surroundings in which the whole address space can be read and written. -/
def everywhere : Surroundings where
  fstat := true
  malloc _ := true
  heap _ := 0
  memory _ _ := ⟨0, 0xffffffff, fun _ => 0, fun _ => true⟩
  writable _ := true

/-- A slot in the mapping. -/
example : (elfloadOpen forwarding everywhere (some (oneRelocation 0x800)) []).events.contains
    (.written 0x40000800 4) = true := by
  decide +kernel

/-- The slot of the relocation is behind the mapping, and is written. -/
theorem confined_not_always :
    ¬ ∀ (p : Process) (sur : Surroundings) (file : Option Bytes) (want : List Name),
      Confined (elfloadOpen p sur file want) := by
  intro hall
  have hevents :
      (elfloadOpen forwarding everywhere (some (oneRelocation 0x2000)) []).events.contains
        (.mapped 0x40000000 0x1000) = true ∧
      (elfloadOpen forwarding everywhere (some (oneRelocation 0x2000)) []).events.contains
        (.written 0x40002000 4) = true := by
    decide +kernel
  have hbase : (elfloadOpen forwarding everywhere (some (oneRelocation 0x2000)) []).result.map
      (fun r => r.1.base) = .ok 0x40000000 := by
    decide +kernel
  have hnull : ¬ ReturnsNull
      (elfloadOpen forwarding everywhere (some (oneRelocation 0x2000)) []).result := by
    rintro (h | ⟨lo, out, h, hzero⟩)
    · rw [h] at hbase
      cases hbase
    · rw [h] at hbase
      cases (Except.ok.inj hbase).symm.trans hzero
  have hinside := (hall forwarding everywhere (some (oneRelocation 0x2000)) []).writes hnull
    0x40000000 0x1000 (List.contains_iff_mem.mp hevents.1) 0x40002000 4
    (List.contains_iff_mem.mp hevents.2)
  revert hinside
  rw [Inside]
  decide

end Loader

end Camera

end A1000

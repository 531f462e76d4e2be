import A1000.Camera.Elfload
import A1000.Lib.Traced

/-!
# What the loader does on its way

`elfload_open` once more, with everything that can be told of it from outside: the descriptor, the
block of the table of segments and the mapping that it takes and gives back, what it reads of that
table and what it writes to memory, the initializers it calls and what it stores for its caller.

Memory is what it is: the table of segments goes on behind its block, an address outside of the
mapping may belong to something else that can be read or written, and the kernel refuses to read
into memory that cannot be written. A write that goes astray is taken not to hit the table.

Nothing is said of a segment that is read in part, since the loader then gives up.

## Main definitions

* `Camera.Loader.Event` — what the loader does
* `Camera.Loader.Surroundings` — the memory around the mapping
* `Camera.Loader.elfloadOpen` — the loader, with its events
* `Camera.Loader.HasTable`, `Camera.Loader.HasMapping` — how far it has come

## Main results

* `Camera.Loader.mem_elfloadOpen`, `Camera.Loader.mem_loadImage` — where an event comes from
* `Camera.Loader.covers_elfloadOpen` — the loader without its events, where that has a meaning
-/

namespace A1000

namespace Camera

namespace Loader

open Bytes Fallible Traced

/-! ### Events -/

/-- What the loader does. -/
inductive Event
  /-- The file is opened. -/
  | opened
  | closed
  /-- The block of the table of segments. -/
  | malloced (size : ℕ)
  | freed
  | mapped (start span : UInt32)
  | unmapped (start span : UInt32)
  /-- `size` bytes of the table of segments are read, from `offset` on. -/
  | phdr (offset size : ℕ)
  /-- `size` bytes of memory are written. -/
  | written (a : UInt32) (size : ℕ)
  /-- An initializer is called. -/
  | called (fn : UInt32)
  /-- `out[i] = a`. -/
  | stored (i : ℕ) (a : UInt32)
  deriving DecidableEq, Repr

/-- A part of the loader. -/
abbrev Load (α : Type) := Traced Stop Event α

/-- What the loader finds around it: which calls succeed, what there is in the block of the table
and behind it, the memory once `mmap` has given `span` bytes of it at `start`, and where it can be
written. -/
structure Surroundings where
  fstat : Bool
  malloc : ℕ → Bool
  heap : ℕ → UInt8
  memory : UInt32 → UInt32 → Window
  writable : UInt32 → Bool

/-- `size` bytes can be written at `a`. -/
def Surroundings.canWrite (sur : Surroundings) (a : UInt32) (size : ℕ) : Bool :=
  (List.range size).all fun k => sur.writable (a + .ofNat k)

/-! ### The table of segments -/

/-- A byte of the table: what has not been read is what was there before. -/
def tableByte (sur : Surroundings) (table : Bytes) (j : ℕ) : UInt8 :=
  (table[j]?).getD (sur.heap j)

/-- A field of the entry number `i`. -/
def tableField (sur : Surroundings) (table : Bytes) (i offset : ℕ) : UInt32 :=
  .ofNat (u32 ((List.range 4).map fun k => tableByte sur table (32 * i + offset + k)))

/-- The entry number `i`. -/
def phdrAt (sur : Surroundings) (table : Bytes) (i : ℕ) : Phdr where
  p_type := tableField sur table i 0
  p_offset := tableField sur table i 4
  p_vaddr := tableField sur table i 8
  p_filesz := tableField sur table i 16
  p_memsz := tableField sur table i 20
  p_flags := tableField sur table i 24

/-- The loops go through the table in steps of 32 bytes, whatever `e_phentsize` is. -/
def phdrTable (sur : Surroundings) (table : Bytes) (n : ℕ) : List Phdr :=
  (List.range n).map (phdrAt sur table)

/-- The fields that a turn of each loop reads, by their offsets. -/
def extentFields (q : Phdr) : List ℕ := if q.p_type ≠ PT_LOAD then [0] else [0, 8, 20]

def segmentFields (q : Phdr) : List ℕ :=
  if q.p_type ≠ PT_LOAD then [0] else if q.p_filesz = 0 then [0, 16] else [0, 16, 8, 4]

def dynamicFields (q : Phdr) : List ℕ := if q.p_type = PT_DYNAMIC then [0, 8] else [0]

def protectFields (q : Phdr) : List ℕ := if q.p_type ≠ PT_LOAD then [0] else [0, 24, 8, 20]

/-- The accesses of a turn. -/
def touch (fields : Phdr → List ℕ) (q : Phdr × ℕ) : List Event :=
  (fields q.1).map fun offset => .phdr (32 * q.2 + offset) 4

/-- The accesses of a loop. -/
def touches (fields : Phdr → List ℕ) (ph : List Phdr) : List Event :=
  ph.zipIdx.flatMap (touch fields)

/-! ### The stages -/

/-- Read a segment, which the kernel does only if the memory can be written. -/
def readSegment (sur : Surroundings) (file : Bytes) (base : UInt32) (mem : Window)
    (q : Phdr × ℕ) : Load Window := do
  emit (touch segmentFields q)
  if q.1.p_type ≠ PT_LOAD ∨ q.1.p_filesz = 0 then return mem
  else
    let (n, d) := pread file q.1.p_filesz q.1.p_offset
    if n ≠ ssize q.1.p_filesz ∨ sur.canWrite (base + q.1.p_vaddr) d.length = false then
      lift (.error .failed)
    else
      match mem.write (base + q.1.p_vaddr) d with
      | .error _ => lift (.error .failed)
      | .ok mem => do
        emit [.written (base + q.1.p_vaddr) d.length]
        return mem

/-- Read the segments. -/
def readSegments (sur : Surroundings) (file : Bytes) (base : UInt32) (ph : List Phdr)
    (mem : Window) : Load Window :=
  ph.zipIdx.foldlM (readSegment sur file base) mem

/-- What the table of `PT_DYNAMIC` says, and the library before it is relocated. -/
def dynamicInfo (base : UInt32) (ph : List Phdr) (mem : Window) : Call (Dynamic × Loaded) := do
  let dyn := dynamicAddr base ph
  if dyn = 0 then throw .failed
  let entries ← dynamicEntries mem dyn
  let d := entries.foldl (Dynamic.entry base) ⟨0, 0, 0, 0, 0, 0, 0, 0, 0⟩
  if d.symtab = 0 ∨ d.strtab = 0 ∨ d.hash = 0 then throw .failed
  let nsyms ← mem.read32 (d.hash + 4)
  return (d, ⟨base, d.symtab, d.strtab, nsyms, mem⟩)

/-- The addresses of the entries of a table of relocations. -/
def relEntries (r size : UInt32) : List UInt32 :=
  if r = 0 then [] else (List.range (size / 8).toNat).map fun k => r + 8 * .ofNat k

/-- One relocation; to write where that is impossible has no meaning. -/
def applyRelocation (p : Process) (sur : Surroundings) (lo : Loaded) (r : UInt32) :
    Load Loaded := do
  let r_offset ← lift (lo.mem.read32 r)
  let lo' ← lift (relocate p lo r)
  if sur.canWrite (lo.base + r_offset) 4 then
    emit [.written (lo.base + r_offset) 4]
    return lo'
  else lift (.error .undefined)

/-- Both passes over the relocations. -/
def relocations (p : Process) (sur : Surroundings) (d : Dynamic) (lo : Loaded) : Load Loaded :=
  (relEntries d.rel d.relsz ++ relEntries d.jmprel d.jmprelsz).foldlM (applyRelocation p sur) lo

/-- The library with its relocations and protections. -/
def linkImage (p : Process) (sur : Surroundings) (ph : List Phdr) (base : UInt32)
    (mem : Window) : Load (Dynamic × Loaded) := do
  emit (touches dynamicFields ph)
  let (d, lo) ← lift (dynamicInfo base ph mem)
  let lo ← relocations p sur d lo
  emit (touches protectFields ph)
  return (d, ph.foldl (protect p) lo)

/-- One initializer. -/
def runInitializer (p : Process) (lo : Loaded) (fn : UInt32) : Load Loaded := do
  let f ← lift (lo.mem.read32 fn)
  if f = 0 ∨ f = 0xffffffff then return lo
  else
    emit [.called f]
    lift (initializer p lo fn)

/-- The addresses of the entries of the table of initializers. -/
def initEntries (base init_array init_arraysz : UInt32) : List UInt32 :=
  if init_array = 0 ∨ init_arraysz = 0 then []
  else (List.range (init_arraysz / 4).toNat).map fun k => base + init_array + 4 * .ofNat k

/-- The initializers. -/
def runInitializers (p : Process) (d : Dynamic) (lo : Loaded) : Load Loaded :=
  (initEntries lo.base d.init_array d.init_arraysz).foldlM (runInitializer p) lo

/-- The symbols that are wanted, from `out[i]` on. -/
def storeWanted (p : Process) (lo : Loaded) : ℕ → List Name → Load (List UInt32)
  | _, [] => return []
  | i, s :: want => do
    let a ← lift (resolve p lo s)
    emit [.stored i a]
    if a = 0 then lift (.error .failed)
    else
      let out ← storeWanted p lo (i + 1) want
      return a :: out

/-- `elfload_open` from the mapping on. -/
def loadImage (p : Process) (sur : Surroundings) (file : Bytes) (want : List Name)
    (ph : List Phdr) (base : UInt32) (mem : Window) : Load (Loaded × List UInt32) := do
  let mem ← readSegments sur file base ph mem
  let (d, lo) ← linkImage p sur ph base mem
  let lo ← runInitializers p d lo
  let out ← storeWanted p lo 0 want
  return (lo, out)

/-- `elfload_open` once the table of segments has been read. -/
def mapImage (p : Process) (sur : Surroundings) (file : Bytes) (want : List Name)
    (ph : List Phdr) : Load (Loaded × List UInt32) := do
  emit (touches extentFields ph)
  let (lo_v, hi_v) := extent ph
  if lo_v = 0xffffffff then lift (.error .failed)
  else
    let span := PAGE_UP hi_v - PAGE_DOWN lo_v
    match p.mmap span with
    | none => lift (.error .failed)
    | some start =>
      emit [.mapped start span]
      undoing .failed (.unmapped start span) <|
        loadImage p sur file want ph (start - PAGE_DOWN lo_v) (sur.memory start span)

/-- `elfload_open` once the header has been read. -/
def readTable (p : Process) (sur : Surroundings) (file : Bytes) (want : List Name) (eh : Ehdr) :
    Load (Loaded × List UInt32) :=
  let size := eh.e_phnum * eh.e_phentsize
  if sur.malloc size.toNat then do
    emit [.malloced size.toNat]
    releasing .failed .freed <|
      let (n, table) := pread file size eh.e_phoff
      if n < 0 then lift (.error .failed)
      else mapImage p sur file want (phdrTable sur table eh.e_phnum.toNat)
  else lift (.error .failed)

/-- `elfload_open`, which returns `lo.base`: the library as it is then, and `out`. There is no file
when it could not be opened. -/
def elfloadOpen (p : Process) (sur : Surroundings) (file : Option Bytes) (want : List Name) :
    Load (Loaded × List UInt32) :=
  match file with
  | none => lift (.error .failed)
  | some file => do
    emit [.opened]
    releasing .failed .closed do
      if sur.fstat then
        let eh ← lift (readEhdr file)
        readTable p sur file want eh
      else lift (.error .failed)

/-! ### How far the loader has come -/

/-- The table of segments has been read: the entries, and the size of its block. -/
def HasTable (sur : Surroundings) (file : Bytes) (size : ℕ) (ph : List Phdr) : Prop :=
  ∃ eh, sur.fstat = true ∧ readEhdr file = .ok eh ∧ size = (eh.e_phnum * eh.e_phentsize).toNat ∧
    sur.malloc size = true ∧ ¬ (pread file (eh.e_phnum * eh.e_phentsize) eh.e_phoff).1 < 0 ∧
    ph = phdrTable sur (pread file (eh.e_phnum * eh.e_phentsize) eh.e_phoff).2 eh.e_phnum.toNat

/-- There is a mapping for the segments. -/
def HasMapping (p : Process) (ph : List Phdr) (start span base : UInt32) : Prop :=
  (extent ph).1 ≠ 0xffffffff ∧ span = PAGE_UP (extent ph).2 - PAGE_DOWN (extent ph).1 ∧
    p.mmap span = some start ∧ base = start - PAGE_DOWN (extent ph).1

theorem mem_touches {fields : Phdr → List ℕ} {ph : List Phdr} {e : Event} :
    e ∈ touches fields ph ↔
      ∃ i q, ph[i]? = some q ∧ ∃ offset ∈ fields q, e = .phdr (32 * i + offset) 4 := by
  simp only [touches, touch, List.mem_flatMap, List.mem_map, Prod.exists,
    List.mem_zipIdx_iff_getElem?]
  constructor
  · rintro ⟨q, i, hq, offset, ho, rfl⟩
    exact ⟨i, q, hq, offset, ho, rfl⟩
  · rintro ⟨i, q, hq, offset, ho, rfl⟩
    exact ⟨q, i, hq, offset, ho, rfl⟩

/-- An event that does not take or give back anything but takes a mapping. -/
def Event.Inner : Event → Prop
  | .phdr _ _ | .written _ _ | .called _ | .stored _ _ | .mapped _ _ => True
  | _ => False

theorem mem_mapImage {p : Process} {sur : Surroundings} {file : Bytes} {want : List Name}
    {ph : List Phdr} {e : Event} (he : ∀ start span, e ≠ .unmapped start span) :
    e ∈ (mapImage p sur file want ph).events ↔
      e ∈ touches extentFields ph ∨
        ∃ start span base, HasMapping p ph start span base ∧
          (e = .mapped start span ∨
            e ∈ (loadImage p sur file want ph base (sur.memory start span)).events) := by
  simp only [mapImage, events_emit_bind, List.mem_append]
  refine or_congr Iff.rfl ?_
  by_cases hlo : (extent ph).1 = 0xffffffff
  · simp [hlo, HasMapping]
  · rw [if_neg hlo]
    cases hmap : p.mmap (PAGE_UP (extent ph).2 - PAGE_DOWN (extent ph).1) with
    | none => simp [HasMapping, hmap]
    | some start =>
      simp only [events_emit_bind, List.mem_append, List.mem_singleton, mem_undoing (he _ _)]
      constructor
      · exact fun h => ⟨start, _, _, ⟨hlo, rfl, hmap, rfl⟩, h⟩
      · rintro ⟨start', span, base, ⟨-, rfl, hmap', rfl⟩, h⟩
        rw [hmap, Option.some.injEq] at hmap'
        rw [hmap']
        exact h

/-- **Where an event comes from**: the first loop over the table, or what follows the mapping. -/
theorem mem_elfloadOpen {p : Process} {sur : Surroundings} {file : Option Bytes}
    {want : List Name} {e : Event} (he : e.Inner) :
    e ∈ (elfloadOpen p sur file want).events ↔
      ∃ f size ph, file = some f ∧ HasTable sur f size ph ∧
        (e ∈ touches extentFields ph ∨
          ∃ start span base, HasMapping p ph start span base ∧
            (e = .mapped start span ∨
              e ∈ (loadImage p sur f want ph base (sur.memory start span)).events)) := by
  cases file with
  | none => simp [elfloadOpen]
  | some file =>
    have hopened : e ≠ .opened := by rintro rfl; exact he
    have hclosed : e ≠ .closed := by rintro rfl; exact he
    have hmalloced : ∀ size, e ≠ .malloced size := by rintro size rfl; exact he
    have hfreed : e ≠ .freed := by rintro rfl; exact he
    have hunmapped : ∀ start span, e ≠ .unmapped start span := by rintro start span rfl; exact he
    simp only [elfloadOpen, events_emit_bind, List.mem_append, List.mem_singleton, hopened,
      false_or, mem_releasing hclosed, Option.some.injEq]
    by_cases hstat : sur.fstat = true
    · rw [if_pos hstat, mem_lift_bind]
      constructor
      · rintro ⟨eh, heh, h⟩
        rw [readTable] at h
        split at h
        · rename_i hmalloc
          simp only [events_emit_bind, List.mem_append, List.mem_singleton, hmalloced, false_or,
            mem_releasing hfreed] at h
          split at h
          · cases h
          · rename_i hn
            exact ⟨file, _, _, rfl, ⟨eh, hstat, heh, rfl, hmalloc, hn, rfl⟩,
              (mem_mapImage hunmapped).mp h⟩
        · cases h
      · rintro ⟨f, size, ph, rfl, ⟨eh, -, heh, rfl, hmalloc, hn, rfl⟩, h⟩
        refine ⟨eh, heh, ?_⟩
        rw [readTable, if_pos hmalloc]
        simp only [events_emit_bind, List.mem_append, List.mem_singleton, hmalloced, false_or,
          mem_releasing hfreed]
        rw [if_neg hn]
        exact (mem_mapImage hunmapped).mpr h
    · rw [if_neg hstat]
      constructor
      · intro h
        cases h
      · rintro ⟨f, size, ph, -, ⟨eh, h, -⟩, -⟩
        exact absurd h hstat

/-- **Where an event comes from**, after the mapping. -/
theorem mem_loadImage {p : Process} {sur : Surroundings} {file : Bytes} {want : List Name}
    {ph : List Phdr} {base : UInt32} {mem₀ : Window} {e : Event} :
    e ∈ (loadImage p sur file want ph base mem₀).events ↔
      e ∈ (readSegments sur file base ph mem₀).events ∨
        ∃ mem, (readSegments sur file base ph mem₀).result = .ok mem ∧
          (e ∈ (linkImage p sur ph base mem).events ∨
            ∃ r, (linkImage p sur ph base mem).result = .ok r ∧
              (e ∈ (runInitializers p r.1 r.2).events ∨
                ∃ lo, (runInitializers p r.1 r.2).result = .ok lo ∧
                  e ∈ (storeWanted p lo 0 want).events)) := by
  simp only [loadImage, mem_bind, events_pure, List.not_mem_nil, and_false, exists_false,
    or_false]

theorem HasTable.unique {sur : Surroundings} {file : Bytes} {size size' : ℕ} {ph ph' : List Phdr}
    (h : HasTable sur file size ph) (h' : HasTable sur file size' ph') :
    size = size' ∧ ph = ph' := by
  obtain ⟨eh, -, heh, rfl, -, -, rfl⟩ := h
  obtain ⟨eh', -, heh', rfl, -, -, rfl⟩ := h'
  rw [heh, Except.ok.injEq] at heh'
  subst heh'
  exact ⟨rfl, rfl⟩

theorem HasMapping.unique {p : Process} {ph : List Phdr}
    {start span base start' span' base' : UInt32} (h : HasMapping p ph start span base)
    (h' : HasMapping p ph start' span' base') :
    start = start' ∧ span = span' ∧ base = base' := by
  obtain ⟨-, rfl, hmap, rfl⟩ := h
  obtain ⟨-, rfl, hmap', rfl⟩ := h'
  rw [hmap, Option.some.injEq] at hmap'
  subst hmap'
  exact ⟨rfl, rfl, rfl⟩

/-! ### The events of each stage -/

theorem mem_readSegment {sur : Surroundings} {file : Bytes} {base : UInt32} {mem : Window}
    {q : Phdr × ℕ} {e : Event} :
    e ∈ (readSegment sur file base mem q).events ↔
      e ∈ touch segmentFields q ∨
        (∃ mem', (readSegment sur file base mem q).result = .ok mem') ∧ q.1.p_type = PT_LOAD ∧
          q.1.p_filesz ≠ 0 ∧
            e = .written (base + q.1.p_vaddr) (pread file q.1.p_filesz q.1.p_offset).2.length := by
  rw [readSegment, events_emit_bind, List.mem_append, result_bind, result_emit, ok_bind]
  refine or_congr Iff.rfl ?_
  split
  · rename_i hskip
    refine iff_of_false List.not_mem_nil ?_
    rintro ⟨-, hload, hsize, -⟩
    exact hskip.elim (absurd hload) (absurd · hsize)
  · rename_i hload
    rw [not_or, ne_eq, not_not] at hload
    dsimp only
    split
    · exact iff_of_false List.not_mem_nil (by rintro ⟨⟨_, ⟨⟩⟩, -⟩)
    · split
      · exact iff_of_false List.not_mem_nil (by rintro ⟨⟨_, ⟨⟩⟩, -⟩)
      · simp [hload.1, hload.2, ok_bind]

theorem mem_readSegments {sur : Surroundings} {file : Bytes} {base : UInt32} {ph : List Phdr}
    {mem : Window} {e : Event} :
    e ∈ (readSegments sur file base ph mem).events ↔
      ∃ l₁ q l₂ mem', ph.zipIdx = l₁ ++ q :: l₂ ∧
        l₁.foldlM (fun mem q => (readSegment sur file base mem q).result) mem = .ok mem' ∧
          e ∈ (readSegment sur file base mem' q).events :=
  mem_foldlM

theorem mem_applyRelocation {p : Process} {sur : Surroundings} {lo : Loaded} {r : UInt32}
    {e : Event} :
    e ∈ (applyRelocation p sur lo r).events ↔
      ∃ r_offset lo', lo.mem.read32 r = .ok r_offset ∧
        (applyRelocation p sur lo r).result = .ok lo' ∧ e = .written (lo.base + r_offset) 4 := by
  rw [applyRelocation, mem_lift_bind, result_bind, result_lift]
  cases lo.mem.read32 r with
  | error err => simp
  | ok r_offset =>
    simp only [ok_bind, Except.ok.injEq, exists_eq_left', mem_lift_bind, result_bind, result_lift]
    cases relocate p lo r with
    | error err => simp [error_bind]
    | ok lo' =>
      simp only [ok_bind, Except.ok.injEq, exists_eq_left']
      split
      · simp [ok_bind]
      · simp

theorem mem_linkImage {p : Process} {sur : Surroundings} {ph : List Phdr} {base : UInt32}
    {mem : Window} {e : Event} :
    e ∈ (linkImage p sur ph base mem).events ↔
      e ∈ touches dynamicFields ph ∨
        ∃ d lo, dynamicInfo base ph mem = .ok (d, lo) ∧
          (e ∈ (relocations p sur d lo).events ∨
            (∃ lo', (relocations p sur d lo).result = .ok lo') ∧ e ∈ touches protectFields ph) := by
  rw [linkImage, events_emit_bind, List.mem_append, mem_lift_bind, Prod.exists]
  refine or_congr Iff.rfl (exists_congr fun d => exists_congr fun lo => and_congr_right fun _ => ?_)
  rw [mem_bind]
  refine or_congr Iff.rfl ?_
  constructor
  · rintro ⟨lo', hlo', he⟩
    exact ⟨⟨lo', hlo'⟩, by simpa using he⟩
  · rintro ⟨⟨lo', hlo'⟩, he⟩
    exact ⟨lo', hlo', by simpa using he⟩

theorem mem_runInitializer {p : Process} {lo : Loaded} {fn : UInt32} {e : Event} :
    e ∈ (runInitializer p lo fn).events ↔
      ∃ f, lo.mem.read32 fn = .ok f ∧ f ≠ 0 ∧ f ≠ 0xffffffff ∧ e = .called f := by
  rw [runInitializer, mem_lift_bind]
  refine exists_congr fun f => and_congr_right fun _ => ?_
  split
  · rename_i h
    refine iff_of_false List.not_mem_nil ?_
    rintro ⟨h0, h1, -⟩
    exact h.elim h0 h1
  · rename_i h
    rw [not_or] at h
    simp [h.1, h.2]

theorem mem_storeWanted {p : Process} {lo : Loaded} {i : ℕ} {want : List Name} {e : Event} :
    e ∈ (storeWanted p lo i want).events ↔
      ∃ j s a, want[j]? = some s ∧ resolve p lo s = .ok a ∧ e = .stored (i + j) a ∧
        ∀ t ∈ want.take j, ∃ b, resolve p lo t = .ok b ∧ b ≠ 0 := by
  induction want generalizing i with
  | nil => simp [storeWanted]
  | cons s want ih =>
    rw [storeWanted, mem_lift_bind]
    constructor
    · rintro ⟨a, ha, he⟩
      rcases List.mem_append.mp he with he | he
      · exact ⟨0, s, a, rfl, ha, List.mem_singleton.mp he, by simp⟩
      · split at he
        · cases he
        · rename_i hne
          rw [mem_bind, ih] at he
          obtain ⟨j, t, b, ht, hb, rfl, hbefore⟩ | ⟨_, -, he⟩ := he
          · refine ⟨j + 1, t, b, ht, hb, by rw [Nat.add_assoc, Nat.add_comm 1], ?_⟩
            rw [List.take_succ_cons, List.forall_mem_cons]
            exact ⟨⟨a, ha, hne⟩, hbefore⟩
          · cases he
    · rintro ⟨j, t, b, ht, hb, rfl, hbefore⟩
      cases j with
      | zero =>
        cases ht
        exact ⟨b, hb, List.mem_append_left _ (List.mem_singleton_self _)⟩
      | succ j =>
        rw [List.take_succ_cons, List.forall_mem_cons] at hbefore
        obtain ⟨⟨a, ha, hne⟩, hbefore⟩ := hbefore
        refine ⟨a, ha, List.mem_append_right _ ?_⟩
        rw [if_neg hne, mem_bind, ih]
        exact .inl ⟨j, t, b, ht, hb, by rw [Nat.add_assoc, Nat.add_comm 1], hbefore⟩

theorem kind_of_mem_touches {fields : Phdr → List ℕ} {ph : List Phdr} {e : Event}
    (h : e ∈ touches fields ph) : ∃ offset size, e = .phdr offset size := by
  obtain ⟨i, q, -, offset, -, rfl⟩ := mem_touches.mp h
  exact ⟨_, _, rfl⟩

theorem kind_of_mem_readSegments {sur : Surroundings} {file : Bytes} {base : UInt32}
    {ph : List Phdr} {mem : Window} {e : Event}
    (h : e ∈ (readSegments sur file base ph mem).events) :
    (∃ offset size, e = .phdr offset size) ∨ ∃ a size, e = .written a size := by
  obtain ⟨l₁, q, l₂, mem', -, -, h⟩ := mem_readSegments.mp h
  rcases mem_readSegment.mp h with h | ⟨-, -, -, rfl⟩
  · obtain ⟨offset, -, rfl⟩ := List.mem_map.mp h
    exact .inl ⟨_, _, rfl⟩
  · exact .inr ⟨_, _, rfl⟩

theorem kind_of_mem_relocations {p : Process} {sur : Surroundings} {d : Dynamic} {lo : Loaded}
    {e : Event} (h : e ∈ (relocations p sur d lo).events) : ∃ a size, e = .written a size := by
  obtain ⟨l₁, r, l₂, lo', -, -, h⟩ := mem_foldlM.mp h
  obtain ⟨r_offset, lo'', -, -, rfl⟩ := mem_applyRelocation.mp h
  exact ⟨_, _, rfl⟩

theorem kind_of_mem_linkImage {p : Process} {sur : Surroundings} {ph : List Phdr} {base : UInt32}
    {mem : Window} {e : Event} (h : e ∈ (linkImage p sur ph base mem).events) :
    (∃ offset size, e = .phdr offset size) ∨ ∃ a size, e = .written a size := by
  obtain h | ⟨d, lo, -, h | ⟨-, h⟩⟩ := mem_linkImage.mp h
  · exact .inl (kind_of_mem_touches h)
  · exact .inr (kind_of_mem_relocations h)
  · exact .inl (kind_of_mem_touches h)

theorem kind_of_mem_runInitializers {p : Process} {d : Dynamic} {lo : Loaded} {e : Event}
    (h : e ∈ (runInitializers p d lo).events) : ∃ fn, e = .called fn := by
  obtain ⟨l₁, fn, l₂, lo', -, -, h⟩ := mem_foldlM.mp h
  obtain ⟨f, -, -, -, rfl⟩ := mem_runInitializer.mp h
  exact ⟨f, rfl⟩

theorem kind_of_mem_storeWanted {p : Process} {lo : Loaded} {i : ℕ} {want : List Name} {e : Event}
    (h : e ∈ (storeWanted p lo i want).events) : ∃ j a, e = .stored j a := by
  obtain ⟨j, s, a, -, -, rfl, -⟩ := mem_storeWanted.mp h
  exact ⟨_, _, rfl⟩

/-- What is read of the table and what is written, after the mapping. -/
theorem mem_loadImage_of_access {p : Process} {sur : Surroundings} {file : Bytes}
    {want : List Name} {ph : List Phdr} {base : UInt32} {mem₀ : Window} {e : Event}
    (hcalled : ∀ fn, e ≠ .called fn) (hstored : ∀ i a, e ≠ .stored i a) :
    e ∈ (loadImage p sur file want ph base mem₀).events ↔
      e ∈ (readSegments sur file base ph mem₀).events ∨
        ∃ mem, (readSegments sur file base ph mem₀).result = .ok mem ∧
          e ∈ (linkImage p sur ph base mem).events := by
  rw [mem_loadImage]
  refine or_congr Iff.rfl (exists_congr fun mem => and_congr_right fun _ => or_iff_left ?_)
  rintro ⟨r, -, h | ⟨lo, -, h⟩⟩
  · obtain ⟨fn, rfl⟩ := kind_of_mem_runInitializers h
    exact hcalled fn rfl
  · obtain ⟨i, a, rfl⟩ := kind_of_mem_storeWanted h
    exact hstored i a rfl

/-- Nothing is taken or given back after the mapping. -/
theorem kind_of_mem_loadImage {p : Process} {sur : Surroundings} {file : Bytes}
    {want : List Name} {ph : List Phdr} {base : UInt32} {mem₀ : Window} {e : Event}
    (h : e ∈ (loadImage p sur file want ph base mem₀).events) :
    ((∃ offset size, e = .phdr offset size) ∨ ∃ a size, e = .written a size) ∨
      (∃ fn, e = .called fn) ∨ ∃ i a, e = .stored i a := by
  obtain h | ⟨mem, -, h | ⟨r, -, h | ⟨lo, -, h⟩⟩⟩ := mem_loadImage.mp h
  · exact .inl (kind_of_mem_readSegments h)
  · exact .inl (kind_of_mem_linkImage h)
  · exact .inr (.inl (kind_of_mem_runInitializers h))
  · exact .inr (.inr (kind_of_mem_storeWanted h))

/-- **The mapping** is the one event of its kind. -/
theorem mapped_mem {p : Process} {sur : Surroundings} {file : Option Bytes} {want : List Name}
    {start span : UInt32} :
    .mapped start span ∈ (elfloadOpen p sur file want).events ↔
      ∃ f size ph base, file = some f ∧ HasTable sur f size ph ∧
        HasMapping p ph start span base := by
  rw [mem_elfloadOpen (show Event.Inner (.mapped start span) from trivial)]
  constructor
  · rintro ⟨f, size, ph, hf, htable, h | ⟨start', span', base, hmap, h | h⟩⟩
    · obtain ⟨_, _, h⟩ := kind_of_mem_touches h
      cases h
    · cases h
      exact ⟨f, size, ph, base, hf, htable, hmap⟩
    · obtain (⟨_, _, h⟩ | ⟨_, _, h⟩) | ⟨_, h⟩ | ⟨_, _, h⟩ := kind_of_mem_loadImage h <;> cases h
  · rintro ⟨f, size, ph, base, hf, htable, hmap⟩
    exact ⟨f, size, ph, hf, htable, .inr ⟨start, span, base, hmap, .inl rfl⟩⟩

/-- **The block** is the one event of its kind. -/
theorem malloced_mem {p : Process} {sur : Surroundings} {file : Bytes} {want : List Name}
    {n size : ℕ} {ph : List Phdr} (htable : HasTable sur file size ph) :
    .malloced n ∈ (elfloadOpen p sur (some file) want).events ↔ n = size := by
  obtain ⟨eh, hstat, heh, rfl, hmalloc, hn, rfl⟩ := htable
  set size := (eh.e_phnum * eh.e_phentsize).toNat
  rw [elfloadOpen, events_emit_bind, List.mem_append, mem_releasing (by rintro ⟨⟩), if_pos hstat,
    mem_lift_bind]
  simp only [heh, Except.ok.injEq, exists_eq_left', List.mem_singleton, reduceCtorEq, false_or]
  rw [readTable, if_pos hmalloc, events_emit_bind, List.mem_append,
    mem_releasing (by rintro ⟨⟩)]
  dsimp only
  rw [if_neg hn, List.mem_singleton, Event.malloced.injEq, or_iff_left]
  intro h
  obtain h | ⟨start, span, base, -, h | h⟩ := (mem_mapImage (by rintro _ _ ⟨⟩)).mp h
  · obtain ⟨_, _, h⟩ := kind_of_mem_touches h
    cases h
  · cases h
  · obtain (⟨_, _, h⟩ | ⟨_, _, h⟩) | ⟨_, h⟩ | ⟨_, _, h⟩ := kind_of_mem_loadImage h <;> cases h

/-! ### The result -/

/-- `elfload_open` returns null. -/
def ReturnsNull (r : Call (Loaded × List UInt32)) : Prop :=
  r = .error .failed ∨ ∃ lo out, r = .ok (lo, out) ∧ lo.base = 0

/-- The result comes from what follows the mapping, if there is one. -/
theorem result_elfloadOpen {p : Process} {sur : Surroundings} {file : Bytes} {want : List Name}
    {size : ℕ} {ph : List Phdr} {start span base : UInt32} (htable : HasTable sur file size ph)
    (hmap : HasMapping p ph start span base) :
    (elfloadOpen p sur (some file) want).result =
      (loadImage p sur file want ph base (sur.memory start span)).result := by
  obtain ⟨eh, hstat, heh, rfl, hmalloc, hn, rfl⟩ := htable
  obtain ⟨hlo, rfl, hstart, rfl⟩ := hmap
  rw [elfloadOpen, result_bind, result_emit, ok_bind, result_releasing, if_pos hstat, result_bind,
    result_lift, heh, ok_bind, readTable, if_pos hmalloc, result_bind, result_emit, ok_bind,
    result_releasing]
  dsimp only
  rw [if_neg hn, mapImage, result_bind, result_emit, ok_bind]
  dsimp only
  rw [if_neg hlo, hstart]
  simp only [result_bind, result_emit, ok_bind, result_undoing]

/-- When there is a result, the table has been read, and there is a mapping. -/
theorem hasMapping_of_ok {p : Process} {sur : Surroundings} {file : Bytes} {want : List Name}
    {r : Loaded × List UInt32} (h : (elfloadOpen p sur (some file) want).result = .ok r) :
    ∃ size ph start span base, HasTable sur file size ph ∧ HasMapping p ph start span base := by
  rw [elfloadOpen, result_bind, result_emit, ok_bind, result_releasing] at h
  by_cases hstat : sur.fstat = true
  · rw [if_pos hstat, result_bind, result_lift] at h
    obtain ⟨eh, heh, h⟩ := bind_eq_ok.mp h
    rw [readTable] at h
    by_cases hmalloc : sur.malloc (eh.e_phnum * eh.e_phentsize).toNat = true
    · simp only [if_pos hmalloc, result_bind, result_emit, ok_bind, result_releasing] at h
      by_cases hn : (pread file (eh.e_phnum * eh.e_phentsize) eh.e_phoff).1 < 0
      · simp only [if_pos hn] at h
        cases h
      · simp only [if_neg hn, mapImage, result_bind, result_emit, ok_bind] at h
        set ph := phdrTable sur (pread file (eh.e_phnum * eh.e_phentsize) eh.e_phoff).2
          eh.e_phnum.toNat with hph
        by_cases hlo : (extent ph).1 = 0xffffffff
        · rw [if_pos hlo] at h
          cases h
        · rw [if_neg hlo] at h
          cases hmap : p.mmap (PAGE_UP (extent ph).2 - PAGE_DOWN (extent ph).1) with
          | none =>
            rw [hmap] at h
            cases h
          | some start =>
            exact ⟨_, ph, start, _, _, ⟨eh, hstat, heh, rfl, hmalloc, hn, hph⟩,
              ⟨hlo, rfl, hmap, rfl⟩⟩
    · simp only [if_neg hmalloc] at h
      cases h
  · rw [if_neg hstat] at h
    cases h

/-! ### The loader without its events -/

/-- Surroundings in which nothing is known but the mapping. -/
def plain : Surroundings where
  fstat := true
  malloc _ := true
  heap _ := 0
  memory start span := ⟨start, span, fun _ => 0, fun _ => true⟩
  writable _ := true

theorem plain_canWrite (a : UInt32) (size : ℕ) : plain.canWrite a size = true :=
  List.all_eq_true.mpr fun _ _ => rfl

theorem tableField_eq {sur : Surroundings} {table : Bytes} {i offset : ℕ}
    (hread : 32 * i + 32 ≤ table.length) (ho : offset + 4 ≤ 32) :
    tableField sur table i offset = field (slice table (32 * i) (32 * i + 32)) offset 4 := by
  rw [tableField, field]
  congr 2
  refine List.ext_getElem? fun k => ?_
  rw [getElem?_slice, getElem?_slice, List.getElem?_map]
  by_cases hk : k < 4
  · have hin : 32 * i + (offset + k) < table.length := by omega
    rw [List.getElem?_range hk, if_pos (by omega), if_pos (by omega), Option.map_some, tableByte,
      Nat.add_assoc, List.getElem?_eq_getElem hin, Option.getD_some]
  · rw [if_neg (by omega), List.getElem?_eq_none (by simpa using hk), Option.map_none]

/-- An entry of the table that has been read as a whole. -/
theorem phdrAt_eq {sur : Surroundings} {table : Bytes} {i : ℕ} {q : Phdr}
    (h : readPhdr table i = .ok q) : phdrAt sur table i = q := by
  rw [readPhdr] at h
  split at h
  · cases h
  · rename_i hlen
    have hread : 32 * i + 32 ≤ table.length := by
      rw [ne_eq, not_not, length_slice] at hlen
      omega
    cases h
    rw [phdrAt, tableField_eq hread (by decide), tableField_eq hread (by decide),
      tableField_eq hread (by decide), tableField_eq hread (by decide),
      tableField_eq hread (by decide), tableField_eq hread (by decide)]

theorem phdrTable_eq {sur : Surroundings} {table : Bytes} {n : ℕ} {ph : List Phdr}
    (h : (List.range n).mapM (readPhdr table) = .ok ph) : phdrTable sur table n = ph := by
  have hall := mapM_eq_ok.mp h
  rw [phdrTable, ← List.forall₂_eq_eq_eq, List.forall₂_map_left_iff]
  exact hall.imp fun _ _ => phdrAt_eq

theorem covers_readSegment (file : Bytes) (base : UInt32) (mem : Window) (q : Phdr × ℕ) :
    Covers .undefined (readSegment plain file base mem q).result
      (Camera.readSegment file base mem q.1) := by
  rw [readSegment, Camera.readSegment, result_bind]
  split
  · exact Covers.of_eq rfl
  · simp only [plain_canWrite, or_false, Bool.true_eq_false]
    split
    · exact Covers.of_eq rfl
    · cases hw : mem.write (base + q.1.p_vaddr) (pread file q.1.p_filesz q.1.p_offset).2 with
      | ok mem' => exact Covers.of_eq rfl
      | error e =>
        rw [Window.write] at hw
        split at hw
        · cases hw
        · cases hw
          exact fun h => absurd rfl h

theorem covers_readSegments (file : Bytes) (base : UInt32) (ph : List Phdr) (mem : Window) :
    Covers .undefined (readSegments plain file base ph mem).result
      (ph.foldlM (Camera.readSegment file base) mem) := by
  have hzip : ph.foldlM (Camera.readSegment file base) mem =
      ph.zipIdx.foldlM (fun mem q => Camera.readSegment file base mem q.1) mem := by
    conv_lhs => rw [← List.zipIdx_map_fst 0 ph, List.foldlM_map]
  rw [hzip, readSegments, result_foldlM]
  exact Covers.foldlM fun mem q _ => covers_readSegment file base mem q

theorem result_applyRelocation (p : Process) (lo : Loaded) (r : UInt32) :
    (applyRelocation p plain lo r).result = relocate p lo r := by
  simp only [applyRelocation, result_bind, result_lift, plain_canWrite, ↓reduceIte, result_emit,
    result_pure]
  rw [relocate]
  cases lo.mem.read32 r with
  | error e => rfl
  | ok r_offset =>
    rw [ok_bind, ok_bind]
    exact bind_pure (m := Except Stop) _

/-- A pass over a table goes through its entries. -/
theorem relocatePass_eq (p : Process) (r size : UInt32) (lo : Loaded) :
    relocatePass p r size lo = (relEntries r size).foldlM (relocate p) lo := by
  rw [relEntries, relocatePass]
  split
  · rfl
  · rw [List.foldlM_map]

theorem result_relocations (p : Process) (d : Dynamic) (lo : Loaded) :
    (relocations p plain d lo).result =
      relocatePass p d.rel d.relsz lo >>= relocatePass p d.jmprel d.jmprelsz := by
  simp only [relocations, result_foldlM, result_applyRelocation, List.foldlM_append,
    ← relocatePass_eq]

theorem result_runInitializer (p : Process) (lo : Loaded) (fn : UInt32) :
    (runInitializer p lo fn).result = initializer p lo fn := by
  rw [runInitializer, result_bind, result_lift]
  cases hf : lo.mem.read32 fn with
  | error e =>
    rw [initializer, hf]
    rfl
  | ok f =>
    rw [ok_bind]
    split
    · rename_i hnone
      rw [initializer, hf, ok_bind, if_pos hnone]
      rfl
    · rw [result_bind, result_emit, ok_bind, result_lift]

/-- Initializers do not move the library. -/
theorem base_initializer {p : Process} {lo lo' : Loaded} {fn : UInt32}
    (h : initializer p lo fn = .ok lo') : lo'.base = lo.base := by
  obtain ⟨f, -, h⟩ := bind_eq_ok.mp h
  split at h
  · cases h
    rfl
  · cases hcall : p.call f lo.mem with
    | none =>
      rw [hcall] at h
      cases h
    | some mem =>
      rw [hcall] at h
      cases h
      rfl

theorem result_runInitializers (p : Process) (d : Dynamic) (lo : Loaded) :
    (runInitializers p d lo).result = initializers p d.init_array d.init_arraysz lo := by
  simp only [runInitializers, result_foldlM, result_runInitializer, initEntries, initializers]
  split
  · rfl
  · rw [List.foldlM_map]
    generalize List.range (d.init_arraysz / 4).toNat = ks
    suffices h : ∀ base lo, lo.base = base →
        ks.foldlM (fun lo k => initializer p lo (base + d.init_array + 4 * .ofNat k)) lo =
          ks.foldlM (fun lo k => initializer p lo (lo.base + d.init_array + 4 * .ofNat k)) lo from
      h lo.base lo rfl
    induction ks with
    | nil => exact fun _ _ _ => rfl
    | cons k ks ih =>
      rintro base lo rfl
      rw [List.foldlM_cons, List.foldlM_cons]
      cases hone : initializer p lo (lo.base + d.init_array + 4 * .ofNat k) with
      | error e => rfl
      | ok lo' => exact ih lo.base lo' (base_initializer hone)

theorem result_storeWanted (p : Process) (lo : Loaded) (i : ℕ) (want : List Name) :
    (storeWanted p lo i want).result = resolveWanted p lo want := by
  rw [resolveWanted]
  induction want generalizing i with
  | nil => rfl
  | cons s want ih =>
    rw [storeWanted, List.mapM_cons, result_bind, result_lift]
    cases resolve p lo s with
    | error e => rfl
    | ok a =>
      rw [ok_bind, ok_bind, result_bind, result_emit, ok_bind]
      split
      · rfl
      · rw [result_bind, ih (i + 1)]
        rfl

theorem link_eq (p : Process) (base : UInt32) (ph : List Phdr) (mem : Window) :
    link p base ph mem = (do
      let r ← dynamicInfo base ph mem
      let lo ← relocatePass p r.1.rel r.1.relsz r.2
      let lo ← relocatePass p r.1.jmprel r.1.jmprelsz lo
      initializers p r.1.init_array r.1.init_arraysz (ph.foldl (protect p) lo)) := by
  rw [link, dynamicInfo]
  by_cases hdyn : dynamicAddr base ph = 0
  · rw [if_pos hdyn, if_pos hdyn]
    rfl
  · rw [if_neg hdyn, if_neg hdyn]
    cases dynamicEntries mem (dynamicAddr base ph) with
    | error e => rfl
    | ok entries =>
      rw [ok_bind, ok_bind]
      dsimp only
      generalize entries.foldl (Dynamic.entry base) ⟨0, 0, 0, 0, 0, 0, 0, 0, 0⟩ = d
      by_cases hnull : d.symtab = 0 ∨ d.strtab = 0 ∨ d.hash = 0
      · rw [if_pos hnull, if_pos hnull]
        rfl
      · rw [if_neg hnull, if_neg hnull]
        cases mem.read32 (d.hash + 4) with
        | error e => rfl
        | ok nsyms => rfl

theorem result_loadImage (p : Process) (file : Bytes) (want : List Name) (ph : List Phdr)
    (base : UInt32) (mem₀ : Window) :
    (loadImage p plain file want ph base mem₀).result = (do
      let mem ← (readSegments plain file base ph mem₀).result
      let lo ← link p base ph mem
      let out ← resolveWanted p lo want
      return (lo, out)) := by
  simp only [loadImage, linkImage, result_bind, result_emit, result_lift, result_pure,
    result_relocations, result_runInitializers, result_storeWanted, link_eq]
  refine bind_congr (m := Call) fun mem => ?_
  cases dynamicInfo base ph mem with
  | error e => rfl
  | ok r =>
    simp only [ok_bind]
    cases relocatePass p r.1.rel r.1.relsz r.2 with
    | error e => rfl
    | ok lo =>
      simp only [ok_bind]
      cases relocatePass p r.1.jmprel r.1.jmprelsz lo with
      | error e => rfl
      | ok lo' => rfl

/-- The loader without its events, stage by stage. -/
theorem elfloadOpen_eq (p : Process) (file : Bytes) (want : List Name) :
    Camera.elfloadOpen p (some file) want = (do
      let eh ← readEhdr file
      let ph ← readPhdrs file eh
      if (extent ph).1 = 0xffffffff then throw .failed
      else
        match p.mmap (PAGE_UP (extent ph).2 - PAGE_DOWN (extent ph).1) with
        | none => throw .failed
        | some start =>
          let mem ← ph.foldlM (Camera.readSegment file (start - PAGE_DOWN (extent ph).1))
            (plain.memory start (PAGE_UP (extent ph).2 - PAGE_DOWN (extent ph).1))
          let lo ← link p (start - PAGE_DOWN (extent ph).1) ph mem
          let out ← resolveWanted p lo want
          return (lo, out)) := by
  rw [Camera.elfloadOpen, load]
  cases readEhdr file with
  | error e => rfl
  | ok eh =>
    rw [ok_bind, ok_bind]
    cases readPhdrs file eh with
    | error e => rfl
    | ok ph =>
      rw [ok_bind, ok_bind]
      rcases extent ph with ⟨lo_v, hi_v⟩
      by_cases hlo : lo_v = 0xffffffff
      · simp only [if_pos hlo]
        rfl
      · simp only [if_neg hlo]
        cases p.mmap (PAGE_UP hi_v - PAGE_DOWN lo_v) with
        | none => rfl
        | some start => exact bind_assoc (m := Call) _ _ _

/-- **The loader without its events** is the loader, where that has a meaning. -/
theorem covers_elfloadOpen (p : Process) (file : Option Bytes) (want : List Name) :
    Covers .undefined (elfloadOpen p plain file want).result
      (Camera.elfloadOpen p file want) := by
  cases file with
  | none => exact Covers.of_eq rfl
  | some file =>
    rw [elfloadOpen_eq, elfloadOpen, result_bind, result_emit, ok_bind, result_releasing,
      if_pos (by rfl), result_bind, result_lift]
    refine Covers.bind (.of_eq rfl) fun eh _ => ?_
    rw [readTable, readPhdrs, if_pos (by rfl), result_bind, result_emit, ok_bind,
      result_releasing]
    generalize pread file (eh.e_phnum * eh.e_phentsize) eh.e_phoff = r
    by_cases hn : r.1 < 0
    · simp only [if_pos hn]
      exact Covers.of_eq rfl
    · simp only [if_neg hn]
      cases hph : (List.range eh.e_phnum.toNat).mapM (readPhdr r.2) with
      | error e =>
        obtain ⟨i, -, hi⟩ := exists_of_mapM_eq_error hph
        rw [readPhdr] at hi
        split at hi
        · cases hi
          exact fun h => absurd rfl h
        · cases hi
      | ok ph =>
        rw [phdrTable_eq hph, ok_bind, mapImage, result_bind, result_emit, ok_bind]
        rcases extent ph with ⟨lo_v, hi_v⟩
        by_cases hlo : lo_v = 0xffffffff
        · simp only [if_pos hlo]
          exact Covers.of_eq rfl
        · simp only [if_neg hlo]
          cases p.mmap (PAGE_UP hi_v - PAGE_DOWN lo_v) with
          | none => exact Covers.of_eq rfl
          | some start =>
            simp only [result_bind, result_emit, ok_bind, result_undoing, result_loadImage]
            exact Covers.bind (covers_readSegments _ _ _ _) fun mem _ => .of_eq rfl

end Loader

end Camera

end A1000

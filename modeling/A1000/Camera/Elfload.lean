import A1000.Lib.Fallible
import A1000.Lib.Window

/-!
# The ELF loader of the camera libraries

The system's linker refuses the stock camera libraries, so a small loader maps them itself:
`elfload_open` reads the segments, applies the relocations, runs the initializers and looks up the
symbols that its caller wants. One function resolves a name for the relocations and for the caller:
first in the library, then in the whole process, then among three stubs of the old exception ABI.

`libface_finder` is loaded in this way by a library that exports the very functions it wants.

## Main definitions

* `Camera.elfloadOpen` — the loader
* `Camera.resolve` — the resolution of a name
* `Camera.Own` — an address of the loaded library
* `Camera.loadReal` — the constructor of the library that forwards to `libface_finder`

## Main results

* `Camera.dynamicEntries_eq`, `Camera.span_le` — the walk through `PT_DYNAMIC` ends in the mapping
* `Camera.lookup_eq_some`, `Camera.lookup_eq_none` — what the search of the symbol table finds
* `Camera.onlyOwn_iff` — when the loader hands out addresses of the library only
* `Camera.target_of_missing`, `Camera.target_ne_self` — when a forwarder calls itself
-/

namespace A1000

namespace Camera

open Bytes Fallible

/-! ### The process -/

/-- A name, without the byte that ends it. -/
abbrev Name := Bytes

/-- The bytes of a string literal. -/
def name (s : String) : Name := s.toUTF8.data.toList

/-- What surrounds the loader: where `mmap` puts a mapping, which calls of `mprotect` succeed, what
`dlsym(RTLD_DEFAULT, …)` finds (null when it finds nothing), the addresses of the three stubs, and
what a function of the library does to its memory when it returns. -/
structure Process where
  mmap : UInt32 → Option UInt32
  mprotect : UInt32 → UInt32 → UInt32 → Bool
  dlsym : Name → UInt32
  a1000_cxa_type_match : UInt32
  a1000_cxa_begin_cleanup : UInt32
  a1000_cxa_call_unexpected : UInt32
  call : UInt32 → Window → Option Window

/-! ### The file -/

def PT_LOAD : UInt32 := 1
def PT_DYNAMIC : UInt32 := 2

def PF_X : UInt32 := 1
def PF_W : UInt32 := 2
def PF_R : UInt32 := 4

def PROT_READ : UInt32 := 1
def PROT_WRITE : UInt32 := 2
def PROT_EXEC : UInt32 := 4

def DT_NULL : UInt32 := 0
def DT_PLTRELSZ : UInt32 := 2
def DT_HASH : UInt32 := 4
def DT_STRTAB : UInt32 := 5
def DT_SYMTAB : UInt32 := 6
def DT_REL : UInt32 := 17
def DT_RELSZ : UInt32 := 18
def DT_JMPREL : UInt32 := 23
def DT_INIT_ARRAY : UInt32 := 25
def DT_INIT_ARRAYSZ : UInt32 := 27

def R_ARM_ABS32 : UInt32 := 2
def R_ARM_GLOB_DAT : UInt32 := 21
def R_ARM_JUMP_SLOT : UInt32 := 22
def R_ARM_RELATIVE : UInt32 := 23

def SHN_UNDEF : ℕ := 0

def PAGE_DOWN (x : UInt32) : UInt32 := x &&& ~~~(4096 - 1)

def PAGE_UP (x : UInt32) : UInt32 := (x + 4096 - 1) &&& ~~~(4096 - 1)

/-- A field of a structure in the file. -/
def field (d : Bytes) (a n : ℕ) : UInt32 := .ofNat (u32 (slice d a (a + n)))

/-- What the loader uses of `Elf32_Ehdr`. -/
structure Ehdr where
  e_phoff : UInt32
  e_phentsize : UInt32
  e_phnum : UInt32
  deriving DecidableEq, Repr

/-- What the loader uses of `Elf32_Phdr`. -/
structure Phdr where
  p_type : UInt32
  p_offset : UInt32
  p_vaddr : UInt32
  p_filesz : UInt32
  p_memsz : UInt32
  p_flags : UInt32
  deriving DecidableEq, Repr

/-- A size as `ssize_t`. -/
def ssize (n : UInt32) : ℤ := if n < 0x80000000 then n.toNat else n.toNat - 2 ^ 32

/-- `pread`: what it returns, and what it has read. A count or an offset that is negative as a
signed number is an error. -/
def pread (file : Bytes) (count offset : UInt32) : ℤ × Bytes :=
  if count < 0x80000000 ∧ offset < 0x80000000 then
    let d := (file.drop offset.toNat).take count.toNat
    (d.length, d)
  else (-1, [])

/-- The header: a 32-bit ELF file. -/
def readEhdr (file : Bytes) : Call Ehdr :=
  let eh := file.take 52
  if eh.length ≠ 52 then .error .failed
  else if slice eh 0 4 ≠ [0x7f, 0x45, 0x4c, 0x46] ∨ slice eh 4 5 ≠ [1] then .error .failed
  else .ok ⟨field eh 28 4, field eh 42 2, field eh 44 2⟩

/-- An entry of the table of segments. What has not been read of it is undefined. -/
def readPhdr (table : Bytes) (i : ℕ) : Call Phdr :=
  let ph := slice table (32 * i) (32 * i + 32)
  if ph.length ≠ 32 then .error .undefined
  else .ok ⟨field ph 0 4, field ph 4 4, field ph 8 4, field ph 16 4, field ph 20 4, field ph 24 4⟩

/-- The table of segments. -/
def readPhdrs (file : Bytes) (eh : Ehdr) : Call (List Phdr) :=
  let (n, table) := pread file (eh.e_phnum * eh.e_phentsize) eh.e_phoff
  if n < 0 then .error .failed
  else (List.range eh.e_phnum.toNat).mapM (readPhdr table)

/-! ### The image -/

/-- The extent of the segments in the address space: `lo_v` and `hi_v`. -/
def extent (ph : List Phdr) : UInt32 × UInt32 :=
  ph.foldl (fun (lo_v, hi_v) p =>
    if p.p_type ≠ PT_LOAD then (lo_v, hi_v)
    else (if p.p_vaddr < lo_v then p.p_vaddr else lo_v,
      if p.p_vaddr + p.p_memsz > hi_v then p.p_vaddr + p.p_memsz else hi_v)) (0xffffffff, 0)

/-- Read a segment into the mapping. -/
def readSegment (file : Bytes) (base : UInt32) (mem : Window) (ph : Phdr) : Call Window := do
  if ph.p_type ≠ PT_LOAD ∨ ph.p_filesz = 0 then return mem
  let (n, d) := pread file ph.p_filesz ph.p_offset
  if n ≠ ssize ph.p_filesz then throw .failed
  mem.write (base + ph.p_vaddr) d

/-- What the table of `PT_DYNAMIC` says; an address is null when it says nothing. -/
structure Dynamic where
  symtab : UInt32
  strtab : UInt32
  hash : UInt32
  rel : UInt32
  relsz : UInt32
  jmprel : UInt32
  jmprelsz : UInt32
  init_array : UInt32
  init_arraysz : UInt32
  deriving DecidableEq, Repr

/-- The address of the table of `PT_DYNAMIC`, or null. -/
def dynamicAddr (base : UInt32) (ph : List Phdr) : UInt32 :=
  ph.foldl (fun dyn p => if p.p_type = PT_DYNAMIC then base + p.p_vaddr else dyn) 0

/-- The entries of the table before `DT_NULL`. -/
def dynamicEntries (mem : Window) (dyn : UInt32) : Call (List (UInt32 × UInt32)) :=
  mem.scan (fun a => do
    let d_tag ← mem.read32 a
    if d_tag = DT_NULL then return none
    else
      let d_un ← mem.read32 (a + 4)
      return some (d_tag, d_un)) 8 dyn

/-- One entry of the table. -/
def Dynamic.entry (base : UInt32) (d : Dynamic) : UInt32 × UInt32 → Dynamic
  | (d_tag, d_un) =>
    if d_tag = DT_SYMTAB then { d with symtab := base + d_un }
    else if d_tag = DT_STRTAB then { d with strtab := base + d_un }
    else if d_tag = DT_HASH then { d with hash := base + d_un }
    else if d_tag = DT_REL then { d with rel := base + d_un }
    else if d_tag = DT_RELSZ then { d with relsz := d_un }
    else if d_tag = DT_JMPREL then { d with jmprel := base + d_un }
    else if d_tag = DT_PLTRELSZ then { d with jmprelsz := d_un }
    else if d_tag = DT_INIT_ARRAY then { d with init_array := d_un }
    else if d_tag = DT_INIT_ARRAYSZ then { d with init_arraysz := d_un }
    else d

/-- `struct loaded`, with the mapping. -/
structure Loaded where
  base : UInt32
  symtab : UInt32
  strtab : UInt32
  nsyms : UInt32
  mem : Window

namespace Loaded

/-- The address of a symbol of the table. -/
def symbol (lo : Loaded) (i : ℕ) : UInt32 := lo.symtab + 16 * .ofNat i

def st_name (lo : Loaded) (i : ℕ) : Call UInt32 := lo.mem.read32 (lo.symbol i)

def st_value (lo : Loaded) (i : ℕ) : Call UInt32 := lo.mem.read32 (lo.symbol i + 4)

def st_shndx (lo : Loaded) (i : ℕ) : Call ℕ := lo.mem.read16 (lo.symbol i + 14)

/-- Whether a symbol is named so. -/
def named (lo : Loaded) (i : ℕ) (name : Name) : Call Bool := do
  lo.mem.strcmp (lo.strtab + (← lo.st_name i)) name

/-- The loop of `resolve`: the first symbol of the library, from number `i` on, that is defined and
named so. -/
def lookupFrom (lo : Loaded) (name : Name) : ℕ → ℕ → Call (Option UInt32)
  | 0, _ => return none
  | n + 1, i => do
    if (← lo.st_shndx i) = SHN_UNDEF then lo.lookupFrom name n (i + 1)
    else
      let value ← lo.st_value i
      if value = 0 then lo.lookupFrom name n (i + 1)
      else if ← lo.named i name then return some (lo.base + value)
      else lo.lookupFrom name n (i + 1)

/-- The search of the symbol table. -/
def lookup (lo : Loaded) (name : Name) : Call (Option UInt32) :=
  lo.lookupFrom name lo.nsyms.toNat 0

end Loaded

/-! ### Resolving names -/

/-- The stubs of the old exception ABI. -/
def legacyAbi (p : Process) (s : Name) : UInt32 :=
  if s = name "__cxa_type_match" then p.a1000_cxa_type_match
  else if s = name "__cxa_begin_cleanup" then p.a1000_cxa_begin_cleanup
  else if s = name "__cxa_call_unexpected" then p.a1000_cxa_call_unexpected
  else 0

/-- What a name means outside of the library. -/
def outside (p : Process) (s : Name) : UInt32 :=
  if p.dlsym s ≠ 0 then p.dlsym s else legacyAbi p s

/-- `resolve`; null when there is no such symbol. -/
def resolve (p : Process) (lo : Loaded) (s : Name) : Call UInt32 := do
  match ← lo.lookup s with
  | some a => return a
  | none => return outside p s

/-! ### Loading -/

/-- One relocation, whose entry is at the address `r`. -/
def relocate (p : Process) (lo : Loaded) (r : UInt32) : Call Loaded := do
  let r_offset ← lo.mem.read32 r
  let r_info ← lo.mem.read32 (r + 4)
  let type := r_info &&& 0xff
  let si := r_info >>> 8
  let slot := lo.base + r_offset
  if type = R_ARM_RELATIVE then
    let mem ← lo.mem.write32 slot ((← lo.mem.read32 slot) + lo.base)
    return { lo with mem := mem }
  else if type = R_ARM_GLOB_DAT ∨ type = R_ARM_JUMP_SLOT ∨ type = R_ARM_ABS32 then
    let val ← resolve p lo (← lo.mem.cstr (lo.strtab + (← lo.st_name si.toNat)))
    if val = 0 then throw .failed
    if type = R_ARM_ABS32 then
      let mem ← lo.mem.write32 slot ((← lo.mem.read32 slot) + val)
      return { lo with mem := mem }
    else
      let mem ← lo.mem.write32 slot val
      return { lo with mem := mem }
  else throw .failed

/-- One pass over a table of relocations. -/
def relocatePass (p : Process) (r size : UInt32) (lo : Loaded) : Call Loaded :=
  if r = 0 then .ok lo
  else (List.range (size / 8).toNat).foldlM (fun lo k => relocate p lo (r + 8 * .ofNat k)) lo

/-- The protection of a segment. What has no permission at all cannot be read. -/
def protect (p : Process) (lo : Loaded) (ph : Phdr) : Loaded :=
  if ph.p_type ≠ PT_LOAD then lo
  else
    let start := lo.base + PAGE_DOWN ph.p_vaddr
    let stop := lo.base + PAGE_UP (ph.p_vaddr + ph.p_memsz)
    let prot := (if ph.p_flags &&& PF_R ≠ 0 then PROT_READ else 0) |||
      (if ph.p_flags &&& PF_W ≠ 0 then PROT_WRITE else 0) |||
      (if ph.p_flags &&& PF_X ≠ 0 then PROT_EXEC else 0)
    if p.mprotect start (stop - start) prot then
      let readable := fun a => if a - start < stop - start then prot ≠ 0 else lo.mem.readable a
      { lo with mem := { lo.mem with readable := readable } }
    else lo

/-- One initializer. -/
def initializer (p : Process) (lo : Loaded) (fn : UInt32) : Call Loaded := do
  let f ← lo.mem.read32 fn
  if f = 0 ∨ f = 0xffffffff then return lo
  match p.call f lo.mem with
  | none => throw .undefined
  | some mem => return { lo with mem := mem }

/-- The initializers. -/
def initializers (p : Process) (init_array init_arraysz : UInt32) (lo : Loaded) : Call Loaded :=
  if init_array = 0 ∨ init_arraysz = 0 then .ok lo
  else
    (List.range (init_arraysz / 4).toNat).foldlM
      (fun lo k => initializer p lo (lo.base + init_array + 4 * .ofNat k)) lo

/-- `elfload_open` from the mapping of the segments to the initializers. -/
def link (p : Process) (base : UInt32) (ph : List Phdr) (mem : Window) : Call Loaded := do
  let dyn := dynamicAddr base ph
  if dyn = 0 then throw .failed
  let entries ← dynamicEntries mem dyn
  let d := entries.foldl (Dynamic.entry base) ⟨0, 0, 0, 0, 0, 0, 0, 0, 0⟩
  if d.symtab = 0 ∨ d.strtab = 0 ∨ d.hash = 0 then throw .failed
  let nsyms ← mem.read32 (d.hash + 4)
  let lo ← relocatePass p d.rel d.relsz ⟨base, d.symtab, d.strtab, nsyms, mem⟩
  let lo ← relocatePass p d.jmprel d.jmprelsz lo
  initializers p d.init_array d.init_arraysz (ph.foldl (protect p) lo)

/-- `elfload_open` up to the symbols that are wanted. -/
def load (p : Process) (file : Bytes) : Call Loaded := do
  let eh ← readEhdr file
  let ph ← readPhdrs file eh
  let (lo_v, hi_v) := extent ph
  if lo_v = 0xffffffff then throw .failed
  let span := PAGE_UP hi_v - PAGE_DOWN lo_v
  match p.mmap span with
  | none => throw .failed
  | some start =>
    let base := start - PAGE_DOWN lo_v
    let mem ← ph.foldlM (readSegment file base) ⟨start, span, fun _ => 0, fun _ => true⟩
    link p base ph mem

/-- The symbols that are wanted: `out`. -/
def resolveWanted (p : Process) (lo : Loaded) (want : List Name) : Call (List UInt32) :=
  want.mapM fun s => do
    let a ← resolve p lo s
    if a = 0 then throw .failed
    return a

/-- `elfload_open`, which returns `lo.base`: the library as it is then, and `out`. There is no file
when it could not be opened. -/
def elfloadOpen (p : Process) (file : Option Bytes) (want : List Name) :
    Call (Loaded × List UInt32) :=
  match file with
  | none => .error .failed
  | some file => do
    let lo ← load p file
    let out ← resolveWanted p lo want
    return (lo, out)

/-! ### The walk through the table of `PT_DYNAMIC` -/

theorem PAGE_DOWN_mod (x : UInt32) : (PAGE_DOWN x).toNat % 4096 = 0 := by
  have hand : PAGE_DOWN x &&& 4095 = 0 := by
    rw [PAGE_DOWN, UInt32.and_assoc]
    exact UInt32.and_zero
  have hnat := congrArg UInt32.toNat hand
  rw [UInt32.toNat_and] at hnat
  exact (Nat.and_two_pow_sub_one_eq_mod _ 12).symm.trans hnat

/-- The mapping consists of whole pages, and is not the whole address space. -/
theorem span_le (lo_v hi_v : UInt32) :
    (PAGE_UP hi_v - PAGE_DOWN lo_v).toNat + 8 ≤ 2 ^ 32 := by
  have hlo := PAGE_DOWN_mod lo_v
  have hhi : (PAGE_UP hi_v).toNat % 4096 = 0 := PAGE_DOWN_mod _
  rw [UInt32.toNat_sub]
  omega

/-- The table of `PT_DYNAMIC` without the fuel. -/
theorem dynamicEntries_eq {mem : Window} (hspan : mem.span.toNat + 8 ≤ 2 ^ 32) (dyn : UInt32) :
    dynamicEntries mem dyn = (do
      let d_tag ← mem.read32 dyn
      if d_tag = DT_NULL then return []
      else
        let d_un ← mem.read32 (dyn + 4)
        return (d_tag, d_un) :: (← dynamicEntries mem (dyn + 8))) := by
  rw [dynamicEntries, Window.scan_eq (fun a h => by rw [Window.read32_outside h]; rfl) (by decide)
    hspan]
  cases mem.read32 dyn with
  | error e => rfl
  | ok d_tag =>
    by_cases htag : d_tag = DT_NULL
    · simp only [htag, Except.bind, bind, pure, Except.pure, if_pos]
    · simp only [htag, Except.bind, bind, pure, Except.pure, if_false]
      cases mem.read32 (dyn + 4) with
      | error e => rfl
      | ok d_un => rfl

/-! ### The forwarders of `libface_finder` -/

/-- The names that the forwarders export, and want of the library. -/
def want : List Name :=
  [name "FaceFinder_Init", name "FaceFinder_Function", name "FaceFinder_Finalize"]

/-- The variables of the forwarders. -/
structure Forwarders where
  g_init : UInt32
  g_func : UInt32
  g_fini : UInt32
  g_ready : Bool
  deriving DecidableEq, Repr

/-- `load_real`. -/
def loadReal (p : Process) (file : Option Bytes) : Call Forwarders :=
  match elfloadOpen p file want with
  | .error .undefined => .error .undefined
  | .error .failed => .ok ⟨0, 0, 0, false⟩
  | .ok (lo, addr) =>
    if lo.base = 0 then .ok ⟨0, 0, 0, false⟩
    else .ok ⟨addr.getD 0 0, addr.getD 1 0, addr.getD 2 0, true⟩

/-- What each forwarder calls, when they are ready. -/
def Forwarders.calls (f : Forwarders) : List (Name × UInt32) :=
  if f.g_ready then
    [(name "FaceFinder_Init", f.g_init), (name "FaceFinder_Function", f.g_func),
      (name "FaceFinder_Finalize", f.g_fini)]
  else []

/-! ### What is wanted -/

/-- The symbol number `i` of the library is defined, named `s` and has the value `v`. -/
def HasSymbol (lo : Loaded) (s : Name) (i : ℕ) (v : UInt32) : Prop :=
  (∃ n, lo.st_shndx i = .ok n ∧ n ≠ SHN_UNDEF) ∧ lo.st_value i = .ok v ∧ lo.named i s = .ok true

/-- **An address of the library**: that of a defined symbol named `s`. -/
def Own (lo : Loaded) (s : Name) (a : UInt32) : Prop :=
  ∃ i < lo.nsyms.toNat, ∃ v, HasSymbol lo s i v ∧ a = lo.base + v

/-- **The loader hands out addresses of the library only**, when it does not return null. -/
def OnlyOwn (p : Process) (file : Option Bytes) (want : List Name) : Prop :=
  ∀ lo out, elfloadOpen p file want = .ok (lo, out) → lo.base ≠ 0 →
    List.Forall₂ (Own lo) want out

/-- The library defines the name, with a value; the loader takes no other symbol. -/
def Defines (lo : Loaded) (s : Name) : Prop :=
  ∃ i < lo.nsyms.toNat, ∃ v, v ≠ 0 ∧ HasSymbol lo s i v

/-- The library defines the name, or the process has its symbol of that name at the same place. -/
def Supplies (p : Process) (lo : Loaded) (s : Name) : Prop :=
  Defines lo s ∨ Own lo s (outside p s)

/-- The name is found nowhere. -/
def Nowhere (p : Process) (lo : Loaded) (s : Name) : Prop := ∀ a, resolve p lo s = .ok a → a = 0

/-! ### What the search finds -/

/-- One turn of the search. -/
theorem lookupFrom_succ {lo : Loaded} {s : Name} {n i : ℕ} {r : Option UInt32}
    (h : lo.lookupFrom s (n + 1) i = .ok r) :
    (∃ v, v ≠ 0 ∧ HasSymbol lo s i v ∧ r = some (lo.base + v)) ∨
      (∀ v, HasSymbol lo s i v → v = 0) ∧ lo.lookupFrom s n (i + 1) = .ok r := by
  rw [Loaded.lookupFrom] at h
  obtain ⟨shndx, hshndx, h⟩ := bind_eq_ok.mp h
  split at h
  · rename_i hundef
    refine .inr ⟨?_, h⟩
    rintro v ⟨⟨n, hn, hne⟩, -⟩
    rw [hshndx] at hn
    cases hn
    exact absurd hundef hne
  · rename_i hdef
    obtain ⟨value, hvalue, h⟩ := bind_eq_ok.mp h
    split at h
    · rename_i hzero
      refine .inr ⟨?_, h⟩
      rintro v ⟨-, hv, -⟩
      rw [hvalue] at hv
      cases hv
      exact hzero
    · rename_i hvne
      obtain ⟨named, hnamed, h⟩ := bind_eq_ok.mp h
      cases named with
      | true =>
        cases h
        exact .inl ⟨value, hvne, ⟨⟨shndx, hshndx, hdef⟩, hvalue, hnamed⟩, rfl⟩
      | false =>
        refine .inr ⟨?_, h⟩
        rintro v ⟨-, -, hname⟩
        rw [hnamed] at hname
        cases hname

/-- What is found is a defined symbol. -/
theorem lookupFrom_eq_some {lo : Loaded} {s : Name} {n i : ℕ} {a : UInt32}
    (h : lo.lookupFrom s n i = .ok (some a)) :
    ∃ j < i + n, ∃ v, v ≠ 0 ∧ HasSymbol lo s j v ∧ a = lo.base + v := by
  induction n generalizing i with
  | zero => cases h
  | succ n ih =>
    obtain ⟨v, hv, hsym, ha⟩ | ⟨-, h⟩ := lookupFrom_succ h
    · exact ⟨i, by omega, v, hv, hsym, Option.some.inj ha⟩
    · obtain ⟨j, hj, hsym⟩ := ih h
      exact ⟨j, by omega, hsym⟩

/-- When nothing is found, no defined symbol is named so, or it has no value. -/
theorem lookupFrom_eq_none {lo : Loaded} {s : Name} {n i : ℕ}
    (h : lo.lookupFrom s n i = .ok none) {j : ℕ} (hi : i ≤ j) (hj : j < i + n) {v : UInt32}
    (hsym : HasSymbol lo s j v) : v = 0 := by
  induction n generalizing i with
  | zero => omega
  | succ n ih =>
    obtain ⟨v, -, -, hr⟩ | ⟨hzero, h⟩ := lookupFrom_succ h
    · cases hr
    · rcases Nat.eq_or_lt_of_le hi with rfl | hlt
      · exact hzero v hsym
      · exact ih h hlt (by omega)

theorem lookup_eq_some {lo : Loaded} {s : Name} {a : UInt32} (h : lo.lookup s = .ok (some a)) :
    Defines lo s ∧ Own lo s a := by
  obtain ⟨j, hj, v, hv, hsym, ha⟩ := lookupFrom_eq_some h
  rw [Nat.zero_add] at hj
  exact ⟨⟨j, hj, v, hv, hsym⟩, j, hj, v, hsym, ha⟩

theorem lookup_eq_none {lo : Loaded} {s : Name} (h : lo.lookup s = .ok none) : ¬ Defines lo s := by
  rintro ⟨j, hj, v, hv, hsym⟩
  exact hv (lookupFrom_eq_none h (Nat.zero_le j) (by omega) hsym)

/-- **What a resolved name is**: a symbol of the library, or what the process has when the library
has none. -/
theorem resolve_eq_ok {p : Process} {lo : Loaded} {s : Name} {a : UInt32}
    (h : resolve p lo s = .ok a) :
    Defines lo s ∧ Own lo s a ∨ ¬ Defines lo s ∧ a = outside p s := by
  obtain ⟨r, hr, h⟩ := bind_eq_ok.mp h
  cases r with
  | some b =>
    cases h
    exact .inl (lookup_eq_some hr)
  | none =>
    cases h
    exact .inr ⟨lookup_eq_none hr, rfl⟩

theorem own_iff_supplies {p : Process} {lo : Loaded} {s : Name} {a : UInt32}
    (h : resolve p lo s = .ok a) : Own lo s a ↔ Supplies p lo s := by
  rcases resolve_eq_ok h with ⟨hdef, hown⟩ | ⟨hndef, rfl⟩
  · exact iff_of_true hown (.inl hdef)
  · exact ⟨.inr, fun hs => hs.resolve_left hndef⟩

/-! ### What the loader hands out -/

theorem elfloadOpen_eq_ok {p : Process} {file : Option Bytes} {want : List Name} {lo : Loaded}
    {out : List UInt32} :
    elfloadOpen p file want = .ok (lo, out) ↔
      ∃ d, file = some d ∧ load p d = .ok lo ∧
        List.Forall₂ (fun s a => resolve p lo s = .ok a ∧ a ≠ 0) want out := by
  have hone : ∀ s a, (do
      let a ← resolve p lo s
      if a = 0 then throw .failed
      return a : Call UInt32) = .ok a ↔ resolve p lo s = .ok a ∧ a ≠ 0 := by
    intro s a
    rw [bind_eq_ok]
    constructor
    · rintro ⟨b, hb, h⟩
      split at h
      · cases h
      · cases h
        exact ⟨hb, ‹_›⟩
    · rintro ⟨h, ha⟩
      refine ⟨a, h, ?_⟩
      rw [if_neg ha]
      rfl
  cases file with
  | none => exact iff_of_false (by rintro ⟨⟩) (by rintro ⟨d, ⟨⟩, -⟩)
  | some d =>
    simp only [elfloadOpen, bind_eq_ok]
    constructor
    · rintro ⟨lo', hload, out', hout, h⟩
      cases h
      exact ⟨d, rfl, hload, (mapM_eq_ok.mp hout).imp fun s a h => (hone s a).mp h⟩
    · rintro ⟨d', hd, hload, hout⟩
      cases hd
      exact ⟨lo, hload, out, mapM_eq_ok.mpr (hout.imp fun s a h => (hone s a).mpr h), rfl⟩

/-- **When the loader hands out addresses of the library only**: it supplies each name that is
wanted, or one of them is found nowhere. -/
theorem onlyOwn_iff (p : Process) (file : Option Bytes) (want : List Name) :
    OnlyOwn p file want ↔
      ∀ d, file = some d → ∀ lo, load p d = .ok lo → lo.base ≠ 0 →
        (∀ s ∈ want, Supplies p lo s) ∨ ∃ s ∈ want, Nowhere p lo s := by
  constructor
  · rintro honly d rfl lo hload hbase
    by_cases hno : ∃ s ∈ want, Nowhere p lo s
    · exact .inr hno
    · have hsome : ∀ s ∈ want, ∃ a, resolve p lo s = .ok a ∧ a ≠ 0 := by
        simpa [Nowhere] using hno
      obtain ⟨out, hout⟩ := exists_forall₂_iff.mpr hsome
      have hown := honly lo out (elfloadOpen_eq_ok.mpr ⟨d, rfl, hload, hout⟩) hbase
      have hboth : List.Forall₂ (fun s a => Own lo s a ∧ resolve p lo s = .ok a) want out :=
        List.Forall₂.mp (fun s a h hr => ⟨h, hr.1⟩) hown hout
      refine .inl fun s hs => ?_
      obtain ⟨a, ha, hr⟩ := exists_forall₂_iff.mp ⟨out, hboth⟩ s hs
      exact (own_iff_supplies hr).mp ha
  · intro hcond lo out hopen hbase
    obtain ⟨d, hd, hload, hout⟩ := elfloadOpen_eq_ok.mp hopen
    rcases hcond d hd lo hload hbase with hsup | ⟨s, hs, hno⟩
    · exact ((List.forall₂_and_left want out).mpr ⟨hsup, hout⟩).imp
        fun s a h => (own_iff_supplies h.2.1).mpr h.1
    · obtain ⟨a, hr, ha⟩ := exists_forall₂_iff.mp ⟨out, hout⟩ s hs
      exact absurd (hno a hr) ha

/-! ### The forwarders -/

/-- A forwarder calls something only when the library has been opened, and then what the loader has
handed out for its name. -/
theorem mem_calls {p : Process} {file : Option Bytes} {f : Forwarders} {s : Name} {a : UInt32}
    (h : loadReal p file = .ok f) (hcall : (s, a) ∈ f.calls) :
    ∃ lo out, elfloadOpen p file want = .ok (lo, out) ∧ lo.base ≠ 0 ∧ (s, a) ∈ want.zip out := by
  unfold loadReal at h
  split at h
  · cases h
  · cases h
    cases hcall
  · rename_i lo out hopen
    split at h
    · cases h
      cases hcall
    · rename_i hbase
      obtain ⟨d, -, -, hout⟩ := elfloadOpen_eq_ok.mp hopen
      obtain ⟨a, l, -, h₁, rfl⟩ := List.forall₂_cons_left_iff.mp hout
      obtain ⟨b, l, -, h₂, rfl⟩ := List.forall₂_cons_left_iff.mp h₁
      obtain ⟨c, l, -, h₃, rfl⟩ := List.forall₂_cons_left_iff.mp h₂
      obtain rfl := List.forall₂_nil_left_iff.mp h₃
      cases h
      exact ⟨lo, _, hopen, hbase, hcall⟩

/-- **A forwarder whose function the library lacks** calls what the process has under its name,
which is the forwarder itself when its library has been loaded before. -/
theorem target_of_missing {p : Process} {d : Bytes} {f : Forwarders} {lo : Loaded} {s : Name}
    {a : UInt32} (h : loadReal p (some d) = .ok f) (hload : load p d = .ok lo)
    (hdef : ¬ Defines lo s) (hcall : (s, a) ∈ f.calls) : a = outside p s := by
  obtain ⟨lo', out, hopen, -, hmem⟩ := mem_calls h hcall
  obtain ⟨d', hd, hload', hout⟩ := elfloadOpen_eq_ok.mp hopen
  cases hd
  obtain rfl : lo = lo' := Except.ok.inj (hload.symm.trans hload')
  have hr := (List.forall₂_zip hout hmem).1
  exact ((resolve_eq_ok hr).resolve_left fun h => hdef h.1).2

/-- **No forwarder calls itself** when the loader hands out addresses of the library only, and the
forwarder is no function of the library. -/
theorem target_ne_self {p : Process} {file : Option Bytes} {f : Forwarders} {s : Name}
    {a self : UInt32} (honly : OnlyOwn p file want) (h : loadReal p file = .ok f)
    (hcall : (s, a) ∈ f.calls)
    (hself : ∀ lo out, elfloadOpen p file want = .ok (lo, out) → ¬ Own lo s self) : a ≠ self := by
  obtain ⟨lo, out, hopen, hbase, hmem⟩ := mem_calls h hcall
  rintro rfl
  exact hself lo out hopen (List.forall₂_zip (honly lo out hopen hbase) hmem)

/-! ### A library without the functions -/

/-- A library with an empty symbol table: the header, a segment with everything, the table of
`PT_DYNAMIC`, the hash table, the first symbol, and no strings. -/
def emptyLibrary : Bytes :=
  [0x7f, 0x45, 0x4c, 0x46, 1, 1, 1, 0, 0, 0, 0, 0, 0, 0, 0, 0] ++
    ([3 + 40 * 65536, 1, 0, 52, 0, 0x05000000, 52 + 32 * 65536, 2, 0,
      1, 0, 0, 0, 184, 184, 6, 4096,
      2, 116, 116, 116, 32, 32, 6, 4,
      4, 148, 6, 164, 5, 180, 0, 0,
      1, 1, 0, 0,
      0, 0, 0, 0,
      0] : List ℕ).flatMap packU32

/-- A process in which the forwarders have been loaded. -/
def forwarding : Process where
  mmap _ := some 0x40000000
  mprotect _ _ _ := true
  dlsym s :=
    if s = name "FaceFinder_Init" then 0x10001
    else if s = name "FaceFinder_Function" then 0x10021
    else if s = name "FaceFinder_Finalize" then 0x10041
    else 0
  a1000_cxa_type_match := 0x20001
  a1000_cxa_begin_cleanup := 0x20021
  a1000_cxa_call_unexpected := 0x20041
  call _ mem := some mem

/-- When the library does not define the functions, each forwarder is given its own address. -/
theorem onlyOwn_not_always :
    ¬ ∀ (p : Process) (file : Option Bytes) (want : List Name), OnlyOwn p file want := by
  intro hall
  have hopen : (elfloadOpen forwarding (some emptyLibrary) want).map
      (fun r => (r.1.base, r.1.nsyms, r.1.st_shndx 0, r.2)) =
        .ok (0x40000000, 1, .ok 0, [0x10001, 0x10021, 0x10041]) := by
    decide +kernel
  cases hr : elfloadOpen forwarding (some emptyLibrary) want with
  | error e =>
    rw [hr] at hopen
    cases hopen
  | ok r =>
    rw [hr] at hopen
    obtain ⟨lo, out⟩ := r
    simp only [Except.map, Except.ok.injEq, Prod.mk.injEq] at hopen
    obtain ⟨hbase, hnsyms, hshndx, rfl⟩ := hopen
    have hown := hall _ _ _ lo _ hr (by rw [hbase]; decide)
    obtain ⟨i, hi, v, ⟨⟨n, hn, hne⟩, -⟩, -⟩ := (List.forall₂_cons.mp hown).1
    rw [hnsyms] at hi
    obtain rfl : i = 0 := Nat.lt_one_iff.mp hi
    rw [hshndx] at hn
    cases hn
    exact hne rfl

end Camera

end A1000
